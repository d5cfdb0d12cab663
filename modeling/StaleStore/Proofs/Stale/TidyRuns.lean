import StaleStore.Proofs.Stale.DirectoryListing
import StaleStore.Proofs.Store.Contents

namespace StaleStore

namespace Step

def IsTidy (bucket : Text) : Step → Prop
  | call c => c.bucket = bucket ∧ ∀ key ∈ c.keys, Path.IsKey key
  | setThrottleProbability p => p.IsProbability → p.isNonPositive = true
  | _ => True

def NeverThrottles : Step → Prop
  | setThrottleProbability p => p.IsProbability → p.isNonPositive = true
  | _ => True

theorem IsTidy.neverThrottles {bucket : Text} {step : Step} (tidy : step.IsTidy bucket) : step.NeverThrottles := by
  cases step with
  | setThrottleProbability p => exact tidy
  | _ => trivial

def Stores (bucket key : Text) (now : Timestamp) (step : Step) (s : Stale Memory) : Prop :=
  ∃ c reply, step = call c ∧ c.writes? = some (bucket, key) ∧ (step.perform now s).1 = .replied (.ok reply)

theorem perform_adds {bucket key : Text} (now : Timestamp) (step : Step) (s : Stale Memory)
    (there : ((step.perform now s).2.backend.object? bucket key).isSome = true) :
    (s.backend.object? bucket key).isSome = true ∨ step.Stores bucket key now s := by
  rcases step.perform_agrees now s with ⟨-, kept⟩ | ⟨-, agrees, plain⟩
  · rw [kept] at there
    exact Or.inl there
  · rw [plain] at there
    cases step with
    | call c =>
      refine (c.perform_adds now s.backend there).imp_right fun added => ?_
      obtain ⟨writes, reply, stored⟩ := added
      have outcome : (performPlain now (call c) s.backend).1 = .replied (.ok reply) := congrArg _ stored
      rw [outcome] at agrees
      generalize result : (perform now (call c) s).1 = r at agrees
      cases agrees with
      | reply => exact ⟨c, _, rfl, writes, result⟩
    | createBucket other =>
      rw [performPlain, Memory.object?_createBucket] at there
      exact Or.inl there
    | clear => exact Or.inl there
    | resetStats => exact Or.inl there
    | setFailureLimit limit => exact Or.inl there
    | setThrottleProbability p => exact Or.inl there
    | reorder order => exact Or.inl there

end Step

namespace Stale

variable {bucket key : Text} {o : Bucket} {window : UInt64} {h : History} {now : Timestamp} {s : Stale Memory}

theorem of_mem_eventsOf {x : Action (Stale Memory) History} {e : DelayEvent} (member : e ∈ eventsOf x s) :
    ∃ events t, x s = (.ok events, t) ∧ e ∈ events := by
  unfold eventsOf at member
  rcases result : x s with ⟨error | events, t⟩
  · rw [result] at member
    cases member
  · rw [result] at member
    exact ⟨events, t, rfl, member⟩

theorem mem_putEvents {data : Bytes} {e : DelayEvent} (member : e ∈ eventsOf (putEvents now bucket key data) s) :
    e = .put key now := by
  obtain ⟨events, t, told, member⟩ := of_mem_eventsOf member
  obtain ⟨-, u, -, told⟩ := Action.bind_eq_ok.mp told
  obtain ⟨-, v, -, told⟩ := Action.bind_eq_ok.mp told
  obtain ⟨delayed, w, -, told⟩ := Action.bind_eq_ok.mp told
  cases told
  cases delayed with
  | false => cases member
  | true => exact List.mem_singleton.mp member

-- What is captured on the way is what would be captured before the call.
theorem mem_deleteEvents {e : DelayEvent} (stored : s.backend.buckets[bucket]? = some o)
    (member : e ∈ eventsOf (deleteEvents now bucket key) s) : e = .delete key now (s.captured now bucket key o) := by
  obtain ⟨events, t, told, member⟩ := of_mem_eventsOf member
  obtain ⟨_, u, passed, told⟩ := Action.bind_eq_ok.mp told
  obtain ⟨draws, stats, rfl⟩ := of_checkThrottle passed
  obtain ⟨delayed, v, chose, told⟩ := Action.bind_eq_ok.mp told
  cases chose
  split at told
  · obtain ⟨captured, w, captures, told⟩ := Action.bind_eq_ok.mp told
    obtain ⟨-, x, -, told⟩ := Action.bind_eq_ok.mp told
    cases told
    obtain ⟨stats', captures'⟩ := capture_of_stored now bucket key (s := { s with draws := _, stats := stats }) stored
    rw [captures'] at captures
    cases captures
    exact List.mem_singleton.mp member
  · cases told
    cases member

theorem mem_deleteBatchEvents {keys : List Text} {e : DelayEvent} (stored : s.backend.buckets[bucket]? = some o)
    (member : e ∈ eventsOf (deleteBatchEvents now bucket keys) s) :
    ∃ k ∈ keys, e = .delete k now (s.captured now bucket k o) := by
  obtain ⟨events, t, told, member⟩ := of_mem_eventsOf member
  obtain ⟨_, u, passed, told⟩ := Action.bind_eq_ok.mp told
  obtain ⟨draws, stats, rfl⟩ := of_checkThrottle passed
  obtain ⟨delayed, v, captures, told⟩ := Action.bind_eq_ok.mp told
  obtain ⟨result, w, -, told⟩ := Action.bind_eq_ok.mp told
  cases told
  obtain ⟨⟨k, captured⟩, inside, rfl⟩ := List.mem_map.mp member
  obtain ⟨delays, stats', -, captures'⟩ := captureAll_of_stored now bucket
    (s := { s with draws := draws, stats := stats }) keys stored
  rw [captures'] at captures
  cases captures
  obtain ⟨k', chose, same⟩ := List.mem_map.mp (List.mem_filter.mp inside).1
  cases same
  exact ⟨k, (DelayRules.choose_sublist ..).subset chose, rfl⟩

-- An orderly store that never throttles and delays whatever it may: what a call does there depends on no draw.
structure Steady (bucket : Text) (o : Bucket) (window : UInt64) (h : History) (now : Timestamp) (s : Stale Memory) :
    Prop extends Orderly bucket o window h now s where
  never : s.throttle.probability.isNonPositive = true
  certain : s.rules.probability = .one

namespace Steady

theorem later {next : Timestamp} (steady : Steady bucket o window h now s) (order : now.ms ≤ next.ms) :
    Steady bucket o window h next s where
  toOrderly := steady.toOrderly.later order
  never := steady.never
  certain := steady.certain

theorem ask {q : Query} (steady : Steady bucket o window h now s) (asked : q.bucket = bucket) :
    ∃ t, q.ask now s = (.ok (q.laid now s (q.page o)), t) ∧ t.rules = s.rules ∧ Steady bucket o window h now t := by
  obtain ⟨stats, answered⟩ := Query.ask_of_stored now steady.never (asked ▸ steady.stored)
  refine ⟨_, answered, rfl, { steady with recounts := ?_ }⟩
  rw [steady.window_eq]
  exact steady.recounts.purge

end Steady
end Stale

namespace Step

variable {bucket key : Text} {o : Bucket} {window : UInt64} {h : History} {now : Timestamp} {s : Stale Memory}
  {step : Step}

inductive MayEnter (bucket : Text) (o : Bucket) (now : Timestamp) (s : Stale Memory) : Step → DelayEvent → Prop where
  | put {c key} : key ∈ c.keys → MayEnter bucket o now s (call c) (.put key now)
  | delete {c key} : key ∈ c.keys →
      MayEnter bucket o now s (call c) (.delete key now (s.captured now bucket key o))
  | cleared : MayEnter bucket o now s clear .cleared

theorem mayEnter_of_mem {e : DelayEvent} (stored : s.backend.buckets[bucket]? = some o)
    (tidy : step.IsTidy bucket) (member : e ∈ step.events now s) : step.MayEnter bucket o now s e := by
  cases step with
  | call c =>
    cases c with
    | put b k data =>
      cases Stale.mem_putEvents member
      exact .put (List.mem_singleton_self k)
    | delete b k =>
      obtain rfl : b = bucket := tidy.1
      cases Stale.mem_deleteEvents stored member
      exact .delete (List.mem_singleton_self k)
    | deleteBatch b ks =>
      obtain rfl : b = bucket := tidy.1
      obtain ⟨k, inside, rfl⟩ := Stale.mem_deleteBatchEvents stored member
      exact .delete inside
    | _ => cases member
  | clear =>
    cases List.mem_singleton.mp member
    exact .cleared
  | _ => cases member

theorem perform_never (never : s.throttle.probability.isNonPositive = true) (quiet : step.NeverThrottles) :
    (step.perform now s).2.throttle.probability.isNonPositive = true := by
  cases step with
  | call c =>
    have kept := (Call.perform_of_not_injected now (c.injected?_of_never never)).1
    rw [perform, kept]
    exact never
  | setThrottleProbability p =>
    rw [perform, Stale.setThrottleProbability, Throttle.setProbability]
    by_cases accepted : p.IsProbability
    · rw [dif_pos accepted]
      exact quiet accepted
    · rw [dif_neg accepted]
      exact never
  | createBucket other => exact never
  | clear => exact never
  | resetStats => exact never
  | setFailureLimit limit => exact never
  | reorder order => exact never

theorem perform_steady (steady : Stale.Steady bucket o window h now s) (tidy : step.IsTidy bucket) :
    ∃ o', Stale.Steady bucket o' window (h ++ step.events now s) now (step.perform now s).2 ∧
      ∀ key, o[key]? = none → ¬ step.Stores bucket key now s → o'[key]? = none := by
  have there : bucket ∈ (step.perform now s).2.backend.buckets := by
    apply step.perform_keeps
    exact Memory.mem_buckets_of_stored steady.stored
  have stored := Std.ExtTreeMap.getElem?_eq_some_getElem there
  have recounts := steady.recounts
  rw [← steady.window_eq] at recounts
  obtain ⟨rules, recounted⟩ := step.perform_recounts recounts
  rw [steady.window_eq] at recounted
  have added : ∀ {key object}, (step.perform now s).2.backend.buckets[bucket][key]? = some object →
      (∃ before, o[key]? = some before) ∨ step.Stores bucket key now s := by
    intro key object found
    have adds := @perform_adds bucket key now step s
    rw [Memory.object?_of_stored stored, Memory.object?_of_stored steady.stored] at adds
    rw [← Option.isSome_iff_exists]
    exact adds (by simp [found])
  refine ⟨_, ⟨⟨stored, ?_, rules ▸ steady.window_eq, recounted, ?_⟩, perform_never steady.never tidy.neverThrottles,
    rules ▸ steady.certain⟩, ?_⟩
  · intro key object found
    rcases added found with ⟨before, found⟩ | ⟨c, reply, rfl, writes, -⟩
    · exact steady.names found
    · exact tidy.2 key (Call.mem_keys_of_writes? writes)
  · refine List.forall_mem_append.mpr ⟨steady.told, ?_⟩
    intro e entered
    cases mayEnter_of_mem steady.stored tidy entered with
    | put own => exact tidy.2 _ own
    | delete own => exact tidy.2 _ own
    | cleared => trivial
  · intro key missing spares
    cases found : (step.perform now s).2.backend.buckets[bucket][key]? with
    | none => rfl
    | some object =>
      rcases added found with ⟨before, found⟩ | stores
      · rw [missing] at found
        cases found
      · exact absurd stores spares

end Step

namespace Timeline

def IsTidy (bucket : Text) (timeline : Timeline) : Prop := ∀ e ∈ timeline, e.2.IsTidy bucket

def Names (timeline : Timeline) (key : Text) : Prop := ∃ now c, (now, .call c) ∈ timeline ∧ key ∈ c.keys

def Clears (timeline : Timeline) : Prop := ∃ now, (now, .clear) ∈ timeline

def Spares (bucket key : Text) : Timeline → Stale Memory → Prop
  | [], _ => True
  | (now, step) :: rest, s => ¬ step.Stores bucket key now s ∧ Spares bucket key rest (step.perform now s).2

theorem spares_of_unnamed {bucket key : Text} {timeline : Timeline} (unnamed : ¬ timeline.Names key)
    (s : Stale Memory) : timeline.Spares bucket key s := by
  induction timeline generalizing s with
  | nil => trivial
  | cons entry rest ih =>
    constructor
    · rintro ⟨c, reply, same, writes, -⟩
      refine unnamed ⟨entry.1, c, ?_, Call.mem_keys_of_writes? writes⟩
      rw [← same]
      exact List.mem_cons_self
    · apply ih
      rintro ⟨now, c, member, own⟩
      exact unnamed ⟨now, c, List.mem_cons_of_mem _ member, own⟩

def MayEnter (timeline : Timeline) (key : Text) : DelayEvent → Prop
  | .put other _ => timeline.Names other
  | .delete other _ captured => timeline.Names other ∧ (other = key → captured = none)
  | .cleared => timeline.Clears

theorem MayEnter.later {timeline : Timeline} {key : Text} {e : DelayEvent} (entry : Timestamp × Step)
    (enters : timeline.MayEnter key e) : MayEnter (entry :: timeline) key e := by
  have names : ∀ {other}, timeline.Names other → Names (entry :: timeline) other := by
    rintro other ⟨now, c, member, own⟩
    exact ⟨now, c, List.mem_cons_of_mem _ member, own⟩
  cases e with
  | put other madeAt => exact names enters
  | delete other madeAt captured => exact ⟨names enters.1, enters.2⟩
  | cleared =>
    obtain ⟨now, member⟩ := enters
    exact ⟨now, List.mem_cons_of_mem _ member⟩

theorem run_steady {bucket : Text} {o : Bucket} {window : UInt64} {h : History} {timeline : Timeline}
    {first now : Timestamp} {s : Stale Memory} (steady : Stale.Steady bucket o window h first s)
    (tidy : timeline.IsTidy bucket) (after : ∀ e ∈ timeline, first.ms ≤ e.1.ms) (begins : first.ms ≤ now.ms)
    (ends : timeline.Until now) :
    ∃ o', Stale.Steady bucket o' window (h ++ timeline.history s) now (timeline.run s).2 ∧
      ∀ key, o[key]? = none → timeline.Spares bucket key s →
        o'[key]? = none ∧ ∀ e ∈ timeline.history s, timeline.MayEnter key e := by
  induction timeline generalizing h first s o with
  | nil =>
    refine ⟨o, ?_, fun key missing _ => ⟨missing, nofun⟩⟩
    rw [history, List.append_nil]
    exact steady.later begins
  | cons entry rest ih =>
    obtain ⟨reading, step⟩ := entry
    obtain ⟨above, ordered⟩ := List.pairwise_cons.mp ends.ordered
    have arrived := steady.later (after _ List.mem_cons_self)
    obtain ⟨o₁, stepped, stays⟩ := step.perform_steady arrived (tidy _ List.mem_cons_self)
    obtain ⟨o₂, finished, staysOn⟩ := ih stepped (fun e member => tidy e (List.mem_cons_of_mem _ member)) above
      (ends.made _ List.mem_cons_self) ⟨ordered, fun e member => ends.made e (List.mem_cons_of_mem _ member)⟩
    rw [List.append_assoc] at finished
    refine ⟨o₂, finished, ?_⟩
    intro key missing spares
    obtain ⟨missingLater, entered⟩ := staysOn key (stays key missing spares.1) spares.2
    refine ⟨missingLater, ?_⟩
    intro e member
    rcases List.mem_append.mp member with here | later
    · cases step.mayEnter_of_mem arrived.stored (tidy _ List.mem_cons_self) here with
      | put own => exact ⟨reading, _, List.mem_cons_self, own⟩
      | delete own =>
        refine ⟨⟨reading, _, List.mem_cons_self, own⟩, ?_⟩
        rintro rfl
        rw [arrived.captured_eq ((tidy _ List.mem_cons_self).2 _ own)]
        exact History.live?_of_missing missing
      | cleared => exact ⟨reading, List.mem_cons_self⟩
    · exact (entered e later).later _

end Timeline
end StaleStore
