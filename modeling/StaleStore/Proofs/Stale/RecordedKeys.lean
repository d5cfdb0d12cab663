import StaleStore.Proofs.Stale.Failures
import StaleStore.Proofs.Stale.PathListing
import StaleStore.Proofs.Stale.TidyRuns

namespace StaleStore

namespace DelayRecord

structure On (isKey : Text → Prop) (r : DelayRecord) : Prop where
  puts : ∀ {key : Text} {madeAt : Timestamp}, r.puts[key]? = some madeAt → isKey key
  deletes : ∀ {key : Text} {d : DelayedDelete}, r.deletes[key]? = some d → isKey key

variable {isKey : Text → Prop} {r : DelayRecord} {window : Span} {now : Timestamp}

theorem On.of_empty (fresh : r = .empty) : r.On isKey := by
  subst fresh
  constructor
  · intro key madeAt found
    simp [empty] at found
  · intro key d found
    simp [empty] at found

theorem On.purge (on : r.On isKey) : (r.purge window now).On isKey where
  puts := on.puts
  deletes := by
    intro key d found
    rw [purge_deletes, Option.filter_eq_some_iff] at found
    exact on.deletes found.1

theorem On.hidden (on : r.On isKey) {key : Text} (hidden : r.hides window now key = true) : isKey key := by
  unfold hides at hidden
  cases recorded : r.puts[key]? with
  | none =>
    rw [recorded] at hidden
    cases hidden
  | some madeAt => exact on.puts recorded

theorem On.enter {event : DelayEvent} (on : r.On isKey) (own : event.On isKey) : (event.enter r).On isKey := by
  cases event with
  | put key madeAt =>
    refine ⟨fun {other made} found => ?_, on.deletes⟩
    rw [DelayEvent.enter, recordPut_puts] at found
    split at found
    · rename_i same
      exact same ▸ own
    · exact on.puts found
  | delete key madeAt captured =>
    refine ⟨on.puts, fun {other d} found => ?_⟩
    rw [DelayEvent.enter, recordDelete_deletes] at found
    split at found
    · rename_i same
      exact same ▸ own
    · exact on.deletes found
  | cleared => exact .of_empty rfl

end DelayRecord

theorem Call.events_on {now : Timestamp} {c : Call} {s : Stale Memory} {e : DelayEvent}
    (entered : e ∈ Step.events now (.call c) s) : e.On fun key => key ∈ c.keys ∧ s.rules.MayDelay key := by
  cases c with
  | put bucket key data =>
    obtain ⟨events, t, told, member⟩ := Stale.of_mem_eventsOf entered
    obtain ⟨_, u, passed, told⟩ := Action.bind_eq_ok.mp told
    obtain ⟨_, v, stored, told⟩ := Action.bind_eq_ok.mp told
    obtain ⟨delayed, w, chose, told⟩ := Action.bind_eq_ok.mp told
    have kept : Stale.KeepsDelays now s v :=
      (Stale.checkThrottle_keeps.of_eq passed).trans ((Stale.onBackend_keeps _).of_eq stored)
    cases chose
    cases told
    split at member
    · rename_i delayed
      cases List.mem_singleton.mp member
      exact ⟨List.mem_singleton_self key, kept.rules ▸ DelayRules.mayDelay_of_delays delayed⟩
    · cases member
  | delete bucket key =>
    obtain ⟨events, t, told, member⟩ := Stale.of_mem_eventsOf entered
    obtain ⟨_, u, passed, told⟩ := Action.bind_eq_ok.mp told
    obtain ⟨delayed, v, chose, told⟩ := Action.bind_eq_ok.mp told
    have kept : Stale.KeepsDelays now s u := Stale.checkThrottle_keeps.of_eq passed
    cases chose
    split at told
    · rename_i delayed
      obtain ⟨captured, w, -, told⟩ := Action.bind_eq_ok.mp told
      obtain ⟨_, x, -, told⟩ := Action.bind_eq_ok.mp told
      cases told
      cases List.mem_singleton.mp member
      exact ⟨List.mem_singleton_self key, kept.rules ▸ DelayRules.mayDelay_of_delays delayed⟩
    · cases told
      cases member
  | deleteBatch bucket keys =>
    obtain ⟨events, t, told, member⟩ := Stale.of_mem_eventsOf entered
    obtain ⟨_, u, passed, told⟩ := Action.bind_eq_ok.mp told
    obtain ⟨delayed, v, captures, told⟩ := Action.bind_eq_ok.mp told
    obtain ⟨result, w, -, told⟩ := Action.bind_eq_ok.mp told
    have kept : Stale.KeepsDelays now s u := Stale.checkThrottle_keeps.of_eq passed
    cases told
    obtain ⟨⟨key, captured⟩, inside, rfl⟩ := List.mem_map.mp member
    obtain ⟨chosen, -⟩ := Stale.captureAll_chooses u.delay_isNaN_eq_false rfl captures
    have own : key ∈ delayed.map (·.1) := List.mem_map.mpr ⟨_, (List.mem_filter.mp inside).1, rfl⟩
    rw [chosen] at own
    exact ⟨(DelayRules.choose_sublist ..).subset own, kept.rules ▸ DelayRules.mayDelay_of_choose own⟩
  | _ => cases entered

theorem Step.events_on {now : Timestamp} {step : Step} {s : Stale Memory} {e : DelayEvent}
    (entered : e ∈ step.events now s) :
    e.On fun key => (∃ c, step = .call c ∧ key ∈ c.keys) ∧ s.rules.MayDelay key := by
  cases step with
  | call c => exact (Call.events_on entered).imp fun own => ⟨⟨c, rfl, own.1⟩, own.2⟩
  | clear =>
    cases List.mem_singleton.mp entered
    trivial
  | _ => cases entered

theorem Timeline.history_on (timeline : Timeline) (s : Stale Memory) :
    ∀ e ∈ timeline.history s, e.On fun key => timeline.Names key ∧ s.rules.MayDelay key := by
  induction timeline generalizing s with
  | nil => exact nofun
  | cons entry rest ih =>
    obtain ⟨now, step⟩ := entry
    refine List.forall_mem_append.mpr ⟨fun e here => ?_, fun e later => ?_⟩
    · refine (Step.events_on here).imp fun {key} own => ⟨?_, own.2⟩
      obtain ⟨c, rfl, named⟩ := own.1
      exact ⟨now, c, List.mem_cons_self, named⟩
    · have own := ih _ e later
      rw [step.perform_rules] at own
      refine own.imp fun {key} own => ⟨?_, own.2⟩
      obtain ⟨reading, c, member, named⟩ := own.1
      exact ⟨reading, c, List.mem_cons_of_mem _ member, named⟩

namespace Stale

structure Uses (isKey : Text → Prop) (bucket : Text) (s : Stale Memory) : Prop where
  stored : ∀ {key : Text} {object : StoredObject}, s.backend.object? bucket key = some object → isKey key
  recorded : s.delays.On isKey

variable {isKey : Text → Prop} {bucket : Text} {s : Stale Memory} {now : Timestamp}

theorem Uses.perform (uses : s.Uses isKey bucket) {step : Step}
    (own : ∀ c, step = .call c → ∀ key ∈ c.keys, isKey key) : (step.perform now s).2.Uses isKey bucket where
  stored := by
    intro key object found
    have added := @Step.perform_adds bucket key now step s (by simp [found])
    rcases added with before | ⟨c, reply, same, writes, -⟩
    · obtain ⟨old, stored⟩ := Option.isSome_iff_exists.mp before
      exact uses.stored stored
    · exact own c same key (Call.mem_keys_of_writes? writes)
  recorded := by
    refine step.perform_holds (P := fun _ r => r.On isKey) (h := []) DelayRecord.On.purge ?_ uses.recorded
    refine fun entered on => on.enter ((Step.events_on entered).imp fun {key} named => ?_)
    obtain ⟨c, same, named⟩ := named.1
    exact own c same key named

theorem Uses.run (uses : s.Uses isKey bucket) {timeline : Timeline} (named : ∀ key, timeline.Names key → isKey key) :
    (timeline.run s).2.Uses isKey bucket := by
  induction timeline generalizing s with
  | nil => exact uses
  | cons entry rest ih =>
    obtain ⟨reading, step⟩ := entry
    apply ih
    · apply uses.perform
      rintro c rfl key own
      exact named key ⟨reading, c, List.mem_cons_self, own⟩
    · rintro key ⟨now, c, later, own⟩
      exact named key ⟨now, c, List.mem_cons_of_mem _ later, own⟩

theorem Uses.keyed {o : Bucket} (uses : s.Uses Path.IsKey bucket) (named : s.delays.Named)
    (stored : s.backend.buckets[bucket]? = some o) : Keyed bucket o now s where
  stored := stored
  names := by
    intro key object found
    have known : s.backend.object? bucket key = some object := by rw [Memory.object?_of_stored stored, found]
    exact uses.stored known
  hidden := uses.recorded.hidden
  held := by
    intro key summary member
    obtain ⟨d, recorded, -⟩ := DelayRecord.mem_held.mp member
    exact uses.recorded.deletes recorded
  well := named.purge.held_well

end Stale
end StaleStore
