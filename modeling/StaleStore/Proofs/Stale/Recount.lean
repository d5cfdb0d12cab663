import StaleStore.Proofs.Stale.History
import StaleStore.Proofs.Windows

namespace StaleStore

theorem History.entered {P : History → DelayRecord → Prop} {h events : History} {r : DelayRecord}
    (enter : ∀ {h r e}, e ∈ events → P h r → P (h ++ [e]) (e.enter r)) (held : P h r) :
    P (h ++ events) (events.foldl DelayEvent.enter r) := by
  induction events generalizing h r with
  | nil =>
    rw [List.append_nil]
    exact held
  | cons e rest ih =>
    have all := ih (fun later => enter (List.mem_cons_of_mem _ later)) (enter List.mem_cons_self held)
    rw [List.append_assoc, List.singleton_append] at all
    exact all

-- Puts are never dropped. A delete may have been dropped by any listing, also by the one that a later delete makes, but
-- only after it had passed.
structure Recounts (h : History) (window : Span) (now : Timestamp) (r : DelayRecord) : Prop where
  puts : ∀ key : Text, r.puts[key]? = h.lastPut? key
  deletes : ∀ key : Text, r.deletes[key]? = h.lastDelete? key ∨
    r.deletes[key]? = none ∧ ∃ d, h.lastDelete? key = some d ∧ now.hasElapsed d.deletedAt window = true
  named : ∀ {key d x}, h.lastDelete? key = some d → d.summary = some x → x.key = key

namespace Recounts

variable {h : History} {window : Span} {now next : Timestamp} {r : DelayRecord}

theorem start (window : Span) (now : Timestamp) : Recounts [] window now .empty where
  puts _ := Std.ExtTreeMap.getElem?_empty
  deletes _ := Or.inl Std.ExtTreeMap.getElem?_empty
  named := nofun

theorem later (recounts : Recounts h window now r) (order : now.ms ≤ next.ms) : Recounts h window next r where
  puts := recounts.puts
  deletes key := by
    rcases recounts.deletes key with held | ⟨dropped, d, told, passed⟩
    · exact Or.inl held
    · exact Or.inr ⟨dropped, d, told, Timestamp.hasElapsed_mono order passed⟩
  named := recounts.named

theorem purge (recounts : Recounts h window now r) : Recounts h window now (r.purge window now) where
  puts := recounts.puts
  deletes key := by
    rw [DelayRecord.purge_deletes]
    rcases recounts.deletes key with held | ⟨dropped, told⟩
    · rw [held]
      cases told : h.lastDelete? key with
      | none => exact Or.inl rfl
      | some d =>
        cases passed : now.hasElapsed d.deletedAt window with
        | false => simp [passed]
        | true => simp [passed]
    · rw [dropped]
      exact Or.inr ⟨rfl, told⟩
  named := recounts.named

theorem enter {event : DelayEvent} (recounts : Recounts h window now r)
    (named : ∀ {key madeAt x}, event = .delete key madeAt (some x) → x.key = key) :
    Recounts (h ++ [event]) window now (event.enter r) := by
  cases event with
  | put key madeAt =>
    refine ⟨fun other => ?_, fun other => ?_, fun {other d x} => ?_⟩
    · rw [DelayEvent.enter, DelayRecord.recordPut_puts, History.lastPut?_put, recounts.puts]
    · rw [History.lastDelete?_put]
      exact recounts.deletes other
    · rw [History.lastDelete?_put]
      exact recounts.named
  | delete key madeAt captured =>
    refine ⟨fun other => ?_, fun other => ?_, fun {other d x} => ?_⟩
    · rw [History.lastPut?_delete]
      exact recounts.puts other
    · rw [DelayEvent.enter, DelayRecord.recordDelete_deletes, History.lastDelete?_delete]
      by_cases same : key = other
      · rw [if_pos same, if_pos same]
        exact Or.inl rfl
      · rw [if_neg same, if_neg same]
        exact recounts.deletes other
    · rw [History.lastDelete?_delete]
      by_cases same : key = other
      · rw [if_pos same]
        intro told summary
        cases told
        cases summary
        exact (named rfl).trans same
      · rw [if_neg same]
        exact recounts.named
  | cleared =>
    refine ⟨fun other => ?_, fun other => ?_, fun {other d x} => ?_⟩
    · rw [History.lastPut?_cleared]
      exact Std.ExtTreeMap.getElem?_empty
    · rw [History.lastDelete?_cleared]
      exact Or.inl Std.ExtTreeMap.getElem?_empty
    · rw [History.lastDelete?_cleared]
      exact nofun

theorem enterAll {events : History} (recounts : Recounts h window now r)
    (named : ∀ {key madeAt x}, .delete key madeAt (some x) ∈ events → x.key = key) :
    Recounts (h ++ events) window now (events.foldl DelayEvent.enter r) :=
  History.entered (P := (Recounts · window now ·))
    (fun here recounts => recounts.enter fun same => named (same ▸ here)) recounts

theorem hides_eq (recounts : Recounts h window now r) (key : Text) :
    r.hides window now key = (h.lastPut? key).any fun madeAt => !now.hasElapsed madeAt window := by
  rw [DelayRecord.hides, recounts.puts]
  cases h.lastPut? key with
  | none => rfl
  | some madeAt => rw [Option.any_some]

theorem held_eq (recounts : Recounts h window now r) (key : Text) : (r.purge window now).deletes[key]?
    = (h.lastDelete? key).filter fun d => !now.hasElapsed d.deletedAt window := by
  rw [DelayRecord.purge_deletes]
  rcases recounts.deletes key with held | ⟨dropped, d, told, passed⟩
  · rw [held]
  · rw [dropped, told, Option.filter_none, Option.filter_some, passed, Bool.not_true, if_neg Bool.false_ne_true]

end Recounts

namespace Stale

variable {now : Timestamp} {s t : Stale Memory}

theorem listUnchecked_drops (r : ListRequest) (s : Stale Memory) : Drops now s (listUnchecked now r s).2 := by
  cases found : s.backend.buckets[r.bucket]? with
  | none =>
    rw [listUnchecked_of_missing now r found]
    exact .nothing rfl rfl
  | some o =>
    obtain ⟨stats, listed⟩ := listUnchecked_of_stored now r found
    rw [listed]
    exact ⟨rfl, .inr rfl⟩

theorem listTokensUnchecked_drops (r : TokenRequest) (s : Stale Memory) :
    Drops now s (listTokensUnchecked now r s).2 := by
  cases found : s.backend.buckets[r.bucket]? with
  | none =>
    rw [listTokensUnchecked_of_missing now r found]
    exact .nothing rfl rfl
  | some o =>
    obtain ⟨stats, listed⟩ := listTokensUnchecked_of_stored now r found
    rw [listed]
    exact ⟨rfl, .inr rfl⟩

theorem afterThrottle_drops {α : Type} {rest : Action (Stale Memory) α} (drops : ∀ t, Drops now t (rest t).2)
    (s : Stale Memory) : Drops now s ((do checkThrottle; rest) s).2 := by
  rcases afterThrottle_cases rest s with ⟨t, ⟨-, draws, stats, rfl⟩, failed⟩ | ⟨draws, stats, passed⟩
  · rw [failed]
    exact .nothing rfl rfl
  · rw [passed]
    have first : Drops now s { s with draws := draws, stats := stats } := .nothing rfl rfl
    exact first.trans (drops _)

theorem checked_drops {α : Type} (y : Action Memory α) (s : Stale Memory) : Drops now s (checked y s).2 :=
  afterThrottle_drops (onBackend_drops y) s

end Stale

theorem Stale.Enters.mapped {now : Timestamp} {s : Stale Memory} {events : History} {α β : Type}
    {x : Action (Stale Memory) α} (enters : Enters now s (x s).2 events) (f : α → β) :
    Enters now s (x.map f s).2 events := by
  rw [Action.map]
  rcases result : x s with ⟨e | a, t⟩
  · rw [result] at enters
    exact enters
  · rw [result] at enters
    exact enters

theorem Call.perform_enters (now : Timestamp) (c : Call) (s : Stale Memory) :
    Stale.Enters now s (c.perform now s).2 (Step.events now (.call c) s) := by
  cases c with
  | put bucket key data => exact (Stale.put_enters data s).mapped _
  | delete bucket key => exact (Stale.delete_enters s).mapped _
  | deleteBatch bucket keys => exact (Stale.deleteBatch_enters keys s).mapped _
  | list r => exact (Stale.afterThrottle_drops (Stale.listUnchecked_drops r) s).enters.mapped _
  | listTokens r => exact (Stale.afterThrottle_drops (Stale.listTokensUnchecked_drops r) s).enters.mapped _
  | get bucket key => exact (Stale.onBackend_drops _ s).enters.mapped _
  | initiateUpload bucket key => exact (Stale.checked_drops _ s).enters.mapped _
  | uploadPart bucket key uploadId n data => exact (Stale.checked_drops _ s).enters.mapped _
  | completeUpload bucket key uploadId parts => exact (Stale.checked_drops _ s).enters.mapped _
  | abortUpload bucket key uploadId => exact (Stale.onBackend_drops _ s).enters.mapped _
  | listUploads bucket under => exact (Stale.checked_drops _ s).enters.mapped _

-- What dropping keeps, and each event that is entered, holds of the delays after a call.
theorem Stale.Enters.holds {P : History → DelayRecord → Prop} {now : Timestamp} {s t : Stale Memory}
    {h events : History} (enters : Enters now s t events)
    (purge : ∀ {h r}, P h r → P h (r.purge s.rules.window now))
    (enter : ∀ {h r e}, e ∈ events → P h r → P (h ++ [e]) (e.enter r)) (held : P h s.delays) :
    P (h ++ events) t.delays := by
  obtain ⟨base, kept, entered⟩ := enters.delays
  have based : P h base := by
    rcases kept with rfl | rfl
    · exact held
    · exact purge held
  rw [entered]
  exact History.entered enter based

theorem Step.perform_rules (now : Timestamp) (step : Step) (s : Stale Memory) :
    (step.perform now s).2.rules = s.rules := by
  cases step with
  | call c => exact (c.perform_enters now s).rules
  | setThrottleProbability p =>
    rw [perform, Stale.setThrottleProbability]
    cases s.throttle.setProbability p <;> rfl
  | _ => rfl

theorem Timeline.run_rules (timeline : Timeline) (s : Stale Memory) : (timeline.run s).2.rules = s.rules := by
  induction timeline generalizing s with
  | nil => rfl
  | cons entry rest ih => exact (ih _).trans (entry.2.perform_rules entry.1 s)

theorem Step.perform_holds {P : History → DelayRecord → Prop} {h : History} {now : Timestamp} {s : Stale Memory}
    (step : Step) (purge : ∀ {h r}, P h r → P h (r.purge s.rules.window now))
    (enter : ∀ {h r e}, e ∈ step.events now s → P h r → P (h ++ [e]) (e.enter r)) (held : P h s.delays) :
    P (h ++ step.events now s) (step.perform now s).2.delays := by
  have quiet : P (h ++ []) s.delays := (List.append_nil h).symm ▸ held
  cases step with
  | call c => exact (c.perform_enters now s).holds purge enter held
  | clear => exact enter List.mem_cons_self held
  | setThrottleProbability p =>
    rw [perform, Stale.setThrottleProbability]
    cases s.throttle.setProbability p <;> exact quiet
  | createBucket bucket => exact quiet
  | resetStats => exact quiet
  | setFailureLimit limit => exact quiet
  | reorder order => exact quiet

theorem Timeline.run_holds {P : History → DelayRecord → Prop} {h : History} {s : Stale Memory} (timeline : Timeline)
    (purge : ∀ now {h r}, P h r → P h (r.purge s.rules.window now))
    (enter : ∀ {h r e}, e ∈ timeline.history s → P h r → P (h ++ [e]) (e.enter r)) (held : P h s.delays) :
    P (h ++ timeline.history s) (timeline.run s).2.delays := by
  induction timeline generalizing h s with
  | nil =>
    rw [history, List.append_nil]
    exact held
  | cons entry rest ih =>
    obtain ⟨now, step⟩ := entry
    rw [history, ← List.append_assoc]
    apply ih
    · rw [step.perform_rules]
      exact purge
    · exact fun later => enter (List.mem_append_right _ later)
    · exact step.perform_holds (purge now) (fun here => enter (List.mem_append_left _ here)) held

theorem Step.events_named {now : Timestamp} {s : Stale Memory} {step : Step} {key : Text} {madeAt : Timestamp}
    {x : Summary} (entered : .delete key madeAt (some x) ∈ step.events now s) : x.key = key := by
  cases step with
  | call c => exact (c.perform_enters now s).named entered
  | clear => cases List.mem_singleton.mp entered
  | _ => cases entered

theorem Timeline.history_named {timeline : Timeline} {s : Stale Memory} {key : Text} {madeAt : Timestamp} {x : Summary}
    (entered : .delete key madeAt (some x) ∈ timeline.history s) : x.key = key := by
  induction timeline generalizing s with
  | nil => cases entered
  | cons entry rest ih =>
    rcases List.mem_append.mp entered with here | later
    · exact Step.events_named here
    · exact ih later

theorem Step.perform_recounts {h : History} {now : Timestamp} {s : Stale Memory} (step : Step)
    (recounts : Recounts h s.rules.window now s.delays) :
    (step.perform now s).2.rules = s.rules ∧
      Recounts (h ++ step.events now s) s.rules.window now (step.perform now s).2.delays :=
  ⟨step.perform_rules now s, step.perform_holds (P := (Recounts · s.rules.window now ·)) Recounts.purge
    (fun here recounts => recounts.enter fun same => Step.events_named (same ▸ here)) recounts⟩

namespace Timeline

-- The clock never moves backwards, and has come to `now`.
structure Until (timeline : Timeline) (now : Timestamp) : Prop where
  ordered : timeline.Pairwise fun a b => a.1.ms ≤ b.1.ms
  made : ∀ e ∈ timeline, e.1.ms ≤ now.ms

theorem run_recounts {h : History} {timeline : Timeline} {first now : Timestamp} {s : Stale Memory}
    (recounts : Recounts h s.rules.window first s.delays) (after : ∀ e ∈ timeline, first.ms ≤ e.1.ms)
    (begins : first.ms ≤ now.ms) (ends : timeline.Until now) :
    (timeline.run s).2.rules = s.rules ∧
      Recounts (h ++ timeline.history s) s.rules.window now (timeline.run s).2.delays := by
  induction timeline generalizing h first s with
  | nil =>
    rw [history, List.append_nil]
    exact ⟨rfl, recounts.later begins⟩
  | cons entry rest ih =>
    obtain ⟨reading, step⟩ := entry
    obtain ⟨above, ordered⟩ := List.pairwise_cons.mp ends.ordered
    have arrived := recounts.later (after _ List.mem_cons_self)
    obtain ⟨rules, recounted⟩ := step.perform_recounts arrived
    rw [← rules] at recounted
    obtain ⟨sameRules, told⟩ := ih recounted above (ends.made _ List.mem_cons_self)
      ⟨ordered, fun e member => ends.made e (List.mem_cons_of_mem _ member)⟩
    rw [rules, List.append_assoc] at told
    exact ⟨sameRules.trans rules, told⟩

end Timeline
end StaleStore
