import StaleStore.Proofs.Stale.Recount
import StaleStore.Proofs.Windows

namespace StaleStore

namespace DelayRecord

variable {window : Span} {now next : Timestamp} {r q : DelayRecord}

theorem purge_later (order : now.ms ≤ next.ms) :
    (r.purge window now).purge window next = r.purge window next := by
  refine ext_lookup (fun _ => rfl) fun key => ?_
  rw [purge_deletes, purge_deletes, purge_deletes, Option.filter_filter]
  refine congrArg (Option.filter · _) (funext fun d => ?_)
  cases elapsed : now.hasElapsed d.deletedAt window with
  | false => simp
  | true => simp [Timestamp.hasElapsed_mono order elapsed]

theorem recordPut_congr (same : q.purge window next = r.purge window next) (key : Text) :
    (q.recordPut now key).purge window next = (r.recordPut now key).purge window next :=
  congrArg (recordPut now key) same

theorem recordDelete_congr (same : q.purge window next = r.purge window next) (key : Text)
    (summary : Option Summary) :
    (q.recordDelete now key summary).purge window next = (r.recordDelete now key summary).purge window next := by
  refine ext_lookup (fun other => congrArg (·.puts[other]?) same) fun other => ?_
  have before := congrArg (·.deletes[other]?) same
  rw [purge_deletes, purge_deletes] at before
  rw [purge_deletes, purge_deletes, recordDelete_deletes, recordDelete_deletes]
  by_cases own : key = other
  · rw [if_pos own, if_pos own]
  · rw [if_neg own, if_neg own]
    exact before

end DelayRecord

namespace Stale

variable {σ α β : Type} {now next : Timestamp} {s t u : Stale σ}

-- At the reading the stores have the same deletes that have not passed. They may differ in others, which only one of
-- them has dropped: what a call drops at a reading neither has at a later one.
def Alike (now : Timestamp) (s t : Stale σ) : Prop :=
  ∃ delays stats, t = { s with delays := delays, stats := stats } ∧
    delays.purge s.rules.window now = s.delays.purge s.rules.window now

theorem Alike.refl (s : Stale σ) : Alike now s s := ⟨s.delays, s.stats, rfl, rfl⟩

theorem Alike.symm (alike : Alike now s t) : Alike now t s := by
  obtain ⟨delays, stats, rfl, same⟩ := alike
  exact ⟨s.delays, s.stats, rfl, same.symm⟩

theorem Alike.trans (first : Alike now s t) (second : Alike now t u) : Alike now s u := by
  obtain ⟨delays, stats, rfl, same⟩ := first
  obtain ⟨delays', stats', rfl, same'⟩ := second
  exact ⟨delays', stats', rfl, same'.trans same⟩

theorem Alike.later (alike : Alike now s t) (order : now.ms ≤ next.ms) : Alike next s t := by
  obtain ⟨delays, stats, rfl, same⟩ := alike
  refine ⟨delays, stats, rfl, ?_⟩
  rw [← DelayRecord.purge_later order, same, DelayRecord.purge_later order]

theorem Alike.rules (alike : Alike now s t) : t.rules = s.rules := by
  obtain ⟨delays, stats, rfl, -⟩ := alike
  rfl

theorem Alike.throttle (alike : Alike now s t) : t.throttle = s.throttle := by
  obtain ⟨delays, stats, rfl, -⟩ := alike
  rfl

theorem Alike.backend (alike : Alike now s t) : t.backend = s.backend := by
  obtain ⟨delays, stats, rfl, -⟩ := alike
  rfl

structure Agree (now : Timestamp) (s t : Stale σ) : Prop where
  backend : t.backend = s.backend
  draws : t.draws = s.draws
  puts : t.delays.puts = s.delays.puts
  deletes : t.delays.purge s.rules.window now = s.delays.purge s.rules.window now

theorem Alike.agree (alike : Alike now s t) : Agree now s t := by
  obtain ⟨delays, stats, rfl, same⟩ := alike
  exact ⟨rfl, rfl, congrArg (·.puts) same, same⟩

def Respects (now : Timestamp) (x : Action (Stale σ) α) : Prop :=
  ∀ s t, Alike now s t → (x t).1 = (x s).1 ∧ Alike now (x s).2 (x t).2

theorem Respects.pure (a : α) : Respects now (pure a : Action (Stale σ) α) := fun _ _ alike => ⟨rfl, alike⟩

theorem Respects.bind {x : Action (Stale σ) α} {f : α → Action (Stale σ) β} (first : Respects now x)
    (rest : ∀ a, Respects now (f a)) : Respects now (x >>= f) := by
  intro s t alike
  obtain ⟨same, left⟩ := first s t alike
  rcases result : x s with ⟨e | a, s'⟩ <;> rcases result' : x t with ⟨e' | a', t'⟩ <;>
    rw [result, result'] at same left <;> cases same
  · rw [Action.bind_of_error result, Action.bind_of_error result']
    exact ⟨rfl, left⟩
  · rw [Action.bind_of_ok result, Action.bind_of_ok result']
    exact rest a s' t' left

theorem Respects.map {x : Action (Stale σ) α} (f : α → β) (respects : Respects now x) : Respects now (x.map f) :=
  respects.bind fun _ => .pure _

theorem Respects.checkThrottle : Respects (σ := σ) now checkThrottle := by
  rintro s t ⟨delays, stats, rfl, same⟩
  exact ⟨rfl, delays, _, rfl, same⟩

theorem Respects.onBackend (y : Action σ α) : Respects now (onBackend y) := by
  rintro s t ⟨delays, stats, rfl, same⟩
  exact ⟨rfl, delays, stats, rfl, same⟩

theorem Respects.checked (y : Action σ α) : Respects now (checked y) :=
  Respects.checkThrottle.bind fun _ => .onBackend y

theorem Respects.chooseDelay (key : Text) : Respects (σ := σ) now (chooseDelay key) := by
  rintro s t ⟨delays, stats, rfl, same⟩
  exact ⟨rfl, delays, stats, rfl, same⟩

theorem Respects.recordPut (key : Text) : Respects (σ := σ) now (recordPut now key) := by
  rintro s t ⟨delays, stats, rfl, same⟩
  exact ⟨rfl, _, _, rfl, DelayRecord.recordPut_congr same key⟩

theorem Respects.recordDelete (key : Text) (summary : Option Summary) :
    Respects (σ := σ) now (recordDelete now key summary) := by
  rintro s t ⟨delays, stats, rfl, same⟩
  exact ⟨rfl, _, _, rfl, DelayRecord.recordDelete_congr same key summary⟩

theorem Respects.recordDeletes (deletes : List (Text × Option Summary)) :
    Respects (σ := σ) now (recordDeletes now deletes) := by
  induction deletes with
  | nil => exact .pure ()
  | cons e rest ih => exact (Respects.recordDelete e.1 e.2).bind fun _ => ih

theorem Respects.overlayRaw (under : Text) (recursive : Bool) (summaries : List Summary)
    (commonPrefixes : List Text) :
    Respects (σ := σ) now (overlayRaw now under recursive summaries commonPrefixes) := by
  intro s t alike
  obtain ⟨delays, stats, rfl, same⟩ := alike
  refine ⟨?_, _, _, rfl, ?_⟩
  · exact congrArg Except.ok (overlaid_congr now (s := s) (t := { s with delays := delays, stats := stats }) rfl rfl same
      under recursive summaries commonPrefixes)
  · show (delays.purge _ _).purge _ _ = (s.delays.purge _ _).purge _ _
    rw [same]

section
variable [ObjectStore σ]

theorem Respects.listUnchecked (r : ListRequest) : Respects (σ := σ) now (listUnchecked now r) :=
  (Respects.onBackend _).bind fun _ => (Respects.overlayRaw _ _ _ _).bind fun _ => .pure _

theorem Respects.listTokensUnchecked (r : TokenRequest) : Respects (σ := σ) now (listTokensUnchecked now r) :=
  (Respects.onBackend _).bind fun _ => (Respects.overlayRaw _ _ _ _).bind fun _ => .pure _

theorem Respects.capture (bucket key : Text) : Respects (σ := σ) now (capture now bucket key) :=
  (Respects.listUnchecked _).bind fun _ => .pure _

theorem Respects.captureAll (bucket : Text) (keys : List Text) :
    Respects (σ := σ) now (captureAll now bucket keys) := by
  induction keys with
  | nil => exact .pure []
  | cons key rest ih =>
    refine (Respects.chooseDelay key).bind fun delayed => ?_
    cases delayed with
    | false => exact ih
    | true => exact (Respects.capture bucket key).bind fun _ => ih.bind fun _ => .pure _

theorem Respects.perform (c : Call) : Respects (σ := σ) now (c.perform now) := by
  cases c with
  | put bucket key data =>
    refine .map _ (Respects.checkThrottle.bind fun _ => (Respects.onBackend _).bind fun etag => ?_)
    refine (Respects.chooseDelay key).bind fun delayed => ?_
    cases delayed with
    | false => exact .pure etag
    | true => exact (Respects.recordPut key).bind fun _ => .pure etag
  | delete bucket key =>
    refine .map _ (Respects.checkThrottle.bind fun _ => (Respects.chooseDelay key).bind fun delayed => ?_)
    cases delayed with
    | false => exact .onBackend _
    | true =>
      refine (Respects.capture bucket key).bind fun summary => (Respects.onBackend _).bind fun _ => ?_
      exact .recordDelete key summary
  | deleteBatch bucket keys =>
    refine .map _ (Respects.checkThrottle.bind fun _ => (Respects.captureAll bucket keys).bind fun delayed => ?_)
    exact (Respects.onBackend _).bind fun result => (Respects.recordDeletes _).bind fun _ => .pure result
  | list r => exact .map _ (Respects.checkThrottle.bind fun _ => .listUnchecked r)
  | listTokens r => exact .map _ (Respects.checkThrottle.bind fun _ => .listTokensUnchecked r)
  | get bucket key => exact .map _ (.onBackend _)
  | initiateUpload bucket key => exact .map _ (.checked _)
  | uploadPart bucket key uploadId n data => exact .map _ (.checked _)
  | completeUpload bucket key uploadId parts => exact .map _ (.checked _)
  | abortUpload bucket key uploadId => exact .map _ (.onBackend _)
  | listUploads bucket under => exact .map _ (.checked _)

end
end Stale
end StaleStore
