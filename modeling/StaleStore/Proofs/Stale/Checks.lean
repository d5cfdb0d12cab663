import StaleStore.Proofs.Stale.Parts

namespace StaleStore

-- Reads of an object and aborts of an upload go to the wrapped store unchecked.
def Call.isChecked : Call → Bool
  | .get .. | .abortUpload .. => false
  | _ => true

namespace Stale

variable {σ α β : Type} {s t u : Stale σ}

def failure? (s : Stale σ) : Option Nat :=
  match (checkThrottle s).1 with
  | .error (.throttled n) => some n
  | _ => none

theorem Passes.failure?_eq (passes : s.Passes) : s.failure? = none := by
  obtain ⟨draws, passed⟩ := passes
  simp only [failure?, passed]

theorem Fails.failure?_eq (fails : s.Fails) : s.failure? = some (s.throttle.count + 1) := by
  obtain ⟨-, draws, failed⟩ := fails
  simp only [failure?, failed]

theorem of_checkThrottle (passed : checkThrottle s = (.ok (), t)) :
    ∃ draws stats, t = { s with draws := draws, stats := stats } := by
  rcases checkThrottle_cases s with ⟨draws, stats, passes⟩ | ⟨-, draws, stats, fails⟩
  · rw [passes] at passed
    cases passed
    exact ⟨draws, stats, rfl⟩
  · rw [fails] at passed
    cases passed

theorem checkThrottle_of_never (never : s.throttle.probability.isNonPositive = true) :
    checkThrottle s = (.ok (), { s with stats := { s.stats with operations := s.stats.operations + 1 } }) := by
  unfold checkThrottle Throttle.check
  simp only [never, if_true]
  rfl

theorem fails_of_always (always : s.throttle.probability = .one) (budget : s.throttle.hasBudget = true) :
    s.Fails := by
  have positive : s.throttle.probability.isNonPositive = false := by
    rw [always]
    rfl
  have odds : DrawStream.Odds.ofProbability s.throttle.probability = .always := by
    rw [always]
    rfl
  refine ⟨budget, s.draws, ?_⟩
  unfold checkThrottle Throttle.check DrawStream.toss
  rw [odds]
  simp only [positive, budget, Bool.false_eq_true, if_false, DrawStream.tossOdds, Bool.and_self, if_true]

def Moves (related : Stale σ → Stale σ → Prop) (x : Action (Stale σ) α) : Prop := ∀ s, related s (x s).2

theorem map_state (f : α → β) (x : Action (Stale σ) α) (s : Stale σ) : (x.map f s).2 = (x s).2 := by
  unfold Action.map
  rcases x s with ⟨e | a, t⟩ <;> rfl

theorem map_error (f : α → β) (x : Action (Stale σ) α) {s t : Stale σ} {e : StoreError} :
    x.map f s = (.error e, t) ↔ x s = (.error e, t) := by
  unfold Action.map
  rcases x s with ⟨e | a, t⟩ <;> simp

theorem map_ok (f : α → β) (x : Action (Stale σ) α) {s t : Stale σ} {b : β} :
    x.map f s = (.ok b, t) ↔ ∃ a, x s = (.ok a, t) ∧ f a = b := by
  unfold Action.map
  rcases x s with ⟨e | a, u⟩
  · simp
  · simp only [Prod.mk.injEq, Except.ok.injEq]
    constructor
    · exact fun done => ⟨a, ⟨rfl, done.2⟩, done.1⟩
    · rintro ⟨_, ⟨rfl, kept⟩, same⟩
      exact ⟨same, kept⟩

theorem map_bind {γ : Type} (g : β → γ) (x : Action (Stale σ) α) (f : α → Action (Stale σ) β) :
    (x >>= f).map g = x >>= fun a => (f a).map g := by
  funext s
  rw [Action.map, Action.bind_apply, Action.bind_apply]
  rcases x s with ⟨e | a, t⟩ <;> rfl

section
variable {related : Stale σ → Stale σ → Prop}

theorem Moves.of_eq {x : Action (Stale σ) α} {s t : Stale σ} {r : Except StoreError α} (moves : Moves related x)
    (result : x s = (r, t)) : related s t := by
  have moved := moves s
  rwa [result] at moved

theorem Moves.map {x : Action (Stale σ) α} (f : α → β) (moves : Moves related x) : Moves related (x.map f) := by
  intro s
  rw [map_state]
  exact moves s

theorem Moves.bind [Trans related related related] {x : Action (Stale σ) α} {f : α → Action (Stale σ) β}
    (first : Moves related x) (rest : ∀ a, Moves related (f a)) : Moves related (x >>= f) := by
  intro s
  rcases result : x s with ⟨e | a, t⟩
  · rw [Action.bind_of_error result]
    exact first.of_eq result
  · rw [Action.bind_of_ok result]
    exact Trans.trans (first.of_eq result) (rest a t)

end

structure SameThrottle (s t : Stale σ) : Prop where
  throttle : t.throttle = s.throttle
  operations : t.stats.operations = s.stats.operations
  throttled : t.stats.throttled = s.stats.throttled

instance : Trans (SameThrottle (σ := σ)) SameThrottle SameThrottle where
  trans first second := ⟨second.throttle.trans first.throttle, second.operations.trans first.operations,
    second.throttled.trans first.throttled⟩

variable (now : Timestamp) (bucket key : Text)

theorem onBackend_moves (x : Action σ α) : Moves SameThrottle (onBackend x) := fun _ => ⟨rfl, rfl, rfl⟩

theorem chooseDelay_moves : Moves (SameThrottle (σ := σ)) (chooseDelay key) := fun _ => ⟨rfl, rfl, rfl⟩

theorem recordDeletes_moves (deletes : List (Text × Option Summary)) :
    Moves (SameThrottle (σ := σ)) (recordDeletes now deletes) := by
  induction deletes with
  | nil => exact fun _ => ⟨rfl, rfl, rfl⟩
  | cons e rest ih => exact Moves.bind (fun _ => ⟨rfl, rfl, rfl⟩) fun _ => ih

theorem overlayRaw_moves (under : Text) (recursive : Bool) (summaries : List Summary) (prefixes : List Text) :
    Moves (SameThrottle (σ := σ)) (overlayRaw now under recursive summaries prefixes) := fun _ => ⟨rfl, rfl, rfl⟩

section
variable [ObjectStore σ]

theorem listUnchecked_moves (r : ListRequest) : Moves (SameThrottle (σ := σ)) (listUnchecked now r) :=
  (onBackend_moves _).bind fun _ => (overlayRaw_moves now _ _ _ _).bind fun _ _ => ⟨rfl, rfl, rfl⟩

theorem listTokensUnchecked_moves (r : TokenRequest) :
    Moves (SameThrottle (σ := σ)) (listTokensUnchecked now r) :=
  (onBackend_moves _).bind fun _ => (overlayRaw_moves now _ _ _ _).bind fun _ _ => ⟨rfl, rfl, rfl⟩

theorem capture_moves : Moves (SameThrottle (σ := σ)) (capture now bucket key) :=
  (listUnchecked_moves now _).bind fun _ _ => ⟨rfl, rfl, rfl⟩

theorem captureAll_moves (keys : List Text) : Moves (SameThrottle (σ := σ)) (captureAll now bucket keys) := by
  induction keys with
  | nil => exact fun _ => ⟨rfl, rfl, rfl⟩
  | cons key rest ih =>
    refine (chooseDelay_moves key).bind fun delayed => ?_
    cases delayed with
    | false => exact ih
    | true => exact (capture_moves now bucket key).bind fun _ => ih.bind fun _ _ => ⟨rfl, rfl, rfl⟩

end
end Stale

namespace Call

open Stale

variable {σ : Type}

def injected? (c : Call) (s : Stale σ) : Option Nat := if c.isChecked then s.failure? else none

theorem injected?_of_never {s : Stale σ} (never : s.throttle.probability.isNonPositive = true) (c : Call) :
    c.injected? s = none := by
  have passes : s.Passes := ⟨s.draws, checkThrottle_of_never never⟩
  rw [injected?, passes.failure?_eq, ite_self]

variable [ObjectStore σ]

theorem perform_of_checked (now : Timestamp) {c : Call} (checked : c.isChecked = true) :
    ∃ rest : Action (Stale σ) Reply, Moves SameThrottle rest ∧
      (c.perform now : Action (Stale σ) Reply) = (do checkThrottle; rest) := by
  cases c with
  | put bucket key data =>
    refine ⟨_, Moves.map _ ?_, map_bind _ _ _⟩
    refine (onBackend_moves _).bind fun etag => (chooseDelay_moves key).bind fun delayed => ?_
    cases delayed <;> exact fun _ => ⟨rfl, rfl, rfl⟩
  | delete bucket key =>
    refine ⟨_, Moves.map _ ?_, map_bind _ _ _⟩
    refine (chooseDelay_moves key).bind fun delayed => ?_
    cases delayed with
    | false => exact onBackend_moves _
    | true =>
      refine (capture_moves now bucket key).bind fun summary => (onBackend_moves _).bind fun _ => ?_
      exact fun _ => ⟨rfl, rfl, rfl⟩
  | deleteBatch bucket keys =>
    refine ⟨_, Moves.map _ ?_, map_bind _ _ _⟩
    refine (captureAll_moves now bucket keys).bind fun delayed => (onBackend_moves _).bind fun result => ?_
    exact (recordDeletes_moves now _).bind fun _ _ => ⟨rfl, rfl, rfl⟩
  | list r => exact ⟨_, Moves.map _ (listUnchecked_moves now r), map_bind _ _ _⟩
  | listTokens r => exact ⟨_, Moves.map _ (listTokensUnchecked_moves now r), map_bind _ _ _⟩
  | initiateUpload bucket key => exact ⟨_, Moves.map _ (onBackend_moves _), map_bind _ _ _⟩
  | uploadPart bucket key uploadId n data => exact ⟨_, Moves.map _ (onBackend_moves _), map_bind _ _ _⟩
  | completeUpload bucket key uploadId parts => exact ⟨_, Moves.map _ (onBackend_moves _), map_bind _ _ _⟩
  | listUploads bucket under => exact ⟨_, Moves.map _ (onBackend_moves _), map_bind _ _ _⟩
  | get bucket key => cases checked
  | abortUpload bucket key uploadId => cases checked

theorem perform_of_unchecked (now : Timestamp) {c : Call} (unchecked : c.isChecked = false) :
    (c.perform now : Action (Stale σ) Reply) = onBackend (c.perform now) := by
  funext s
  cases c with
  | get bucket key =>
    simp only [perform, Action.map, onBackend, Action.onPart, ObjectStore.get]
    rcases ObjectStore.get now bucket key s.backend with ⟨e | a, b⟩ <;> rfl
  | abortUpload bucket key uploadId =>
    simp only [perform, Action.map, onBackend, Action.onPart, ObjectStore.abortUpload]
    rcases ObjectStore.abortUpload now bucket key uploadId s.backend with ⟨e | a, b⟩ <;> rfl
  | _ => cases unchecked

theorem perform_of_injected (now : Timestamp) {c : Call} {s : Stale σ} {n : Nat}
    (injected : c.injected? s = some n) :
    c.isChecked = true ∧ s.Fails ∧ n = s.throttle.count + 1 ∧
      c.perform now s = (.error (.throttled n), (checkThrottle s).2) := by
  unfold injected? at injected
  split at injected
  · rename_i checked
    rcases passes_or_fails s with passes | fails
    · rw [passes.failure?_eq] at injected
      cases injected
    · rw [fails.failure?_eq] at injected
      cases injected
      obtain ⟨rest, -, split⟩ := perform_of_checked (σ := σ) now checked
      obtain ⟨budget, draws, failed⟩ := fails
      refine ⟨checked, ⟨budget, draws, failed⟩, rfl, ?_⟩
      rw [split, Action.bind_of_error failed, failed]
  · cases injected

theorem perform_of_not_injected (now : Timestamp) {c : Call} {s : Stale σ} (passes : c.injected? s = none) :
    (c.perform now s).2.throttle = s.throttle ∧
      (c.perform now s).2.stats.throttled = s.stats.throttled ∧
      (c.perform now s).2.stats.operations = s.stats.operations + if c.isChecked then 1 else 0 := by
  cases checked : c.isChecked with
  | false =>
    rw [perform_of_unchecked now checked]
    exact ⟨rfl, rfl, rfl⟩
  | true =>
    rw [injected?, checked, if_pos rfl] at passes
    rcases passes_or_fails s with ⟨draws, passed⟩ | fails
    · obtain ⟨rest, moves, split⟩ := perform_of_checked (σ := σ) now checked
      rw [split, Action.bind_of_ok passed]
      have same := moves { s with
        draws := draws
        stats := { s.stats with operations := s.stats.operations + 1 } }
      exact ⟨same.throttle, same.throttled, same.operations⟩
    · rw [fails.failure?_eq] at passes
      cases passes

end Call
end StaleStore
