import Mathlib.Data.List.Forall2
import StaleStore.Proofs.Stale.Alike
import StaleStore.Proofs.Stale.RecordedKeys
import StaleStore.Proofs.Stale.Reordering

namespace StaleStore

namespace Stale

variable {α : Type} {now : Timestamp} {s t : Stale Memory}

instance {σ : Type} : Trans (Alike (σ := σ) now) (Alike now) (Alike now) where
  trans := Alike.trans

theorem onBackend_alike {y : Action Memory α} (reads : Memory.Reads y) : Moves (Alike now) (onBackend y) := by
  intro s
  refine ⟨s.delays, s.stats, ?_, rfl⟩
  show { s with backend := (y s.backend).2 } = s
  rw [reads]

theorem overlayRaw_alike (under : Text) (recursive : Bool) (summaries : List Summary) (commonPrefixes : List Text) :
    Moves (Alike (σ := Memory) now) (overlayRaw now under recursive summaries commonPrefixes) :=
  fun _ => ⟨_, _, rfl, DelayRecord.purge_purge _ _ _⟩

theorem pure_alike (a : α) : Moves (Alike (σ := Memory) now) (pure a) := fun s => .refl s

theorem listUnchecked_alike (r : ListRequest) : Moves (Alike now) (listUnchecked (σ := Memory) now r) :=
  (onBackend_alike (.list r)).bind fun _ => (overlayRaw_alike _ _ _ _).bind fun _ => pure_alike _

theorem listTokensUnchecked_alike (r : TokenRequest) :
    Moves (Alike now) (listTokensUnchecked (σ := Memory) now r) :=
  (onBackend_alike (.listTokens r)).bind fun _ => (overlayRaw_alike _ _ _ _).bind fun _ => pure_alike _

theorem afterCheck_alike {rest : Action (Stale Memory) α} (never : s.throttle.probability.isNonPositive = true)
    (silent : Moves (Alike now) rest) : Alike now s ((do checkThrottle; rest) s).2 := by
  rw [Action.bind_of_ok (checkThrottle_of_never never)]
  exact Alike.trans ⟨s.delays, _, rfl, rfl⟩ (silent _)

theorem read_alike {c : Call} (read : c.IsRead) (never : s.throttle.probability.isNonPositive = true) :
    Alike now s (c.perform now s).2 := by
  cases c with
  | get bucket key => exact (onBackend_alike (.get bucket key)).map _ s
  | list r =>
    rw [Call.perform, map_state]
    exact afterCheck_alike never (listUnchecked_alike r)
  | listTokens r =>
    rw [Call.perform, map_state]
    exact afterCheck_alike never (listTokensUnchecked_alike r)
  | listUploads bucket under =>
    rw [Call.perform, map_state]
    exact afterCheck_alike never (onBackend_alike (.listUploads bucket under))
  | _ => cases read

-- Alike once the deletes come in the same order out of both.
def Near (now : Timestamp) (s t : Stale Memory) : Prop := ∃ order, Alike now (s.reorder order) t

theorem Alike.reorder {s t : Stale Memory} (alike : Alike now s t) (order : TableOrder) :
    Alike now (s.reorder order) (t.reorder order) := by
  obtain ⟨delays, stats, rfl, same⟩ := alike
  exact ⟨delays, stats, rfl, same⟩

theorem Alike.near (alike : Alike now s t) : Near now s t := ⟨s.order, alike⟩

theorem Near.symm (near : Near now s t) : Near now t s := by
  obtain ⟨order, delays, stats, rfl, same⟩ := near
  exact ⟨s.order, s.delays, s.stats, rfl, same.symm⟩

theorem Near.trans {u : Stale Memory} (first : Near now s t) (second : Near now t u) : Near now s u := by
  obtain ⟨order, alike⟩ := first
  obtain ⟨next, alike'⟩ := second
  exact ⟨next, (alike.reorder next).trans alike'⟩

theorem Near.later {next : Timestamp} (near : Near now s t) (order : now.ms ≤ next.ms) : Near next s t := by
  obtain ⟨arranged, alike⟩ := near
  exact ⟨arranged, alike.later order⟩

theorem Near.alike (near : Near now s t) (same : s.order = t.order) : Alike now s t := by
  obtain ⟨order, delays, stats, rfl, purged⟩ := near
  have arranged : order = s.order := same.symm
  subst arranged
  exact ⟨delays, stats, rfl, purged⟩

theorem Near.probability (near : Near now s t) : t.throttle.probability = s.throttle.probability := by
  obtain ⟨order, delays, stats, rfl, -⟩ := near
  rfl

theorem Respects.eventsOf {x : Action (Stale Memory) History} (respects : Respects now x) (alike : Alike now s t) :
    eventsOf x t = eventsOf x s := by
  rw [Stale.eventsOf, Stale.eventsOf, (respects s t alike).1]

theorem Respects.putEvents (bucket key : Text) (data : Bytes) : Respects now (putEvents now bucket key data) :=
  Respects.checkThrottle.bind fun _ => (Respects.onBackend _).bind fun _ => (Respects.chooseDelay key).bind fun _ =>
    .pure _

theorem Respects.deleteEvents (bucket key : Text) : Respects now (deleteEvents now bucket key) := by
  refine Respects.checkThrottle.bind fun _ => (Respects.chooseDelay key).bind fun delayed => ?_
  cases delayed with
  | false => exact .pure []
  | true => exact (Respects.capture bucket key).bind fun _ => (Respects.onBackend _).bind fun _ => .pure _

theorem Respects.deleteBatchEvents (bucket : Text) (keys : List Text) :
    Respects now (deleteBatchEvents now bucket keys) :=
  Respects.checkThrottle.bind fun _ => (Respects.captureAll bucket keys).bind fun _ => (Respects.onBackend _).bind
    fun _ => .pure _

end Stale

namespace Step

variable {now : Timestamp} {s t : Stale Memory}

theorem perform_alike (step : Step) (alike : Stale.Alike now s t) :
    (step.perform now t).1 = (step.perform now s).1 ∧
      Stale.Alike now (step.perform now s).2 (step.perform now t).2 := by
  cases step with
  | call c =>
    obtain ⟨same, left⟩ := Stale.Respects.perform c s t alike
    exact ⟨congrArg Outcome.replied same, left⟩
  | setThrottleProbability p =>
    obtain ⟨delays, stats, rfl, same⟩ := alike
    simp only [perform, Stale.setThrottleProbability]
    cases s.throttle.setProbability p with
    | error e => exact ⟨rfl, delays, stats, rfl, same⟩
    | ok throttle => exact ⟨rfl, delays, stats, rfl, same⟩
  | createBucket bucket =>
    obtain ⟨delays, stats, rfl, same⟩ := alike
    exact ⟨rfl, delays, stats, rfl, same⟩
  | clear =>
    obtain ⟨delays, stats, rfl, same⟩ := alike
    exact ⟨rfl, .empty, stats, rfl, rfl⟩
  | resetStats =>
    obtain ⟨delays, stats, rfl, same⟩ := alike
    exact ⟨rfl, delays, .zero, rfl, same⟩
  | setFailureLimit limit =>
    obtain ⟨delays, stats, rfl, same⟩ := alike
    exact ⟨rfl, delays, stats, rfl, same⟩
  | reorder order => exact ⟨rfl, alike.reorder order⟩

theorem events_alike (step : Step) (alike : Stale.Alike now s t) : step.events now t = step.events now s := by
  cases step with
  | call c =>
    cases c with
    | put bucket key data => exact (Stale.Respects.putEvents bucket key data).eventsOf alike
    | delete bucket key => exact (Stale.Respects.deleteEvents bucket key).eventsOf alike
    | deleteBatch bucket keys => exact (Stale.Respects.deleteBatchEvents bucket keys).eventsOf alike
    | _ => rfl
  | _ => rfl

theorem perform_near (named : s.delays.Named) (step : Step) (near : Stale.Near now s t) :
    (step.perform now s).1.AlikeUpToSlashes (step.perform now t).1 ∧
      (step.Unrivalled now s → (step.perform now s).1.Alike (step.perform now t).1) ∧
      Stale.Near now (step.perform now s).2 (step.perform now t).2 := by
  obtain ⟨order, alike⟩ := near
  obtain ⟨outcome, exact, next, left⟩ := step.perform_reorder named order
  obtain ⟨same, alike⟩ := step.perform_alike alike
  rw [same]
  exact ⟨outcome, exact, next, left ▸ alike⟩

theorem events_near (named : s.delays.Named) (step : Step) (near : Stale.Near now s t) :
    step.events now t = step.events now s := by
  obtain ⟨order, alike⟩ := near
  rw [step.events_alike alike, step.events_reorder named]

def IsSilent : Step → Prop
  | call c => c.IsRead
  | reorder _ => True
  | _ => False

theorem IsSilent.near {step : Step} (silent : step.IsSilent) (never : s.throttle.probability.isNonPositive = true) :
    Stale.Near now s (step.perform now s).2 := by
  cases step with
  | call c => exact (Stale.read_alike silent never).near
  | reorder order => exact ⟨order, .refl _⟩
  | _ => cases silent

theorem IsSilent.events {step : Step} (silent : step.IsSilent) : step.events now s = [] := by
  cases step with
  | call c => cases c <;> first | rfl | cases silent
  | _ => first | rfl | cases silent

end Step

structure Moment where
  now : Timestamp
  step : Step
  store : Stale Memory

namespace Moment

def outcome (m : Moment) : Outcome := (m.step.perform m.now m.store).1

-- The same step of two runs gives back the same. Where it lists, a directory may have another number of slashes at its
-- end, but only if the deletes come in another order and two that are pending rival each other over it.
structure SameAnswer (a b : Moment) : Prop where
  now : b.now = a.now
  step : b.step = a.step
  alikeUpToSlashes : a.outcome.AlikeUpToSlashes b.outcome
  alike : a.step.Unrivalled a.now a.store → a.outcome.Alike b.outcome
  same : a.store.order = b.store.order → a.outcome = b.outcome

structure Near (a b : Moment) : Prop where
  now : b.now = a.now
  step : b.step = a.step
  store : Stale.Near a.now a.store b.store

variable {a b c : Moment}

theorem Near.join (first : Near a b) (second : Near a c) : Near b c where
  now := second.now.trans first.now.symm
  step := second.step.trans first.step.symm
  store := first.now ▸ first.store.symm.trans second.store

theorem Near.sameAnswer (near : Near a b) (named : a.store.delays.Named) : SameAnswer a b := by
  obtain ⟨now, step, t⟩ := b
  obtain ⟨rfl, rfl, near⟩ := near
  obtain ⟨alikeUpToSlashes, alike, -⟩ := a.step.perform_near named near
  exact ⟨rfl, rfl, alikeUpToSlashes, alike, fun same => (a.step.perform_alike (near.alike same)).1.symm⟩

end Moment

namespace Timeline

def moments : Timeline → Stale Memory → List Moment
  | [], _ => []
  | (now, step) :: rest, s => ⟨now, step, s⟩ :: moments rest (step.perform now s).2

theorem of_mem_moments {timeline : Timeline} {s : Stale Memory} {m : Moment} (member : m ∈ timeline.moments s) :
    ∃ before after, timeline = before ++ (m.now, m.step) :: after ∧ m.store = (run before s).2 := by
  induction timeline generalizing s with
  | nil => cases member
  | cons entry rest ih =>
    rcases List.mem_cons.mp member with rfl | later
    · exact ⟨[], rest, rfl, rfl⟩
    · obtain ⟨before, after, rfl, reached⟩ := ih later
      exact ⟨entry :: before, after, rfl, reached⟩

theorem moments_named {timeline : Timeline} {s : Stale Memory} (named : s.delays.Named) :
    ∀ m ∈ timeline.moments s, m.store.delays.Named := by
  intro m member
  obtain ⟨before, -, -, reached⟩ := of_mem_moments member
  exact reached ▸ run_named before named

-- The second run is the first one with further reads in it, and with its deletes in other orders; the marks tell which
-- of its steps are the first run's.
inductive WithReads : Timeline → Timeline → List Bool → Prop where
  | done : WithReads [] [] []
  | own {rest whole marks} (entry) : WithReads rest whole marks →
      WithReads (entry :: rest) (entry :: whole) (true :: marks)
  | extra {rest whole marks now step} : step.IsSilent → WithReads rest whole marks →
      WithReads rest ((now, step) :: whole) (false :: marks)

def marked {α : Type} : List Bool → List α → List α
  | true :: marks, x :: xs => x :: marked marks xs
  | false :: marks, _ :: xs => marked marks xs
  | _, _ => []

theorem mem_of_marked {α : Type} {x : α} {marks : List Bool} {xs : List α} (member : x ∈ marked marks xs) :
    x ∈ xs := by
  induction xs generalizing marks with
  | nil => rcases marks with - | ⟨- | -, marks⟩ <;> cases member
  | cons y ys ih =>
    rcases marks with - | ⟨- | -, marks⟩
    · cases member
    · exact List.mem_cons_of_mem _ (ih member)
    · rcases List.mem_cons.mp member with rfl | later
      · exact List.mem_cons_self
      · exact List.mem_cons_of_mem _ (ih later)

variable {rest whole : Timeline} {marks : List Bool} {first now : Timestamp} {s t : Stale Memory}

-- The states stay near each other from step to step. An extra read moves only the one of them.
theorem WithReads.run (reads : WithReads rest whole marks) (near : Stale.Near first s t) (named : s.delays.Named)
    (never : s.throttle.probability.isNonPositive = true) (quiet : ∀ e ∈ rest, e.2.NeverThrottles)
    (after : ∀ e ∈ whole, first.ms ≤ e.1.ms) (begins : first.ms ≤ now.ms) (ends : whole.Until now) :
    List.Forall₂ Moment.Near (rest.moments s) (marked marks (whole.moments t)) ∧
      whole.history t = rest.history s ∧ Stale.Near now (rest.run s).2 (whole.run t).2 := by
  induction reads generalizing first s t with
  | done => exact ⟨.nil, rfl, near.later begins⟩
  | own entry reads ih =>
    obtain ⟨reading, step⟩ := entry
    obtain ⟨above, ordered⟩ := List.pairwise_cons.mp ends.ordered
    have arrived := near.later (after _ List.mem_cons_self)
    obtain ⟨-, -, left⟩ := step.perform_near named arrived
    obtain ⟨moments, histories, finished⟩ := ih left (step.perform_named named)
      (Step.perform_never never (quiet _ List.mem_cons_self)) (fun e later => quiet e (List.mem_cons_of_mem _ later))
      above (ends.made _ List.mem_cons_self) ⟨ordered, fun e later => ends.made e (List.mem_cons_of_mem _ later)⟩
    refine ⟨.cons ⟨rfl, rfl, arrived⟩ moments, ?_, finished⟩
    simp only [history, step.events_near named arrived, histories]
  | @extra rest whole marks reading step silent reads ih =>
    obtain ⟨above, ordered⟩ := List.pairwise_cons.mp ends.ordered
    have arrived := near.later (after _ List.mem_cons_self)
    have left := arrived.trans (silent.near (near.probability ▸ never))
    obtain ⟨moments, histories, finished⟩ := ih left named never quiet above (ends.made _ List.mem_cons_self)
      ⟨ordered, fun e later => ends.made e (List.mem_cons_of_mem _ later)⟩
    refine ⟨moments, ?_, finished⟩
    rw [history, silent.events]
    exact histories

theorem near_of_common {base one two : List Moment} (first : List.Forall₂ Moment.Near base one)
    (second : List.Forall₂ Moment.Near base two) : List.Forall₂ Moment.Near one two := by
  induction first generalizing two with
  | nil =>
    cases second
    exact .nil
  | cons near _ ih =>
    cases second with
    | cons near' later => exact .cons (near.join near') (ih later)

section
variable {one two : Timeline} {marks' : List Bool} (named : s.delays.Named)
  (never : s.throttle.probability.isNonPositive = true) (quiet : ∀ e ∈ rest, e.2.NeverThrottles)
  (reads : WithReads rest one marks) (reads' : WithReads rest two marks') (ends : one.Until now) (ends' : two.Until now)
include named never quiet reads reads' ends ends'

theorem WithReads.beside :
    List.Forall₂ Moment.SameAnswer (marked marks (one.moments s)) (marked marks' (two.moments s)) ∧
      two.history s = one.history s ∧ Stale.Near now (one.run s).2 (two.run s).2 := by
  have begun : Stale.Near .zero s s := (Stale.Alike.refl s).near
  obtain ⟨moments, histories, left⟩ :=
    reads.run begun named never quiet (fun _ _ => UInt64.zero_le) UInt64.zero_le ends
  obtain ⟨moments', histories', left'⟩ :=
    reads'.run begun named never quiet (fun _ _ => UInt64.zero_le) UInt64.zero_le ends'
  have held : ∀ m ∈ marked marks (one.moments s), m.store.delays.Named :=
    fun m member => moments_named named m (mem_of_marked member)
  have together := (List.forall₂_and_left _ _).mpr ⟨held, near_of_common moments moments'⟩
  refine ⟨together.imp fun a b both => both.2.sameAnswer both.1, histories'.trans histories.symm, ?_⟩
  exact left.symm.trans left'

-- Listings of everything under a prefix show the same to the slash, and where all keys are names with single separators
-- between them, so do listings of directories.
theorem WithReads.directories_alike {bucket : Text} (uses : s.Uses Path.IsKey bucket)
    (keys : ∀ key, one.Names key → Path.IsKey key) :
    List.Forall₂ (fun a b : Moment =>
        (∀ q ∈ a.step.query?, q.isRecursive = true ∨ q.IsOfDirectory bucket) → a.outcome.Alike b.outcome)
      (marked marks (one.moments s)) (marked marks' (two.moments s)) := by
  obtain ⟨answers, -⟩ := reads.beside named never quiet reads' ends ends'
  have unrivalled : ∀ m ∈ marked marks (one.moments s),
      (∀ q ∈ m.step.query?, q.isRecursive = true ∨ q.IsOfDirectory bucket) →
        m.step.Unrivalled m.now m.store := by
    intro m member listed q asked
    rcases listed q asked with recursive | directory
    · exact q.unrivalled_of_recursive recursive m.store
    intro o stored
    obtain ⟨before, after, same, reached⟩ := of_mem_moments (mem_of_marked member)
    have keys : ∀ key, Names before key → Path.IsKey key := by
      rintro key ⟨reading, c, earlier, own⟩
      exact keys key ⟨reading, c, same ▸ List.mem_append_left _ earlier, own⟩
    have uses : m.store.Uses Path.IsKey bucket := reached ▸ uses.run keys
    rw [directory.bucket] at stored
    exact (uses.keyed (moments_named named m (mem_of_marked member)) stored).not_rivals directory _
  have together := (List.forall₂_and_left _ _).mpr ⟨unrivalled, answers⟩
  exact together.imp fun a b both listed => both.2.alike (both.1 listed)

end

end Timeline
end StaleStore
