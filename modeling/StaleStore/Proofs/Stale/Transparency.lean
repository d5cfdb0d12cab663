import Mathlib.Data.List.Forall2
import StaleStore.Proofs.Runs
import StaleStore.Proofs.Stale.Parts
import StaleStore.Proofs.Store.Conduct

namespace StaleStore

inductive Reply.Agrees : Reply → Reply → Prop where
  | same (r : Reply) : Agrees r r
  | listing {a b : Listing} :
      a = { b with summaries := a.summaries, commonPrefixes := a.commonPrefixes } → Agrees (.listing a) (.listing b)
  | tokenListing {a b : TokenListing} :
      a = { b with summaries := a.summaries, commonPrefixes := a.commonPrefixes } →
      Agrees (.tokenListing a) (.tokenListing b)

inductive Outcome.Agrees : Outcome → Outcome → Prop where
  | reply {a b : Reply} : a.Agrees b → Agrees (.replied (.ok a)) (.replied (.ok b))
  | error (e : StoreError) : Agrees (.replied (.error e)) (.replied (.error e))
  | changed (r q : Except SettingsError Unit) : Agrees (.changed r) (.changed q)

namespace Stale

variable {α β γ δ : Type}

inductive Mirrors (agree : α → β → Prop) :
    Except StoreError α × Stale Memory → Except StoreError β × Memory → Prop where
  | ok {a : α} {b : β} {s : Stale Memory} : agree a b → Mirrors agree (.ok a, s) (.ok b, s.backend)
  | error (e : StoreError) (s : Stale Memory) : Mirrors agree (.error e, s) (.error e, s.backend)

-- A call was throttled and the wrapped store left alone, or does what the wrapped store does.
def Transparent (agree : α → β → Prop) (x : Action (Stale Memory) α) (y : Action Memory β) (s : Stale Memory) :
    Prop :=
  (∃ n t, x s = (.error (.throttled n), t) ∧ t.backend = s.backend) ∨ Mirrors agree (x s) (y s.backend)

theorem Mirrors.onBackend (y : Action Memory α) (s : Stale Memory) :
    Mirrors Eq (Stale.onBackend y s) (y s.backend) := by
  rw [Stale.onBackend, Action.onPart]
  rcases y s.backend with ⟨e | a, m⟩
  · exact .error e { s with backend := m }
  · exact .ok (s := { s with backend := m }) rfl

theorem Mirrors.map {agree : α → β → Prop} {agree' : γ → δ → Prop} {x : Action (Stale Memory) α}
    {y : Action Memory β} {s : Stale Memory} {f : α → γ} {g : β → δ} (mirrors : Mirrors agree (x s) (y s.backend))
    (also : ∀ a b, agree a b → agree' (f a) (g b)) : Mirrors agree' (x.map f s) (y.map g s.backend) := by
  rw [Action.map, Action.map]
  generalize x s = p, y s.backend = q at mirrors
  cases mirrors with
  | ok related => exact .ok (also _ _ related)
  | error e t => exact .error e t

theorem Transparent.map {agree : α → β → Prop} {agree' : γ → δ → Prop} {x : Action (Stale Memory) α}
    {y : Action Memory β} {s : Stale Memory} {f : α → γ} {g : β → δ} (transparent : Transparent agree x y s)
    (also : ∀ a b, agree a b → agree' (f a) (g b)) : Transparent agree' (x.map f) (y.map g) s := by
  rcases transparent with ⟨n, t, throttled, kept⟩ | mirrors
  · exact Or.inl ⟨n, t, by rw [Action.map, throttled], kept⟩
  · exact Or.inr (mirrors.map also)

theorem Transparent.of_ok {agree : α → β → Prop} {x : Action (Stale Memory) α} {y : Action Memory β}
    {s t : Stale Memory} {a : α} (transparent : Transparent agree x y s) (done : x s = (.ok a, t)) :
    ∃ b, y s.backend = (.ok b, t.backend) ∧ agree a b := by
  rcases transparent with ⟨n, u, throttled, -⟩ | mirrors
  · rw [done] at throttled
    cases throttled
  · rw [done] at mirrors
    generalize y s.backend = q at mirrors
    cases mirrors with
    | ok related => exact ⟨_, rfl, related⟩

theorem Transparent.afterCheck {agree : α → β → Prop} {rest : Action (Stale Memory) α} {y : Action Memory β}
    {s : Stale Memory}
    (mirrors : ∀ draws stats, Mirrors agree (rest { s with draws := draws, stats := stats }) (y s.backend)) :
    Transparent agree (do checkThrottle; rest) y s := by
  rcases afterThrottle_cases rest s with ⟨t, ⟨-, draws, stats, rfl⟩, failed⟩ | ⟨draws, stats, passed⟩
  · exact Or.inl ⟨_, _, failed, rfl⟩
  · refine Or.inr ?_
    rw [passed]
    exact mirrors draws stats

theorem Transparent.checked {agree : α → β → Prop} {rest : Action (Stale Memory) α} {y : Action Memory β}
    (mirrors : ∀ t : Stale Memory, Mirrors agree (rest t) (y t.backend)) (s : Stale Memory) :
    Transparent agree (do checkThrottle; rest) y s :=
  .afterCheck fun draws stats => mirrors { s with draws := draws, stats := stats }

theorem Mirrors.andThen {agree : α → β → Prop} {x : Action (Stale Memory) α} {s : Stale Memory}
    {q : Except StoreError β × Memory} {f : α → Action (Stale Memory) α} (mirrors : Mirrors agree (x s) q)
    (quiet : ∀ a t, ∃ u, f a t = (.ok a, u) ∧ u.backend = t.backend) : Mirrors agree ((x >>= f) s) q := by
  rw [Action.bind_apply]
  generalize x s = p at mirrors
  cases mirrors with
  | ok related =>
    rename_i a b t
    obtain ⟨u, done, kept⟩ := quiet a t
    rw [← kept]
    dsimp only
    rw [done]
    exact .ok related
  | error e t => exact .error e t

variable (now : Timestamp) (bucket key : Text)

theorem put_transparent (data : Bytes) (s : Stale Memory) :
    Transparent Eq (put now bucket key data) (Memory.put now bucket key data) s := by
  refine Transparent.checked (fun t => ?_) s
  refine (Mirrors.onBackend (Memory.put now bucket key data) t).andThen fun etag u => ?_
  obtain ⟨delayed, draws, chose, -⟩ := chooseDelay_eq key u
  rw [Action.bind_of_ok chose]
  cases delayed
  · exact ⟨_, rfl, rfl⟩
  · exact ⟨_, rfl, rfl⟩

theorem Mirrors.ok_of_eq {agree : α → β → Prop} {p : Except StoreError α × Stale Memory}
    {q : Except StoreError β × Memory} {a : α} {b : β} {s : Stale Memory} (result : p = (.ok a, s))
    (plain : q = (.ok b, s.backend)) (related : agree a b) : Mirrors agree p q := by
  rw [result, plain]
  exact .ok related

theorem Mirrors.error_of_eq {agree : α → β → Prop} {p : Except StoreError α × Stale Memory}
    {q : Except StoreError β × Memory} {e : StoreError} {s : Stale Memory} (result : p = (.error e, s))
    (plain : q = (.error e, s.backend)) : Mirrors agree p q := by
  rw [result, plain]
  exact .error e s

-- The listing that a delete makes first fails only where the delete itself fails in the same way.
theorem delete_transparent (s : Stale Memory) :
    Transparent Eq (delete now bucket key) (Memory.delete bucket key) s := by
  refine Transparent.checked (fun t => ?_) s
  obtain ⟨delayed, draws, chose, -⟩ := chooseDelay_eq key t
  rw [Action.bind_of_ok chose]
  cases delayed with
  | false => exact Mirrors.onBackend (Memory.delete bucket key) { t with draws := draws }
  | true =>
    rw [if_pos rfl]
    cases found : t.backend.buckets[bucket]? with
    | none =>
      have failed := capture_of_missing now bucket key (s := { t with draws := draws }) found
      refine Mirrors.error_of_eq (Action.bind_of_error failed) ?_
      rw [Memory.delete, Action.bind_of_error (Memory.objects_of_missing found)]
    | some o =>
      obtain ⟨stats, captures⟩ := capture_of_stored now bucket key (s := { t with draws := draws }) found
      rw [Action.bind_of_ok captures]
      exact (Mirrors.onBackend (Memory.delete bucket key) _).andThen fun _ u => ⟨_, rfl, rfl⟩

theorem deleteBatch_transparent (keys : List Text) (s : Stale Memory) :
    Transparent Eq (deleteBatch now bucket keys) (Memory.deleteBatch bucket keys) s := by
  refine Transparent.checked (fun t => ?_) s
  have afterwards : ∀ (delayed : List (Text × Option Summary)) (u : Stale Memory),
      Mirrors Eq ((do
          let result ← onBackend (Memory.deleteBatch bucket keys)
          recordDeletes now (delayed.filter fun d => result.deleted.contains d.1)
          return result) u) (Memory.deleteBatch bucket keys u.backend) := by
    intro delayed u
    refine (Mirrors.onBackend (Memory.deleteBatch bucket keys) u).andThen fun result v => ?_
    obtain ⟨stats, recorded⟩ :=
      recordDeletes_eq now (delayed.filter fun d => result.deleted.contains d.1) v
    exact ⟨_, Action.bind_of_ok recorded, rfl⟩
  cases found : t.backend.buckets[bucket]? with
  | some o =>
    obtain ⟨delays, stats, -, captures⟩ := captureAll_of_stored now bucket keys found
    rw [Action.bind_of_ok captures]
    exact afterwards _ _
  | none =>
    obtain ⟨draws, passed | ⟨nonempty, failed⟩⟩ := captureAll_of_missing now bucket keys found
    · rw [Action.bind_of_ok passed]
      exact afterwards _ { t with draws := draws }
    · exact Mirrors.error_of_eq (Action.bind_of_error failed) (Memory.deleteBatch_of_missing nonempty found)

theorem list_transparent_of {agree : Listing → Listing → Prop} {r : ListRequest} {s : Stale Memory}
    (agrees : ∀ o, agree (s.listing now o r)
      (r.answer (Page.ofBucket r.bucket o r.under r.delimiter r.marker r.maxKeys))) :
    Transparent agree (list now r) (Memory.list r) s := by
  refine Transparent.afterCheck fun draws stats => ?_
  cases found : s.backend.buckets[r.bucket]? with
  | none => exact .error_of_eq (listUnchecked_of_missing now r found) (Memory.list_of_missing r found)
  | some o =>
    obtain ⟨stats', listed⟩ := listUnchecked_of_stored now r (s := { s with draws := draws, stats := stats }) found
    exact .ok_of_eq listed (Memory.list_of_stored r found) (agrees o)

theorem listTokens_transparent_of {agree : TokenListing → TokenListing → Prop} {r : TokenRequest} {s : Stale Memory}
    (agrees : ∀ o, agree (s.tokenListing now o r)
      (r.answer (Page.ofBucket r.bucket o r.under r.delimiter r.start r.maxKeys))) :
    Transparent agree (listTokens now r) (Memory.listTokens r) s := by
  refine Transparent.afterCheck fun draws stats => ?_
  cases found : s.backend.buckets[r.bucket]? with
  | none => exact .error_of_eq (listTokensUnchecked_of_missing now r found) (Memory.listTokens_of_missing r found)
  | some o =>
    obtain ⟨stats', listed⟩ :=
      listTokensUnchecked_of_stored now r (s := { s with draws := draws, stats := stats }) found
    exact .ok_of_eq listed (Memory.listTokens_of_stored r found) (agrees o)

theorem perform_transparent (c : Call) (s : Stale Memory) :
    Transparent Reply.Agrees (c.perform now) (c.perform now) s := by
  have checked : ∀ {α : Type} (y : Action Memory α) (f : α → Reply),
      Transparent Reply.Agrees ((Stale.checked y).map f) (y.map f) s := by
    intro α y f
    refine (Transparent.checked (fun t => Mirrors.onBackend y t) s).map ?_
    intro a b same
    rw [same]
    exact .same _
  have unchecked : ∀ {α : Type} (y : Action Memory α) (f : α → Reply),
      Transparent Reply.Agrees ((Stale.onBackend y).map f) (y.map f) s := by
    intro α y f
    refine Or.inr ((Mirrors.onBackend y s).map ?_)
    intro a b same
    rw [same]
    exact .same _
  have equal : ∀ {α : Type} {f : α → Reply} (a b : α), a = b → Reply.Agrees (f a) (f b) := by
    intro α f a b same
    rw [same]
    exact .same _
  cases c with
  | put bucket key data => exact (put_transparent now bucket key data s).map equal
  | get bucket key => exact unchecked _ _
  | delete bucket key => exact (delete_transparent now bucket key s).map equal
  | deleteBatch bucket keys => exact (deleteBatch_transparent now bucket keys s).map equal
  | list r => exact (list_transparent_of now fun _ => rfl).map fun _ _ same => .listing same
  | listTokens r => exact (listTokens_transparent_of now fun _ => rfl).map fun _ _ same => .tokenListing same
  | initiateUpload bucket key => exact checked _ _
  | uploadPart bucket key uploadId n data => exact checked _ _
  | completeUpload bucket key uploadId parts => exact checked _ _
  | abortUpload bucket key uploadId => exact unchecked _ _
  | listUploads bucket under => exact checked _ _

end Stale

theorem Step.perform_agrees (now : Timestamp) (step : Step) (s : Stale Memory) :
    (step.perform now s).1.isThrottled = true ∧ (step.perform now s).2.backend = s.backend ∨
    (step.perform now s).1.isThrottled = false ∧
      Outcome.Agrees (step.perform now s).1 (step.performPlain now s.backend).1 ∧
      (step.perform now s).2.backend = (step.performPlain now s.backend).2 := by
  cases step with
  | createBucket bucket => exact Or.inr ⟨rfl, .changed _ _, rfl⟩
  | clear => exact Or.inr ⟨rfl, .changed _ _, rfl⟩
  | resetStats => exact Or.inr ⟨rfl, .changed _ _, rfl⟩
  | setFailureLimit limit => exact Or.inr ⟨rfl, .changed _ _, rfl⟩
  | reorder order => exact Or.inr ⟨rfl, .changed _ _, rfl⟩
  | setThrottleProbability p =>
    rw [perform, Stale.setThrottleProbability, Throttle.setProbability]
    split
    · rename_i t accepted
      split at accepted
      · cases accepted
        exact Or.inr ⟨rfl, .changed _ _, rfl⟩
      · cases accepted
    · exact Or.inr ⟨rfl, .changed _ _, rfl⟩
  | call c =>
    have own := (Proper.perform now c).neverThrottles s.backend
    simp only [perform, performPlain]
    rcases Stale.perform_transparent now c s with ⟨n, t, throttled, kept⟩ | mirrors
    · rw [throttled]
      exact Or.inl ⟨rfl, kept⟩
    · refine Or.inr ?_
      generalize c.perform now s = p, c.perform now s.backend = q at mirrors own
      cases mirrors with
      | ok agrees => exact ⟨rfl, .reply agrees, rfl⟩
      | error e t =>
        refine ⟨?_, .error e, rfl⟩
        cases e <;> first | rfl | exact absurd rfl (own _)

namespace Timeline

def passed (timeline : Timeline) (outcomes : List Outcome) : List ((Timestamp × Step) × Outcome) :=
  (timeline.zip outcomes).filter fun e => !e.2.isThrottled

theorem run_length (timeline : Timeline) (s : Stale Memory) : (timeline.run s).1.length = timeline.length := by
  induction timeline generalizing s with
  | nil => rfl
  | cons entry rest ih => simp only [run, List.length_cons, ih]

theorem run_agrees (timeline : Timeline) (s : Stale Memory) :
    let ran := timeline.run s
    let plain := runPlain ((timeline.passed ran.1).map (·.1)) s.backend
    List.Forall₂ Outcome.Agrees ((timeline.passed ran.1).map (·.2)) plain.1 ∧ ran.2.backend = plain.2 := by
  induction timeline generalizing s with
  | nil => exact ⟨.nil, rfl⟩
  | cons entry rest ih =>
    obtain ⟨now, step⟩ := entry
    obtain ⟨agrees, backend⟩ := ih (step.perform now s).2
    dsimp only [passed] at agrees backend ⊢
    simp only [run, List.zip_cons_cons]
    rcases step.perform_agrees now s with ⟨throttled, kept⟩ | ⟨ran, same, kept⟩
    · rw [List.filter_cons_of_neg (by simp [throttled])]
      rw [kept] at agrees backend
      exact ⟨agrees, backend⟩
    · rw [List.filter_cons_of_pos (by simp [ran])]
      rw [kept] at agrees backend
      exact ⟨.cons same agrees, backend⟩

-- From any store in memory, whatever the settings and whatever is drawn.
theorem stale_mirrors_plain {m : Memory} {settings : Settings} {draws : DrawStream} {s : Stale Memory}
    (created : Stale.create m settings draws = .ok s) (timeline : Timeline) :
    let ran := timeline.run s
    let plain := runPlain ((timeline.passed ran.1).map (·.1)) m
    ran.1.length = timeline.length ∧
      List.Forall₂ Outcome.Agrees ((timeline.passed ran.1).map (·.2)) plain.1 ∧ ran.2.backend = plain.2 := by
  have agrees := run_agrees timeline s
  rw [(Stale.create_fresh created).backend_eq] at agrees
  exact ⟨run_length timeline s, agrees⟩

theorem throttled_timeline_mirrors :
    let settings := Settings.defaults.withThrottle .one 1
    let key := "DELAY_LISTING_ME".toList
    let timeline : Timeline :=
      [(.zero, .call (.put ['b'] key [])), (.zero, .call (.put ['b'] key [1])), (⟨1⟩, .createBucket ['c']),
        (⟨2⟩, .call (.delete ['b'] key)), (⟨3⟩, .call (.deleteBatch ['d'] [key])),
        (⟨4⟩, .call (.list (.recursive ['b'] [])))]
    ∃ s, Stale.create (Memory.withBucket ['b']) settings (.ofSeed 0) = .ok s ∧
      let ran := timeline.run s
      let plain := runPlain ((timeline.passed ran.1).map (·.1)) (Memory.withBucket ['b'])
      ran.1.length = timeline.length ∧
        List.Forall₂ Outcome.Agrees ((timeline.passed ran.1).map (·.2)) plain.1 ∧ ran.2.backend = plain.2 := by
  intro settings key timeline
  obtain ⟨s, created⟩ :=
    Stale.create_of_probabilities (Memory.withBucket ['b']) settings (.ofSeed 0) (by decide) (by decide)
  exact ⟨s, created, stale_mirrors_plain created timeline⟩

end Timeline
end StaleStore
