import StaleStore.Proofs.Stale.RepeatedDeletes

namespace StaleStore
namespace Stale

structure SameDelays {σ : Type} (s t : Stale σ) : Prop where
  rules : t.rules = s.rules
  delays : t.delays = s.delays
  throttle : t.throttle = s.throttle

def Spares {σ : Type} (key : Text) (s : Stale σ) : Prop := (chooseDelay key s).1 = .ok false

-- A put that is not to be delayed, and the end of an upload, which never is.
inductive WritesAtOnce (bucket key : Text) (s : Stale Memory) : Call → Prop where
  | put {data} : s.Spares key → WritesAtOnce bucket key s (.put bucket key data)
  | complete {uploadId parts} : WritesAtOnce bucket key s (.completeUpload bucket key uploadId parts)

section
variable {α : Type} {now : Timestamp} {bucket key : Text} {s t : Stale Memory}

theorem onBackend_ok {y : Action Memory α} {a : α} (done : onBackend y s = (.ok a, t)) :
    ∃ b, y s.backend = (.ok a, b) ∧ t = { s with backend := b } := by
  rcases result : y s.backend with ⟨r, b⟩
  rw [onBackend_eq result] at done
  cases done
  exact ⟨b, rfl, rfl⟩

theorem bind_of_spares {f : Bool → Action (Stale Memory) α} (spares : s.Spares key) :
    (chooseDelay key >>= f) s = f false (chooseDelay key s).2 :=
  Action.bind_of_ok (Prod.ext spares rfl)

-- Without a throttle nothing is drawn before the choice, so it is the one that the store would make now.
theorem put_undelayed {data : Bytes} {etag : Text} (never : s.throttle.probability.isNonPositive = true)
    (spares : s.Spares key) (done : put now bucket key data s = (.ok etag, t)) :
    SameDelays s t ∧ ∃ object, t.backend.object? bucket key = some object := by
  rw [put, Action.bind_of_ok (checkThrottle_of_never never)] at done
  obtain ⟨_, u, stores, goesOn⟩ := Action.bind_eq_ok.mp done
  obtain ⟨b, stored, rfl⟩ := onBackend_ok stores
  rw [bind_of_spares (by exact spares)] at goesOn
  cases goesOn
  have performed : (Call.put bucket key data).perform now s.backend = (.ok (.stored etag), b) :=
    Action.map_of_ok stored
  exact ⟨⟨rfl, rfl, rfl⟩, Call.object?_of_ok rfl performed⟩

theorem completeUpload_undelayed {uploadId : Text} {parts : List PartTag} {r : CompletedUpload}
    (never : s.throttle.probability.isNonPositive = true)
    (done : checked (Memory.completeUpload now bucket key uploadId parts) s = (.ok r, t)) :
    SameDelays s t ∧ ∃ object, t.backend.object? bucket key = some object := by
  rw [checked, Action.bind_of_ok (checkThrottle_of_never never)] at done
  obtain ⟨b, completed, rfl⟩ := onBackend_ok done
  have performed : (Call.completeUpload bucket key uploadId parts).perform now s.backend = (.ok (.completed r), b) :=
    Action.map_of_ok completed
  exact ⟨⟨rfl, rfl, rfl⟩, Call.object?_of_ok rfl performed⟩

theorem WritesAtOnce.effect {c : Call} {r : Reply} (writes : WritesAtOnce bucket key s c)
    (never : s.throttle.probability.isNonPositive = true) (done : c.perform now s = (.ok r, t)) :
    SameDelays s t ∧ ∃ object, t.backend.object? bucket key = some object := by
  cases writes with
  | put spares =>
    obtain ⟨_, done, -⟩ := (map_ok _ _).mp done
    exact put_undelayed never spares done
  | complete =>
    obtain ⟨_, done, -⟩ := (map_ok _ _).mp done
    exact completeUpload_undelayed never done

theorem delete_undelayed (never : s.throttle.probability.isNonPositive = true) (spares : s.Spares key)
    (done : delete now bucket key s = (.ok (), t)) :
    SameDelays s t ∧ ∃ o, t.backend.buckets[bucket]? = some o ∧ o[key]? = none := by
  rw [delete, Action.bind_of_ok (checkThrottle_of_never never)] at done
  rw [bind_of_spares (by exact spares)] at done
  obtain ⟨b, deleted, rfl⟩ := onBackend_ok done
  have performed : (Call.delete bucket key).perform now s.backend = (.ok .deleted, b) := Action.map_of_ok deleted
  exact ⟨⟨rfl, rfl, rfl⟩, Call.missing_of_deleted performed⟩

end
end Stale

namespace Query

structure IsFlat (bucket : Text) (q : Query) : Prop where
  bucket : q.bucket = bucket
  under : q.under = []
  delimiter : q.delimiter = none
  start : q.start = none

variable {bucket key : Text} {q : Query} {now : Timestamp} {s t : Stale Memory} {o : Bucket} {x : Summary}

theorem IsFlat.descendant (flat : q.IsFlat bucket) (key : Text) :
    Path.isDescendant q.under key q.isRecursive = true := by
  rw [flat.under, isRecursive, flat.delimiter]
  rfl

theorem IsFlat.mem_page (flat : q.IsFlat bucket) (ended : (q.page o).truncated = false) :
    x ∈ (q.page o).summaries ↔ ∃ object, o[x.key]? = some object ∧ object.summary bucket x.key = x := by
  simp only [page, flat.bucket, flat.under, flat.delimiter, flat.start] at ended ⊢
  rw [Page.mem_summaries_of_ended ended]
  constructor
  · rintro ⟨key, object, stored, -, -, rfl⟩
    exact ⟨object, stored, rfl⟩
  · rintro ⟨object, stored, same⟩
    exact ⟨x.key, object, stored, List.nil_prefix, rfl, same⟩

theorem IsFlat.mem_laid_of_shown {object : StoredObject} (flat : q.IsFlat bucket) (named : s.delays.Named)
    (ended : (q.page o).truncated = false) (stored : o[x.key]? = some object)
    (shown : s.delays.hides s.rules.window now x.key = false) :
    x ∈ (q.laid now s (q.page o)).summaries ↔ x = object.summary bucket x.key := by
  refine (mem_overlay_summaries (named.purge.held_well.arrange s.order)).trans ?_
  constructor
  · rintro (⟨listed, -⟩ | ⟨-, -, absent⟩)
    · obtain ⟨object', stored', same⟩ := (flat.mem_page ended).mp listed
      rw [stored, Option.some_inj] at stored'
      rw [stored', same]
    · have listed : object.summary bucket x.key ∈ (q.page o).summaries :=
        (flat.mem_page ended).mpr ⟨object, stored, rfl⟩
      have hidden := absent _ listed rfl
      rw [shown] at hidden
      cases hidden
  · intro same
    exact Or.inl ⟨(flat.mem_page ended).mpr ⟨object, stored, same.symm⟩, shown⟩

end Query

namespace Timeline

-- Right after a write or a delete that is not delayed, in any state that a run comes to, however the clock went.
theorem undelayed_writes_listed {m : Memory} {settings : Settings} {draws : DrawStream} {s : Stale Memory}
    (created : Stale.create m settings draws = .ok s) (timeline : Timeline) {now : Timestamp} {bucket key : Text} :
    let t := (timeline.run s).2
    t.throttle.probability.isNonPositive = true →
      (∀ c r u, Stale.WritesAtOnce bucket key t c → c.perform now t = (.ok r, u) →
        t.delays.hides t.rules.window now key = false →
        ∃ object, u.backend.object? bucket key = some object ∧
          ∀ q : Query, q.IsFlat bucket → ∃ v u', q.ask now u = (.ok v, u') ∧ (v.truncated = false →
            ∀ x, x.key = key → (x ∈ v.summaries ↔ x = object.summary bucket key))) ∧
      ∀ u, t.Spares key → Stale.delete now bucket key t = (.ok (), u) →
        ∀ q : Query, q.IsFlat bucket → ∃ v u', q.ask now u = (.ok v, u') ∧ ∀ x, x.key = key →
          (x ∈ v.summaries ↔ (key, some x) ∈ (t.delays.purge t.rules.window now).heldDeletes) := by
  intro t never
  have named : t.delays.Named := timeline.run_named (.of_empty (Stale.create_fresh created).delays_eq)
  constructor
  · intro c r u writes done shown
    obtain ⟨same, object, there⟩ := writes.effect never done
    refine ⟨object, there, fun q flat => ?_⟩
    obtain ⟨o, stored, found⟩ := Option.bind_eq_some_iff.mp there
    obtain ⟨stats, answered⟩ :=
      Query.ask_of_stored (q := q) now (same.throttle.symm ▸ never) (flat.bucket.symm ▸ stored)
    refine ⟨_, _, answered, ?_⟩
    rintro ended x rfl
    rw [← same.rules, ← same.delays] at shown
    exact flat.mem_laid_of_shown (same.delays ▸ named) ended found shown
  · intro u spares done q flat
    obtain ⟨same, o, stored, missing⟩ := Stale.delete_undelayed never spares done
    obtain ⟨stats, answered⟩ :=
      Query.ask_of_stored (q := q) now (same.throttle.symm ▸ never) (flat.bucket.symm ▸ stored)
    refine ⟨_, _, answered, ?_⟩
    rintro x rfl
    rw [Query.mem_laid_of_missing (same.delays ▸ named) missing, same.rules, same.delays]
    exact and_iff_left (flat.descendant x.key)

def tossing : Stale Memory where
  backend := Memory.withBucket ['b']
  throttle := lagging.throttle
  rules := ⟨[], ⟨0x3FE0000000000000⟩, .ofMillis 1000⟩
  isProbability := by decide
  delays := .empty
  order := .byKey
  draws := .ofSeed 0
  stats := .zero

def half : Settings := { Settings.delayAll (.ofMillis 1000) with delayProbability := ⟨0x3FE0000000000000⟩ }

-- A put that is delayed hides the key from the listing after a put that is not, and after the end of an upload; a
-- delete that is delayed puts the key back into the listing after a delete that is not.
theorem earlier_delays_last :
    let first : Timestamp × Step := (.zero, .call (.put ['b'] ['k'] []))
    let again : Timestamp × Step := (.zero, .call (.put ['b'] ['k'] [1]))
    let uploading : Timeline := [(⟨1⟩, .call (.initiateUpload ['b'] ['k'])),
      (⟨1⟩, .call (.uploadPart ['b'] ['k'] (Memory.uploadId 1) 1 [2]))]
    let hidden := (run [first, again] tossing).2
    let uploaded := (run ([first, again] ++ uploading) tossing).2
    let held := (run [first, (.zero, .call (.delete ['b'] ['k']))] tossing).2
    let q : Query := .markers (.recursive ['b'] [])
    let x : Summary := ⟨['b'], ['k'], 0, "00000000".toList, .zero, "STANDARD".toList⟩
    Stale.create (Memory.withBucket ['b']) half (.ofSeed 0) = .ok tossing ∧ q.IsFlat ['b'] ∧
      (hidden.Spares ['k'] ∧ ∃ etag u u', Stale.put ⟨1⟩ ['b'] ['k'] [2] hidden = (.ok etag, u) ∧
        (u.backend.object? ['b'] ['k']).isSome = true ∧ q.ask ⟨1⟩ u = (.ok ⟨[], [], false, none⟩, u')) ∧
      (∃ r u u', Call.perform ⟨1⟩ (.completeUpload ['b'] ['k'] (Memory.uploadId 1) [⟨1, Checksum.tag [2]⟩]) uploaded
          = (.ok r, u) ∧
        (u.backend.object? ['b'] ['k']).isSome = true ∧ q.ask ⟨1⟩ u = (.ok ⟨[], [], false, none⟩, u')) ∧
      held.Spares ['k'] ∧ ∃ u u', Stale.delete ⟨1⟩ ['b'] ['k'] held = (.ok (), u) ∧
        u.backend.object? ['b'] ['k'] = none ∧ q.ask ⟨1⟩ u = (.ok ⟨[x], [], false, none⟩, u') := by
  intro first again uploading hidden uploaded held q x
  refine ⟨rfl, ⟨rfl, rfl, rfl, rfl⟩, ⟨?_, ?_⟩, ?_, ?_, ?_⟩
  · exact congrArg Except.ok (by decide +kernel)
  · exact ⟨Checksum.tag [2], _, _, Action.eq_of_toOption (by decide +kernel), by decide +kernel,
      Action.eq_of_toOption (by decide +kernel)⟩
  · exact ⟨.completed ⟨['b'], ['k'], Checksum.joinedTag [2] 1⟩, _, _, Action.eq_of_toOption (by decide +kernel),
      by decide +kernel, Action.eq_of_toOption (by decide +kernel)⟩
  · exact congrArg Except.ok (by decide +kernel)
  · exact ⟨_, _, Action.eq_of_toOption (by decide +kernel), by decide +kernel,
      Action.eq_of_toOption (by decide +kernel)⟩

theorem other_delays_leave_key :
    let t := (run [(.zero, .call (.put ['b'] ['k'] [])), (.zero, .call (.put ['b'] ['j'] []))] tossing).2
    Stale.create (Memory.withBucket ['b']) half (.ofSeed 0) = .ok tossing ∧ t.delays.pendingPuts = 1 ∧
      t.throttle.probability.isNonPositive = true ∧ t.Spares ['k'] ∧
      t.delays.hides t.rules.window ⟨1⟩ ['k'] = false ∧
      (∃ r u, Call.perform ⟨1⟩ (.put ['b'] ['k'] [2]) t = (.ok r, u) ∧
        ∃ object, u.backend.object? ['b'] ['k'] = some object ∧
          ∀ q : Query, q.IsFlat ['b'] → ∃ v u', q.ask ⟨1⟩ u = (.ok v, u') ∧ (v.truncated = false →
            ∀ x, x.key = ['k'] → (x ∈ v.summaries ↔ x = object.summary ['b'] ['k']))) ∧
      ∃ u, Stale.delete ⟨1⟩ ['b'] ['k'] t = (.ok (), u) ∧
        ∀ q : Query, q.IsFlat ['b'] → ∃ v u', q.ask ⟨1⟩ u = (.ok v, u') ∧ ∀ x, x.key = ['k'] →
          (x ∈ v.summaries ↔ (['k'], some x) ∈ (t.delays.purge t.rules.window ⟨1⟩).heldDeletes) := by
  intro t
  have created : Stale.create (Memory.withBucket ['b']) half (.ofSeed 0) = .ok tossing := rfl
  have never : t.throttle.probability.isNonPositive = true := by decide +kernel
  have spares : t.Spares ['k'] := congrArg Except.ok (by decide +kernel)
  have shown : t.delays.hides t.rules.window ⟨1⟩ ['k'] = false := by decide +kernel
  have puts : Call.perform ⟨1⟩ (.put ['b'] ['k'] [2]) t = (.ok (.stored (Checksum.tag [2])), _) :=
    Action.eq_of_toOption (by decide +kernel)
  have deletes : Stale.delete ⟨1⟩ ['b'] ['k'] t = (.ok (), _) := Action.eq_of_toOption (by decide +kernel)
  obtain ⟨written, deleted⟩ := undelayed_writes_listed created _ never
  exact ⟨created, by decide +kernel, never, spares, shown, ⟨_, _, puts, written _ _ _ (.put spares) puts shown⟩, _,
    deletes, deleted _ spares deletes⟩

end Timeline
end StaleStore
