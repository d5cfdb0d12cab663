import StaleStore.Proofs.Paths
import StaleStore.Proofs.Stale.Captures
import StaleStore.Proofs.Stale.Deletes
import StaleStore.Proofs.Stale.Pages

namespace StaleStore
namespace Stale

variable {now : Timestamp} {bucket key : Text} {s : Stale Memory} {o : Bucket} {x : Summary}

def visible? (now : Timestamp) (bucket key : Text) (s : Stale Memory) : Option Summary :=
  if s.delays.hides s.rules.window now key then none
  else
    match (Call.perform now (.get bucket key) s).1 with
    | .ok (.content object) => some object.summary
    | _ => none

theorem get_answer (now : Timestamp) (bucket key : Text) (s : Stale Memory) :
    (Call.perform now (.get bucket key) s).1 = (Memory.get bucket key s.backend).1.map Reply.content := by
  simp only [Call.perform, Action.map, ObjectStore.get, onBackend, Action.onPart]
  rcases Memory.get bucket key s.backend with ⟨e | object, m⟩ <;> rfl

theorem visible?_eq_some (stored : s.backend.buckets[bucket]? = some o) :
    s.visible? now bucket key = some x ↔ s.ShowsStored now bucket key o x := by
  rw [visible?, get_answer, Memory.get_eq, if_pos (Memory.mem_buckets_of_stored stored),
    Memory.object?_of_stored stored, ShowsStored]
  cases s.delays.hides s.rules.window now key <;> cases o[key]? <;> simp [Except.map]

-- A key that does not lie below itself is not put back where it is looked up.
theorem captured_eq_visible (well : HeldWell (s.delays.purge s.rules.window now).heldDeletes)
    (apart : Path.isBelow key key = false) (stored : s.backend.buckets[bucket]? = some o) :
    s.captured now bucket key o = s.visible? now bucket key := by
  apply Option.ext
  intro x
  rw [captured_eq_some well, visible?_eq_some stored]
  simp [PutsBack, apart]

end Stale

namespace Timeline

open Stale

-- In any state that a run comes to, for a key that ends in a name, deleted alone or in a batch.
theorem delete_captures_last_visible {m : Memory} {settings : Settings} {draws : DrawStream} {s : Stale Memory}
    {now : Timestamp} {bucket key : Text} {c : Call} (created : Stale.create m settings draws = .ok s)
    (timeline : Timeline) :
    let t := (timeline.run s).2
    key ≠ [] → key.getLast? ≠ some Path.separator → bucket ∈ t.backend.buckets → c.Deletes bucket key →
      key ∈ t.selected c.keys → (∃ n u, c.perform now t = (.error (.throttled n), u)) ∨
        ∃ r u, c.perform now t = (.ok r, u) ∧
          u.delays.deletes[key]? = some ⟨now, t.visible? now bucket key⟩ := by
  intro t nonempty last there deletes chosen
  have named : t.delays.Named := timeline.run_named (.of_empty (Stale.create_fresh created).delays_eq)
  have stored : t.backend.buckets[bucket]? = some t.backend.buckets[bucket] :=
    Std.ExtTreeMap.getElem?_eq_some_getElem there
  have captures : t.captured now bucket key _ = t.visible? now bucket key :=
    captured_eq_visible named.purge.held_well (Path.isBelow_self nonempty last) stored
  rcases deletes.outcome now stored with ⟨u, -, stopped⟩ | ⟨r, u, -, deleted, -, -, -, recorded⟩
  · exact Or.inl ⟨_, u, stopped⟩
  · right
    refine ⟨r, u, deleted, ?_⟩
    rw [recorded chosen, captures]

def crowdedKeys : Timeline :=
  [(.zero, .call (.put ['b'] ['k'] [])), (.zero, .call (.put ['b'] "k/x".toList [])),
    (.zero, .call (.put ['b'] "kk".toList [])), (⟨2000⟩, .call (.delete ['b'] "kk".toList)),
    (⟨2000⟩, .call (.put ['b'] "k/x".toList []))]

theorem crowded_keys_captured :
    let t := (crowdedKeys.run lagging).2
    let batch : Call := .deleteBatch ['b'] ["k/x".toList, ['k']]
    let x : Summary := ⟨['b'], ['k'], 0, "00000000".toList, .zero, "STANDARD".toList⟩
    Stale.create (Memory.withBucket ['b']) (.delayAll (.ofMillis 1000)) (.ofSeed 0) = .ok lagging ∧
      ['b'] ∈ t.backend.buckets ∧ t.selected batch.keys = ["k/x".toList, ['k']] ∧
      t.visible? ⟨2500⟩ ['b'] ['k'] = some x ∧ t.visible? ⟨2500⟩ ['b'] "k/x".toList = none ∧
      ∃ r u, batch.perform ⟨2500⟩ t = (.ok r, u) ∧ u.delays.deletes[['k']]? = some ⟨⟨2500⟩, some x⟩ ∧
        u.delays.deletes["k/x".toList]? = some ⟨⟨2500⟩, none⟩ := by
  intro t batch x
  have created : Stale.create (Memory.withBucket ['b']) (.delayAll (.ofMillis 1000)) (.ofSeed 0) = .ok lagging := rfl
  have there : ['b'] ∈ t.backend.buckets := by decide +kernel
  have selected : t.selected batch.keys = ["k/x".toList, ['k']] := by decide +kernel
  have shown : t.visible? ⟨2500⟩ ['b'] ['k'] = some x := by decide +kernel
  have hidden : t.visible? ⟨2500⟩ ['b'] "k/x".toList = none := by decide +kernel
  have performed : batch.perform ⟨2500⟩ t = (.ok (.batch ⟨["k/x".toList, ['k']], []⟩), (batch.perform ⟨2500⟩ t).2) :=
    Action.eq_of_toOption (by decide +kernel)
  have captures : ∀ key ∈ ["k/x".toList, ['k']],
      (batch.perform ⟨2500⟩ t).2.delays.deletes[key]? = some ⟨⟨2500⟩, t.visible? ⟨2500⟩ ['b'] key⟩ := by
    intro key member
    have name : key ≠ [] ∧ key.getLast? ≠ some Path.separator := by
      revert key
      decide
    rcases delete_captures_last_visible created crowdedKeys name.1 name.2 there (.among member)
      (selected ▸ member) with ⟨n, u, throttled⟩ | ⟨r, u, deleted, captured⟩
    · rw [performed] at throttled
      cases throttled
    · rw [deleted]
      exact captured
  refine ⟨created, there, selected, shown, hidden, _, _, performed, ?_, ?_⟩
  · rw [captures ['k'] (by simp), shown]
  · rw [captures "k/x".toList (by simp), hidden]

end Timeline
end StaleStore
