import StaleStore.Proofs.Stale.Certain
import StaleStore.Proofs.Stale.Failures
import StaleStore.Proofs.Store.Contents

namespace StaleStore

inductive Call.Deletes (bucket key : Text) : Call → Prop where
  | alone : Deletes bucket key (.delete bucket key)
  | among {keys} : key ∈ keys → Deletes bucket key (.deleteBatch bucket keys)

namespace Call

open Stale

variable {now : Timestamp} {bucket key : Text} {s : Stale Memory} {o : Bucket} {c : Call}

theorem Deletes.mem_keys (deletes : c.Deletes bucket key) : key ∈ c.keys := by
  cases deletes with
  | alone => exact List.mem_singleton_self key
  | among own => exact own

theorem Deletes.isChecked (deletes : c.Deletes bucket key) : c.isChecked = true := by
  cases deletes <;> rfl

theorem Deletes.outcome (now : Timestamp) (deletes : c.Deletes bucket key)
    (stored : s.backend.buckets[bucket]? = some o) :
    Stops (c.perform now) s ∨ ∃ r t o', c.perform now s = (.ok r, t) ∧ t.throttle = s.throttle ∧
      t.backend.buckets[bucket]? = some o' ∧ o'[key]? = none ∧
      (key ∈ s.selected c.keys → t.delays.deletes[key]? = some ⟨now, s.captured now bucket key o⟩) := by
  rcases passes_or_fails s with ⟨draws, passed⟩ | fails
  · right
    let t : Stale Memory :=
      { s with draws := draws, stats := { s.stats with operations := s.stats.operations + 1 } }
    have passed : checkThrottle s = (.ok (), t) := passed
    have here : t.backend.buckets[bucket]? = some o := stored
    cases deletes with
    | alone =>
      obtain ⟨stats, deletes⟩ := delete_unchecked now bucket key here
      have performed : Stale.delete now bucket key s = (.ok (), _) := (Action.bind_of_ok passed).trans deletes
      refine ⟨.deleted, _, o.erase key, (map_ok _ _).mpr ⟨(), performed, rfl⟩, rfl, ?_, by simp, ?_⟩
      · exact Std.ExtTreeMap.getElem?_insert_self
      · intro chosen
        have delayed : (t.rules.delays t.delay_isNaN_eq_false key t.draws).1 = true := by
          simpa [keys, Stale.selected, passed, DelayRules.choose] using chosen
        rw [delayed, if_pos rfl, DelayRecord.recordDelete_deletes, if_pos rfl]
        rfl
    | @among keys own =>
      obtain ⟨base, stats, -, deletes⟩ := deleteBatch_unchecked now bucket (List.ne_nil_of_mem own) here
      have performed : Stale.deleteBatch now bucket keys s = (.ok ⟨keys, []⟩, _) :=
        (Action.bind_of_ok passed).trans deletes
      refine ⟨.batch ⟨keys, []⟩, _, keys.foldl (·.erase ·) o, (map_ok _ _).mpr ⟨_, performed, rfl⟩, rfl, ?_, ?_, ?_⟩
      · exact Std.ExtTreeMap.getElem?_insert_self
      · simp [Memory.erased_getElem?, own]
      · intro chosen
        rw [Call.keys, Stale.selected, passed] at chosen
        exact DelayRecord.recordDelete_each now base (fun k => s.captured now bucket k o) chosen
  · exact Or.inl (fails.stops now deletes.isChecked)

end Call
end StaleStore
