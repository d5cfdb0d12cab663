import StaleStore.Proofs.Stale.Checks

namespace StaleStore
namespace Stale

variable (now : Timestamp) {bucket : Text} (key : Text) {s : Stale Memory} {o : Bucket}

def Stops {α : Type} (x : Action (Stale Memory) α) (s : Stale Memory) : Prop :=
  ∃ t, s.Throttled t ∧ x s = (.error (.throttled (s.throttle.count + 1)), t)

theorem Stops.map {α β : Type} {x : Action (Stale Memory) α} (f : α → β) (stops : Stops x s) : Stops (x.map f) s := by
  obtain ⟨t, throttled, stopped⟩ := stops
  exact ⟨t, throttled, (map_error f x).mpr stopped⟩

theorem Fails.stops {c : Call} (fails : s.Fails) (checked : c.isChecked = true) : Stops (c.perform now) s := by
  obtain ⟨budget, draws, failed⟩ := fails
  obtain ⟨rest, -, split⟩ := Call.perform_of_checked (σ := Memory) now checked
  rw [split]
  exact ⟨_, ⟨budget, draws, _, rfl⟩, Action.bind_of_error failed⟩

theorem not_stops {c : Call} (never : s.throttle.probability.isNonPositive = true) : ¬ Stops (c.perform now) s := by
  rintro ⟨t, ⟨-, draws, stats, rfl⟩, stopped⟩
  have kept := (c.perform_of_not_injected now (c.injected?_of_never never)).1
  rw [stopped] at kept
  have count := congrArg (·.count) kept
  simp at count

theorem list_answers (r : ListRequest) (stored : s.backend.buckets[r.bucket]? = some o) :
    Stops (list now r) s ∨ ∃ draws stats, list now r s = (.ok (s.listing now o r), { s with
      delays := s.delays.purge s.rules.window now
      draws := draws
      stats := stats }) := by
  refine (afterThrottle_cases (listUnchecked now r) s).imp_right fun passes => ?_
  obtain ⟨draws, stats, passed⟩ := passes
  obtain ⟨stats', listed⟩ :=
    listUnchecked_of_stored now r (s := { s with draws := draws, stats := stats }) stored
  exact ⟨draws, stats', passed.trans listed⟩

variable (certain : s.rules.probability = .one)
include certain

theorem put_certain (data : Bytes) (stored : s.backend.buckets[bucket]? = some o) :
    Stops (put now bucket key data) s ∨
    ∃ draws stats, put now bucket key data s = (.ok (Checksum.tag data), { s with
      backend := { s.backend with
        buckets := s.backend.buckets.insert bucket (o.insert key ⟨data, Checksum.tag data, now⟩) }
      delays := if s.rules.isEligible key then s.delays.recordPut now key else s.delays
      draws := draws
      stats := stats }) := by
  refine (afterThrottle_cases _ s).imp_right fun passes => ?_
  obtain ⟨draws, stats, passed⟩ := passes
  let t : Stale Memory := { s with
    backend := { s.backend with
      buckets := s.backend.buckets.insert bucket (o.insert key ⟨data, Checksum.tag data, now⟩) }
    draws := draws
    stats := stats }
  have puts : onBackend (ObjectStore.put now bucket key data) { s with draws := draws, stats := stats }
      = (.ok _, t) :=
    onBackend_eq (Memory.put_of_stored now key data stored)
  have chose : chooseDelay key t = (.ok (s.rules.isEligible key), t) := chooseDelay_certain key certain
  refine ⟨draws, if s.rules.isEligible key then { stats with delayedPuts := stats.delayedPuts + 1 } else stats, ?_⟩
  refine passed.trans ?_
  rw [Action.bind_of_ok puts, Action.bind_of_ok chose]
  dsimp only
  split <;> rfl

theorem delete_certain (stored : s.backend.buckets[bucket]? = some o) :
    Stops (delete now bucket key) s ∨
    ∃ draws stats, delete now bucket key s = (.ok (), { s with
      backend := { s.backend with buckets := s.backend.buckets.insert bucket (o.erase key) }
      delays := if s.rules.isEligible key then
          (s.delays.purge s.rules.window now).recordDelete now key (s.captured now bucket key o)
        else s.delays
      draws := draws
      stats := stats }) := by
  refine (afterThrottle_cases _ s).imp_right fun passes => ?_
  obtain ⟨draws, stats, passed⟩ := passes
  obtain ⟨stats', deletes⟩ := delete_unchecked now bucket key (s := { s with draws := draws, stats := stats }) stored
  rw [DelayRules.delays_certain certain] at deletes
  exact ⟨draws, stats', passed.trans deletes⟩

theorem deleteBatch_certain {keys : List Text} (nonempty : keys ≠ [])
    (stored : s.backend.buckets[bucket]? = some o) :
    Stops (deleteBatch now bucket keys) s ∨
    ∃ base draws stats, (base = s.delays ∨ base = s.delays.purge s.rules.window now) ∧
      deleteBatch now bucket keys s = (.ok ⟨keys, []⟩, { s with
        backend := { s.backend with buckets := s.backend.buckets.insert bucket (keys.foldl (·.erase ·) o) }
        delays := (keys.filter s.rules.isEligible).foldl
          (fun d k => d.recordDelete now k (s.captured now bucket k o)) base
        draws := draws
        stats := stats }) := by
  refine (afterThrottle_cases _ s).imp_right fun passes => ?_
  obtain ⟨draws, stats, passed⟩ := passes
  obtain ⟨base, stats', kept, deletes⟩ :=
    deleteBatch_unchecked now bucket (s := { s with draws := draws, stats := stats }) nonempty stored
  rw [DelayRules.choose_certain certain] at deletes
  exact ⟨base, draws, stats', kept, passed.trans deletes⟩

end Stale
end StaleStore
