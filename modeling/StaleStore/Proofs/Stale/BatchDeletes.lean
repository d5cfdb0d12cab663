import StaleStore.Proofs.Stale.Alike
import StaleStore.Proofs.Stale.Captures
import StaleStore.Proofs.Stale.Pages

namespace StaleStore

theorem DelayRecord.recordDeletes_congr {window : Span} {now next : Timestamp} {r q : DelayRecord}
    (same : q.purge window next = r.purge window next) (captured : Text → Option Summary) (keys : List Text) :
    (keys.foldl (fun d k => d.recordDelete now k (captured k)) q).purge window next
      = (keys.foldl (fun d k => d.recordDelete now k (captured k)) r).purge window next := by
  induction keys generalizing q r with
  | nil => exact same
  | cons key rest ih => exact ih (recordDelete_congr same key (captured key))

namespace Stale

def deleted (now : Timestamp) (bucket : Text) (o : Bucket) (keys : List Text) (s : Stale Memory) : Stale Memory :=
  let chosen := s.rules.choose s.delay_isNaN_eq_false keys s.draws
  { s with
    backend := { s.backend with buckets := s.backend.buckets.insert bucket (keys.foldl (·.erase ·) o) }
    delays := chosen.1.foldl (fun d k => d.recordDelete now k (s.captured now bucket k o)) s.delays
    draws := chosen.2 }

def withDraws (stream : DrawStream) (s : Stale Memory) : Stale Memory := { s with draws := stream }

variable {now : Timestamp} {bucket key : Text} {keys rest : List Text} {s t : Stale Memory} {o : Bucket}

theorem deleted_nil (stored : s.backend.buckets[bucket]? = some o) : s.deleted now bucket o [] = s := by
  have same : s.backend.buckets.insert bucket o = s.backend.buckets := by
    apply Std.ExtTreeMap.ext_getElem?
    intro other
    rw [Std.ExtTreeMap.getElem?_insert]
    split
    · rename_i own
      rw [← stored, Std.LawfulEqOrd.compare_eq_iff_eq.mp own]
    · rfl
  simp [deleted, DelayRules.choose, same]

theorem deleted_alike (alike : Alike now s t) :
    Alike now (s.deleted now bucket o keys) (t.deleted now bucket o keys) := by
  obtain ⟨delays, stats, rfl, same⟩ := alike
  refine ⟨_, stats, rfl, ?_⟩
  have captures : ∀ k,
      captured now bucket k o { s with delays := delays, stats := stats } = s.captured now bucket k o :=
    fun k => captured_congr now bucket k rfl rfl same
  simp only [deleted, captures]
  exact DelayRecord.recordDeletes_congr same _ _

theorem deleted_one_delays (now : Timestamp) (bucket key : Text) (o : Bucket) (s : Stale Memory) :
    (s.deleted now bucket o [key]).delays = s.delays ∨
      (s.deleted now bucket o [key]).delays = s.delays.recordDelete now key (s.captured now bucket key o) := by
  simp only [deleted, DelayRules.choose]
  split
  · exact Or.inr rfl
  · exact Or.inl rfl

theorem deleted_one_named (named : s.delays.Named) : (s.deleted now bucket o [key]).delays.Named := by
  rcases deleted_one_delays now bucket key o s with same | same
  · rw [same]
    exact named
  · have own : ∀ {k madeAt x}, DelayEvent.delete key now (s.captured now bucket key o) = .delete k madeAt (some x) →
        x.key = k := by
      intro k madeAt x recorded
      injection recorded with sameKey _ captures
      exact sameKey ▸ captured_key now bucket key captures
    rw [same]
    exact named.enter own

theorem captured_after_delete {k : Text} (named : s.delays.Named) (apart : k ≠ key) :
    (s.deleted now bucket o [key]).captured now bucket k (o.erase key) = s.captured now bucket k o := by
  have delays := deleted_one_delays now bucket key o s
  apply captured_alone named.purge.held_well (deleted_one_named named).purge.held_well
  · rw [Std.ExtTreeMap.getElem?_erase]
    simp [apart.symm]
  · show (s.deleted now bucket o [key]).delays.hides s.rules.window now k = _
    rcases delays with same | same
    · rw [same]
    · rw [same]
      rfl
  · show ((s.deleted now bucket o [key]).delays.purge s.rules.window now).deletes[k]? = _
    rcases delays with same | same
    · rw [same]
    · rw [same, DelayRecord.purge_deletes, DelayRecord.purge_deletes, DelayRecord.recordDelete_deletes,
        if_neg apart.symm]

theorem deleted_cons (named : s.delays.Named) (apart : key ∉ rest) :
    (s.deleted now bucket o [key]).deleted now bucket (o.erase key) rest = s.deleted now bucket o (key :: rest) := by
  let drawn := s.rules.delays s.delay_isNaN_eq_false key s.draws
  let chosen := s.rules.choose s.delay_isNaN_eq_false rest drawn.2
  let later := s.deleted now bucket o [key]
  let left := rest.foldl (·.erase ·) (o.erase key)
  have buckets : (s.backend.buckets.insert bucket (o.erase key)).insert bucket left
      = s.backend.buckets.insert bucket left := by
    apply Std.ExtTreeMap.ext_getElem?
    intro other
    simp only [Std.ExtTreeMap.getElem?_insert]
    split <;> rfl
  have captures : chosen.1.foldl (fun d k => d.recordDelete now k (later.captured now bucket k (o.erase key)))
        later.delays
      = chosen.1.foldl (fun d k => d.recordDelete now k (s.captured now bucket k o)) later.delays := by
    apply List.foldl_ext
    intro d k chose
    have apart : k ≠ key := by
      rintro rfl
      exact apart ((DelayRules.choose_sublist ..).subset chose)
    rw [captured_after_delete named apart]
  calc later.deleted now bucket (o.erase key) rest
    _ = { s with
          backend := { s.backend with buckets := (s.backend.buckets.insert bucket (o.erase key)).insert bucket left }
          delays := chosen.1.foldl (fun d k => d.recordDelete now k (later.captured now bucket k (o.erase key)))
            later.delays
          draws := chosen.2 } := rfl
    _ = { s with
          backend := { s.backend with buckets := s.backend.buckets.insert bucket left }
          delays := chosen.1.foldl (fun d k => d.recordDelete now k (s.captured now bucket k o)) later.delays
          draws := chosen.2 } := by rw [buckets, captures]
    _ = s.deleted now bucket o (key :: rest) := by
      simp only [later, deleted, DelayRules.choose]
      split <;> rfl

variable (now) (never : s.throttle.probability.isNonPositive = true) (stored : s.backend.buckets[bucket]? = some o)
include never stored

theorem passes_alike :
    ∃ t, checkThrottle s = (.ok (), t) ∧ Alike now s t ∧ t.backend.buckets[bucket]? = some o :=
  ⟨_, checkThrottle_of_never never, ⟨s.delays, _, rfl, rfl⟩, stored⟩

theorem delete_alike (key : Text) :
    ∃ u, delete now bucket key s = (.ok (), u) ∧ Alike now (s.deleted now bucket o [key]) u := by
  obtain ⟨t, passed, alike, stored⟩ := passes_alike now never stored
  obtain ⟨stats, deletes⟩ := delete_unchecked now bucket key stored
  refine ⟨_, (Action.bind_of_ok passed).trans deletes, (deleted_alike alike).trans ⟨_, stats, rfl, ?_⟩⟩
  simp only [deleted, DelayRules.choose]
  split
  · exact DelayRecord.recordDelete_congr (DelayRecord.purge_purge _ _ _) key _
  · rfl

theorem deleteBatch_alike (nonempty : keys ≠ []) :
    ∃ u, deleteBatch now bucket keys s = (.ok ⟨keys, []⟩, u) ∧ Alike now (s.deleted now bucket o keys) u := by
  obtain ⟨t, passed, alike, stored⟩ := passes_alike now never stored
  obtain ⟨base, stats, kept, deletes⟩ := deleteBatch_unchecked now bucket nonempty stored
  refine ⟨_, (Action.bind_of_ok passed).trans deletes, (deleted_alike alike).trans ⟨_, stats, rfl, ?_⟩⟩
  apply DelayRecord.recordDeletes_congr
  rcases kept with rfl | rfl
  · rfl
  · exact DelayRecord.purge_purge _ _ _

theorem deletes_alike (named : s.delays.Named) (once : keys.Nodup) :
    let singles := Timeline.run (keys.map fun key => (now, .call (.delete bucket key))) s
    singles.1 = keys.map (fun _ => .replied (.ok .deleted)) ∧ Alike now (s.deleted now bucket o keys) singles.2 := by
  induction keys generalizing s o with
  | nil =>
    refine ⟨rfl, ?_⟩
    rw [deleted_nil stored]
    exact .refl s
  | cons key rest ih =>
    obtain ⟨apart, once⟩ := List.nodup_cons.mp once
    obtain ⟨u, deletes, alike⟩ := delete_alike now never stored key
    have performed : (Step.call (.delete bucket key)).perform now s = (.replied (.ok .deleted), u) := by
      have replied : (Call.delete bucket key).perform now s = (.ok .deleted, u) :=
        (map_ok _ _).mpr ⟨(), deletes, rfl⟩
      rw [Step.perform, replied]
    have namedLater : u.delays.Named := by
      have later : ((Step.call (.delete bucket key)).perform now s).2.delays.Named := Step.perform_named _ named
      rwa [performed] at later
    have neverLater : u.throttle.probability.isNonPositive = true := alike.throttle ▸ never
    have storedLater : u.backend.buckets[bucket]? = some (o.erase key) := by
      rw [alike.backend]
      exact Std.ExtTreeMap.getElem?_insert_self
    obtain ⟨outcomes, left⟩ := ih neverLater storedLater namedLater once
    dsimp only
    rw [List.map_cons, Timeline.run, performed]
    refine ⟨congrArg (_ :: ·) outcomes, ?_⟩
    rw [← deleted_cons named apart]
    exact (deleted_alike alike).trans left

end Stale

namespace Timeline

-- The batch looks at all objects before it deletes any, and each single delete finds them as the ones before have left
-- them. But what is captured for a key does not depend on other keys, and the draws come in the same order.
theorem batch_deletes_like_singles {m : Memory} {settings : Settings} {draws : DrawStream} {s : Stale Memory}
    {now : Timestamp} {bucket : Text} {keys : List Text} (created : Stale.create m settings draws = .ok s)
    (timeline : Timeline) (stream : DrawStream) :
    let t := (timeline.run s).2.withDraws stream
    t.throttle.probability.isNonPositive = true → bucket ∈ t.backend.buckets → keys ≠ [] → keys.Nodup →
    let batch := (Step.call (.deleteBatch bucket keys)).perform now t
    let singles := run (keys.map fun key => (now, .call (.delete bucket key))) t
    batch.1 = .replied (.ok (.batch ⟨keys, []⟩)) ∧ singles.1 = keys.map (fun _ => .replied (.ok .deleted)) ∧
      Stale.Agree now singles.2 batch.2 := by
  intro t never there nonempty once batch singles
  have named : t.delays.Named := timeline.run_named (.of_empty (Stale.create_fresh created).delays_eq)
  have stored : t.backend.buckets[bucket]? = some t.backend.buckets[bucket] :=
    Std.ExtTreeMap.getElem?_eq_some_getElem there
  obtain ⟨u, deletes, whole⟩ := Stale.deleteBatch_alike now never stored nonempty
  obtain ⟨outcomes, each⟩ := Stale.deletes_alike now never stored named once
  have performed : batch = (.replied (.ok (.batch ⟨keys, []⟩)), u) := by
    have replied : (Call.deleteBatch bucket keys).perform now t = (.ok (.batch ⟨keys, []⟩), u) :=
      (Stale.map_ok _ _).mpr ⟨_, deletes, rfl⟩
    simp only [batch, Step.perform, replied]
  have alike : Stale.Alike now singles.2 u := each.symm.trans whole
  rw [performed]
  exact ⟨rfl, outcomes, alike.agree⟩

-- A key, the key with a slash behind it, which was deleted before and is still listed, and a key below.
def nestedKeys : Timeline :=
  [(.zero, .call (.put ['b'] ['a'] [])), (.zero, .call (.put ['b'] "a/".toList [])),
    (.zero, .call (.put ['b'] "a/b".toList [])), (⟨2000⟩, .call (.delete ['b'] "a/".toList))]

theorem nested_batch_like_singles :
    let t := (nestedKeys.run lagging).2.withDraws (.ofSeed 7)
    let keys := ["a/b".toList, "a/".toList, ['a']]
    let batch := (Step.call (.deleteBatch ['b'] keys)).perform ⟨2500⟩ t
    let singles := run (keys.map fun key => (⟨2500⟩, .call (.delete ['b'] key))) t
    Stale.create (Memory.withBucket ['b']) (.delayAll (.ofMillis 1000)) (.ofSeed 0) = .ok lagging ∧
      t.throttle.probability.isNonPositive = true ∧ ['b'] ∈ t.backend.buckets ∧ keys ≠ [] ∧ keys.Nodup ∧
      batch.2.delays.pendingDeletes = 3 ∧
      batch.1 = .replied (.ok (.batch ⟨keys, []⟩)) ∧ singles.1 = keys.map (fun _ => .replied (.ok .deleted)) ∧
      Stale.Agree ⟨2500⟩ singles.2 batch.2 := by
  intro t keys batch singles
  have created : Stale.create (Memory.withBucket ['b']) (.delayAll (.ofMillis 1000)) (.ofSeed 0) = .ok lagging := rfl
  have never : t.throttle.probability.isNonPositive = true := by decide +kernel
  have there : ['b'] ∈ t.backend.buckets := by decide +kernel
  have nonempty : keys ≠ [] := by decide
  have once : keys.Nodup := by decide +kernel
  have held : batch.2.delays.pendingDeletes = 3 := by decide +kernel
  exact ⟨created, never, there, nonempty, once, held,
    batch_deletes_like_singles created nestedKeys (.ofSeed 7) never there nonempty once⟩

end Timeline
end StaleStore
