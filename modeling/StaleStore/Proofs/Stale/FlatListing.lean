import StaleStore.Proofs.Paths
import StaleStore.Proofs.Stale.Captures
import StaleStore.Proofs.Stale.Recount
import StaleStore.Proofs.Stale.Transparency

namespace StaleStore

namespace History

variable (h : History) (o : Bucket) (bucket : Text) (window : UInt64) (now : Timestamp) (key : Text)

def live? : Option Summary :=
  if (h.lastPut? key).all (Timestamp.isPast window now) then o[key]?.map (·.summary bucket key) else none

def left? : Option Summary :=
  ((h.lastDelete? key).filter fun d => !Timestamp.isPast window now d.deletedAt).bind (·.summary)

def shown? : Option Summary := (h.live? o bucket window now key).or (h.left? window now key)

-- A listing of the keys under a prefix shows no key twice, and of every key what is to be shown of it.
structure Explains (under : Text) (summaries : List Summary) : Prop where
  once : (summaries.map (·.key)).Nodup
  exact : ∀ x, x ∈ summaries ↔ ∃ key, under <+: key ∧ h.shown? o bucket window now key = some x

end History

namespace Recounts

variable {h : History} {window : UInt64} {now : Timestamp} {r : DelayRecord} {o : Bucket} {bucket key : Text}
  {x : Summary} {order : TableOrder}

theorem held_well (recounts : Recounts h (.ofMillis window) now r) :
    HeldWell (r.purge (.ofMillis window) now).heldDeletes where
  named := by
    intro key x held
    obtain ⟨d, kept, captured⟩ := DelayRecord.mem_heldDeletes.mp held
    rw [recounts.held_eq, Option.filter_eq_some_iff] at kept
    exact recounts.named kept.1 captured
  once := DelayRecord.heldDeletes_nodup

theorem live?_eq_some (recounts : Recounts h (.ofMillis window) now r) :
    h.live? o bucket window now key = some x ↔
      (∃ object, o[key]? = some object ∧ object.summary bucket key = x) ∧
        r.hides (.ofMillis window) now key = false := by
  have hidden : r.hides (.ofMillis window) now key = !(h.lastPut? key).all (Timestamp.isPast window now) := by
    rw [recounts.hides_eq]
    cases h.lastPut? key with
    | none => rfl
    | some madeAt => rw [Option.any_some, Option.all_some, Timestamp.hasElapsed_ofMillis]
  rw [hidden, Bool.not_eq_false', History.live?, ← Option.map_eq_some_iff]
  by_cases passed : (h.lastPut? key).all (Timestamp.isPast window now) = true
  · rw [if_pos passed]
    exact (and_iff_left passed).symm
  · rw [if_neg passed]
    exact ⟨nofun, fun both => absurd both.2 passed⟩

theorem left?_eq_some (recounts : Recounts h (.ofMillis window) now r) :
    h.left? window now key = some x ↔ (key, some x) ∈ (r.purge (.ofMillis window) now).heldDeletes := by
  rw [DelayRecord.mem_heldDeletes, recounts.held_eq, History.left?, Option.bind_eq_some_iff]
  simp only [Timestamp.hasElapsed_ofMillis]

theorem left?_key (recounts : Recounts h (.ofMillis window) now r) (left : h.left? window now key = some x) :
    x.key = key :=
  recounts.held_well.named (recounts.left?_eq_some.mp left)

theorem shown?_key (recounts : Recounts h (.ofMillis window) now r)
    (shown : h.shown? o bucket window now key = some x) : x.key = key := by
  rcases Option.or_eq_some_iff.mp shown with live | ⟨-, left⟩
  · obtain ⟨⟨object, -, rfl⟩, -⟩ := recounts.live?_eq_some.mp live
    rfl
  · exact recounts.left?_key left

theorem mem_overlaid_of_ended (recounts : Recounts h (.ofMillis window) now r) (bucket : Text) {under : Text}
    {delimiter : Option Text} {recursive : Bool} {maxKeys : Nat}
    (ended : (Page.ofBucket bucket o under delimiter none maxKeys).truncated = false)
    (agrees : ∀ {key x}, (key, some x) ∈ (r.purge (.ofMillis window) now).heldDeletes →
      (Path.isDescendant under key recursive = true ↔
        under <+: key ∧ Page.group? under delimiter key = none)) :
    x ∈ (overlay (r.hides (.ofMillis window) now) (order.arrange (r.purge (.ofMillis window) now).heldDeletes) under
        recursive (Page.ofBucket bucket o under delimiter none maxKeys).summaries
        (Page.ofBucket bucket o under delimiter none maxKeys).commonPrefixes).summaries ↔
      ∃ key, under <+: key ∧ Page.group? under delimiter key = none ∧
        h.shown? o bucket window now key = some x := by
  rw [mem_overlay_summaries (recounts.held_well.arrange order), TableOrder.mem_arrange]
  constructor
  · intro shows
    rcases shows with ⟨listed, shown⟩ | ⟨held, descends, absent⟩
    · obtain ⟨key, object, stored, lies, alone, rfl⟩ := (Page.mem_summaries_of_ended ended).mp listed
      refine ⟨key, lies, alone, ?_⟩
      rw [History.shown?, recounts.live?_eq_some.mpr ⟨⟨object, stored, rfl⟩, shown⟩, Option.some_or]
    · obtain ⟨lies, alone⟩ := (agrees held).mp descends
      refine ⟨x.key, lies, alone, ?_⟩
      have notLive : h.live? o bucket window now x.key = none := by
        cases live : h.live? o bucket window now x.key with
        | none => rfl
        | some y =>
          obtain ⟨⟨object, stored, rfl⟩, shown⟩ := recounts.live?_eq_some.mp live
          have hidden := absent _ ((Page.mem_summaries_of_ended ended).mpr ⟨_, object, stored, lies, alone, rfl⟩) rfl
          rw [hidden] at shown
          cases shown
      rw [History.shown?, notLive, Option.none_or]
      exact recounts.left?_eq_some.mpr held
  · intro told
    obtain ⟨key, lies, alone, shown⟩ := told
    rcases Option.or_eq_some_iff.mp shown with live | ⟨notLive, left⟩
    · obtain ⟨⟨object, stored, rfl⟩, shows⟩ := recounts.live?_eq_some.mp live
      exact Or.inl ⟨(Page.mem_summaries_of_ended ended).mpr ⟨key, object, stored, lies, alone, rfl⟩, shows⟩
    · have held := recounts.left?_eq_some.mp left
      cases recounts.left?_key left
      refine Or.inr ⟨held, (agrees held).mpr ⟨lies, alone⟩, fun y listed same => ?_⟩
      obtain ⟨key, object, stored, -, -, rfl⟩ := (Page.mem_summaries_of_ended ended).mp listed
      cases hidden : r.hides (.ofMillis window) now x.key with
      | true => rfl
      | false =>
        cases same
        have live : h.live? o bucket window now x.key = some (object.summary bucket x.key) :=
          recounts.live?_eq_some.mpr ⟨⟨object, stored, rfl⟩, hidden⟩
        rw [notLive] at live
        cases live

theorem mem_overlaid (recounts : Recounts h (.ofMillis window) now r) (bucket : Text) {under : Text}
    {delimiter : Option Text} {recursive : Bool} {maxKeys : Nat} (fits : Page.storedUnder under o ≤ maxKeys)
    (agrees : ∀ {key x}, (key, some x) ∈ (r.purge (.ofMillis window) now).heldDeletes →
      (Path.isDescendant under key recursive = true ↔
        under <+: key ∧ Page.group? under delimiter key = none)) :
    x ∈ (overlay (r.hides (.ofMillis window) now) (order.arrange (r.purge (.ofMillis window) now).heldDeletes) under
        recursive (Page.ofBucket bucket o under delimiter none maxKeys).summaries
        (Page.ofBucket bucket o under delimiter none maxKeys).commonPrefixes).summaries ↔
      ∃ key, under <+: key ∧ Page.group? under delimiter key = none ∧
        h.shown? o bucket window now key = some x :=
  recounts.mem_overlaid_of_ended bucket (Page.ofBucket_of_room fits delimiter none).1 agrees

theorem explains (recounts : Recounts h (.ofMillis window) now r) (order : TableOrder) (bucket : Text) {under : Text}
    {maxKeys : Nat} (whole : under = [] ∨ under.getLast? = some Path.separator) (fits : Page.storedUnder under o ≤ maxKeys) :
    h.Explains o bucket window now under
      (overlay (r.hides (.ofMillis window) now) (order.arrange (r.purge (.ofMillis window) now).heldDeletes) under true
        (Page.ofBucket bucket o under none none maxKeys).summaries
        (Page.ofBucket bucket o under none none maxKeys).commonPrefixes).summaries where
  once := overlay_keys_nodup (Page.summaries_once fits none)
  exact x := by
    have agrees : ∀ key, Path.isDescendant under key true = true ↔
        under <+: key ∧ Page.group? under none key = none := by
      intro key
      rw [Path.isDescendant, if_pos rfl, Path.isBelow_iff whole]
      exact (and_iff_left rfl).symm
    rw [recounts.mem_overlaid bucket fits fun {key _} _ => agrees key]
    exact exists_congr fun key => and_congr_right fun _ => and_iff_right rfl

theorem captured_eq {s : Stale Memory} (recounts : Recounts h (.ofMillis window) now s.delays)
    (windowed : s.rules.window = .ofMillis window) (outside : Path.isBelow key key = false) :
    s.captured now bucket key o = h.live? o bucket window now key := by
  have well : HeldWell (s.delays.purge s.rules.window now).heldDeletes := windowed ▸ recounts.held_well
  apply Option.ext
  intro x
  rw [Stale.captured_eq_some well, recounts.live?_eq_some, Stale.ShowsStored, windowed]
  apply or_iff_left
  intro back
  have below := back.2.1
  rw [outside] at below
  cases below

end Recounts

theorem Step.perform_keeps {bucket : Text} {s : Stale Memory} (now : Timestamp) (step : Step)
    (there : bucket ∈ s.backend.buckets) : bucket ∈ (step.perform now s).2.backend.buckets := by
  rcases step.perform_agrees now s with ⟨-, kept⟩ | ⟨-, -, plain⟩
  · rw [kept]
    exact there
  · rw [plain]
    cases step with
    | call c => exact (Proper.perform now c).keepsBuckets s.backend bucket there
    | createBucket other => exact Memory.createBucket_keeps other there
    | clear => exact there
    | resetStats => exact there
    | setFailureLimit limit => exact there
    | setThrottleProbability p => exact there
    | reorder order => exact there

theorem Timeline.run_keeps {bucket : Text} {s : Stale Memory} (timeline : Timeline)
    (there : bucket ∈ s.backend.buckets) : bucket ∈ (timeline.run s).2.backend.buckets := by
  induction timeline generalizing s with
  | nil => exact there
  | cons entry rest ih => exact ih (entry.2.perform_keeps entry.1 there)

namespace Stale

def ThrottledOr {α : Type} (good : α → Prop) (result : Except StoreError α) : Prop :=
  (∃ n, result = .error (.throttled n)) ∨ ∃ a, result = .ok a ∧ good a

theorem afterThrottle {α : Type} {good : α → Prop} {rest : Action (Stale Memory) α} {s : Stale Memory}
    (answers : ∀ draws stats, ∃ a, (rest { s with draws := draws, stats := stats }).1 = .ok a ∧ good a) :
    ThrottledOr good ((do checkThrottle; rest : Action (Stale Memory) α) s).1 := by
  rcases afterThrottle_cases rest s with ⟨t, -, failed⟩ | ⟨draws, stats, passed⟩
  · rw [failed]
    exact Or.inl ⟨_, rfl⟩
  · rw [passed]
    exact Or.inr (answers draws stats)

end Stale

namespace Timeline

-- Whatever was done before, and whatever was throttled: from any store in memory that has the bucket, with any
-- settings that are accepted and any draws.
theorem flat_listing_shows_history {m : Memory} {settings : Settings} {draws : DrawStream} {s : Stale Memory}
    {bucket : Text} {timeline : Timeline} {now : Timestamp} (created : Stale.create m settings draws = .ok s)
    (made : bucket ∈ m.buckets) (ends : timeline.Until now) :
    let t := (timeline.run s).2
    ∃ o, t.backend.buckets[bucket]? = some o ∧
      ∀ (under : Text) (maxKeys : Nat), (under = [] ∨ under.getLast? = some Path.separator) →
        Page.storedUnder under o ≤ maxKeys →
        let good := (timeline.history s).Explains o bucket settings.delayMillis now under
        Stale.ThrottledOr (fun l => good l.summaries) (Stale.list now ⟨bucket, under, none, none, maxKeys⟩ t).1 ∧
        Stale.ThrottledOr (fun l => good l.summaries)
          (Stale.listTokens now ⟨bucket, under, none, none, none, maxKeys⟩ t).1 := by
  intro t
  have fresh := Stale.create_fresh created
  have there : bucket ∈ t.backend.buckets := run_keeps timeline (fresh.backend_eq ▸ made)
  have recounts : Recounts (timeline.history s) (.ofMillis settings.delayMillis) now t.delays ∧
      t.rules.window = .ofMillis settings.delayMillis := by
    have start : Recounts [] s.rules.window ⟨0⟩ s.delays := fresh.delays_eq ▸ .start _ _
    obtain ⟨rules, recounts⟩ := run_recounts start (fun _ _ => UInt64.zero_le) UInt64.zero_le ends
    rw [List.nil_append, fresh.rules_eq] at recounts
    exact ⟨recounts, congrArg (·.window) (rules.trans fresh.rules_eq)⟩
  obtain ⟨recounts, window⟩ := recounts
  refine ⟨t.backend.buckets[bucket], Std.ExtTreeMap.getElem?_eq_some_getElem there, ?_⟩
  intro under maxKeys whole fits good
  have explains := recounts.explains t.order bucket whole fits
  constructor
  · refine Stale.afterThrottle fun draws stats => ?_
    obtain ⟨_, listed⟩ := Stale.listUnchecked_of_stored now ⟨bucket, under, none, none, maxKeys⟩
      (s := { t with draws := draws, stats := stats }) (Std.ExtTreeMap.getElem?_eq_some_getElem there)
    rw [listed]
    refine ⟨_, rfl, ?_⟩
    rw [← window] at explains
    exact explains
  · refine Stale.afterThrottle fun draws stats => ?_
    obtain ⟨_, listed⟩ := Stale.listTokensUnchecked_of_stored now ⟨bucket, under, none, none, none, maxKeys⟩
      (s := { t with draws := draws, stats := stats }) (Std.ExtTreeMap.getElem?_eq_some_getElem there)
    rw [listed]
    refine ⟨_, rfl, ?_⟩
    rw [← window] at explains
    exact explains

theorem cleared_timeline_shows_history :
    let key := "d/DELAY_LISTING_ME".toList
    let timeline : Timeline :=
      [(.zero, .call (.put ['b'] key [])), (⟨10⟩, .call (.delete ['b'] key)), (⟨20⟩, .clear),
        (⟨20⟩, .call (.put ['b'] key [1])), (⟨6000⟩, .call (.list (.recursive ['b'] []))),
        (⟨6000⟩, .call (.deleteBatch ['b'] [key, ['d']])), (⟨7000⟩, .call (.put ['b'] key [2]))]
    ∃ s, Stale.create (Memory.withBucket ['b']) .defaults (.ofSeed 0) = .ok s ∧
      ['b'] ∈ (Memory.withBucket ['b']).buckets ∧ timeline.Until ⟨8000⟩ ∧
      let t := (timeline.run s).2
      ∃ o, t.backend.buckets[['b']]? = some o ∧
        ∀ (under : Text) (maxKeys : Nat), (under = [] ∨ under.getLast? = some Path.separator) →
          Page.storedUnder under o ≤ maxKeys →
          let good := (timeline.history s).Explains o ['b'] Settings.defaults.delayMillis ⟨8000⟩ under
          Stale.ThrottledOr (fun l => good l.summaries) (Stale.list ⟨8000⟩ ⟨['b'], under, none, none, maxKeys⟩ t).1 ∧
          Stale.ThrottledOr (fun l => good l.summaries)
            (Stale.listTokens ⟨8000⟩ ⟨['b'], under, none, none, none, maxKeys⟩ t).1 := by
  intro key timeline
  obtain ⟨s, created⟩ :=
    Stale.create_of_probabilities (Memory.withBucket ['b']) .defaults (.ofSeed 0) (by decide) (by decide)
  have made : ['b'] ∈ (Memory.withBucket ['b']).buckets := by decide
  have ends : timeline.Until ⟨8000⟩ := ⟨by decide, by decide⟩
  exact ⟨s, created, made, ends, flat_listing_shows_history created made ends⟩

end Timeline
end StaleStore
