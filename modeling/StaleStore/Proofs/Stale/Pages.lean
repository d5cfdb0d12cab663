import StaleStore.Proofs.Stale.Overlay
import StaleStore.Proofs.Stale.Queries
import StaleStore.Proofs.Stale.Recount
import StaleStore.Proofs.Store.Paging

namespace StaleStore

namespace DelayRecord

structure Named (r : DelayRecord) : Prop where
  own : ∀ {key : Text} {d : DelayedDelete} {x : Summary}, r.deletes[key]? = some d → d.summary = some x → x.key = key

variable {r : DelayRecord} {window : Span} {now : Timestamp}

theorem Named.of_empty (fresh : r = .empty) : r.Named := by
  subst fresh
  exact ⟨fun held => by simp [empty] at held⟩

theorem Named.purge (named : r.Named) : (r.purge window now).Named := by
  refine ⟨fun {key d x} held captured => ?_⟩
  rw [purge_deletes, Option.filter_eq_some_iff] at held
  exact named.own held.1 captured

theorem Named.enter {event : DelayEvent} (named : r.Named)
    (own : ∀ {key madeAt x}, event = .delete key madeAt (some x) → x.key = key) : (event.enter r).Named := by
  cases event with
  | put key madeAt => exact ⟨named.own⟩
  | delete key madeAt captured =>
    refine ⟨fun {other d x} held summary => ?_⟩
    rw [DelayEvent.enter, recordDelete_deletes] at held
    by_cases same : key = other
    · rw [if_pos same] at held
      cases held
      cases summary
      exact (own rfl).trans same
    · rw [if_neg same] at held
      exact named.own held summary
  | cleared =>
    refine ⟨fun {key d x} held => ?_⟩
    simp [DelayEvent.enter, empty] at held

theorem Named.held_well (named : r.Named) : HeldWell r.heldDeletes where
  named := by
    intro key x member
    obtain ⟨d, held, captured⟩ := mem_heldDeletes.mp member
    exact named.own held captured
  once := heldDeletes_nodup

end DelayRecord

theorem Step.perform_named {now : Timestamp} {s : Stale Memory} (step : Step) (named : s.delays.Named) :
    (step.perform now s).2.delays.Named :=
  step.perform_holds (P := fun _ r => r.Named) (h := []) DelayRecord.Named.purge
    (fun here named => named.enter fun same => Step.events_named (same ▸ here)) named

theorem Timeline.run_named {s : Stale Memory} (timeline : Timeline) (named : s.delays.Named) :
    (timeline.run s).2.delays.Named :=
  timeline.run_holds (P := fun _ r => r.Named) (h := []) (fun _ {_ _} named => named.purge)
    (fun here named => named.enter fun same => Timeline.history_named (same ▸ here)) named

namespace Query

inductive Walk (now : Timestamp) : Stale Memory → Query → List View → Prop where
  | last {s t q v} : q.ask now s = (.ok v, t) → v.truncated = false → Walk now s q [v]
  | more {s t q v entry views} : q.ask now s = (.ok v, t) → v.truncated = true → v.next = some entry →
      Walk now t (q.after entry) views → Walk now s q (v :: views)

def form : Paging.Form Query View where
  ask q := do
    let o ← Memory.objects q.bucket
    return q.page o
  truncated := (·.truncated)
  summaries := (·.summaries)
  commonPrefixes := (·.commonPrefixes)
  resume q v := v.next.map q.after

theorem form_ask {q : Query} {m : Memory} {o : Bucket} (stored : m.buckets[q.bucket]? = some o) :
    form.ask q m = (.ok (q.page o), m) :=
  Action.bind_of_ok (Memory.objects_of_stored stored)

theorem form_paged {m : Memory} {bucket : Text} {o : Bucket} (under : Text) (delimiter : Option Text) (room : Nat)
    (stored : m.buckets[bucket]? = some o) :
    Paging.Pages form m room
      (fun q => q.bucket = bucket ∧ q.under = under ∧ q.delimiter = delimiter ∧ q.maxKeys = room)
      (fun q => Page.wholeListing bucket o under delimiter q.start) where
  answers := by
    rintro q ⟨rfl, rfl, rfl, rfl⟩
    refine ⟨_, form_ask stored, ?_⟩
    simp only [form, page, Page.ofBucket_eq, and_self]
  resumes := by
    rintro q v front last rest ⟨rfl, rfl, rfl, rfl⟩ asked split full more
    rw [form_ask stored] at asked
    cases asked
    refine ⟨q.after last.name, ?_, by simp, ?_⟩
    · simp [form, page, Page.ofBucket_eq, split, Page.ofEntries_next full more]
    · rw [after_start]
      exact Page.wholeListing_resume split

variable {now : Timestamp} {s : Stale Memory} {q : Query} {o : Bucket} {views : List View}

-- Page by page the walks go alike, since a listing changes nothing that the next one looks at.
theorem Walk.plain (walk : Walk now s q views) (never : s.throttle.probability.isNonPositive = true)
    (stored : s.backend.buckets[q.bucket]? = some o) :
    ∃ plain, Paging.Walk form s.backend q plain ∧ views = plain.map (q.laid now s) := by
  induction walk with
  | @last s t q v asked ended =>
    obtain ⟨stats, answered⟩ := ask_of_stored now never stored
    rw [answered] at asked
    cases asked
    exact ⟨[q.page o], .last (form_ask stored) ended, rfl⟩
  | @more s t q v entry views asked cut goesOn walk ih =>
    obtain ⟨stats, answered⟩ := ask_of_stored now never stored
    rw [answered] at asked
    cases asked
    obtain ⟨plain, walked, laid⟩ := ih never (by simpa using stored)
    have resumed : form.resume q (q.page o) = some (q.after entry) := by
      have next : (q.page o).next = some entry := goesOn
      simp [form, next]
    refine ⟨q.page o :: plain, .more (form_ask stored) cut resumed walked, ?_⟩
    rw [laid, laid_after, laid_purged, List.map_cons]

theorem Walk.of_plain {plain : List View} {m : Memory} (walk : Paging.Walk form m q plain) (here : s.backend = m)
    (never : s.throttle.probability.isNonPositive = true) (stored : s.backend.buckets[q.bucket]? = some o) :
    Walk now s q (plain.map (q.laid now s)) := by
  induction walk generalizing s with
  | @last q v asked ended =>
    obtain ⟨stats, answered⟩ := ask_of_stored now never stored
    rw [← here, form_ask stored] at asked
    cases asked
    exact .last answered ended
  | @more q v next views asked cut goesOn walk ih =>
    obtain ⟨stats, answered⟩ := ask_of_stored now never stored
    rw [← here, form_ask stored] at asked
    cases asked
    obtain ⟨entry, resumed, rfl⟩ := Option.map_eq_some_iff.mp goesOn
    have rest := @ih { s with delays := s.delays.purge s.rules.window now, stats := stats } here never
      (by simpa using stored)
    rw [laid_after, laid_purged] at rest
    exact .more answered cut resumed rest

variable (q now s)

def Restores (key : Text) : Prop :=
  Path.isDescendant q.under key q.isRecursive = true ∧ ∃ d x, s.delays.deletes[key]? = some d ∧
    now.hasElapsed d.deletedAt s.rules.window = false ∧ d.summary = some x

def RollsUp (p : Text) : Prop :=
  ∃ key d, s.delays.deletes[key]? = some d ∧ now.hasElapsed d.deletedAt s.rules.window = false ∧
    OverlaidListing.prefixOf? q.under q.isRecursive key = some p

structure Reports (views : List View) (whole : View) : Prop where
  keysOnPage : ∀ v ∈ views, v.keys.Nodup
  prefixesOnPage : ∀ v ∈ views, v.commonPrefixes.Nodup
  restored : ∀ v ∈ views, ∀ key, q.Restores now s key → key ∈ v.keys
  others : ∀ key, ¬ q.Restores now s key → (views.flatMap View.keys).count key ≤ 1
  rolledUp : ∀ v ∈ views, ∀ p, q.RollsUp now s p → Path.normalize p ∈ v.directories
  otherPrefixes : ∀ p, ¬ q.RollsUp now s p → (views.flatMap View.commonPrefixes).count p ≤ 1
  keys : ∀ key, key ∈ views.flatMap View.keys ↔ key ∈ whole.keys
  prefixes : ∀ p ∈ whole.commonPrefixes, p ∈ views.flatMap View.commonPrefixes
  directories : ∀ d ∈ views.flatMap View.directories, d ∈ whole.directories

variable {q now s}

section
variable {v : View} {key p directory : Text}

theorem mem_laid_keys (named : s.delays.Named) : key ∈ (q.laid now s v).keys ↔
    (key ∈ v.keys ∧ s.delays.hides s.rules.window now key = false) ∨ q.Restores now s key := by
  refine (mem_overlay_keys (named.purge.held_well.arrange s.order)).trans (or_congr_right ?_)
  simp only [TableOrder.mem_arrange, DelayRecord.mem_held, Restores]
  constructor
  · rintro ⟨x, ⟨d, recorded, held, captured⟩, descends⟩
    exact ⟨descends, d, x, recorded, held, captured⟩
  · rintro ⟨descends, d, x, recorded, held, captured⟩
    exact ⟨x, ⟨d, recorded, held, captured⟩, descends⟩

theorem prefixOf?_held : (∃ e ∈ (s.delays.purge s.rules.window now).heldDeletes,
    OverlaidListing.prefixOf? q.under q.isRecursive e.1 = some p) ↔ q.RollsUp now s p := by
  constructor
  · rintro ⟨⟨key, summary⟩, member, rolled⟩
    obtain ⟨d, recorded, held, -⟩ := DelayRecord.mem_held.mp member
    exact ⟨key, d, recorded, held, rolled⟩
  · rintro ⟨key, d, recorded, held, rolled⟩
    exact ⟨(key, d.summary), DelayRecord.mem_held.mpr ⟨d, recorded, held, rfl⟩, rolled⟩

theorem mem_laid_directories : directory ∈ (q.laid now s v).directories ↔
    (∃ p ∈ v.commonPrefixes, s.delays.hides s.rules.window now p = false ∧ Path.normalize p = directory) ∨
      ∃ p, q.RollsUp now s p ∧ Path.normalize p = directory := by
  refine mem_overlay_directories.trans (or_congr_right ?_)
  simp only [TableOrder.mem_arrange, ← prefixOf?_held]
  constructor
  · rintro ⟨e, member, p, rolled, same⟩
    exact ⟨p, ⟨e, member, rolled⟩, same⟩
  · rintro ⟨p, ⟨e, member, rolled⟩, same⟩
    exact ⟨e, member, p, rolled, same⟩

theorem laid_keys_count (named : s.delays.Named) (free : ¬ q.Restores now s key) :
    (q.laid now s v).keys.count key ≤ v.keys.count key := by
  apply overlay_keys_count (named.purge.held_well.arrange s.order)
  intro x held
  obtain ⟨d, recorded, held, captured⟩ := DelayRecord.mem_held.mp (s.order.mem_arrange.mp held)
  rw [Bool.eq_false_iff]
  exact fun descends => free ⟨descends, d, x, recorded, held, captured⟩

theorem laid_prefixes_count (free : ¬ q.RollsUp now s p) :
    (q.laid now s v).commonPrefixes.count p ≤ v.commonPrefixes.count p := by
  apply overlay_prefixes_count
  intro e member rolled
  exact free (prefixOf?_held.mp ⟨e, s.order.mem_arrange.mp member, rolled⟩)

end

theorem count_flatMap_le {f : View → View} {part : View → List Text} {a : Text}
    (each : ∀ v, (part (f v)).count a ≤ (part v).count a) (views : List View) :
    ((views.map f).flatMap part).count a ≤ (views.flatMap part).count a := by
  induction views with
  | nil => simp
  | cons v rest ih =>
    simp only [List.map_cons, List.flatMap_cons, List.count_append]
    have first := each v
    omega

theorem reports (named : s.delays.Named) {plain : List View} {whole : View} (some : plain ≠ [])
    (keys : plain.flatMap View.keys = whole.keys) (keysOnce : whole.keys.Nodup)
    (prefixes : plain.flatMap View.commonPrefixes = whole.commonPrefixes)
    (prefixesOnce : whole.commonPrefixes.Nodup) :
    q.Reports now s (plain.map (q.laid now s)) (q.laid now s whole) where
  keysOnPage := by
    intro v member
    obtain ⟨raw, inside, rfl⟩ := List.mem_map.mp member
    exact overlay_keys_nodup ((List.nodup_flatMap.mp (keys ▸ keysOnce)).1 raw inside)
  prefixesOnPage := by
    intro v member
    obtain ⟨raw, inside, rfl⟩ := List.mem_map.mp member
    exact overlay_prefixes_nodup ((List.nodup_flatMap.mp (prefixes ▸ prefixesOnce)).1 raw inside)
  restored := by
    intro v member key restores
    obtain ⟨raw, -, rfl⟩ := List.mem_map.mp member
    exact (mem_laid_keys named).mpr (Or.inr restores)
  others := by
    intro key free
    refine (count_flatMap_le (fun _ => laid_keys_count named free) plain).trans ?_
    rw [keys]
    exact List.nodup_iff_count_le_one.mp keysOnce key
  rolledUp := by
    intro v member p rolls
    obtain ⟨raw, -, rfl⟩ := List.mem_map.mp member
    exact mem_laid_directories.mpr (Or.inr ⟨p, rolls, rfl⟩)
  otherPrefixes := by
    intro p free
    refine (count_flatMap_le (fun _ => laid_prefixes_count free) plain).trans ?_
    rw [prefixes]
    exact List.nodup_iff_count_le_one.mp prefixesOnce p
  keys := by
    intro key
    obtain ⟨first, member⟩ := List.exists_mem_of_ne_nil plain some
    simp only [List.mem_flatMap, List.mem_map, exists_exists_and_eq_and, mem_laid_keys named, ← keys]
    constructor
    · rintro ⟨v, inside, ⟨listed, shown⟩ | restores⟩
      · exact Or.inl ⟨⟨v, inside, listed⟩, shown⟩
      · exact Or.inr restores
    · rintro (⟨⟨v, inside, listed⟩, shown⟩ | restores)
      · exact ⟨v, inside, Or.inl ⟨listed, shown⟩⟩
      · exact ⟨first, member, Or.inr restores⟩
  prefixes := by
    intro p shown
    obtain ⟨first, member⟩ := List.exists_mem_of_ne_nil plain some
    have within : ∀ v ∈ plain, ∀ r ∈ v.commonPrefixes, r ∈ whole.commonPrefixes := by
      intro v inside r listed
      rw [← prefixes]
      exact List.mem_flatMap.mpr ⟨v, inside, listed⟩
    rw [List.mem_flatMap]
    cases overlay_prefixes_within first.summaries (within first member) shown with
    | inr added => exact ⟨q.laid now s first, List.mem_map.mpr ⟨first, member, rfl⟩, added⟩
    | inl listed =>
      obtain ⟨here, shows⟩ := listed
      rw [← prefixes] at here
      obtain ⟨v, inside, listed⟩ := List.mem_flatMap.mp here
      exact ⟨q.laid now s v, List.mem_map.mpr ⟨v, inside, rfl⟩, overlay_prefixes_keep listed shows⟩
  directories := by
    intro d member
    simp only [List.mem_flatMap, List.mem_map, exists_exists_and_eq_and] at member
    obtain ⟨v, inside, shown⟩ := member
    rw [mem_laid_directories] at shown ⊢
    refine shown.imp_left ?_
    rintro ⟨p, listed, shows, same⟩
    refine ⟨p, ?_, shows, same⟩
    rw [← prefixes]
    exact List.mem_flatMap.mpr ⟨v, inside, listed⟩

end Query

namespace Timeline

-- In any state a run comes to, whatever the clock did on the way, where no call is throttled any more.
theorem pages_report_whole_listing {m : Memory} {settings : Settings} {draws : DrawStream} {s : Stale Memory}
    (created : Stale.create m settings draws = .ok s) (timeline : Timeline) (now : Timestamp) {o : Bucket}
    {bound : Nat} (q : Query) :
    let t := (timeline.run s).2
    t.throttle.probability.isNonPositive = true → t.backend.buckets[q.bucket]? = some o → o.size ≤ bound →
      0 < q.maxKeys →
      ∃ whole u, (q.withRoom bound).ask now t = (.ok whole, u) ∧ whole.truncated = false ∧
        (∃ views, q.Walk now t views) ∧ ∀ views, q.Walk now t views → q.Reports now t views whole := by
  intro t never stored unbounded positive
  have named : t.delays.Named := by
    apply timeline.run_named
    rw [(Stale.create_fresh created).delays_eq]
    exact ⟨fun held => by simp [DelayRecord.empty] at held⟩
  have paged := Query.form_paged q.under q.delimiter q.maxKeys stored
  have fits := (Page.storedUnder_le_size q.under o).trans unbounded
  obtain ⟨ended, summaries, prefixes⟩ := Page.ofBucket_of_room fits q.delimiter q.start
  obtain ⟨stats, answered⟩ := Query.ask_of_stored (q := q.withRoom bound) now never (by simpa using stored)
  refine ⟨_, _, answered, by simpa [Query.laid, Query.page] using ended, ?_, ?_⟩
  · obtain ⟨plain, walk⟩ := paged.ends positive ⟨rfl, rfl, rfl, rfl⟩
    exact ⟨_, .of_plain walk rfl never stored⟩
  · intro views walk
    obtain ⟨plain, walked, rfl⟩ := walk.plain never stored
    obtain ⟨-, (shown : plain.flatMap View.summaries = _), (rolledUp : plain.flatMap View.commonPrefixes = _)⟩ :=
      paged.enumerates positive walked ⟨rfl, rfl, rfl, rfl⟩
    have wholeSummaries : ((q.withRoom bound).page o).summaries = plain.flatMap View.summaries := by
      simpa [Query.page] using summaries.trans shown.symm
    have wholePrefixes : ((q.withRoom bound).page o).commonPrefixes = plain.flatMap View.commonPrefixes := by
      simpa [Query.page] using prefixes.trans rolledUp.symm
    have some : plain ≠ [] := by cases walked <;> simp
    rw [Query.laid_withRoom]
    apply Query.reports named some
    · rw [View.keys, wholeSummaries, List.map_flatMap]
      rfl
    · rw [View.keys, wholeSummaries]
      exact (congrArg (List.map (·.key)) shown) ▸ Page.keys_once
    · exact wholePrefixes.symm
    · rw [wholePrefixes]
      exact rolledUp ▸ Page.prefixes_once

def lagging : Stale Memory where
  backend := Memory.withBucket ['b']
  throttle := ⟨.zero, 0, 0, by decide⟩
  rules := ⟨[], .one, .ofMillis 1000⟩
  isProbability := Binary64.one_isProbability
  delays := .empty
  order := .byKey
  draws := .ofSeed 0
  stats := .zero

def deletions : Timeline :=
  [(⟨0⟩, .call (.put ['b'] "p/b/x".toList [])), (⟨0⟩, .call (.put ['b'] "p/b//y".toList [])),
    (⟨0⟩, .call (.put ['b'] "p/c/x".toList [])), (⟨0⟩, .call (.put ['b'] "p/d/y".toList [])),
    (⟨0⟩, .call (.put ['b'] "p/z".toList [])),
    (⟨2000⟩, .call (.deleteBatch ['b'] ["p/b//y".toList, "p/d/y".toList, "p/z".toList]))]

-- One entry to a page of a directory: a key and a directory come back on both pages, and a directory that the
-- whole listing has already comes back under another name on the page that does not have it.
theorem deletions_come_back_on_each_page :
    let q : Query := .markers { ListRequest.delimited ['b'] "p/".toList with maxKeys := 1 }
    let t := (deletions.run lagging).2
    let z : Summary := ⟨['b'], "p/z".toList, 0, "00000000".toList, .zero, "STANDARD".toList⟩
    let first : View := ⟨[z], ["p/b/".toList, "p/d/".toList], true, some "p/b/".toList⟩
    let second : View := ⟨[z], ["p/c/".toList, "p/b//".toList, "p/d/".toList], false, none⟩
    let whole : View := ⟨[z], ["p/b/".toList, "p/c/".toList, "p/d/".toList], false, none⟩
    Stale.create (Memory.withBucket ['b']) (.delayAll (.ofMillis 1000)) (.ofSeed 0) = .ok lagging ∧
      t.throttle.probability = .zero ∧ q.Walk ⟨2000⟩ t [first, second] ∧
      (∃ u, (q.withRoom 1000).ask ⟨2000⟩ t = (.ok whole, u)) ∧
      ¬ ([first, second].flatMap View.keys).Nodup ∧ ¬ ([first, second].flatMap View.commonPrefixes).Nodup ∧
      ¬ ∀ p, p ∈ [first, second].flatMap View.commonPrefixes ↔ p ∈ whole.commonPrefixes := by
  intro q t z first second whole
  refine ⟨rfl, by decide +kernel, ?_, ⟨_, Action.eq_of_toOption (by decide +kernel)⟩, by decide, by decide, ?_⟩
  · refine .more (Action.eq_of_toOption (a := first) (by decide +kernel)) rfl rfl ?_
    exact .last (Action.eq_of_toOption (a := second) (by decide +kernel)) rfl
  · intro same
    have other := (same "p/b//".toList).mp (by decide)
    revert other
    decide

theorem deletions_reported :
    let q : Query := .markers { ListRequest.delimited ['b'] "p/".toList with maxKeys := 1 }
    let t := (deletions.run lagging).2
    ∃ o : Bucket, t.throttle.probability.isNonPositive = true ∧ t.backend.buckets[q.bucket]? = some o ∧ o.size ≤ 1000 ∧
      0 < q.maxKeys ∧ ∃ whole u, (q.withRoom 1000).ask ⟨2000⟩ t = (.ok whole, u) ∧ whole.truncated = false ∧
        (∃ views, q.Walk ⟨2000⟩ t views) ∧ ∀ views, q.Walk ⟨2000⟩ t views → q.Reports ⟨2000⟩ t views whole := by
  dsimp only
  have created : Stale.create (Memory.withBucket ['b']) (.delayAll (.ofMillis 1000)) (.ofSeed 0) = .ok lagging := rfl
  have never : (deletions.run lagging).2.throttle.probability.isNonPositive = true := by decide +kernel
  have few : ((deletions.run lagging).2.backend.buckets[['b']]?.any fun o => o.size ≤ 1000) = true := by
    decide +kernel
  obtain ⟨o, stored, small⟩ := (Option.any_eq_true _ _).mp few
  have unbounded : o.size ≤ 1000 := of_decide_eq_true small
  have reported := @pages_report_whole_listing _ _ _ _ created deletions ⟨2000⟩ o 1000
    (.markers { ListRequest.delimited ['b'] "p/".toList with maxKeys := 1 })
  exact ⟨o, never, stored, unbounded, Nat.one_pos, reported never stored unbounded Nat.one_pos⟩

end Timeline
end StaleStore
