import Mathlib.Data.List.Nodup
import StaleStore.Proofs.Stale.RecordedKeys

namespace StaleStore

def Path.Apart (a b : Text) : Prop := ¬ a <+: b ∧ ¬ b <+: a

theorem Path.Apart.disjoint {a b key : Text} (apart : Apart a b) (first : a <+: key) : ¬ b <+: key := by
  intro second
  rcases List.prefix_or_prefix_of_prefix first second with below | below
  · exact apart.1 below
  · exact apart.2 below

theorem Path.Apart.below {a b deeper : Text} (apart : Apart a b) (lies : a <+: deeper) : Apart deeper b :=
  ⟨fun below => apart.1 (lies.trans below), apart.disjoint lies⟩

namespace View

structure Reads (lists occupies : Text → Prop) (directory : Text) (v : View) : Prop where
  keys : ∀ key, key ∈ v.keys ↔
    lists key ∧ directory <+: key ∧ Page.group? directory (some directoryDelimiter) key = none
  groups : ∀ g, g ∈ v.commonPrefixes ↔
    ∃ key, occupies key ∧ directory <+: key ∧ Page.group? directory (some directoryDelimiter) key = some g
  keysOnce : v.keys.Nodup
  groupsOnce : v.commonPrefixes.Nodup

variable {lists occupies : Text → Prop} {directory key g : Text} {v : View}

theorem Reads.below (reads : v.Reads lists occupies directory) (member : g ∈ v.commonPrefixes) : directory <+: g := by
  obtain ⟨key, -, -, rolled⟩ := (reads.groups g).mp member
  exact (Page.group?_starts rolled).1

-- All that a group starts belongs to it, so what starts with two groups of a view shows that they are one.
theorem Reads.apart (reads : v.Reads lists occupies directory) : v.commonPrefixes.Pairwise Path.Apart := by
  have grouping := Page.group?_grouping directory (some directoryDelimiter)
  have same : ∀ {g g'}, g ∈ v.commonPrefixes → g' ∈ v.commonPrefixes → g <+: g' → g = g' := by
    intro g g' member memberToo starts
    obtain ⟨_, -, -, rolled⟩ := (reads.groups g).mp member
    obtain ⟨key, -, lies, rolledToo⟩ := (reads.groups g').mp memberToo
    have both := grouping.holds rolled (starts.trans (grouping.starts lies rolledToo))
    exact Option.some.inj (both.symm.trans rolledToo)
  refine reads.groupsOnce.imp_of_mem ?_
  intro g g' member memberToo differs
  constructor
  · exact fun starts => differs (same member memberToo starts)
  · exact fun starts => differs (same memberToo member starts).symm

theorem Reads.alone (reads : v.Reads lists occupies directory) (here : key ∈ v.keys) (member : g ∈ v.commonPrefixes) :
    ¬ g <+: key := by
  intro starts
  obtain ⟨-, -, none⟩ := (reads.keys key).mp here
  obtain ⟨_, -, -, rolled⟩ := (reads.groups g).mp member
  rw [(Page.group?_grouping directory (some directoryDelimiter)).holds rolled starts] at none
  cases none

theorem Reads.here_or_deeper (reads : v.Reads lists occupies directory) (within : ∀ key, lists key → occupies key) :
    (lists key ∧ directory <+: key) ↔ key ∈ v.keys ∨ lists key ∧ ∃ g ∈ v.commonPrefixes, g <+: key := by
  have grouping := Page.group?_grouping directory (some directoryDelimiter)
  constructor
  · rintro ⟨listed, lies⟩
    cases rolled : Page.group? directory (some directoryDelimiter) key with
    | none => exact Or.inl ((reads.keys key).mpr ⟨listed, lies, rolled⟩)
    | some g =>
      have member := (reads.groups g).mpr ⟨key, within key listed, lies, rolled⟩
      exact Or.inr ⟨listed, g, member, grouping.starts lies rolled⟩
  · rintro (here | ⟨listed, g, member, starts⟩)
    · obtain ⟨listed, lies, -⟩ := (reads.keys key).mp here
      exact ⟨listed, lies⟩
    · exact ⟨listed, (reads.below member).trans starts⟩

end View

-- A tour of the pending directories on listings that do not change: the first one is read, and the directories it shows
-- are put in front of the others.
inductive Tour (listing : Text → View) : List Text → List View → Prop where
  | done : Tour listing [] []
  | visit {d pending views} : Tour listing ((listing d).commonPrefixes ++ pending) views →
      Tour listing (d :: pending) (listing d :: views)

namespace Tour

variable {listing : Text → View} {one two pending : List Text} {first second views : List View}

theorem append (tour : Tour listing one first) (rest : Tour listing two second) :
    Tour listing (one ++ two) (first ++ second) := by
  induction tour with
  | done => exact rest
  | visit tour ih =>
    rw [List.append_assoc] at ih
    exact .visit ih

theorem of_each (each : ∀ d ∈ pending, ∃ views, Tour listing [d] views) : ∃ views, Tour listing pending views := by
  induction pending with
  | nil => exact ⟨[], .done⟩
  | cons d rest ih =>
    obtain ⟨first, tour⟩ := each d List.mem_cons_self
    obtain ⟨second, later⟩ := ih fun d member => each d (List.mem_cons_of_mem _ member)
    exact ⟨first ++ second, tour.append later⟩

-- Directories get longer on the way down, and none is longer than some bound.
theorem ends {valid : Text → Prop} {bound : Nat} (deeper : ∀ d, valid d → ∀ g ∈ (listing d).commonPrefixes,
      valid g ∧ d.length < g.length ∧ g.length ≤ bound) {d : Text} (holds : valid d) :
    ∃ views, Tour listing [d] views := by
  generalize room : bound - d.length = left
  induction left using Nat.strongRecOn generalizing d with
  | _ left ih =>
    obtain ⟨views, tour⟩ : ∃ views, Tour listing (listing d).commonPrefixes views := by
      apply of_each
      intro g member
      obtain ⟨holdsToo, longer, within⟩ := deeper d holds g member
      exact ih (bound - g.length) (by omega) holdsToo rfl
    refine ⟨listing d :: views, .visit ?_⟩
    rwa [List.append_nil]

theorem finds {valid lists occupies : Text → Prop} (within : ∀ key, lists key → occupies key)
    (reads : ∀ d, valid d → (listing d).truncated = false → (listing d).Reads lists occupies d)
    (closed : ∀ d, valid d → ∀ g ∈ (listing d).commonPrefixes, valid g) (tour : Tour listing pending views)
    (holds : ∀ d ∈ pending, valid d) (apart : pending.Pairwise Path.Apart) (ended : ∀ v ∈ views, v.truncated = false) :
    (views.flatMap View.keys).Nodup ∧
      ∀ key, key ∈ views.flatMap View.keys ↔ lists key ∧ ∃ d ∈ pending, d <+: key := by
  induction tour with
  | done => simp
  | @visit d pending views tour ih =>
    have holdsHere := holds d List.mem_cons_self
    have shown := reads d holdsHere (ended _ List.mem_cons_self)
    obtain ⟨fromOthers, others⟩ := List.pairwise_cons.mp apart
    have holdsNext : ∀ g ∈ (listing d).commonPrefixes ++ pending, valid g := by
      intro g inside
      rcases List.mem_append.mp inside with group | waiting
      · exact closed d holdsHere g group
      · exact holds g (List.mem_cons_of_mem _ waiting)
    have apartNext : ((listing d).commonPrefixes ++ pending).Pairwise Path.Apart := by
      refine List.pairwise_append.mpr ⟨shown.apart, others, fun g group other waiting => ?_⟩
      exact (fromOthers other waiting).below (shown.below group)
    obtain ⟨once, members⟩ := ih holdsNext apartNext fun v later => ended v (List.mem_cons_of_mem _ later)
    rw [List.flatMap_cons]
    constructor
    · refine List.nodup_append'.mpr ⟨shown.keysOnce, once, fun key here later => ?_⟩
      obtain ⟨-, other, inside, starts⟩ := (members key).mp later
      rcases List.mem_append.mp inside with group | waiting
      · exact shown.alone here group starts
      · exact (fromOthers other waiting).disjoint ((shown.here_or_deeper within).mpr (Or.inl here)).2 starts
    · intro key
      have split : (lists key ∧ d <+: key) ↔ _ := shown.here_or_deeper within
      simp only [List.mem_append, members, or_and_right, exists_or, List.mem_cons, exists_eq_left, and_or_left]
      rw [split, or_assoc]

end Tour

namespace Query

structure Browses (bucket : Text) (form : Text → Query) : Prop where
  bucket : ∀ d, (form d).bucket = bucket
  under : ∀ d, (form d).under = d
  delimiter : ∀ d, (form d).delimiter = some directoryDelimiter
  start : ∀ d, (form d).start = none

inductive Browse (now : Timestamp) (form : Text → Query) : Stale Memory → List Text → List View → Prop where
  | done {s} : Browse now form s [] []
  | visit {s t d v pending views} : (form d).ask now s = (.ok v, t) →
      Browse now form t (v.commonPrefixes ++ pending) views → Browse now form s (d :: pending) (v :: views)

def shelf (form : Text → Query) (o : Bucket) (now : Timestamp) (s : Stale Memory) (d : Text) : View :=
  (form d).laid now s ((form d).page o)

variable {form : Text → Query} {bucket d g : Text} {o : Bucket} {now : Timestamp} {s : Stale Memory}
  {pending : List Text} {views : List View}

theorem shelf_purged (stats : Stats) :
    shelf form o now { s with delays := s.delays.purge s.rules.window now, stats := stats } = shelf form o now s := by
  funext d
  rw [shelf, laid_purged, shelf]

theorem Browses.listed (browses : Browses bucket form) (isDirectory : Path.IsDirectory d) :
    (form d).IsOfDirectory bucket where
  bucket := browses.bucket d
  directory := by
    rw [browses.under]
    exact isDirectory
  plain := Or.inr (Or.inr (browses.delimiter d))
  start := browses.start d

theorem Browses.ask (browses : Browses bucket form) (never : s.throttle.probability.isNonPositive = true)
    (stored : s.backend.buckets[bucket]? = some o) (now : Timestamp) (d : Text) :
    ∃ stats, (form d).ask now s = (.ok (shelf form o now s d),
      { s with delays := s.delays.purge s.rules.window now, stats := stats }) := by
  apply ask_of_stored now never
  rw [browses.bucket, stored]

theorem Browse.tour (browses : Browses bucket form) (browse : Browse now form s pending views)
    (never : s.throttle.probability.isNonPositive = true) (stored : s.backend.buckets[bucket]? = some o) :
    Tour (shelf form o now s) pending views := by
  induction browse with
  | done => exact .done
  | @visit s t d v pending views asked browse ih =>
    obtain ⟨stats, answered⟩ := browses.ask never stored now d
    rw [answered] at asked
    cases asked
    have later := ih never stored
    rw [shelf_purged] at later
    exact .visit later

theorem Browse.of_tour {listing : Text → View} (browses : Browses bucket form) (tour : Tour listing pending views)
    (same : shelf form o now s = listing) (never : s.throttle.probability.isNonPositive = true)
    (stored : s.backend.buckets[bucket]? = some o) : Browse now form s pending views := by
  induction tour generalizing s with
  | done => exact .done
  | @visit d pending views tour ih =>
    obtain ⟨stats, answered⟩ := browses.ask never stored now d
    rw [same] at answered
    exact .visit answered (ih ((shelf_purged stats).trans same) never stored)

end Query

namespace Stale.Keyed

open Query

variable {form : Text → Query} {bucket d : Text} {o : Bucket} {now : Timestamp} {s : Stale Memory}
  (keyed : Keyed bucket o now s) (browses : Browses bucket form)
include keyed browses

theorem reads (isDirectory : Path.IsDirectory d) (ended : (shelf form o now s d).truncated = false) :
    (shelf form o now s d).Reads (s.Lists o now) (s.Occupies o now) d where
  keys := by
    intro key
    have shown : key ∈ (shelf form o now s d).keys ↔ _ := keyed.mem_keys (browses.listed isDirectory) ended
    rwa [browses.under, browses.delimiter] at shown
  groups := by
    intro g
    have shown := keyed.mem_commonPrefixes (g := g) (browses.listed isDirectory) ended
    rwa [browses.under, browses.delimiter] at shown
  keysOnce := laid_keys_nodup ended
  groupsOnce := laid_prefixes_nodup ended

theorem on_the_way (isDirectory : Path.IsDirectory d) {g : Text} (member : g ∈ (shelf form o now s d).commonPrefixes) :
    Path.IsDirectory g ∧ d.length < g.length ∧ ∃ key, s.Occupies o now key ∧ g <+: key := by
  have listed := browses.listed isDirectory
  obtain ⟨key, occupies, lies, rolled⟩ := keyed.commonPrefix_from listed member
  have starts := (Page.group?_grouping (form d).under (form d).delimiter).starts lies rolled
  have longer := (Page.group?_starts rolled).2
  rw [browses.under] at longer
  obtain ⟨front, isFront, rfl⟩ :=
    Path.group?_key listed.directory (keyed.occupies occupies) listed.plain lies rolled
  exact ⟨.of_key isFront, longer, key, occupies, starts⟩

theorem tour_ends (isDirectory : Path.IsDirectory d) : ∃ views, Tour (shelf form o now s) [d] views := by
  let keys := o.toList.map (·.1) ++ (s.delays.purge s.rules.window now).heldDeletes.map (·.1)
  have known : ∀ {key}, s.Occupies o now key → key ∈ keys := by
    rintro key (⟨object, stored⟩ | ⟨summary, held⟩)
    · have member := Std.ExtTreeMap.mem_toList_iff_getElem?_eq_some.mpr stored
      exact List.mem_append_left _ (List.mem_map.mpr ⟨_, member, rfl⟩)
    · exact List.mem_append_right _ (List.mem_map.mpr ⟨_, held, rfl⟩)
  have deeper : ∀ d, Path.IsDirectory d → ∀ g ∈ (shelf form o now s d).commonPrefixes,
      Path.IsDirectory g ∧ d.length < g.length ∧ g.length ≤ keys.flatten.length := by
    intro d isDirectory g member
    obtain ⟨isGroup, longer, key, occupies, starts⟩ := keyed.on_the_way browses isDirectory member
    have within := (List.sublist_flatten_of_mem (known occupies)).length_le
    exact ⟨isGroup, longer, starts.length_le.trans within⟩
  exact Tour.ends deeper isDirectory

end Stale.Keyed

namespace Timeline

-- In any state that a run comes to which names only such keys, where no call is throttled any more.
theorem directory_walk_finds_flat_view {m : Memory} {settings : Settings} {draws : DrawStream} {s : Stale Memory}
    {bucket : Text} {o : Bucket} {timeline : Timeline} {form : Text → Query} {flat : Query}
    (created : Stale.create m settings draws = .ok s) (stored : m.buckets[bucket]? = some o)
    (names : ∀ {key object}, o[key]? = some object → Path.IsKey key) (used : ∀ key, timeline.Names key → Path.IsKey key)
    (now : Timestamp) (browses : Query.Browses bucket form) (listed : flat.IsOfDirectory bucket)
    (root : flat.under = []) (plain : flat.delimiter = none) :
    let t := (timeline.run s).2
    t.throttle.probability.isNonPositive = true →
      (∃ views, Query.Browse now form t [[]] views) ∧ (∃ whole u, flat.ask now t = (.ok whole, u)) ∧
      ∀ views whole u, Query.Browse now form t [[]] views → flat.ask now t = (.ok whole, u) →
        (∀ v ∈ views, v.truncated = false) → whole.truncated = false →
          (views.flatMap View.keys).Nodup ∧ ∀ key, key ∈ views.flatMap View.keys ↔ key ∈ whole.keys := by
  intro t never
  have fresh := Stale.create_fresh created
  have began : s.Uses Path.IsKey bucket := by
    refine ⟨fun {key object} found => ?_, .of_empty fresh.delays_eq⟩
    rw [fresh.backend_eq, Memory.object?_of_stored stored] at found
    exact names found
  have uses : t.Uses Path.IsKey bucket := began.run used
  have named : t.delays.Named := timeline.run_named (.of_empty fresh.delays_eq)
  have there : bucket ∈ t.backend.buckets := by
    apply run_keeps
    rw [fresh.backend_eq]
    exact Memory.mem_buckets_of_stored stored
  have storedLater := Std.ExtTreeMap.getElem?_eq_some_getElem there
  have keyed : t.Keyed bucket _ now := uses.keyed named storedLater
  obtain ⟨stats, answered⟩ := Query.ask_of_stored (q := flat) now never (by rw [listed.bucket, storedLater])
  refine ⟨?_, ⟨_, _, answered⟩, ?_⟩
  · obtain ⟨views, tour⟩ := keyed.tour_ends browses .root
    exact ⟨views, .of_tour browses tour rfl never storedLater⟩
  · intro views whole u browse asked ended endedWhole
    rw [answered] at asked
    cases asked
    obtain ⟨once, found⟩ := (browse.tour browses never storedLater).finds
      (fun key => Stale.Lists.occupies) (fun d (isDirectory : Path.IsDirectory d) => keyed.reads browses isDirectory)
      (fun d isDirectory g member => (keyed.on_the_way browses isDirectory member).1)
      (by simp [Path.IsDirectory.root]) (List.pairwise_singleton _ _) ended
    refine ⟨once, fun key => ?_⟩
    rw [found, keyed.mem_keys listed endedWhole, root, plain]
    simp [Page.group?]

def nestedDelete : Timeline :=
  [(.zero, .call (.put ['b'] "d/e/k".toList [])), (.zero, .call (.put ['b'] ['a'] [])),
    (⟨2000⟩, .call (.delete ['b'] "d/e/k".toList)), (⟨2000⟩, .call (.put ['b'] "d/n".toList []))]

theorem nested_delete_found :
    let t := (nestedDelete.run lagging).2
    let form : Text → Query := fun d => .markers (.delimited ['b'] d)
    let flat : Query := .markers (.recursive ['b'] [])
    ∃ views whole u, Stale.create (Memory.withBucket ['b']) (.delayAll (.ofMillis 1000)) (.ofSeed 0) = .ok lagging ∧
      t.throttle.probability.isNonPositive = true ∧ Query.Browse ⟨2000⟩ form t [[]] views ∧
      flat.ask ⟨2000⟩ t = (.ok whole, u) ∧ (∀ v ∈ views, v.truncated = false) ∧ whole.truncated = false ∧
      (views.flatMap View.keys).Nodup ∧ ∀ key, key ∈ views.flatMap View.keys ↔ key ∈ whole.keys := by
  intro t form flat
  have created : Stale.create (Memory.withBucket ['b']) (.delayAll (.ofMillis 1000)) (.ofSeed 0) = .ok lagging := rfl
  have letter : ∀ c : Char, c ≠ Path.separator → Path.IsName [c] := fun c other =>
    ⟨by simp, by simpa using other.symm⟩
  have used : ∀ key, nestedDelete.Names key → Path.IsKey key := by
    have deep : Path.IsKey "d/e/k".toList := .deeper (letter 'd' (by decide))
      (.deeper (letter 'e' (by decide)) (.name (letter 'k' (by decide))))
    have inner : Path.IsKey "d/n".toList := .deeper (letter 'd' (by decide)) (.name (letter 'n' (by decide)))
    have outer : Path.IsKey ['a'] := .name (letter 'a' (by decide))
    rintro key ⟨now, c, member, own⟩
    simp only [nestedDelete, List.mem_cons, Prod.mk.injEq, Step.call.injEq, List.not_mem_nil, or_false] at member
    rcases member with ⟨-, rfl⟩ | ⟨-, rfl⟩ | ⟨-, rfl⟩ | ⟨-, rfl⟩ <;> cases List.mem_singleton.mp own
    · exact deep
    · exact outer
    · exact deep
    · exact inner
  have never : t.throttle.probability.isNonPositive = true := by decide +kernel
  let a : Summary := ⟨['b'], ['a'], 0, "00000000".toList, .zero, "STANDARD".toList⟩
  let k : Summary := { a with key := "d/e/k".toList }
  let views : List View :=
    [⟨[a], ["d/".toList], false, none⟩, ⟨[], ["d/e/".toList], false, none⟩, ⟨[k], [], false, none⟩]
  let whole : View := ⟨[a, k], [], false, none⟩
  have browse : Query.Browse ⟨2000⟩ form t [[]] views := by
    refine .visit (Action.eq_of_toOption (a := views[0]) (by decide +kernel)) ?_
    refine .visit (Action.eq_of_toOption (a := views[1]) (by decide +kernel)) ?_
    exact .visit (Action.eq_of_toOption (a := views[2]) (by decide +kernel)) .done
  have asked : flat.ask ⟨2000⟩ t = (.ok whole, (flat.ask ⟨2000⟩ t).2) := Action.eq_of_toOption (by decide +kernel)
  have found := @directory_walk_finds_flat_view _ _ _ _ ['b'] ∅ nestedDelete form flat created (by decide) (by simp)
    used ⟨2000⟩ ⟨fun _ => rfl, fun _ => rfl, fun _ => rfl, fun _ => rfl⟩ ⟨rfl, .root, Or.inl rfl, rfl⟩ rfl rfl never
  refine ⟨views, whole, _, created, never, browse, asked, by decide, rfl, ?_⟩
  exact found.2.2 views whole _ browse asked (by decide) rfl

end Timeline
end StaleStore
