import StaleStore.Proofs.Simulation.ShadowHistory
import StaleStore.Proofs.Simulation.Universe
import StaleStore.Proofs.Stale.Certain
import StaleStore.Proofs.Store.Contents
import StaleStore.Simulation.Harness

namespace StaleStore

namespace Simulation

-- So few keys that no listing is cut.
def Plan.Fits (p : Plan) : Prop := p.directoryCount * p.fileCount ≤ 250

structure Matches (p : Plan) (now : Timestamp) (o : Bucket) (h : History) (store : Stale Memory)
    (shadow : Shadow) : Prop where
  rules : store.rules = .ofSettings p.settings
  window : shadow.window = p.delayMillis
  stored : store.backend.buckets[bucket]? = some o
  same : ∀ key : Text, key ∈ o ↔ key ∈ shadow.objects
  drawn : ∀ key ∈ o, p.IsKey key
  recounts : Recounts h (.ofMillis p.delayMillis) now store.delays
  tells : Tells h shadow
  told : ∀ e ∈ h, e.On p.IsKey

theorem toList_ordered (keys : KeySet) : keys.toList.Pairwise (· < ·) :=
  Std.ExtTreeSet.ordered_toList.imp fun less => (Text.compare_lt_iff _ _).mp less

theorem mem_objects_deletes {shadow : Shadow} {now : Timestamp} {captured : Text → Bool} {key : Text}
    (keys : List Text) : key ∈ (keys.foldl (fun s k => s.delete now k (captured k)) shadow).objects ↔
      key ∈ shadow.objects ∧ key ∉ keys := by
  induction keys generalizing shadow with
  | nil => simp
  | cons first rest ih =>
    have erased : key ∈ (shadow.delete now first (captured first)).objects ↔ _ := Std.ExtTreeSet.mem_erase
    rw [List.foldl_cons, ih, erased, Ne, Std.LawfulEqOrd.compare_eq_iff_eq, List.mem_cons, not_or]
    tauto

theorem window_deletes (shadow : Shadow) (now : Timestamp) (captured : Text → Bool) (keys : List Text) :
    (keys.foldl (fun s k => s.delete now k (captured k)) shadow).window = shadow.window := by
  induction keys generalizing shadow with
  | nil => rfl
  | cons first rest ih => exact ih _

namespace Matches

variable {p : Plan} {now : Timestamp} {o : Bucket} {h : History} {store t : Stale Memory} {shadow : Shadow}
  {key under : Text}

theorem frame (agree : Matches p now o h store shadow) (rules : t.rules = store.rules)
    (backend : t.backend = store.backend) (delays : t.delays = store.delays) : Matches p now o h t shadow where
  rules := rules.trans agree.rules
  window := agree.window
  stored := backend ▸ agree.stored
  same := agree.same
  drawn := agree.drawn
  recounts := delays ▸ agree.recounts
  tells := agree.tells
  told := agree.told

theorem later {next : Timestamp} (agree : Matches p now o h store shadow) (order : now.ms ≤ next.ms) :
    Matches p next o h store shadow :=
  { agree with recounts := agree.recounts.later order }

section
variable (agree : Matches p now o h store shadow)
include agree

theorem certain : store.rules.probability = .one := by
  rw [agree.rules]
  rfl

theorem windowOf : store.rules.window = .ofMillis p.delayMillis := by
  rw [agree.rules]
  rfl

theorem isEligible_eq : store.rules.isEligible key = Shadow.isEligible key := by
  rw [agree.rules]
  rfl

theorem dropped (delays : t.delays = store.delays.purge store.rules.window now) (rules : t.rules = store.rules)
    (backend : t.backend = store.backend) : Matches p now o h t shadow where
  rules := rules.trans agree.rules
  window := agree.window
  stored := backend ▸ agree.stored
  same := agree.same
  drawn := agree.drawn
  recounts := by
    rw [delays, agree.windowOf]
    exact agree.recounts.purge
  tells := agree.tells
  told := agree.told

theorem fits (small : p.Fits) (under : Text) : Page.storedUnder under o ≤ defaultMaxKeys := by
  have inside : o.keys.length ≤ p.keys.length := by
    refine (List.subperm_of_subset Std.ExtTreeMap.nodup_keys fun key member => ?_).length_le
    exact (agree.drawn key (Std.ExtTreeMap.mem_keys.mp member)).mem_keys
  rw [Std.ExtTreeMap.length_keys, p.keys_length] at inside
  have bound := Page.storedUnder_le_size under o
  unfold Plan.Fits at small
  unfold defaultMaxKeys
  omega

theorem size_eq : o.size = shadow.objects.size := by
  have equal : o.keys = shadow.objects.toList := by
    refine eq_of_ordered (Std.ExtTreeMap.ordered_keys.imp fun less => (Text.compare_lt_iff _ _).mp less)
      (toList_ordered _) fun key => ?_
    rw [Std.ExtTreeMap.mem_keys, Std.ExtTreeSet.mem_toList]
    exact agree.same key
  rw [← Std.ExtTreeMap.length_keys, equal, Std.ExtTreeSet.length_toList]

theorem puts_eq : store.delays.puts = shadow.puts :=
  Std.ExtTreeMap.ext_getElem? fun {key} => (agree.recounts.puts key).trans (agree.tells.puts key).symm

theorem put (isKey : p.IsKey key) (object : StoredObject)
    (backend : t.backend.buckets[bucket]? = some (o.insert key object)) (rules : t.rules = store.rules)
    (delays : t.delays = if store.rules.isEligible key then store.delays.recordPut now key else store.delays) :
    Matches p now (o.insert key object) (h ++ if Shadow.isEligible key then [.put key now] else []) t
      (shadow.put now key) where
  rules := rules.trans agree.rules
  window := agree.window
  stored := backend
  same other := by
    show _ ↔ other ∈ shadow.objects.insert key
    rw [Std.ExtTreeMap.mem_insert, Std.ExtTreeSet.mem_insert, agree.same]
  drawn other member := by
    rcases Std.ExtTreeMap.mem_insert.mp member with first | old
    · exact Std.LawfulEqOrd.eq_of_compare first ▸ isKey
    · exact agree.drawn other old
  recounts := by
    rw [delays, agree.isEligible_eq]
    split
    · exact agree.recounts.enter nofun
    · rw [List.append_nil]
      exact agree.recounts
  tells := agree.tells.put now key
  told := by
    refine List.forall_mem_append.mpr ⟨agree.told, fun e new => ?_⟩
    split at new
    · cases List.mem_singleton.mp new
      exact isKey
    · cases new

theorem delete (isKey : p.IsKey key) {summary : Option Summary} (named : ∀ {x}, summary = some x → x.key = key)
    (backend : t.backend.buckets[bucket]? = some (o.erase key)) (rules : t.rules = store.rules)
    (delays : t.delays = if store.rules.isEligible key then
      (store.delays.purge store.rules.window now).recordDelete now key summary else store.delays) :
    Matches p now (o.erase key) (h ++ if Shadow.isEligible key then [.delete key now summary] else []) t
      (shadow.delete now key summary.isSome) where
  rules := rules.trans agree.rules
  window := agree.window
  stored := backend
  same other := by
    show _ ↔ other ∈ shadow.objects.erase key
    rw [Std.ExtTreeMap.mem_erase, Std.ExtTreeSet.mem_erase, agree.same]
  drawn other member := agree.drawn other (Std.ExtTreeMap.mem_of_mem_erase member)
  recounts := by
    rw [delays, agree.isEligible_eq, agree.windowOf]
    split
    · refine agree.recounts.purge.enter fun {k madeAt x} same => ?_
      cases same
      exact named rfl
    · rw [List.append_nil]
      exact agree.recounts
  tells := agree.tells.delete now key summary
  told := by
    refine List.forall_mem_append.mpr ⟨agree.told, fun e new => ?_⟩
    split at new
    · cases List.mem_singleton.mp new
      exact isKey
    · cases new

theorem deleteBatch {keys : List Text} (areKeys : ∀ key ∈ keys, p.IsKey key) {summary : Text → Option Summary}
    (named : ∀ {k x}, summary k = some x → x.key = k) {base : DelayRecord}
    (kept : base = store.delays ∨ base = store.delays.purge store.rules.window now)
    (backend : t.backend.buckets[bucket]? = some (keys.foldl (·.erase ·) o)) (rules : t.rules = store.rules)
    (delays : t.delays = (keys.filter store.rules.isEligible).foldl
      (fun d k => d.recordDelete now k (summary k)) base) :
    Matches p now (keys.foldl (·.erase ·) o)
      (h ++ (keys.filter Shadow.isEligible).map fun k => .delete k now (summary k)) t
      (keys.foldl (fun s k => s.delete now k (summary k).isSome) shadow) where
  rules := rules.trans agree.rules
  window := (window_deletes shadow now _ keys).trans agree.window
  stored := backend
  same key := by
    rw [Memory.mem_erased, mem_objects_deletes, agree.same]
  drawn key member := agree.drawn key ((Memory.mem_erased keys).mp member).1
  recounts := by
    have eligible : keys.filter store.rules.isEligible = keys.filter Shadow.isEligible :=
      List.filter_congr fun k _ => agree.isEligible_eq
    have based : Recounts h (.ofMillis p.delayMillis) now base := by
      rcases kept with same | dropped
      · exact same ▸ agree.recounts
      · rw [dropped, agree.windowOf]
        exact agree.recounts.purge
    rw [delays, eligible]
    have namedAll : ∀ {key madeAt x}, DelayEvent.delete key madeAt (some x) ∈
        ((keys.filter Shadow.isEligible).map fun k => .delete k now (summary k)) → x.key = key := by
      intro key madeAt x member
      obtain ⟨k, -, same⟩ := List.mem_map.mp member
      rw [DelayEvent.delete.injEq] at same
      exact same.1 ▸ named same.2.2
    have entered := based.enterAll namedAll
    rw [List.foldl_map] at entered
    exact entered
  tells := agree.tells.deletes_all now keys summary
  told := by
    refine List.forall_mem_append.mpr ⟨agree.told, fun e new => ?_⟩
    obtain ⟨k, eligible, rfl⟩ := List.mem_map.mp new
    exact areKeys k (List.mem_filter.mp eligible).1

theorem clear : Matches p now o (h ++ [.cleared]) store.clear shadow.clear where
  rules := agree.rules
  window := agree.window
  stored := agree.stored
  same := agree.same
  drawn := agree.drawn
  recounts := agree.recounts.enter nofun
  tells := .clear h shadow
  told := by
    refine List.forall_mem_append.mpr ⟨agree.told, fun e new => ?_⟩
    cases List.mem_singleton.mp new
    trivial

theorem orderly : Stale.Orderly bucket o p.delayMillis h now store where
  stored := agree.stored
  names found := (agree.drawn _ (Std.ExtTreeMap.mem_iff_isSome_getElem?.mpr (found ▸ rfl))).path
  window_eq := agree.windowOf
  recounts := agree.recounts
  told e member := (agree.told e member).imp Plan.IsKey.path

theorem captured_isSome (isKey : p.IsKey key) :
    (store.captured now bucket key o).isSome = shadow.captures now key := by
  have live : (h.live? o bucket shadow.window now key).isSome = _ := live?_isSome agree.tells agree.same
  rw [← live, agree.window, agree.orderly.captured_eq isKey.path]

section
variable (small : p.Fits) {delimiter : Option Text} (directory : Path.IsDirectory under)
  (plain : Path.IsDelimiter delimiter)
include small directory plain

theorem mem_listing (key : Text) :
    key ∈ (store.listing now o ⟨bucket, under, delimiter, none, defaultMaxKeys⟩).summaries.map (·.key) ↔
      under <+: key ∧ Page.group? under delimiter key = none ∧ shadow.lists now key = true := by
  have lists : shadow.lists now key = (h.shown? o bucket shadow.window now key).isSome :=
    lists_eq agree.tells agree.same
  have shows : ∀ x, x ∈ (store.listing now o ⟨bucket, under, delimiter, none, defaultMaxKeys⟩).summaries ↔ _ :=
    fun x => agree.orderly.mem_summaries (q := .markers ⟨bucket, under, delimiter, none, defaultMaxKeys⟩)
      ⟨rfl, directory, plain, rfl⟩ (Page.ofBucket_of_room (agree.fits small under) delimiter none).1
  simp only [List.mem_map, shows]
  rw [lists, agree.window, Option.isSome_iff_exists]
  constructor
  · rintro ⟨x, ⟨k, lies, alone, shown⟩, rfl⟩
    cases agree.recounts.shown?_key shown
    exact ⟨lies, alone, x, shown⟩
  · rintro ⟨lies, alone, x, shown⟩
    exact ⟨x, ⟨key, lies, alone, shown⟩, agree.recounts.shown?_key shown⟩

theorem mem_listing_prefixes {g : Text} :
    g ∈ (store.listing now o ⟨bucket, under, delimiter, none, defaultMaxKeys⟩).commonPrefixes ↔
      ∃ key ∈ shadow.candidates now, under <+: key ∧ Page.group? under delimiter key = some g := by
  simp only [mem_candidates_iff agree.tells agree.same, agree.window]
  exact agree.orderly.mem_commonPrefixes (q := .markers ⟨bucket, under, delimiter, none, defaultMaxKeys⟩)
    ⟨rfl, directory, plain, rfl⟩ (Page.ofBucket_of_room (agree.fits small under) delimiter none).1

end
end

theorem keySet_toList {l expected : List Text} (ordered : expected.Pairwise (· < ·))
    (same : ∀ k, k ∈ l ↔ k ∈ expected) : (Harness.keySet l).toList = expected := by
  refine eq_of_ordered (toList_ordered _) ordered fun k => ?_
  rw [Std.ExtTreeSet.mem_toList, Harness.keySet, Std.ExtTreeSet.mem_ofList, List.contains_iff_mem, same]

section
variable (agree : Matches p now o h store shadow) (small : p.Fits)
include agree small

theorem recursive_agrees (isPlace : under = [] ∨ p.IsDirectory under) :
    (Harness.keySet ((store.listing now o (.recursive bucket under)).summaries.map (·.key))).toList
      = shadow.expectedRecursive now under := by
  have directory : Path.IsDirectory under := by
    rcases isPlace with rfl | isDirectory
    · exact .root
    · exact isDirectory.path
  refine keySet_toList ((toList_ordered _).filter _) fun key => ?_
  refine (agree.mem_listing small directory (Or.inl rfl) key).trans ?_
  show _ ↔ key ∈ List.filter _ _
  rw [List.mem_filter, Std.ExtTreeSet.mem_toList, Bool.and_eq_true, List.isPrefixOf_iff_prefix]
  constructor
  · intro shown
    obtain ⟨lies, -, lists⟩ := shown
    exact ⟨mem_candidates_of_lists lists, lies, lists⟩
  · intro expected
    obtain ⟨-, lies, lists⟩ := expected
    exact ⟨lies, rfl, lists⟩

theorem delimited_agrees (isDirectory : p.IsDirectory under) :
    ((Harness.keySet ((store.listing now o (.delimited bucket under)).summaries.map (·.key))).toList,
      Harness.keySet (store.listing now o (.delimited bucket under)).commonPrefixes)
      = shadow.expectedDelimited now under := by
  have plain : Path.IsDelimiter (some directoryDelimiter) := Or.inr (Or.inr rfl)
  refine Prod.ext_iff.mpr ⟨?_, ?_⟩
  · refine keySet_toList (((toList_ordered _).filter _).filter _) fun key => ?_
    refine (agree.mem_listing small isDirectory.path plain key).trans ?_
    show _ ↔ key ∈ List.filter _ (List.filter _ _)
    rw [List.mem_filter, List.mem_filter, Std.ExtTreeSet.mem_toList, Bool.and_eq_true, List.isPrefixOf_iff_prefix,
      Option.isNone_iff_eq_none]
    constructor
    · intro shown
      obtain ⟨lies, alone, lists⟩ := shown
      exact ⟨⟨mem_candidates_of_lists lists, lies⟩, alone, lists⟩
    · intro expected
      obtain ⟨⟨-, lies⟩, alone, lists⟩ := expected
      exact ⟨lies, alone, lists⟩
  · refine Std.ExtTreeSet.ext_mem fun {g} => ?_
    refine (Std.ExtTreeSet.mem_ofList.trans List.contains_iff_mem).trans ?_
    refine (agree.mem_listing_prefixes small isDirectory.path plain).trans ?_
    refine Iff.trans ?_ (Std.ExtTreeSet.mem_ofList.trans List.contains_iff_mem).symm
    rw [List.mem_filterMap]
    simp only [List.mem_filter, Std.ExtTreeSet.mem_toList, List.isPrefixOf_iff_prefix, and_assoc]
    -- The directory that the shadow expects is the group that a page forms.
    exact Iff.rfl

end
end Matches
end Simulation
end StaleStore
