import StaleStore.Proofs.Stale.Delays
import StaleStore.Proofs.Stale.Overlay

namespace StaleStore

section
variable {α β : Type} {name : α → β} {kept items more out : List α}

structure Completes (name : α → β) (kept items more out : List α) : Prop where
  split : out = kept ++ more
  within : ∀ a ∈ more, a ∈ items
  once : (more.map name).Nodup
  new : ∀ a ∈ more, ∀ b ∈ kept, name a ≠ name b
  all : ∀ a ∈ items, name a ∈ out.map name

theorem addAll_completes [DecidableEq β] (name : α → β) (kept items : List α) :
    ∃ more, Completes name kept items more (addAll name kept items) := by
  obtain ⟨more, added, within, once, new⟩ := addAll_split name kept items
  refine ⟨more, added, fun a member => within.subset member, once, ?_, ?_⟩
  · intro a member b known same
    exact new a member (List.mem_map.mpr ⟨b, known, same.symm⟩)
  · intro a member
    exact mem_addAll_names.mpr (Or.inr (List.mem_map.mpr ⟨a, member, rfl⟩))

theorem Completes.count (completes : Completes name kept items more out) {n : Nat}
    (counted : n + kept.length = out.length) : n = more.length := by
  rw [completes.split, List.length_append] at counted
  omega

end

namespace DelayRecord

variable {window : Span} {now : Timestamp} {r : DelayRecord} {held : List (Text × Option Summary)} {under : Text}
  {recursive : Bool} {summaries : List Summary} {commonPrefixes : List Text}

def IsActive (window : Span) (now : Timestamp) (r : DelayRecord) (key : Text) (captured : Option Summary) : Prop :=
  ∃ d, r.deletes[key]? = some d ∧ now.hasElapsed d.deletedAt window = false ∧ d.summary = captured

def Surfaces (window : Span) (now : Timestamp) (r : DelayRecord) (under : Text) (recursive : Bool) (x : Summary) :
    Prop :=
  ∃ key, r.IsActive window now key (some x) ∧ Path.isDescendant under key recursive = true

def SurfacesAs (window : Span) (now : Timestamp) (r : DelayRecord) (under : Text) (recursive : Bool) (p : Text) :
    Prop :=
  ∃ key captured, r.IsActive window now key captured ∧ recursive = false ∧ Path.isBelow under key = true ∧
    Path.rollUp? under key = some p

theorem mem_summaries_of_held (order : held.Perm (r.purge window now).heldDeletes) {x : Summary} :
    x ∈ held.filterMap (OverlaidListing.summaryOf? under recursive) ↔ r.Surfaces window now under recursive x := by
  rw [List.mem_filterMap]
  constructor
  · rintro ⟨⟨key, captured⟩, member, shown⟩
    obtain ⟨descends, rfl⟩ := OverlaidListing.summaryOf?_eq_some.mp shown
    exact ⟨key, mem_held.mp (order.mem_iff.mp member), descends⟩
  · rintro ⟨key, active, descends⟩
    exact ⟨_, order.mem_iff.mpr (mem_held.mpr active), OverlaidListing.summaryOf?_eq_some.mpr ⟨descends, rfl⟩⟩

theorem prefixOf?_eq_some {key p : Text} : OverlaidListing.prefixOf? under recursive key = some p ↔
    recursive = false ∧ Path.isBelow under key = true ∧ Path.rollUp? under key = some p := by
  simp [OverlaidListing.prefixOf?, Path.isDescendant, and_assoc]

theorem mem_prefixes_of_held (order : held.Perm (r.purge window now).heldDeletes) {p : Text} :
    (p ∈ held.filterMap fun e => OverlaidListing.prefixOf? under recursive e.1) ↔
      r.SurfacesAs window now under recursive p := by
  rw [List.mem_filterMap]
  constructor
  · rintro ⟨⟨key, captured⟩, member, rolled⟩
    exact ⟨key, captured, mem_held.mp (order.mem_iff.mp member), prefixOf?_eq_some.mp rolled⟩
  · rintro ⟨key, captured, active, rolled⟩
    exact ⟨_, order.mem_iff.mpr (mem_held.mpr active), prefixOf?_eq_some.mpr rolled⟩

structure Accounts (window : Span) (now : Timestamp) (r : DelayRecord) (under : Text) (recursive : Bool)
    (raw : List Summary) (rawPrefixes : List Text) (back : List Summary) (backPrefixes : List Text)
    (out : OverlaidListing) : Prop where
  summaries : out.summaries = raw.filter (!r.hides window now ·.key) ++ back
  commonPrefixes : out.commonPrefixes = rawPrefixes.filter (!r.hides window now ·) ++ backPrefixes
  restoredSummaries : out.restoredSummaries = back.length
  restoredPrefixes : out.restoredPrefixes = backPrefixes.length
  hidden : out.hidden = raw.countP (r.hides window now ·.key) + rawPrefixes.countP (r.hides window now)
  summary_surfaces : ∀ x ∈ back, r.Surfaces window now under recursive x
  prefix_surfaces : ∀ p ∈ backPrefixes, r.SurfacesAs window now under recursive p
  summary_shown : ∀ x, r.Surfaces window now under recursive x → x.key ∈ out.summaries.map (·.key)
  prefix_shown : ∀ p, r.SurfacesAs window now under recursive p →
    Path.normalize p ∈ out.commonPrefixes.map Path.normalize
  keys_once : (out.summaries.map (·.key)).Nodup
  prefixes_once : out.commonPrefixes.Nodup
  -- Listed directories may be the same up to slashes among themselves, but what is put back is like no other.
  back_once : (backPrefixes.map Path.normalize).Nodup
  back_new : ∀ p ∈ backPrefixes, ∀ q ∈ rawPrefixes.filter (!r.hides window now ·), Path.normalize p ≠ Path.normalize q

theorem ofRaw_hidden (hides : Text → Bool) (summaries : List Summary) (commonPrefixes : List Text) :
    (OverlaidListing.ofRaw hides summaries commonPrefixes).hidden
      = summaries.countP (hides ·.key) + commonPrefixes.countP hides := by
  have one := List.length_eq_length_filter_add (l := summaries) (hides ·.key)
  have two := List.length_eq_length_filter_add (l := commonPrefixes) hides
  rw [List.countP_eq_length_filter, List.countP_eq_length_filter]
  dsimp only [OverlaidListing.ofRaw]
  omega

-- Captured summaries need not be of the key they are recorded for.
theorem overlay_accounts (order : held.Perm (r.purge window now).heldDeletes) (under : Text) (recursive : Bool)
    (keysOnce : (summaries.map (·.key)).Nodup) (prefixesOnce : commonPrefixes.Nodup) :
    ∃ back backPrefixes, r.Accounts window now under recursive summaries commonPrefixes back backPrefixes
      (overlay (r.hides window now) held under recursive summaries commonPrefixes) := by
  have adds : OverlaidListing.Adds (.ofRaw (r.hides window now) summaries commonPrefixes)
      (overlay (r.hides window now) held under recursive summaries commonPrefixes) _ _ := overlay_adds
  obtain ⟨back, entries⟩ := addAll_completes (·.key) (summaries.filter (!r.hides window now ·.key))
    (held.filterMap (OverlaidListing.summaryOf? under recursive))
  obtain ⟨backPrefixes, directories⟩ := addAll_completes Path.normalize
    (commonPrefixes.filter (!r.hides window now ·))
    (held.filterMap fun e => OverlaidListing.prefixOf? under recursive e.1)
  have summariesCounted := adds.restoredSummaries
  have prefixesCounted := adds.restoredPrefixes
  rw [adds.summaries, OverlaidListing.ofRaw, Nat.zero_add] at summariesCounted
  rw [adds.commonPrefixes, OverlaidListing.ofRaw, Nat.zero_add] at prefixesCounted
  refine ⟨back, backPrefixes, ?_⟩
  constructor
  case summaries => exact adds.summaries.trans entries.split
  case commonPrefixes => exact adds.commonPrefixes.trans directories.split
  case restoredSummaries => exact entries.count summariesCounted
  case restoredPrefixes => exact directories.count prefixesCounted
  case hidden => exact adds.hidden.trans (ofRaw_hidden _ _ _)
  case summary_surfaces => exact fun x member => (mem_summaries_of_held order).mp (entries.within x member)
  case prefix_surfaces => exact fun p member => (mem_prefixes_of_held order).mp (directories.within p member)
  case summary_shown =>
    intro x surfaces
    rw [adds.summaries]
    exact entries.all x ((mem_summaries_of_held order).mpr surfaces)
  case prefix_shown =>
    intro p surfaces
    rw [adds.commonPrefixes]
    exact directories.all p ((mem_prefixes_of_held order).mpr surfaces)
  case keys_once => exact overlay_keys_nodup keysOnce
  case prefixes_once => exact overlay_prefixes_nodup prefixesOnce
  case back_once => exact directories.once
  case back_new => exact directories.new

-- One key is hidden and deleted again, one has been shown for long, one delete has passed, and two deleted keys lie in
-- one directory that they spell differently.
def crowded : DelayRecord :=
  let k : Summary := ⟨['b'], "k".toList, 1, [], ⟨1500⟩, []⟩
  let z : Summary := ⟨['b'], "z".toList, 3, [], ⟨50⟩, []⟩
  empty |>.recordPut ⟨1500⟩ k.key |>.recordPut ⟨100⟩ "o".toList |>.recordDelete ⟨1800⟩ k.key (some k)
    |>.recordDelete ⟨1800⟩ "b//y".toList none |>.recordDelete ⟨1900⟩ "b/x".toList none
    |>.recordDelete ⟨100⟩ z.key (some z)

theorem crowded_listing_accounts :
    let window := Span.ofMillis 1000
    let now : Timestamp := ⟨2000⟩
    let held := (crowded.purge window now).heldDeletes.reverse
    let raw : List Summary :=
      [⟨['b'], "k".toList, 2, [], ⟨1500⟩, []⟩, ⟨['b'], "o".toList, 4, [], ⟨100⟩, []⟩]
    let rawPrefixes := ["c/".toList, "c//".toList]
    let out := overlay (crowded.hides window now) held [] false raw rawPrefixes
    held.Perm (crowded.purge window now).heldDeletes ∧ (raw.map (·.key)).Nodup ∧ rawPrefixes.Nodup ∧
      (∃ back backPrefixes, crowded.Accounts window now [] false raw rawPrefixes back backPrefixes out) ∧
      out = ⟨[⟨['b'], "o".toList, 4, [], ⟨100⟩, []⟩, ⟨['b'], "k".toList, 1, [], ⟨1500⟩, []⟩],
        ["c/".toList, "c//".toList, "b/".toList], 1, 1, 1⟩ := by
  intro window now held raw rawPrefixes out
  have order : held.Perm (crowded.purge window now).heldDeletes := List.reverse_perm _
  have keysOnce : (raw.map (·.key)).Nodup := by decide
  have prefixesOnce : rawPrefixes.Nodup := by decide
  exact ⟨order, keysOnce, prefixesOnce, overlay_accounts order [] false keysOnce prefixesOnce, by decide +kernel⟩

end DelayRecord
end StaleStore
