import StaleStore.Proofs.Groupings
import StaleStore.Proofs.Stale.Delays
import StaleStore.Proofs.Stale.Overlay
import StaleStore.Proofs.Store.WholePage

namespace StaleStore

theorem singleton_if_inj {α : Type} {p q : Prop} [Decidable p] [Decidable q] {a : α} :
    (if p then [a] else []) = (if q then [a] else []) ↔ (p ↔ q) := by
  by_cases holds : p <;> by_cases too : q <;> simp [holds, too]

theorem toList_inj {α : Type} {a b : Option α} : a.toList = b.toList ↔ a = b := by
  cases a <;> cases b <;> simp

section
variable {bucket under key : Text} {o : StoredObject} {delimiter : Option Text}

theorem Page.wholeListing_alone (lies : under <+: key) (delimiter : Option Text) :
    wholeListing bucket ((∅ : Bucket).insert key o) under delimiter none
      = [Entry.ofObject bucket (group? under delimiter) (key, o)] := by
  refine eq_of_ordered_by wholeListing_ordered (List.pairwise_singleton _ _) fun entry => ?_
  rw [mem_wholeListing, List.mem_singleton]
  constructor
  · rintro ⟨key', o', shows⟩
    have stored := shows.stored
    rw [Std.ExtTreeMap.getElem?_insert] at stored
    split at stored
    · rename_i same
      obtain rfl := Std.LawfulEqOrd.compare_eq_iff_eq.mp same
      cases stored
      exact shows.shown.symm
    · simp at stored
  · rintro rfl
    exact ⟨key, o, Std.ExtTreeMap.getElem?_insert_self, lies, nofun, rfl, nofun⟩

theorem Page.ofBucket_alone (lies : under <+: key) (delimiter : Option Text) {room : Nat} (positive : 0 < room) :
    let page := ofBucket bucket ((∅ : Bucket).insert key o) under delimiter none room
    page.summaries = (if group? under delimiter key = none then [o.summary bucket key] else []) ∧
      page.commonPrefixes = (group? under delimiter key).toList := by
  obtain ⟨room, rfl⟩ := Nat.exists_eq_succ_of_ne_zero positive.ne'
  intro page
  have alone : page = ofEntries (room + 1) [Entry.ofObject bucket (group? under delimiter) (key, o)] := by
    rw [← wholeListing_alone lies delimiter]
    exact ofBucket_eq ..
  rw [alone, Entry.ofObject]
  cases group? under delimiter key with
  | none => simp [ofEntries, Entry.summary?, Entry.group?]
  | some g => simp [ofEntries, Entry.summary?, Entry.group?]

theorem overlay_alone (hides : Text → Bool) (under key : Text) (x : Summary) :
    let out := overlay hides [(key, some x)] under false [] []
    out.summaries = (if Path.isChild under key = true then [x] else []) ∧
      out.commonPrefixes = if Path.isBelow under key = true then (Path.rollUp? under key).toList else [] := by
  intro out
  have adds : OverlaidListing.Adds _ out _ _ := overlay_adds
  constructor
  · rw [adds.summaries]
    by_cases child : Path.isChild under key = true <;>
      simp [OverlaidListing.ofRaw, OverlaidListing.summaryOf?, Path.isDescendant, child, addAll, addNew]
  · rw [adds.commonPrefixes]
    by_cases below : Path.isBelow under key = true
    · cases rolled : Path.rollUp? under key <;>
        simp [OverlaidListing.ofRaw, OverlaidListing.prefixOf?, Path.isDescendant, below, rolled, addAll, addNew]
    · simp [OverlaidListing.ofRaw, OverlaidListing.prefixOf?, Path.isDescendant, below, addAll]

end

namespace DelayRecord

variable {window : Span} {now : Timestamp} {r : DelayRecord} {bucket under key : Text} {o : StoredObject} {room : Nat}

theorem lone_delete_listed_as_stored_iff (ends : under = [] ∨ under.getLast? = some Path.separator)
    (lies : under <+: key) (positive : 0 < room)
    (alone : (r.purge window now).heldDeletes = [(key, some (o.summary bucket key))]) :
    let delimiter := some directoryDelimiter
    let restored := overlay (r.hides window now) (r.purge window now).heldDeletes under (isRecursive delimiter) [] []
    let page := Page.ofBucket bucket ((∅ : Bucket).insert key o) under delimiter none room
    (restored.summaries = page.summaries ∧ restored.commonPrefixes = page.commonPrefixes) ↔
      ¬ [Path.separator, Path.separator] <:+ under ∧ Path.BeginsNamed (key.drop under.length) := by
  intro delimiter restored page
  obtain ⟨summaries, prefixes⟩ : restored.summaries = _ ∧ restored.commonPrefixes = _ :=
    alone ▸ overlay_alone (r.hides window now) under key (o.summary bucket key)
  obtain ⟨shown, groups⟩ : page.summaries = _ ∧ page.commonPrefixes = _ := Page.ofBucket_alone lies delimiter positive
  rw [summaries, prefixes, shown, groups, if_pos ((Path.isBelow_iff ends).mpr lies), singleton_if_inj, toList_inj]
  obtain ⟨rest, rfl⟩ := lies
  rw [List.drop_left]
  exact Path.placedAlike_iff ends rest

def plainObject : StoredObject := ⟨[], "00000000".toList, .zero⟩

def loneDelete (key : Text) : DelayRecord :=
  DelayRecord.empty.recordDelete .zero key (some (plainObject.summary ['b'] key))

-- Empty names further down and a slash at the end do not matter.
theorem deep_delete_listed_as_stored :
    let under : Text := ['p', '/']
    let key : Text := ['p', '/', 'b', '/', 'c', '/', '/', 'x', '/']
    let delimiter := some directoryDelimiter
    let window := Span.ofMillis 1000
    let r := loneDelete key
    let restored := overlay (r.hides window ⟨500⟩) (r.purge window ⟨500⟩).heldDeletes under (isRecursive delimiter) [] []
    let page := Page.ofBucket ['b'] ((∅ : Bucket).insert key plainObject) under delimiter none 1
    (under = [] ∨ under.getLast? = some Path.separator) ∧ under <+: key ∧ 0 < 1 ∧
      (r.purge window ⟨500⟩).heldDeletes = [(key, some (plainObject.summary ['b'] key))] ∧
      restored.summaries = page.summaries ∧ restored.commonPrefixes = page.commonPrefixes := by
  intro under key delimiter window r restored page
  have ends : under = [] ∨ under.getLast? = some Path.separator := Or.inr rfl
  have lies : under <+: key := List.prefix_append _ _
  have alone : (r.purge window ⟨500⟩).heldDeletes = [(key, some (plainObject.summary ['b'] key))] := by decide +kernel
  have named : Path.IsName ['b'] := ⟨by simp, by decide⟩
  have begins : Path.BeginsNamed (key.drop under.length) :=
    .deeper named (show 'c' ≠ Path.separator by decide)
  have plain : ¬ [Path.separator, Path.separator] <:+ under := by decide
  exact ⟨ends, lies, Nat.one_pos, alone,
    (lone_delete_listed_as_stored_iff ends lies Nat.one_pos alone).mpr ⟨plain, begins⟩⟩

-- An empty name is counted to the directory before it, and a slash at the end is not seen.
theorem doubled_and_last_slash_misplaced :
    let delimiter := some directoryDelimiter
    let window := Span.ofMillis 1000
    let held := fun key => ((loneDelete key).purge window .zero).heldDeletes
    let restored := fun key =>
      overlay ((loneDelete key).hides window .zero) (held key) [] (isRecursive delimiter) [] []
    let page := fun key => Page.ofBucket ['b'] ((∅ : Bucket).insert key plainObject) [] delimiter none 1000
    (held "b//y".toList = [("b//y".toList, some (plainObject.summary ['b'] "b//y".toList))] ∧
      (restored "b//y".toList).commonPrefixes = ["b//".toList] ∧ (page "b//y".toList).commonPrefixes = ["b/".toList]) ∧
    (held "a/".toList = [("a/".toList, some (plainObject.summary ['b'] "a/".toList))] ∧
      (restored "a/".toList).summaries = [plainObject.summary ['b'] "a/".toList] ∧
      (restored "a/".toList).commonPrefixes = [] ∧
      (page "a/".toList).summaries = [] ∧ (page "a/".toList).commonPrefixes = ["a/".toList]) := by
  decide +kernel

end DelayRecord
end StaleStore
