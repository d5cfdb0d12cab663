import Mathlib.Data.List.Dedup
import Mathlib.Data.List.Infix
import StaleStore.Proofs.Store.WholePage

namespace StaleStore
namespace Text

variable {mark t x y : Text}

theorem throughFirst?_ends (found : throughFirst? mark t = some x) : mark <:+ x := by
  induction t generalizing x with
  | nil =>
    rw [throughFirst?] at found
    split at found
    · rename_i empty
      rw [List.isEmpty_iff.mp empty]
      exact List.nil_suffix
    · cases found
  | cons c t ih =>
    rw [throughFirst?] at found
    split at found
    · cases found
      exact List.suffix_rfl
    · obtain ⟨x, later, rfl⟩ := Option.map_eq_some_iff.mp found
      exact (ih later).trans (List.suffix_cons c x)

theorem throughFirst?_least (starts : y <+: t) (ends : mark <:+ y) : ∃ x, throughFirst? mark t = some x ∧ x <+: y := by
  induction t generalizing y with
  | nil =>
    obtain rfl := List.prefix_nil.mp starts
    obtain rfl := List.suffix_nil.mp ends
    exact ⟨[], rfl, List.nil_prefix⟩
  | cons c t ih =>
    rw [throughFirst?]
    split
    · rename_i here
      refine ⟨mark, rfl, ?_⟩
      exact List.prefix_of_prefix_length_le (List.isPrefixOf_iff_prefix.mp here) starts ends.length_le
    · rename_i absent
      rw [List.isPrefixOf_iff_prefix] at absent
      cases y with
      | nil =>
        obtain rfl := List.suffix_nil.mp ends
        exact absurd List.nil_prefix absent
      | cons d y =>
        obtain ⟨rfl, goesOn⟩ := List.cons_prefix_cons.mp starts
        rcases List.suffix_cons_iff.mp ends with whole | later
        · exact absurd (whole ▸ starts) absent
        · obtain ⟨x, found, within⟩ := ih goesOn later
          exact ⟨d :: x, by rw [found]; rfl, (List.prefix_cons_inj d).mpr within⟩

theorem find?_inits {p : Text → Bool} (starts : x <+: t) (holds : p x = true)
    (least : ∀ y, y <+: t → p y = true → x <+: y) : t.inits.find? p = some x := by
  induction t generalizing x p with
  | nil =>
    obtain rfl := List.prefix_nil.mp starts
    simp [holds]
  | cons c t ih =>
    rw [List.inits_cons]
    cases x with
    | nil => rw [List.find?_cons_of_pos holds]
    | cons d x =>
      obtain ⟨rfl, goesOn⟩ := List.cons_prefix_cons.mp starts
      have other : ¬ p [] = true := fun empty => by
        have impossible := least [] List.nil_prefix empty
        cases List.prefix_nil.mp impossible
      rw [List.find?_cons_of_neg other, List.find?_map]
      have found := ih (p := p ∘ (d :: ·)) goesOn holds fun y starts here =>
        (List.prefix_cons_inj d).mp (least (d :: y) ((List.prefix_cons_inj d).mpr starts) here)
      rw [found]
      rfl

theorem throughFirst?_eq_find? (mark t : Text) : throughFirst? mark t = t.inits.find? (mark.isSuffixOf ·) := by
  cases found : throughFirst? mark t with
  | some x =>
    refine (find?_inits (throughFirst?_starts found) ?_ ?_).symm
    · exact List.isSuffixOf_iff_suffix.mpr (throughFirst?_ends found)
    · intro y starts ends
      obtain ⟨x', foundToo, within⟩ := throughFirst?_least starts (List.isSuffixOf_iff_suffix.mp ends)
      rw [found] at foundToo
      cases foundToo
      exact within
  | none =>
    refine (List.find?_eq_none.mpr ?_).symm
    intro y start ends
    obtain ⟨x, foundToo, -⟩ :=
      throughFirst?_least ((List.mem_inits _ _).mp start) (List.isSuffixOf_iff_suffix.mp ends)
    rw [found] at foundToo
    cases foundToo

end Text

namespace Page

-- The prefix and what follows it up to and including the first delimiter, which is the shortest beginning of it that
-- ends with the delimiter.
def rolledUp? (under : Text) (delimiter : Option Text) (key : Text) : Option Text := do
  let d ← delimiter
  if d = [] then none
  else ((key.drop under.length).inits.find? (d.isSuffixOf ·)).map (under ++ ·)

def inRange (under : Text) (start : Option Text) (objects : Bucket) : List (Text × StoredObject) :=
  objects.toList.filter fun e => under.isPrefixOf e.1 && start.all (·.before e.1)

-- All entries there are for a page: what the keys are shown as, once each, without the group that is the start. The
-- walk looks no further back than to the last group, which is enough since the keys of a group are neighbours.
def listed (bucket : Text) (objects : Bucket) (under : Text) (delimiter start : Option Text) : List Entry :=
  let shown := (inRange under start objects).map (Entry.ofObject bucket (rolledUp? under delimiter))
  shown.dedup.filter fun entry => entry.group? = none || entry.group? ≠ start

theorem rolledUp?_eq (under : Text) (delimiter : Option Text) : rolledUp? under delimiter = group? under delimiter := by
  funext key
  cases delimiter with
  | none => rfl
  | some d => simp [rolledUp?, group?, Text.throughFirst?_eq_find?]

section
variable {bucket under : Text} {objects : Bucket} {delimiter start : Option Text} {entry other : Entry}

theorem mem_inRange {key : Text} {o : StoredObject} : (key, o) ∈ inRange under start objects ↔
    objects[key]? = some o ∧ under <+: key ∧ ∀ s, start = some s → s < key := by
  rw [inRange, List.mem_filter, Std.ExtTreeMap.mem_toList_iff_getElem?_eq_some, Bool.and_eq_true,
    List.isPrefixOf_iff_prefix]
  cases start <;> simp [Text.before_iff]

theorem mem_listed : entry ∈ listed bucket objects under delimiter start ↔
    entry ∈ wholeListing bucket objects under delimiter start := by
  rw [listed, rolledUp?_eq, List.mem_filter, List.mem_dedup, List.mem_map, mem_wholeListing]
  constructor
  · rintro ⟨⟨⟨key, o⟩, ranged, shown⟩, allowed⟩
    obtain ⟨stored, lies, after⟩ := mem_inRange.mp ranged
    refine ⟨key, o, stored, lies, after, shown, fun same => ?_⟩
    cases entry with
    | object s =>
      obtain ⟨-, rfl⟩ := Entry.ofObject_object.mp shown
      exact lt_irrefl key (after key same)
    | group g => simp [Entry.group?, same, Entry.name] at allowed
  · rintro ⟨key, o, shows⟩
    refine ⟨⟨(key, o), mem_inRange.mpr ⟨shows.stored, shows.lies, shows.after⟩, shows.shown⟩, ?_⟩
    cases entry with
    | object s => simp [Entry.group?]
    | group g =>
      have other : some g ≠ start := shows.notStart.symm
      simp [Entry.group?, other]

theorem eq_of_name_eq (member : entry ∈ wholeListing bucket objects under delimiter start)
    (memberToo : other ∈ wholeListing bucket objects under delimiter start) (same : entry.name = other.name) :
    entry = other := by
  have names : ((wholeListing bucket objects under delimiter start).map Entry.name).Nodup := by
    rw [List.nodup_iff_pairwise_ne, List.pairwise_map]
    exact wholeListing_ordered.imp fun less => less.ne
  exact List.inj_on_of_nodup_map names member memberToo same

-- The keys go up, so their names do not go down, and no name that is left comes twice.
theorem listed_ordered : (listed bucket objects under delimiter start).Pairwise fun a b => a.name < b.name := by
  have valid := group?_grouping under delimiter
  have upward : (listed bucket objects under delimiter start).Pairwise fun a b => a.name ≤ b.name := by
    rw [listed, rolledUp?_eq]
    apply List.Pairwise.filter
    apply List.Pairwise.sublist (List.dedup_sublist _)
    rw [List.pairwise_map]
    refine ((objects_ordered objects).filter _).imp_of_mem ?_
    intro a b ranged rangedToo less
    rw [Entry.ofObject_name, Entry.ofObject_name]
    exact valid.shownAs_mono (mem_inRange.mp ranged).2.1 (mem_inRange.mp rangedToo).2.1 less.le
  have once : (listed bucket objects under delimiter start).Nodup := (List.nodup_dedup _).filter _
  refine (upward.and once).imp_of_mem ?_
  rintro a b member memberToo ⟨order, differs⟩
  exact lt_of_le_of_ne order fun same => differs (eq_of_name_eq (mem_listed.mp member) (mem_listed.mp memberToo) same)

theorem listed_eq : listed bucket objects under delimiter start = wholeListing bucket objects under delimiter start :=
  eq_of_ordered_by listed_ordered wholeListing_ordered fun _ => mem_listed

end

theorem page_is_front_of_listed (bucket : Text) (objects : Bucket) (under : Text) (delimiter start : Option Text)
    (maxKeys : Nat) :
    let listed := listed bucket objects under delimiter start
    let page := ofBucket bucket objects under delimiter start maxKeys
    page.summaries = (listed.take maxKeys).filterMap Entry.summary? ∧
      page.commonPrefixes = (listed.take maxKeys).filterMap Entry.group? ∧
      (page.summaries.map (·.key)).Pairwise (· < ·) ∧ page.commonPrefixes.Pairwise (· < ·) ∧
      (page.truncated = true ↔ maxKeys < listed.length) := by
  intro listed page
  have front : page = ofEntries maxKeys listed := (ofBucket_eq ..).trans (congrArg _ listed_eq.symm)
  have ordered : (listed.take maxKeys).Pairwise fun a b => a.name < b.name :=
    listed_ordered.sublist (List.take_sublist _ _)
  rw [front]
  exact ⟨rfl, rfl, keys_ordered ordered, prefixes_ordered ordered, decide_eq_true_iff⟩

end Page
end StaleStore
