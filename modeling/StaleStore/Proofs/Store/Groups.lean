import StaleStore.Proofs.KeyOrder
import StaleStore.Store.Page

namespace StaleStore
namespace Text

theorem throughFirst?_starts {mark t x : Text} (found : throughFirst? mark t = some x) : x <+: t := by
  induction t generalizing x with
  | nil =>
    simp only [throughFirst?] at found
    split at found
    · cases found; exact List.nil_prefix
    · cases found
  | cons c t ih =>
    simp only [throughFirst?] at found
    split at found
    · rename_i here; cases found; exact List.isPrefixOf_iff_prefix.mp here
    · obtain ⟨y, later, rfl⟩ := Option.map_eq_some_iff.mp found
      exact List.prefix_cons_inj c |>.mpr (ih later)

theorem throughFirst?_length {mark t x : Text} (found : throughFirst? mark t = some x) :
    mark.length ≤ x.length := by
  induction t generalizing x with
  | nil =>
    simp only [throughFirst?] at found
    split at found
    · rename_i empty; simp [List.isEmpty_iff.mp empty]
    · cases found
  | cons c t ih =>
    simp only [throughFirst?] at found
    split at found
    · cases found; exact Nat.le_refl _
    · obtain ⟨y, later, rfl⟩ := Option.map_eq_some_iff.mp found
      exact Nat.le_succ_of_le (ih later)

-- An earlier occurrence of the mark would end inside the text through the first one, also where the mark
-- overlaps itself. So every text that starts with it has its first occurrence there.
theorem throughFirst?_of_starts {mark t u x : Text} (found : throughFirst? mark t = some x)
    (starts : x <+: u) : throughFirst? mark u = some x := by
  induction t generalizing x u with
  | nil =>
    simp only [throughFirst?] at found
    split at found
    · rename_i empty
      rw [List.isEmpty_iff] at empty
      cases found
      cases u <;> simp [throughFirst?, empty]
    · cases found
  | cons c t ih =>
    simp only [throughFirst?] at found
    split at found
    · cases found
      cases u with
      | nil => simp [throughFirst?, List.prefix_nil.mp starts]
      | cons d u => simp [throughFirst?, List.isPrefixOf_iff_prefix.mpr starts]
    · rename_i absent
      obtain ⟨y, later, rfl⟩ := Option.map_eq_some_iff.mp found
      obtain ⟨rest, rfl⟩ := starts
      have notHere : ¬ mark <+: c :: (y ++ rest) := by
        intro here
        have inside : mark <+: c :: y := List.prefix_of_prefix_length_le here (List.prefix_append (c :: y) rest)
          (Nat.le_succ_of_le (throughFirst?_length later))
        have goesOn : c :: y <+: c :: t := List.prefix_cons_inj c |>.mpr (throughFirst?_starts later)
        exact absent (List.isPrefixOf_iff_prefix.mpr (inside.trans goesOn))
      rw [List.cons_append, throughFirst?, if_neg (mt List.isPrefixOf_iff_prefix.mp notHere),
        ih later (List.prefix_append y rest)]
      rfl

end Text

namespace Page

-- What the proofs about pages need to know of the groups: a group starts its keys, and all keys it starts
-- belong to it.
structure Grouping (under : Text) (group : Text → Option Text) : Prop where
  starts : ∀ {key g}, under <+: key → group key = some g → g <+: key
  holds : ∀ {key other g}, group key = some g → g <+: other → group other = some g

theorem group?_eq_some {under : Text} {delimiter : Option Text} {key g : Text} :
    group? under delimiter key = some g ↔ ∃ d x, delimiter = some d ∧ d ≠ [] ∧
      Text.throughFirst? d (key.drop under.length) = some x ∧ under ++ x = g := by
  cases delimiter with
  | none => simp [group?]
  | some d =>
    by_cases empty : d = []
    · simp [group?, empty]
    · simp [group?, empty]

theorem group?_starts {under : Text} {delimiter : Option Text} {key g : Text}
    (rolled : group? under delimiter key = some g) : under <+: g ∧ under.length < g.length := by
  obtain ⟨d, x, -, nonempty, found, rfl⟩ := group?_eq_some.mp rolled
  have marked := Text.throughFirst?_length found
  have positive := List.length_pos_iff.mpr nonempty
  refine ⟨List.prefix_append _ _, ?_⟩
  rw [List.length_append]
  omega

theorem group?_grouping (under : Text) (delimiter : Option Text) : Grouping under (group? under delimiter) where
  starts := by
    intro key g lies rolled
    obtain ⟨d, x, -, -, found, rfl⟩ := group?_eq_some.mp rolled
    obtain ⟨rest, rfl⟩ := lies
    rw [List.drop_left] at found
    exact List.prefix_append_right_inj under |>.mpr (Text.throughFirst?_starts found)
  holds := by
    intro key other g rolled starts
    obtain ⟨d, x, given, nonempty, found, rfl⟩ := group?_eq_some.mp rolled
    obtain ⟨rest, rfl⟩ := starts
    refine group?_eq_some.mpr ⟨d, x, given, nonempty, ?_, rfl⟩
    rw [List.append_assoc, List.drop_left]
    exact Text.throughFirst?_of_starts found (List.prefix_append x rest)

def shownAs (group : Text → Option Text) (key : Text) : Text := (group key).getD key

section
variable {under : Text} {group : Text → Option Text} (valid : Grouping under group)
include valid

theorem Grouping.shownAs_starts {key : Text} (lies : under <+: key) : shownAs group key <+: key := by
  unfold shownAs
  cases rolled : group key with
  | none => exact List.prefix_rfl
  | some g => exact valid.starts lies rolled

theorem Grouping.shownAs_le {key : Text} (lies : under <+: key) : shownAs group key ≤ key :=
  Text.le_of_starts (valid.shownAs_starts lies)

theorem Grouping.shownAs_between {key other : Text} (lies : under <+: key) (low : shownAs group key ≤ other)
    (high : other ≤ key) : shownAs group other = shownAs group key := by
  unfold shownAs at *
  cases rolled : group key with
  | none =>
    rw [rolled] at low
    rw [show other = key from le_antisymm high low, rolled]
  | some g =>
    rw [rolled, Option.getD_some] at low
    have member := valid.holds rolled (Text.starts_of_between low high (valid.starts lies rolled))
    rw [member, Option.getD_some, Option.getD_some]

theorem Grouping.shownAs_shownAs {key : Text} (lies : under <+: key) :
    shownAs group (shownAs group key) = shownAs group key :=
  valid.shownAs_between lies le_rfl (valid.shownAs_le lies)

theorem Grouping.shownAs_mono {key other : Text} (lies : under <+: key) (liesToo : under <+: other)
    (order : key ≤ other) : shownAs group key ≤ shownAs group other := by
  by_contra less
  rw [not_le] at less
  have between : shownAs group other ≤ key := less.le.trans (valid.shownAs_le lies)
  exact less.ne (valid.shownAs_between liesToo between order).symm

theorem Grouping.ne_of_alone {key other g : Text} (alone : group key = none) (rolled : group other = some g) :
    g ≠ key := by
  intro same
  subst same
  have member := valid.holds rolled List.prefix_rfl
  rw [alone] at member
  cases member

theorem Grouping.shownAs_lt_of_alone {key other : Text} (lies : under <+: key) (liesToo : under <+: other)
    (alone : group key = none) (order : key < other) : shownAs group key < shownAs group other := by
  refine lt_of_le_of_ne (valid.shownAs_mono lies liesToo order.le) ?_
  unfold shownAs
  rw [alone]
  cases rolled : group other with
  | none => exact order.ne
  | some g => exact (valid.ne_of_alone alone rolled).symm

end
end Page
end StaleStore
