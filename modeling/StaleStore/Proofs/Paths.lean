import Mathlib.Data.List.Basic
import StaleStore.Path
import StaleStore.Store.Listing

namespace StaleStore
namespace Path

structure IsName (n : Text) : Prop where
  nonempty : n ≠ []
  plain : separator ∉ n

variable {n m directory rest : Text}

theorem IsName.backwards (named : IsName n) : IsName n.reverse where
  nonempty := mt List.reverse_eq_nil_iff.mp named.nonempty
  plain := fun member => named.plain (List.mem_reverse.mp member)

theorem IsName.last_ne (named : IsName n) (directory : Text) : (directory ++ n).getLast? ≠ some separator := by
  rw [List.getLast?_append_of_ne_nil _ named.nonempty]
  exact fun last => named.plain (List.mem_of_getLast? last)

theorem IsName.prefix_iff (named : IsName n) (other : IsName m) :
    n ++ [separator] <+: m ++ [separator] ++ rest ↔ n = m := by
  constructor
  · intro starts
    obtain ⟨t, same⟩ := starts
    have front := congrArg (List.takeWhile (· ≠ separator)) same
    have upTo : ∀ {name : Text} (t : Text), IsName name →
        (name ++ [separator] ++ t).takeWhile (· ≠ separator) = name := by
      intro name t named
      rw [List.append_assoc, List.takeWhile_append_of_pos]
      · simp
      · intro c member
        exact decide_eq_true fun isSeparator => named.plain (isSeparator ▸ member)
    rwa [upTo t named, upTo rest other] at front
  · intro same
    rw [same]
    exact List.prefix_append _ _

theorem normalize_slash (path : Text) : normalize (path ++ [separator]) = normalize path := by
  unfold normalize Text.trimRight
  rw [List.reverse_append, List.reverse_singleton, List.singleton_append, List.dropWhile_cons_of_pos (by simp)]

theorem normalize_of_last {path : Text} (last : path.getLast? ≠ some separator) : normalize path = path := by
  unfold normalize Text.trimRight
  rw [← List.head?_reverse] at last
  cases backwards : path.reverse with
  | nil => rw [List.dropWhile_nil, ← backwards, List.reverse_reverse]
  | cons c t =>
    rw [backwards] at last
    rw [List.dropWhile_cons_of_neg, ← backwards, List.reverse_reverse]
    simpa using last

theorem stepUp_name (named : IsName n) : stepUp (n ++ separator :: rest) = some rest := by
  cases n with
  | nil => exact absurd rfl named.nonempty
  | cons c t =>
    have first : c ≠ separator := fun isSeparator => named.plain (isSeparator ▸ List.mem_cons_self)
    unfold stepUp
    rw [List.cons_append, List.dropWhile_cons_of_neg (by simpa using first)]
    dsimp only
    rw [List.dropWhile_append_of_pos, List.dropWhile_cons_of_neg (by simp), List.tail_cons]
    intro c member
    exact decide_eq_true fun isSeparator => named.plain (isSeparator ▸ List.mem_cons_of_mem _ member)

theorem climb_root : climb [] = none := by
  rw [climb]
  rfl

theorem parent_of_name (named : IsName n) : parent (directory ++ [separator] ++ n) = some directory := by
  rw [parent, List.append_assoc, List.singleton_append, List.reverse_append, List.reverse_cons, List.append_assoc,
    List.singleton_append, stepUp_name named.backwards, Option.map_some, List.reverse_reverse]

theorem isBelow_iff {directory key : Text}
    (whole : directory = [] ∨ directory.getLast? = some separator) :
    isBelow directory key = true ↔ directory <+: key := by
  unfold isBelow
  rcases whole with rfl | ends
  · simp
  · have nonempty : directory.isEmpty = false := by
      cases directory with
      | nil => cases ends
      | cons c rest => rfl
    rw [nonempty, if_neg Bool.false_ne_true, if_pos ends, List.isPrefixOf_iff_prefix]

theorem isBelow_self {path : Text} (nonempty : path ≠ []) (last : path.getLast? ≠ some separator) :
    isBelow path path = false := by
  have longer : ¬ path ++ [separator] <+: path := by
    intro starts
    have length := starts.length_le
    rw [List.length_append, List.length_singleton] at length
    omega
  rw [isBelow, if_neg (mt List.isEmpty_iff.mp nonempty), if_neg last, Bool.eq_false_iff, ne_eq,
    List.isPrefixOf_iff_prefix]
  exact longer

theorem isBelow_self_iff {path : Text} :
    isBelow path path = true ↔ path = [] ∨ path.getLast? = some separator := by
  constructor
  · intro below
    by_contra other
    obtain ⟨nonempty, last⟩ := not_or.mp other
    rw [isBelow_self nonempty last] at below
    cases below
  · intro whole
    exact (isBelow_iff whole).mpr (List.prefix_refl _)

end Path

theorem Text.throughFirst?_of_name {n : Text} (plain : Path.separator ∉ n) (rest : Text) :
    throughFirst? directoryDelimiter (n ++ [Path.separator] ++ rest) = some (n ++ [Path.separator]) := by
  induction n with
  | nil => simp [throughFirst?, directoryDelimiter, Path.separator]
  | cons c t ih =>
    have later : Path.separator ∉ t := fun member => plain (List.mem_cons_of_mem _ member)
    have first : c ≠ Path.separator := fun isSeparator => plain (isSeparator ▸ List.mem_cons_self)
    rw [List.cons_append, List.cons_append, throughFirst?, if_neg, ih later]
    · rfl
    · rw [List.isPrefixOf_iff_prefix, directoryDelimiter, List.cons_prefix_cons]
      exact fun both => first both.1.symm

theorem Text.throughFirst?_of_plain {n : Text} (plain : Path.separator ∉ n) :
    throughFirst? directoryDelimiter n = none := by
  induction n with
  | nil => rfl
  | cons c t ih =>
    have later : Path.separator ∉ t := fun member => plain (List.mem_cons_of_mem _ member)
    have first : c ≠ Path.separator := fun isSeparator => plain (isSeparator ▸ List.mem_cons_self)
    rw [throughFirst?, if_neg, ih later]
    · rfl
    · rw [List.isPrefixOf_iff_prefix, directoryDelimiter, List.cons_prefix_cons]
      exact fun both => first both.1.symm

end StaleStore
