import Mathlib.Data.List.TakeWhile
import StaleStore.Proofs.Paths

namespace StaleStore
namespace Path

variable {path up top slashes directory under key g : Text}

def HasSpareSlash (path : Text) : Prop := path = [separator] ∨ [separator, separator] <:+ path

theorem normalize_split (path : Text) : ∃ slashes, path = normalize path ++ slashes ∧ ∀ c ∈ slashes, c = separator := by
  refine ⟨(path.reverse.takeWhile (· = separator)).reverse, ?_, ?_⟩
  · rw [normalize, Text.trimRight, ← List.reverse_append, List.takeWhile_append_dropWhile, List.reverse_reverse]
  · intro c member
    have taken := List.mem_takeWhile_imp (List.mem_reverse.mp member)
    exact of_decide_eq_true taken

theorem stepUp_named (step : stepUp path = some up) : ∃ c ∈ path, c ≠ separator := by
  unfold stepUp at step
  split at step
  · cases step
  · rename_i c rest named
    refine ⟨c, (List.dropWhile_sublist _).subset (named ▸ List.mem_cons_self), ?_⟩
    have first := List.head?_dropWhile_not (· = separator) path
    rw [named] at first
    simpa using first

-- On the way up, paths being read backwards, what is left is the root or stands behind a separator, before which there
-- is a name.
theorem stepUp_behind (step : stepUp path = some up) :
    up = [] ∨ ∃ c, c ≠ separator ∧ c :: separator :: up <:+ path := by
  unfold stepUp at step
  split at step
  · cases step
  · rename_i first rest named
    have other : first ≠ separator := by
      have head := List.head?_dropWhile_not (· = separator) path
      rw [named] at head
      simpa using head
    cases Option.some.inj step
    cases behind : rest.dropWhile (· ≠ separator) with
    | nil => exact Or.inl rfl
    | cons d up =>
      have isSeparator : d = separator := by
        have head := List.head?_dropWhile_not (· ≠ separator) rest
        rw [behind] at head
        simpa using head
      subst isSeparator
      rcases List.eq_nil_or_concat (first :: rest.takeWhile (· ≠ separator)) with empty | ⟨front, c, name⟩
      · cases empty
      · have plain : ∀ c ∈ first :: rest.takeWhile (· ≠ separator), c ≠ separator := by
          intro c member
          rcases List.mem_cons.mp member with rfl | taken
          · exact other
          · have kept := List.mem_takeWhile_imp taken
            exact of_decide_eq_true kept
        have inside : c ∈ first :: rest.takeWhile (· ≠ separator) := by
          rw [name]
          simp
        have whole : front ++ c :: separator :: up = first :: rest := by
          rw [List.append_cons, ← List.concat_eq_append, ← name, ← behind, List.cons_append,
            List.takeWhile_append_dropWhile]
        have suffix : c :: separator :: up <:+ first :: rest := ⟨front, whole⟩
        exact Or.inr ⟨c, plain c inside, suffix.trans (named ▸ List.dropWhile_suffix _)⟩

theorem stepUp_suffix (step : stepUp path = some up) : up = [] ∨ separator :: up <:+ path :=
  (stepUp_behind step).imp_right fun ⟨c, _, suffix⟩ => (List.suffix_cons c _).trans suffix

theorem parent_starts (found : parent path = some directory) :
    directory = [] ∨ directory ++ [separator] <+: path := by
  obtain ⟨up, step, rfl⟩ := Option.map_eq_some_iff.mp found
  refine (stepUp_suffix step).imp (fun root => by rw [root]; rfl) fun suffix => ?_
  rw [← List.reverse_cons, ← List.reverse_reverse path]
  exact List.reverse_prefix.mpr suffix

theorem climb_found {candidate found : Text} (climbs : climb candidate = some found) :
    ∃ top, found = separator :: top ∧ stepUp top = some [] ∧
      (top = candidate ∨ ∃ c, c ≠ separator ∧ c :: separator :: top <:+ candidate) := by
  fun_induction climb candidate with
  | case1 candidate root => cases climbs
  | case2 candidate up step root =>
    cases climbs
    exact ⟨candidate, rfl, List.isEmpty_iff.mp root ▸ step, Or.inl rfl⟩
  | case3 candidate up step below ih =>
    obtain ⟨top, same, stands, behind⟩ := ih climbs
    have further := (stepUp_behind step).resolve_left (mt List.isEmpty_iff.mpr below)
    refine ⟨top, same, stands, Or.inr ?_⟩
    rcases behind with rfl | ⟨c, other, suffix⟩
    · exact further
    · obtain ⟨d, -, above⟩ := further
      exact ⟨c, other, (suffix.trans (List.suffix_cons _ _)).trans ((List.suffix_cons _ _).trans above)⟩

theorem topDirectory?_found (found : topDirectory? path = some g) : ∃ top c, g = top ++ [separator] ∧
    stepUp top.reverse = some [] ∧ c ≠ separator ∧ top ++ [separator, c] <+: path := by
  obtain ⟨backwards, climbs, rfl⟩ := Option.map_eq_some_iff.mp found
  obtain ⟨up, step, climbs⟩ := Option.bind_eq_some_iff.mp climbs
  obtain ⟨top, rfl, stands, behind⟩ := climb_found climbs
  have further : ∃ c, c ≠ separator ∧ c :: separator :: top <:+ path.reverse := by
    rcases stepUp_behind step with rfl | ⟨d, other, suffix⟩
    · rw [climb_root] at climbs
      cases climbs
    · rcases behind with rfl | ⟨c, otherToo, above⟩
      · exact ⟨d, other, suffix⟩
      · exact ⟨c, otherToo, (above.trans (List.suffix_cons _ _)).trans ((List.suffix_cons _ _).trans suffix)⟩
  obtain ⟨c, other, suffix⟩ := further
  refine ⟨top.reverse, c, List.reverse_cons, by rwa [List.reverse_reverse], other, ?_⟩
  rw [← List.reverse_reverse path]
  simpa using List.reverse_prefix.mpr suffix

theorem topDirectory?_starts (found : topDirectory? path = some g) :
    ∃ top, g = top ++ [separator] ∧ top <+: path ∧ ∃ c ∈ top, c ≠ separator := by
  obtain ⟨top, c, same, stands, -, starts⟩ := topDirectory?_found found
  obtain ⟨d, member, named⟩ := stepUp_named stands
  exact ⟨top, same, (List.prefix_append _ _).trans starts, d, List.mem_reverse.mp member, named⟩

theorem slashes_start (all : ∀ c ∈ slashes, c = separator) (starts : slashes <+: path) (upTo : top <+: path)
    (named : ∃ c ∈ top, c ≠ separator) : slashes <+: top := by
  rcases List.prefix_or_prefix_of_prefix starts upTo with first | second
  · exact first
  · obtain ⟨c, member, other⟩ := named
    exact absurd (all c (second.subset member)) other

theorem isBelow_starts (below : isBelow under key = true) : under <+: key := by
  unfold isBelow at below
  split at below
  · rename_i root
    rw [List.isEmpty_iff.mp root]
    exact List.nil_prefix
  · split at below
    · exact List.isPrefixOf_iff_prefix.mp below
    · exact (List.prefix_append _ _).trans (List.isPrefixOf_iff_prefix.mp below)

-- The slashes that are dropped from the prefix come back with the key's own name behind them.
theorem rollUp?_starts (below : isBelow under key = true) (rolled : rollUp? under key = some g) : under <+: g := by
  obtain ⟨slashes, whole, all⟩ := normalize_split under
  have starts := isBelow_starts below
  rw [whole] at starts ⊢
  unfold rollUp? at rolled
  dsimp only at rolled
  split at rolled
  · rename_i root
    rw [List.isEmpty_iff.mp root, List.nil_append] at starts ⊢
    obtain ⟨top, rfl, upTo, named⟩ := topDirectory?_starts rolled
    exact (slashes_start all starts upTo named).trans (List.prefix_append _ _)
  · split at rolled
    · obtain ⟨rest, found, rfl⟩ := Option.map_eq_some_iff.mp rolled
      obtain ⟨top, rfl, upTo, named⟩ := topDirectory?_starts found
      obtain ⟨more, rfl⟩ := starts
      rw [List.append_assoc, List.drop_left] at upTo
      refine (List.prefix_append_right_inj _).mpr ?_
      exact (slashes_start all (List.prefix_append _ _) upTo named).trans (List.prefix_append _ _)
    · cases rolled

theorem isChild_starts (child : isChild under key = true) : under <+: key ∨ HasSpareSlash under := by
  obtain ⟨slashes, whole, all⟩ := normalize_split under
  have starts := parent_starts (of_decide_eq_true child)
  rcases List.eq_nil_or_concat slashes with rfl | ⟨front, c, rfl⟩
  · rw [List.append_nil] at whole
    rw [← whole] at starts
    refine Or.inl ?_
    rcases starts with root | below
    · exact root ▸ List.nil_prefix
    · exact (List.prefix_append _ _).trans below
  · obtain rfl : c = separator := all c (by simp)
    rcases List.eq_nil_or_concat front with rfl | ⟨front, d, rfl⟩
    · rw [List.concat_eq_append, List.nil_append] at whole
      rcases starts with root | below
      · rw [root, List.nil_append] at whole
        exact Or.inr (Or.inl whole)
      · exact Or.inl (whole ▸ below)
    · obtain rfl : d = separator := all d (by simp)
      refine Or.inr (Or.inr ?_)
      rw [whole, List.concat_eq_append, List.concat_eq_append]
      exact ⟨normalize under ++ front, by simp⟩

theorem child_of_spare (spare : HasSpareSlash under) : ∃ key, isChild under key = true ∧ ¬ under <+: key := by
  rcases spare with rfl | ⟨front, rfl⟩
  · exact ⟨['x'], by decide, by decide⟩
  · have letter : IsName ['x'] := ⟨by simp, by decide⟩
    obtain ⟨slashes, whole, -⟩ := normalize_split front
    have same : normalize (front ++ [separator, separator]) = normalize front := by
      rw [List.append_cons, normalize_slash, normalize_slash]
    refine ⟨normalize front ++ [separator] ++ ['x'], ?_, ?_⟩
    · rw [isChild, parent_of_name letter, same]
      exact decide_eq_true rfl
    · intro starts
      have behind : slashes ++ [separator, separator] <+: [separator, 'x'] := by
        rw [← List.prefix_append_right_inj (normalize front), ← List.append_assoc, ← whole]
        simpa using starts
      have short := behind.length_le
      simp only [List.length_append, List.length_cons, List.length_nil] at short
      obtain rfl : slashes = [] := List.eq_nil_of_length_eq_zero (by omega)
      revert behind
      decide

theorem descendants_start_iff {recursive : Bool} : (∀ key, isDescendant under key recursive = true → under <+: key) ↔
    (recursive = true ∨ ¬ HasSpareSlash under) := by
  cases recursive with
  | true => exact iff_of_true (fun key => isBelow_starts) (Or.inl rfl)
  | false =>
    constructor
    · intro start
      refine Or.inr fun spare => ?_
      obtain ⟨key, child, out⟩ := child_of_spare spare
      exact out (start key child)
    · rintro (recursive | plain) key child
      · cases recursive
      · exact (isChild_starts child).resolve_right plain

end Path
end StaleStore
