import Mathlib.Data.List.Infix
import StaleStore.Proofs.Prefixes
import StaleStore.Store.Page

namespace StaleStore
namespace Path

inductive BeginsNamed : Text → Prop where
  | name {n} : IsName n → BeginsNamed n
  | deeper {n c rest} : IsName n → c ≠ separator → BeginsNamed (n ++ [separator] ++ c :: rest)

variable {n top slashes under : Text} {first : Char}

theorem stepUp_last (named : IsName n) : stepUp n = some [] := by
  cases n with
  | nil => exact absurd rfl named.nonempty
  | cons c t =>
    have first : c ≠ separator := fun isSeparator => named.plain (isSeparator ▸ List.mem_cons_self)
    have none : t.dropWhile (· ≠ separator) = [] := by
      rw [List.dropWhile_eq_nil_iff]
      intro d member
      exact decide_eq_true fun isSeparator => named.plain (isSeparator ▸ List.mem_cons_of_mem _ member)
    rw [stepUp, List.dropWhile_cons_of_neg (by simpa using first)]
    exact congrArg (some ·.tail) none

theorem stepUp_slash (path : Text) : stepUp (separator :: path) = stepUp path := by
  unfold stepUp
  rw [List.dropWhile_cons_of_pos (by simp)]

theorem climb_last {candidate : Text} (root : stepUp candidate = some []) :
    climb candidate = some (separator :: candidate) := by
  rw [climb]
  split
  · rename_i found
    rw [root] at found
    cases found
  · rename_i up found
    rw [root] at found
    cases found
    rfl

theorem climb_step {candidate up : Text} (step : stepUp candidate = some up) (nonempty : up ≠ []) :
    climb candidate = climb up := by
  rw [climb]
  split
  · rename_i found
    rw [step] at found
    cases found
  · rename_i up' found
    rw [step] at found
    cases found
    rw [if_neg (mt List.isEmpty_iff.mp nonempty)]

-- One step up from below a directory leads to it, or to something shorter below it.
theorem stepUp_below (top rest : Text) (other : first ≠ separator) : ∃ up,
    stepUp (top ++ [separator] ++ first :: rest).reverse = some up.reverse ∧
      (up = top ∨ ∃ less, up = top ++ [separator] ++ first :: less ∧ less.length < rest.length) := by
  induction rest using List.reverseRecOn with
  | nil =>
    have named : IsName [first] := ⟨by simp, by simpa using other.symm⟩
    have step : stepUp ([first] ++ separator :: top.reverse) = some top.reverse := stepUp_name named
    exact ⟨top, by simpa using step, Or.inl rfl⟩
  | append_singleton rest c ih =>
    have longer : rest.length < (rest ++ [c]).length := by simp
    by_cases slash : c = separator
    · obtain ⟨up, step, stands⟩ := ih
      refine ⟨up, ?_, stands.imp_right fun ⟨less, same, shorter⟩ => ⟨less, same, shorter.trans longer⟩⟩
      have turned : (top ++ [separator] ++ first :: (rest ++ [separator])).reverse
          = separator :: (top ++ [separator] ++ first :: rest).reverse := by simp
      rw [slash, turned, stepUp_slash, step]
    · by_cases deeper : separator ∈ rest.reverse
      · obtain ⟨before, after, split, absent⟩ := List.eq_append_cons_of_mem deeper
        have named : IsName (c :: before) := ⟨by simp, by simpa [Ne.symm slash] using absent⟩
        have shorter : after.reverse.length < rest.length := by
          have length := congrArg List.length split
          simp only [List.length_append, List.length_cons, List.length_reverse] at length ⊢
          omega
        refine ⟨top ++ [separator] ++ first :: after.reverse, ?_, Or.inr ⟨_, rfl, shorter.trans longer⟩⟩
        have step : stepUp (c :: before ++ separator :: (after ++ first :: separator :: top.reverse)) = _ :=
          stepUp_name named
        simpa [split] using step
      · have named : IsName (c :: (rest.reverse ++ [first])) := by
          refine ⟨by simp, ?_⟩
          simpa [Ne.symm slash, Ne.symm other] using deeper
        have step : stepUp (c :: (rest.reverse ++ [first]) ++ separator :: top.reverse) = _ := stepUp_name named
        exact ⟨top, by simpa using step, Or.inl rfl⟩

theorem climb_below (root : stepUp top.reverse = some []) (other : first ≠ separator) (rest : Text) :
    climb (top ++ [separator] ++ first :: rest).reverse = some (separator :: top.reverse) := by
  generalize size : rest.length = count
  induction count using Nat.strongRecOn generalizing rest with
  | _ count ih =>
    have nonempty : top.reverse ≠ [] := by
      intro empty
      rw [empty] at root
      cases root
    obtain ⟨up, step, rfl | ⟨less, rfl, shorter⟩⟩ := stepUp_below top rest other
    · rw [climb_step step nonempty, climb_last root]
    · rw [climb_step step (by simp), ih _ (size ▸ shorter) less rfl]

theorem topDirectory?_alone (root : stepUp top.reverse = some []) : topDirectory? top = none := by
  rw [topDirectory?, root, Option.bind_some, climb_root]
  rfl

theorem topDirectory?_below (root : stepUp top.reverse = some []) (other : first ≠ separator) (rest : Text) :
    topDirectory? (top ++ [separator] ++ first :: rest) = some (top ++ [separator]) := by
  obtain ⟨up, step, rfl | ⟨less, rfl, -⟩⟩ := stepUp_below top rest other
  · rw [topDirectory?, step, Option.bind_some, climb_last root]
    simp
  · rw [topDirectory?, step, Option.bind_some, climb_below root other]
    simp

theorem normalize_last (path : Text) : (normalize path).getLast? ≠ some separator := by
  rw [normalize, Text.trimRight, List.getLast?_reverse]
  intro head
  have other := List.head?_dropWhile_not (· = separator) path.reverse
  rw [head] at other
  simp at other

theorem normalize_length_le (path : Text) : (normalize path).length ≤ path.length := by
  obtain ⟨slashes, whole, -⟩ := normalize_split path
  have length := congrArg List.length whole
  rw [List.length_append] at length
  omega

theorem doubled_iff (whole : under = normalize under ++ slashes) (all : ∀ c ∈ slashes, c = separator) :
    [separator, separator] <:+ under ↔ 2 ≤ slashes.length := by
  constructor
  · rintro ⟨front, ends⟩
    have last := normalize_last under
    rcases List.eq_nil_or_concat slashes with rfl | ⟨more, c, rfl⟩
    · rw [List.append_nil] at whole
      rw [← whole, ← ends] at last
      simp at last
    · rcases List.eq_nil_or_concat more with rfl | ⟨more, d, rfl⟩
      · have split : front ++ [separator] ++ [separator] = normalize under ++ [c] := by
          rw [← List.append_cons, ends]
          exact whole
        rw [← (List.append_inj' split rfl).1] at last
        simp at last
      · simp
  · intro two
    obtain ⟨k, count⟩ := Nat.exists_eq_add_of_le' two
    rw [whole, List.eq_replicate_iff.mpr ⟨count, all⟩, List.replicate_add]
    exact (List.suffix_append _ _).trans (List.suffix_append _ _)

-- Below a prefix the way up starts behind what is left of the prefix without its slashes.
theorem rollUp?_append (ends : under = [] ∨ under.getLast? = some separator)
    (whole : under = normalize under ++ slashes) (all : ∀ c ∈ slashes, c = separator) (rest : Text) :
    rollUp? under (under ++ rest) = (topDirectory? (slashes ++ rest)).map (normalize under ++ ·) := by
  by_cases root : normalize under = []
  · have same : under = slashes := by rwa [root, List.nil_append] at whole
    simp [rollUp?, root, ← same]
  · have nonempty : under ≠ [] := fun empty => root (by rw [empty]; rfl)
    obtain ⟨c, more, rfl⟩ : ∃ c more, slashes = c :: more := by
      cases slashes with
      | nil =>
        rw [List.append_nil] at whole
        exact absurd (ends.resolve_left nonempty) (whole ▸ normalize_last under)
      | cons c more => exact ⟨c, more, rfl⟩
    obtain rfl := all c List.mem_cons_self
    have key : under ++ rest = normalize under ++ (separator :: more ++ rest) := by
      rw [← List.append_assoc, ← whole]
    have starts : (normalize under ++ [separator]).isPrefixOf (under ++ rest) = true := by
      rw [List.isPrefixOf_iff_prefix, key, List.prefix_append_right_inj]
      exact ⟨more ++ rest, by simp⟩
    unfold rollUp?
    simp only [List.isEmpty_iff, root, if_false, starts, if_true]
    rw [key, List.drop_left]

theorem stepUp_slashes (named : IsName n) (all : ∀ c ∈ slashes, c = separator) :
    stepUp (slashes ++ n).reverse = some [] ↔ slashes.length ≤ 1 := by
  rcases List.eq_nil_or_concat slashes with rfl | ⟨more, c, rfl⟩
  · simp [stepUp_last named.backwards]
  · obtain rfl := all c (by simp)
    have step : stepUp (n.reverse ++ separator :: more.reverse) = _ := stepUp_name named.backwards
    have turned : (more.concat separator ++ n).reverse = n.reverse ++ separator :: more.reverse := by simp
    rw [turned, step]
    simp

section
variable (ends : under = [] ∨ under.getLast? = some separator)
include ends

theorem isChild_name (named : IsName n) : isChild under (under ++ n) = true ↔ ¬ [separator, separator] <:+ under := by
  rw [isChild, decide_eq_true_iff]
  rcases List.eq_nil_or_concat under with rfl | ⟨front, c, rfl⟩
  · rw [List.nil_append, parent, stepUp_last named.backwards]
    simp
    rfl
  · obtain rfl : c = separator := by simpa using ends
    rw [List.concat_eq_append, parent_of_name named, Option.some_inj, normalize_slash]
    constructor
    · rintro plain ⟨more, doubled⟩
      have last := normalize_last front
      rw [← plain] at last
      rw [List.append_cons] at doubled
      rw [← (List.append_inj' doubled rfl).1] at last
      simp at last
    · intro plain
      refine (normalize_of_last fun last => plain ?_).symm
      obtain ⟨more, rfl⟩ := List.getLast?_eq_some_iff.mp last
      exact ⟨more, by simp⟩

theorem rollUp?_name (named : IsName n) (plain : ¬ [separator, separator] <:+ under) :
    rollUp? under (under ++ n) = none := by
  obtain ⟨slashes, whole, all⟩ := normalize_split under
  rw [doubled_iff whole all, not_le, Nat.lt_succ_iff] at plain
  rw [rollUp?_append ends whole all, topDirectory?_alone ((stepUp_slashes named all).mpr plain)]
  rfl

theorem rollUp?_eq_some (absent : separator ∉ n) (tail : Text) :
    rollUp? under (under ++ (n ++ [separator] ++ tail)) = some (under ++ (n ++ [separator])) ↔
      ¬ [separator, separator] <:+ under ∧ IsName n ∧ ∃ c rest, tail = c :: rest ∧ c ≠ separator := by
  obtain ⟨slashes, whole, all⟩ := normalize_split under
  have placed : under ++ (n ++ [separator]) = normalize under ++ (slashes ++ n ++ [separator]) := by
    rw [← List.append_assoc, ← List.append_assoc, ← List.append_assoc, ← whole]
  rw [rollUp?_append ends whole all, placed, doubled_iff whole all, not_le, Nat.lt_succ_iff]
  constructor
  · intro rolled
    obtain ⟨g, found, same⟩ := Option.map_eq_some_iff.mp rolled
    obtain rfl := List.append_cancel_left same
    obtain ⟨top, c, same, stands, other, starts⟩ := topDirectory?_found found
    obtain rfl := (List.append_inj' same rfl).1
    have named : IsName n := by
      refine ⟨?_, absent⟩
      rintro rfl
      obtain ⟨d, member, named⟩ := stepUp_named stands
      exact named (all d (by simpa using member))
    refine ⟨(stepUp_slashes named all).mp stands, named, ?_⟩
    have behind : [separator, c] <+: [separator] ++ tail := by
      rw [← List.prefix_append_right_inj (slashes ++ n)]
      simpa using starts
    obtain ⟨rest, same⟩ := behind
    exact ⟨c, rest, by simpa using same.symm, other⟩
  · rintro ⟨plain, named, c, rest, rfl, other⟩
    have found := topDirectory?_below ((stepUp_slashes named all).mpr plain) other rest
    rw [← List.append_assoc, ← List.append_assoc, found]
    rfl

end

theorem not_isChild_self (under : Text) : ¬ isChild under under = true := by
  rw [isChild, decide_eq_true_iff, parent, normalize, Text.trimRight]
  unfold stepUp
  split
  · simp
  · rename_i c rest named
    intro same
    rw [named, Option.map_some, Option.some_inj, List.reverse_inj] at same
    have shorter := (rest.dropWhile_sublist (· ≠ separator)).length_le
    have length := congrArg List.length same
    simp only [List.length_tail, List.length_cons] at length
    omega

theorem not_isChild_below (named : IsName n) (other : first ≠ separator) (rest : Text) :
    ¬ isChild under (under ++ (n ++ [separator] ++ first :: rest)) = true := by
  obtain ⟨up, step, stands⟩ := stepUp_below (under ++ n) rest other
  have starts : under ++ n <+: up := by
    rcases stands with rfl | ⟨less, rfl, -⟩
    · exact List.prefix_rfl
    · rw [List.append_assoc]
      exact List.prefix_append _ _
  rw [isChild, decide_eq_true_iff, parent, ← List.append_assoc, ← List.append_assoc, step, Option.map_some,
    Option.some_inj, List.reverse_reverse]
  rintro rfl
  have short := normalize_length_le under
  have long := starts.length_le
  have positive := List.length_pos_iff.mpr named.nonempty
  rw [List.length_append] at long
  omega

theorem group?_append (directory rest : Text) : Page.group? directory (some directoryDelimiter) (directory ++ rest)
    = (Text.throughFirst? directoryDelimiter rest).map (directory ++ ·) := by
  unfold Page.group?
  rw [List.drop_left]
  rfl

def PlacedAlike (under key : Text) : Prop :=
  (isChild under key = true ↔ Page.group? under (some directoryDelimiter) key = none) ∧
    rollUp? under key = Page.group? under (some directoryDelimiter) key

theorem placedAlike_iff (ends : under = [] ∨ under.getLast? = some separator) (rest : Text) :
    PlacedAlike under (under ++ rest) ↔ ¬ [separator, separator] <:+ under ∧ BeginsNamed rest := by
  constructor
  · rintro ⟨children, directories⟩
    rw [group?_append] at children directories
    by_cases deeper : separator ∈ rest
    · obtain ⟨n, tail, rfl, absent⟩ := List.eq_append_cons_of_mem deeper
      rw [List.append_cons, Text.throughFirst?_of_name absent] at directories
      obtain ⟨plain, named, c, rest, rfl, other⟩ := (rollUp?_eq_some ends absent tail).mp directories
      rw [List.append_cons]
      exact ⟨plain, .deeper named other⟩
    · have child : isChild under (under ++ rest) = true :=
        children.mpr (by rw [Text.throughFirst?_of_plain deeper]; rfl)
      have named : IsName rest := by
        refine ⟨?_, deeper⟩
        rintro rfl
        rw [List.append_nil] at child
        exact not_isChild_self under child
      exact ⟨(isChild_name ends named).mp child, .name named⟩
  · rintro ⟨plain, begins⟩
    unfold PlacedAlike
    rw [group?_append]
    cases begins with
    | name named =>
      rw [Text.throughFirst?_of_plain named.plain, rollUp?_name ends named plain]
      exact ⟨iff_of_true ((isChild_name ends named).mpr plain) rfl, rfl⟩
    | @deeper n c rest named other =>
      rw [Text.throughFirst?_of_name named.plain,
        (rollUp?_eq_some ends named.plain _).mpr ⟨plain, named, c, rest, rfl, other⟩]
      exact ⟨iff_of_false (not_isChild_below named other rest) nofun, rfl⟩

end Path
end StaleStore
