import StaleStore.Proofs.Groupings

namespace StaleStore
namespace Path

variable {path up directory g : Text}

-- The same way up written as a loop over parents, which stops where the next one is the ancestor.
def climbTo (ancestor candidate : Text) : Option Text :=
  match _found : parent candidate with
  | none => none
  | some next => if next = ancestor then some (candidate ++ [separator]) else climbTo ancestor next
termination_by candidate.length
decreasing_by
  obtain ⟨up, step, same⟩ := Option.map_eq_some_iff.mp _found
  have shorter := stepUp_length_lt step
  rwa [← same, List.length_reverse, ← candidate.length_reverse]

theorem parent_length_lt (found : parent path = some directory) : directory.length < path.length := by
  obtain ⟨up, step, rfl⟩ := Option.map_eq_some_iff.mp found
  have shorter := stepUp_length_lt step
  rwa [List.length_reverse] at shorter ⊢

theorem parent_begins (found : parent path = some directory) : directory <+: path := by
  rcases parent_starts found with rfl | below
  · exact List.nil_prefix
  · exact (List.prefix_append _ _).trans below

theorem climbTo_top {ancestor : Text} (top : parent path = none) : climbTo ancestor path = none := by
  rw [climbTo]
  split
  · rfl
  · rename_i found
    rw [top] at found
    cases found

theorem climbTo_step {ancestor : Text} (step : parent path = some directory) :
    climbTo ancestor path
      = if directory = ancestor then some (path ++ [separator]) else climbTo ancestor directory := by
  rw [climbTo]
  split
  · rename_i found
    rw [step] at found
    cases found
  · rename_i found
    rw [step] at found
    cases found
    rfl

theorem climbTo_root (path : Text) : climbTo [] path = (climb path.reverse).map List.reverse := by
  fun_induction climbTo [] path with
  | case1 path top =>
    have none : stepUp path.reverse = none := Option.map_eq_none_iff.mp top
    rw [climb]
    split
    · rfl
    · rename_i up step
      rw [none] at step
      cases step
  | case2 path found =>
    obtain ⟨up, step, same⟩ := Option.map_eq_some_iff.mp found
    rw [climb_last (List.reverse_eq_nil_iff.mp same ▸ step)]
    simp
  | case3 path next found other ih =>
    obtain ⟨up, step, rfl⟩ := Option.map_eq_some_iff.mp found
    rw [ih, List.reverse_reverse, climb_step step fun root => other (by rw [root]; rfl)]

theorem topDirectory?_eq_loop (path : Text) : topDirectory? path = (parent path).bind (climbTo []) := by
  rw [topDirectory?, parent]
  cases stepUp path.reverse with
  | none => rfl
  | some up => rw [Option.bind_some, Option.map_some, Option.bind_some, climbTo_root, List.reverse_reverse]

theorem climbTo_short {ancestor : Text} (short : path.length ≤ ancestor.length) : climbTo ancestor path = none := by
  fun_induction climbTo ancestor path with
  | case1 path none => rfl
  | case2 path found =>
    have shorter := parent_length_lt found
    omega
  | case3 path next found other ih =>
    have shorter := parent_length_lt found
    exact ih (by omega)

theorem climbTo_starts {ancestor : Text} (nonempty : ancestor ≠ []) (found : climbTo ancestor path = some g) :
    ancestor ++ [separator] <+: path := by
  fun_induction climbTo ancestor path with
  | case1 path none => cases found
  | case2 path next => exact (parent_starts next).resolve_left nonempty
  | case3 path next step other ih => exact (ih found).trans (parent_begins step)

theorem stepUp_append {behind : Text} (plain : up.head? ≠ some separator) :
    stepUp (behind ++ [separator] ++ up) = ((stepUp (behind ++ [separator])).map (· ++ up)).or (stepUp up) := by
  have own : up.dropWhile (· = separator) = up := by
    cases up with
    | nil => rfl
    | cons c rest => exact List.dropWhile_cons_of_neg (by simpa using plain)
  have slash : [separator].dropWhile (· = separator) = [] := by decide
  unfold stepUp
  rw [List.dropWhile_append, List.dropWhile_append, slash, own]
  cases first : behind.dropWhile (· = separator) with
  | nil => rfl
  | cons c rest =>
    have stops : (rest ++ [separator]).dropWhile (· ≠ separator) ≠ [] := by simp [List.dropWhile_eq_nil_iff]
    obtain ⟨d, more, found⟩ := List.exists_cons_of_ne_nil stops
    have further : (rest ++ [separator] ++ up).dropWhile (· ≠ separator) = d :: more ++ up := by
      rw [List.dropWhile_append, found]
      rfl
    show some ((rest ++ [separator] ++ up).dropWhile (· ≠ separator)).tail
      = some (((rest ++ [separator]).dropWhile (· ≠ separator)).tail ++ up)
    rw [further, found]
    rfl

theorem parent_behind (behind : path = [] ∨ [separator] <+: path) (found : parent path = some directory) :
    directory = [] ∨ [separator] <+: directory := by
  rcases List.eq_nil_or_concat directory with rfl | ⟨front, last, rfl⟩
  · exact Or.inl rfl
  · have starts := parent_begins found
    rcases behind with rfl | slash
    · simp at starts
    · exact Or.inr (List.prefix_of_prefix_length_le slash starts (by simp))

theorem climbTo_above {ancestor : Text} : (parent ancestor).bind (climbTo ancestor) = none := by
  cases found : parent ancestor with
  | none => rfl
  | some directory => exact climbTo_short (parent_length_lt found).le

section
variable {ancestor : Text} (plain : ancestor.getLast? ≠ some separator)
include plain

theorem parent_append (behind : [separator] <+: path) :
    parent (ancestor ++ path) = ((parent path).map (ancestor ++ ·)).or (parent ancestor) := by
  obtain ⟨rest, rfl⟩ := behind
  have turned : (ancestor ++ ([separator] ++ rest)).reverse = rest.reverse ++ [separator] ++ ancestor.reverse := by simp
  rw [parent, turned, stepUp_append (by rwa [List.head?_reverse]), parent, parent, List.reverse_append,
    List.reverse_singleton]
  cases stepUp (rest.reverse ++ [separator]) <;> simp

theorem climbTo_append (behind : path = [] ∨ [separator] <+: path) :
    climbTo ancestor (ancestor ++ path) = (climbTo [] path).map (ancestor ++ ·) := by
  fun_induction climbTo [] path with
  | case1 path top =>
    have step : parent (ancestor ++ path) = parent ancestor := by
      rcases behind with rfl | slash
      · rw [List.append_nil]
      · rw [parent_append plain slash, top]
        rfl
    cases found : parent ancestor with
    | none => exact climbTo_top (step.trans found)
    | some directory =>
      have shorter := parent_length_lt found
      rw [climbTo_step (step.trans found), if_neg (by rintro rfl; exact lt_irrefl _ shorter), climbTo_short shorter.le]
      rfl
  | case2 path found =>
    have slash := behind.resolve_left (by rintro rfl; cases found)
    have step : parent (ancestor ++ path) = some ancestor := by simp [parent_append plain slash, found]
    rw [climbTo_step step, if_pos rfl, List.append_assoc]
    rfl
  | case3 path next found other ih =>
    have slash := behind.resolve_left (by rintro rfl; cases found)
    have step : parent (ancestor ++ path) = some (ancestor ++ next) := by simp [parent_append plain slash, found]
    rw [climbTo_step step, if_neg (by simpa using other), ih (parent_behind behind found)]

end

-- The directory a key shows up as is what the loop over its parents finds, wherever the key lies.
theorem rollUp?_eq_loop (ancestor key : Text) :
    rollUp? ancestor key = (parent key).bind (climbTo (normalize ancestor)) := by
  have plain := normalize_last ancestor
  unfold rollUp?
  generalize normalize ancestor = ancestor at plain
  dsimp only
  by_cases root : ancestor = []
  · subst root
    rw [if_pos (show ([] : Text).isEmpty = true from rfl), topDirectory?_eq_loop]
  rw [if_neg (mt List.isEmpty_iff.mp root)]
  split
  · rename_i below
    obtain ⟨rest, rfl⟩ := List.isPrefixOf_iff_prefix.mp below
    have slash : [separator] <+: [separator] ++ rest := List.prefix_append _ _
    rw [List.append_assoc, List.drop_left, topDirectory?_eq_loop, parent_append plain slash]
    cases found : parent ([separator] ++ rest) with
    | none => exact climbTo_above.symm
    | some directory => exact (climbTo_append plain (parent_behind (Or.inr slash) found)).symm
  · rename_i elsewhere
    refine (Option.bind_eq_none_iff.mpr fun directory found => ?_).symm
    rw [Option.eq_none_iff_forall_ne_some]
    intro g climbs
    have starts := (climbTo_starts root climbs).trans (parent_begins found)
    exact elsewhere (List.isPrefixOf_iff_prefix.mpr starts)

end Path
end StaleStore
