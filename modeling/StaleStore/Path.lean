import StaleStore.Text

namespace StaleStore
namespace Path

def separator : Char := '/'

def normalize (path : Text) : Text := path.trimRight separator

-- One step up, both paths read backwards: slashes at the end are dropped, then the last name and the slash
-- before it. There is no step up from the root.
def stepUp (path : Text) : Option Text :=
  match path.dropWhile (· = separator) with
  | [] => none
  | _ :: rest => some (rest.dropWhile (· ≠ separator)).tail

def parent (path : Text) : Option Text := (stepUp path.reverse).map List.reverse

def isBelow (directory key : Text) : Bool :=
  if directory.isEmpty then true
  else if directory.getLast? = some separator then directory.isPrefixOf key
  else (directory ++ [separator]).isPrefixOf key

def isChild (directory key : Text) : Bool := parent key = some (normalize directory)

def isDescendant (directory key : Text) (recursive : Bool) : Bool :=
  if recursive then isBelow directory key else isChild directory key

theorem stepUp_length_lt {path up : Text} (h : stepUp path = some up) : up.length < path.length := by
  have trimmed := (path.dropWhile_sublist (· = separator)).length_le
  unfold stepUp at h
  split at h
  · cases h
  · rename_i first rest found
    have named := (rest.dropWhile_sublist (· ≠ separator)).length_le
    cases Option.some.inj h
    rw [found] at trimmed
    simp only [List.length_cons, List.length_tail] at trimmed ⊢
    omega

def climb (candidate : Text) : Option Text :=
  match _found : stepUp candidate with
  | none => none
  | some up => if up.isEmpty then some (separator :: candidate) else climb up
termination_by candidate.length
decreasing_by exact stepUp_length_lt _found

def topDirectory? (path : Text) : Option Text :=
  ((stepUp path.reverse).bind climb).map List.reverse

-- The directory one level below `ancestor` on the way to `key`, with a slash at its end. Direct
-- children of `ancestor`, and keys elsewhere, have none.
def rollUp? (ancestor key : Text) : Option Text :=
  let ancestor := normalize ancestor
  if ancestor.isEmpty then topDirectory? key
  else if (ancestor ++ [separator]).isPrefixOf key then
    (topDirectory? (key.drop ancestor.length)).map (ancestor ++ ·)
  else none

end Path
end StaleStore
