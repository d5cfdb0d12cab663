import StaleStore.Proofs.Directories

namespace StaleStore
namespace Path

variable {names others : List Text} {n front directory key g : Text}

def ofNames (names : List Text) : Text := Text.joined [separator] names

def opened (names : List Text) : Text := names.flatMap (· ++ [separator])

inductive Spells (names : List Text) : Text → Prop where
  | bare : Spells names (ofNames names)
  | slashed : names ≠ [] → Spells names (ofNames names ++ [separator])

theorem ofNames_cons (n : Text) (more : names ≠ []) : ofNames (n :: names) = n ++ [separator] ++ ofNames names := by
  cases names with
  | nil => exact absurd rfl more
  | cons m rest => rfl

theorem opened_cons (n : Text) (names : List Text) : opened (n :: names) = n ++ [separator] ++ opened names :=
  List.flatMap_cons

theorem opened_eq (nonempty : names ≠ []) : opened names = ofNames names ++ [separator] := by
  induction names with
  | nil => exact absurd rfl nonempty
  | cons n rest ih =>
    by_cases last : rest = []
    · subst last
      simp [opened, ofNames, Text.joined]
    · rw [opened_cons, ih last, ofNames_cons n last, List.append_assoc _ _ [separator]]

theorem ofNames_append (names : List Text) (more : others ≠ []) :
    ofNames (names ++ others) = opened names ++ ofNames others := by
  induction names with
  | nil => rfl
  | cons n rest ih =>
    rw [List.cons_append, ofNames_cons n (List.append_ne_nil_of_right_ne_nil _ more), ih, opened_cons,
      List.append_assoc _ (opened rest)]

section
variable (named : ∀ n ∈ names, IsName n)
include named

theorem isDirectory_opened : IsDirectory (opened names) := by
  induction names with
  | nil => exact .root
  | cons n rest ih =>
    rw [opened_cons]
    exact .deeper (named n List.mem_cons_self) (ih fun m member => named m (List.mem_cons_of_mem _ member))

theorem isKey_ofNames (nonempty : names ≠ []) : IsKey (ofNames names) := by
  induction names with
  | nil => exact absurd rfl nonempty
  | cons n rest ih =>
    have first := named n List.mem_cons_self
    by_cases last : rest = []
    · subst last
      exact .name first
    · rw [ofNames_cons n last]
      exact .deeper first (ih (fun m member => named m (List.mem_cons_of_mem _ member)) last)

theorem starts_iff (namedToo : ∀ n ∈ others, IsName n) (nonempty : others ≠ []) :
    opened names <+: ofNames others ↔ ∃ rest, rest ≠ [] ∧ others = names ++ rest := by
  constructor
  · intro starts
    induction names generalizing others with
    | nil => exact ⟨others, nonempty, rfl⟩
    | cons n rest ih =>
      have first := named n List.mem_cons_self
      rw [opened_cons] at starts
      cases others with
      | nil => exact absurd rfl nonempty
      | cons m more =>
        have firstToo := namedToo m List.mem_cons_self
        by_cases last : more = []
        · subst last
          refine absurd (starts.subset ?_) firstToo.plain
          simp
        · rw [ofNames_cons m last] at starts
          have same : n = m := (first.prefix_iff firstToo).mp ((List.prefix_append _ _).trans starts)
          subst same
          obtain ⟨tail, longer, found⟩ := ih (fun m member => named m (List.mem_cons_of_mem _ member))
            (fun m member => namedToo m (List.mem_cons_of_mem _ member)) last
            ((List.prefix_append_right_inj _).mp starts)
          exact ⟨tail, longer, by rw [found, List.cons_append]⟩
  · intro goesOn
    obtain ⟨rest, longer, same⟩ := goesOn
    rw [same, ofNames_append names longer]
    exact List.prefix_append _ _

end

theorem group?_ofNames (directory : Text) (named : IsName n) (names : List Text) :
    Page.group? directory (some directoryDelimiter) (directory ++ ofNames (n :: names))
      = if names = [] then none else some (directory ++ n ++ [separator]) := by
  rw [group?_append]
  by_cases last : names = []
  · subst last
    rw [if_pos rfl, ofNames, Text.joined, Text.throughFirst?_of_plain named.plain, Option.map_none]
  · rw [if_neg last, ofNames_cons n last, Text.throughFirst?_of_name named.plain, Option.map_some,
      List.append_assoc]

theorem isDescendant_slash (isKey : IsKey front) (key : Text) (recursive : Bool) :
    isDescendant (front ++ [separator]) key recursive = isDescendant front key recursive := by
  cases recursive with
  | false => simp only [isDescendant, isChild, normalize_slash, Bool.false_eq_true, if_false]
  | true =>
    have nonempty : front.isEmpty = false := by simpa using isKey.ne_nil
    simp [isDescendant, isBelow, nonempty, isKey.last_ne]

theorem rollUp?_slash (front key : Text) : rollUp? (front ++ [separator]) key = rollUp? front key := by
  unfold rollUp?
  rw [normalize_slash]

theorem rollUp?_lies (isDirectory : IsDirectory directory) (rolled : rollUp? directory key = some g) :
    directory <+: key := by
  cases isDirectory.from_end with
  | inl root =>
    rw [root]
    exact List.nil_prefix
  | inr behind =>
    obtain ⟨front, isKey, rfl⟩ := behind
    unfold rollUp? at rolled
    rw [isKey.normalize_slash] at rolled
    simp only [List.isEmpty_iff, isKey.ne_nil, if_false] at rolled
    split at rolled
    · rename_i starts
      exact List.isPrefixOf_iff_prefix.mp starts
    · cases rolled

theorem Spells.opens (spells : Spells names directory) (named : ∀ n ∈ names, IsName n) (key : Text) :
    (∀ recursive, isDescendant directory key recursive = isDescendant (opened names) key recursive) ∧
      rollUp? directory key = rollUp? (opened names) key := by
  by_cases root : names = []
  · subst root
    cases spells with
    | bare => exact ⟨fun _ => rfl, rfl⟩
    | slashed nonempty => exact absurd rfl nonempty
  · rw [opened_eq root]
    cases spells with
    | bare => exact ⟨fun r => (isDescendant_slash (isKey_ofNames named root) key r).symm, (rollUp?_slash _ key).symm⟩
    | slashed => exact ⟨fun _ => rfl, rfl⟩

section
variable (named : ∀ n ∈ names, IsName n) (namedToo : ∀ n ∈ others, IsName n) (nonempty : others ≠ [])
include named namedToo nonempty

theorem isBelow_iff_names : isDescendant (opened names) (ofNames others) true = true ↔
    names <+: others ∧ names ≠ others := by
  have below : isDescendant (opened names) (ofNames others) true = true ↔ opened names <+: ofNames others :=
    isBelow_iff (isDirectory_opened named).whole
  rw [below, starts_iff named namedToo nonempty]
  constructor
  · intro goesOn
    obtain ⟨rest, longer, rfl⟩ := goesOn
    exact ⟨List.prefix_append _ _, fun same => longer (List.self_eq_append_right.mp same)⟩
  · intro proper
    obtain ⟨⟨rest, rfl⟩, other⟩ := proper
    exact ⟨rest, fun none => other (by rw [none, List.append_nil]), rfl⟩

theorem isChild_iff_names : isDescendant (opened names) (ofNames others) false = true ↔
    ∃ last, others = names ++ [last] := by
  rw [isChild_iff_alone (isDirectory_opened named) (isKey_ofNames namedToo nonempty),
    starts_iff named namedToo nonempty]
  constructor
  · intro child
    obtain ⟨⟨rest, longer, rfl⟩, alone⟩ := child
    obtain ⟨n, more, rfl⟩ := List.exists_cons_of_ne_nil longer
    rw [ofNames_append names longer, group?_ofNames _ (namedToo n (by simp))] at alone
    by_cases last : more = []
    · exact ⟨n, by rw [last]⟩
    · rw [if_neg last] at alone
      cases alone
  · intro child
    obtain ⟨last, rfl⟩ := child
    refine ⟨⟨[last], by simp, rfl⟩, ?_⟩
    rw [ofNames_append names (by simp), group?_ofNames _ (namedToo last (by simp)), if_pos rfl]

theorem rollUp?_iff_names : rollUp? (opened names) (ofNames others) = some g ↔
    ∃ next after rest, others = names ++ next :: after :: rest ∧ g = ofNames (names ++ [next]) ++ [separator] := by
  have isDirectory := isDirectory_opened named
  have isKey := isKey_ofNames namedToo nonempty
  have placed : ∀ {next : Text} {rest : List Text}, others = names ++ next :: rest →
      rollUp? (opened names) (ofNames others)
        = if rest = [] then none else some (ofNames (names ++ [next]) ++ [separator]) := by
    intro next rest same
    have written : ofNames others = opened names ++ ofNames (next :: rest) := by
      rw [same, ofNames_append names (by simp)]
    have lies : opened names <+: ofNames others := written ▸ List.prefix_append _ _
    rw [(placedAlike isDirectory isKey lies).2, written, group?_ofNames _ (namedToo next (by simp [same])),
      ofNames_append names (by simp)]
    rfl
  constructor
  · intro rolled
    have lies := rollUp?_lies isDirectory rolled
    obtain ⟨rest, longer, same⟩ := (starts_iff named namedToo nonempty).mp lies
    obtain ⟨next, more, rfl⟩ := List.exists_cons_of_ne_nil longer
    rw [placed same] at rolled
    cases more with
    | nil => cases rolled
    | cons after rest => exact ⟨next, after, rest, same, (Option.some.inj rolled).symm⟩
  · intro deeper
    obtain ⟨next, after, rest, same, rfl⟩ := deeper
    rw [placed same, if_neg (by simp)]

end

-- What the text of a key and of a directory say of each other is what their names say.
theorem descendants_told_by_names (named : ∀ n ∈ names, IsName n) (namedToo : ∀ n ∈ others, IsName n)
    (nonempty : others ≠ []) (spells : Spells names directory) :
    (isDescendant directory (ofNames others) true = true ↔ names <+: others ∧ names ≠ others) ∧
      (isDescendant directory (ofNames others) false = true ↔ ∃ last, others = names ++ [last]) ∧
      ∀ g, rollUp? directory (ofNames others) = some g ↔ ∃ next after rest,
        others = names ++ next :: after :: rest ∧ g = ofNames (names ++ [next]) ++ [separator] := by
  obtain ⟨descendants, directories⟩ := spells.opens named (ofNames others)
  rw [descendants, descendants, directories]
  exact ⟨isBelow_iff_names named namedToo nonempty, isChild_iff_names named namedToo nonempty,
    fun g => rollUp?_iff_names named namedToo nonempty⟩

-- A key two names below the directory, and one beside it whose text starts with the same letters.
theorem deep_key_told_by_names :
    let above : List Text := ["a".toList, "b".toList]
    let deep : List Text := ["a".toList, "b".toList, "c".toList, "d".toList]
    let beside : List Text := ["a".toList, "bc".toList]
    let directory : Text := "a/b/".toList
    ((∀ n ∈ above, IsName n) ∧ (∀ n ∈ deep, IsName n) ∧ (∀ n ∈ beside, IsName n) ∧ deep ≠ [] ∧ beside ≠ [] ∧
        Spells above directory) ∧
      isDescendant directory "a/b/c/d".toList true = true ∧ isDescendant directory "a/b/c/d".toList false = false ∧
      rollUp? directory "a/b/c/d".toList = some "a/b/c/".toList ∧
      isDescendant directory "a/bc".toList true = false ∧ rollUp? directory "a/bc".toList = none := by
  intro above deep beside directory
  have isName : ∀ n ∈ above ++ deep ++ beside, IsName n := by
    have plain : ∀ n ∈ above ++ deep ++ beside, n ≠ [] ∧ separator ∉ n := by decide
    exact fun n member => ⟨(plain n member).1, (plain n member).2⟩
  have named : ∀ n ∈ above, IsName n := fun n member => isName n (by simp [member])
  have namedDeep : ∀ n ∈ deep, IsName n := fun n member => isName n (by simp [member])
  have namedBeside : ∀ n ∈ beside, IsName n := fun n member => isName n (by simp [member])
  have spells : Spells above directory := .slashed (by decide)
  have lower := descendants_told_by_names named namedDeep (by decide) spells
  have other := descendants_told_by_names named namedBeside (by decide) spells
  refine ⟨⟨named, namedDeep, namedBeside, by decide, by decide, spells⟩, lower.1.mpr (by decide), ?_, ?_, ?_, ?_⟩
  · refine Bool.eq_false_iff.mpr fun child => ?_
    obtain ⟨last, same⟩ := lower.2.1.mp child
    have length := congrArg List.length same
    simp [deep, above] at length
  · exact (lower.2.2 _).mpr ⟨_, _, _, rfl, rfl⟩
  · exact Bool.eq_false_iff.mpr fun below => absurd (other.1.mp below).1 (by decide)
  · refine Option.eq_none_iff_forall_ne_some.mpr fun g rolled => ?_
    obtain ⟨next, after, rest, same, -⟩ := (other.2.2 g).mp rolled
    have length := congrArg List.length same
    simp [beside, above] at length

end Path
end StaleStore
