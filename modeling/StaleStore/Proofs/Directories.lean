import StaleStore.Proofs.Groupings
import StaleStore.Proofs.Stale.Overlay

namespace StaleStore
namespace Path

inductive IsKey : Text → Prop where
  | name {n} : IsName n → IsKey n
  | deeper {n rest} : IsName n → IsKey rest → IsKey (n ++ [separator] ++ rest)

inductive IsDirectory : Text → Prop where
  | root : IsDirectory []
  | deeper {n rest} : IsName n → IsDirectory rest → IsDirectory (n ++ [separator] ++ rest)

variable {n key directory rest : Text}

theorem IsKey.ne_nil (isKey : IsKey key) : key ≠ [] := by
  cases isKey with
  | name named => exact named.nonempty
  | deeper named isKey => simp

theorem IsKey.last_ne (isKey : IsKey key) : key.getLast? ≠ some separator := by
  induction isKey with
  | name named => exact named.last_ne []
  | deeper named isKey ih =>
    rw [List.getLast?_append_of_ne_nil _ isKey.ne_nil]
    exact ih

theorem IsKey.from_end (isKey : IsKey key) :
    IsName key ∨ ∃ front last, IsKey front ∧ IsName last ∧ key = front ++ [separator] ++ last := by
  induction isKey with
  | name named => exact Or.inl named
  | @deeper n rest named isKey ih =>
    cases ih with
    | inl last => exact Or.inr ⟨n, rest, .name named, last, rfl⟩
    | inr behind =>
      obtain ⟨front, last, isFront, isLast, rfl⟩ := behind
      exact Or.inr ⟨n ++ [separator] ++ front, last, .deeper named isFront, isLast, by simp⟩

theorem IsDirectory.of_key (isKey : IsKey key) : IsDirectory (key ++ [separator]) := by
  induction isKey with
  | @name n named =>
    have isDirectory := IsDirectory.deeper named .root
    rwa [List.append_nil] at isDirectory
  | @deeper n rest named isKey ih =>
    rw [List.append_assoc]
    exact .deeper named ih

theorem IsDirectory.from_end (isDirectory : IsDirectory directory) :
    directory = [] ∨ ∃ key, IsKey key ∧ directory = key ++ [separator] := by
  induction isDirectory with
  | root => exact Or.inl rfl
  | @deeper n rest named isDirectory ih =>
    cases ih with
    | inl root =>
      subst root
      exact Or.inr ⟨n, .name named, by simp⟩
    | inr behind =>
      obtain ⟨key, isKey, rfl⟩ := behind
      exact Or.inr ⟨n ++ [separator] ++ key, .deeper named isKey, by simp⟩

theorem IsDirectory.whole (isDirectory : IsDirectory directory) :
    directory = [] ∨ directory.getLast? = some separator := by
  refine isDirectory.from_end.imp_right ?_
  rintro ⟨key, -, rfl⟩
  exact List.getLast?_concat

theorem IsKey.normalize_slash (isKey : IsKey key) : normalize (key ++ [separator]) = key := by
  rw [Path.normalize_slash, normalize_of_last isKey.last_ne]

theorem IsKey.slashed (isKey : IsKey key) : IsSlashed (key ++ [separator]) := by
  rw [IsSlashed, isKey.normalize_slash]

theorem IsDirectory.normalize_inj {other : Text} (isDirectory : IsDirectory directory) (isOther : IsDirectory other)
    (same : normalize directory = normalize other) : directory = other := by
  rcases isDirectory.from_end with rfl | ⟨key, isKey, rfl⟩ <;>
    rcases isOther.from_end with rfl | ⟨otherKey, isOtherKey, rfl⟩
  · rfl
  · rw [isOtherKey.normalize_slash] at same
    exact absurd same.symm isOtherKey.ne_nil
  · rw [isKey.normalize_slash] at same
    exact absurd same isKey.ne_nil
  · rw [isKey.normalize_slash, isOtherKey.normalize_slash] at same
    rw [same]

theorem IsDirectory.append (isDirectory : IsDirectory directory) (isKey : IsKey rest) : IsKey (directory ++ rest) := by
  induction isDirectory with
  | root => exact isKey
  | deeper named isDirectory ih =>
    rw [List.append_assoc]
    exact .deeper named ih

theorem IsDirectory.split (isDirectory : IsDirectory directory) (isKey : IsKey key) (lies : directory <+: key) :
    ∃ rest, IsKey rest ∧ key = directory ++ rest := by
  induction isDirectory generalizing key with
  | root => exact ⟨key, isKey, rfl⟩
  | @deeper n later named isDirectory ih =>
    cases isKey with
    | name plain =>
      refine absurd (lies.subset ?_) plain.plain
      simp
    | @deeper m rest first isKey =>
      have same : n = m := (named.prefix_iff first).mp ((List.prefix_append _ _).trans lies)
      subst same
      obtain ⟨end', isEnd, rfl⟩ := ih isKey ((List.prefix_append_right_inj _).mp lies)
      exact ⟨end', isEnd, (List.append_assoc _ _ _).symm⟩

theorem IsKey.first (isKey : IsKey key) : ∃ c rest, key = c :: rest ∧ c ≠ separator := by
  have named : ∀ {n}, IsName n → ∃ c t, n = c :: t ∧ c ≠ separator := by
    intro n named
    cases n with
    | nil => exact absurd rfl named.nonempty
    | cons c t => exact ⟨c, t, rfl, fun isSeparator => named.plain (isSeparator ▸ List.mem_cons_self)⟩
  cases isKey with
  | name first => exact named first
  | deeper first isKey =>
    obtain ⟨c, t, rfl, other⟩ := named first
    exact ⟨c, _, rfl, other⟩

theorem IsKey.begins (isKey : IsKey key) : BeginsNamed key := by
  cases isKey with
  | name named => exact .name named
  | deeper named isKey =>
    obtain ⟨c, rest, rfl, other⟩ := isKey.first
    exact .deeper named other

theorem IsDirectory.not_spare (isDirectory : IsDirectory directory) : ¬ HasSpareSlash directory := by
  rcases isDirectory.from_end with rfl | ⟨key, isKey, rfl⟩
  · rintro (alone | doubled)
    · cases alone
    · cases List.suffix_nil.mp doubled
  · rintro (alone | ⟨front, doubled⟩)
    · exact isKey.ne_nil (by simpa using alone)
    · rw [List.append_cons] at doubled
      have last := isKey.last_ne
      rw [← (List.append_inj' doubled rfl).1] at last
      simp at last

section
variable (isDirectory : IsDirectory directory) (isKey : IsKey key)
include isDirectory isKey

theorem placedAlike (lies : directory <+: key) : PlacedAlike directory key := by
  obtain ⟨rest, isRest, rfl⟩ := isDirectory.split isKey lies
  exact (placedAlike_iff isDirectory.whole rest).mpr ⟨fun doubled => isDirectory.not_spare (Or.inr doubled), isRest.begins⟩

theorem isChild_iff_alone : isDescendant directory key false = true ↔
    directory <+: key ∧ Page.group? directory (some directoryDelimiter) key = none := by
  constructor
  · intro child
    have lies := (isChild_starts child).resolve_right isDirectory.not_spare
    exact ⟨lies, (placedAlike isDirectory isKey lies).1.mp child⟩
  · rintro ⟨lies, alone⟩
    exact (placedAlike isDirectory isKey lies).1.mpr alone

def IsDelimiter (delimiter : Option Text) : Prop :=
  delimiter = none ∨ delimiter = some [] ∨ delimiter = some directoryDelimiter

variable {delimiter : Option Text} (plain : IsDelimiter delimiter)
include plain

-- A page and the delays laid over it put a key in the same place.
theorem isDescendant_iff : isDescendant directory key (isRecursive delimiter) = true ↔
    directory <+: key ∧ Page.group? directory delimiter key = none := by
  have below : isDescendant directory key true = true ↔ directory <+: key := isBelow_iff isDirectory.whole
  rcases plain with rfl | rfl | rfl
  · exact below.trans (and_iff_left rfl).symm
  · exact below.trans (and_iff_left rfl).symm
  · exact isChild_iff_alone isDirectory isKey

theorem prefixOf?_iff {g : Text} : OverlaidListing.prefixOf? directory (isRecursive delimiter) key = some g ↔
    directory <+: key ∧ Page.group? directory delimiter key = some g := by
  rcases plain with rfl | rfl | rfl
  · exact ⟨nofun, fun both => nomatch both.2⟩
  · exact ⟨nofun, fun both => nomatch both.2⟩
  · have below : isDescendant directory key true = true ↔ directory <+: key := isBelow_iff isDirectory.whole
    rw [show isRecursive (some directoryDelimiter) = false from rfl, OverlaidListing.prefixOf?, Bool.not_false,
      Bool.true_and]
    by_cases lies : directory <+: key
    · rw [if_pos (below.mpr lies), (placedAlike isDirectory isKey lies).2]
      exact (and_iff_right lies).symm
    · rw [if_neg (mt below.mp lies)]
      exact ⟨nofun, fun both => absurd both.1 lies⟩

theorem group?_key {g : Text} (lies : directory <+: key) (rolled : Page.group? directory delimiter key = some g) :
    ∃ front, IsKey front ∧ g = front ++ [separator] := by
  rcases plain with rfl | rfl | rfl
  · cases rolled
  · cases rolled
  · obtain ⟨rest, isRest, rfl⟩ := isDirectory.split isKey lies
    rw [group?_append] at rolled
    cases isRest with
    | name named =>
      rw [Text.throughFirst?_of_plain named.plain] at rolled
      cases rolled
    | @deeper n rest named isRest =>
      rw [Text.throughFirst?_of_name named.plain] at rolled
      cases rolled
      exact ⟨directory ++ n, isDirectory.append (.name named), by simp⟩

theorem group?_slashed {g : Text} (lies : directory <+: key) (rolled : Page.group? directory delimiter key = some g) :
    IsSlashed g ∧ g.getLast? = some separator := by
  obtain ⟨front, isFront, rfl⟩ := group?_key isDirectory isKey plain lies rolled
  exact ⟨isFront.slashed, List.getLast?_concat⟩

end
end Path
end StaleStore
