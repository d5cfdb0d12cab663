import Mathlib.Data.List.Nodup
import Mathlib.Data.List.Perm.Basic
import Mathlib.Tactic.Tauto

namespace StaleStore

variable {α β : Type} [DecidableEq β] {name : α → β} {l k items one two : List α} {a : α} {n : β}

def addNew (name : α → β) (l : List α) (a : α) : List α := if l.any (name · = name a) then l else l ++ [a]

def addAll (name : α → β) (l items : List α) : List α := items.foldl (addNew name) l

theorem addNew_of_known (known : name a ∈ l.map name) : addNew name l a = l := by
  apply if_pos
  simpa using known

theorem addNew_of_new (new : name a ∉ l.map name) : addNew name l a = l ++ [a] := by
  apply if_neg
  simpa using new

theorem addAll_append (name : α → β) (l one two : List α) :
    addAll name l (one ++ two) = addAll name (addAll name l one) two :=
  List.foldl_append

theorem mem_addNew_names : n ∈ (addNew name l a).map name ↔ n ∈ l.map name ∨ name a = n := by
  by_cases known : name a ∈ l.map name
  · rw [addNew_of_known known]
    refine (or_iff_left_of_imp ?_).symm
    rintro rfl
    exact known
  · rw [addNew_of_new known]
    simp [eq_comm]

theorem mem_addAll_names : n ∈ (addAll name l items).map name ↔ n ∈ l.map name ∨ n ∈ items.map name := by
  induction items generalizing l with
  | nil => simp [addAll]
  | cons a rest ih =>
    refine ih.trans ?_
    rw [mem_addNew_names, List.map_cons, List.mem_cons, or_assoc, @eq_comm _ n]

-- What is added for a name is the first item that has it, so the order of the items matters where different ones share
-- a name.
theorem mem_addAll : a ∈ addAll name l items ↔
    a ∈ l ∨ (name a ∉ l.map name ∧ items.find? (name · = name a) = some a) := by
  induction items generalizing l with
  | nil => simp [addAll]
  | cons b rest ih =>
    refine (show a ∈ addAll name (addNew name l b) rest ↔ _ from ih).trans ?_
    rw [mem_addNew_names, not_or]
    by_cases known : name b ∈ l.map name
    · rw [addNew_of_known known]
      refine or_congr_right ?_
      by_cases same : name b = name a
      · exact iff_of_false (fun added => added.1.2 same) fun added => added.1 (same ▸ known)
      · rw [List.find?_cons_of_neg (by simpa using same), and_iff_left same]
    · rw [addNew_of_new known, List.mem_append, List.mem_singleton, or_assoc]
      refine or_congr_right ?_
      by_cases same : name b = name a
      · rw [List.find?_cons_of_pos (by simpa using same), Option.some_inj]
        constructor
        · rintro (rfl | added)
          · exact ⟨known, rfl⟩
          · exact absurd same added.1.2
        · exact fun first => Or.inl first.2.symm
      · rw [List.find?_cons_of_neg (by simpa using same), and_iff_left same]
        refine or_iff_right_of_imp ?_
        rintro rfl
        exact absurd rfl same

theorem mem_addAll_of_apart (apart : ∀ a ∈ items, ∀ b ∈ items, name a = name b → a = b) :
    a ∈ addAll name l items ↔ a ∈ l ∨ (name a ∉ l.map name ∧ a ∈ items) := by
  rw [mem_addAll]
  refine or_congr_right (and_congr_right fun _ => ⟨List.mem_of_find?_eq_some, fun member => ?_⟩)
  cases found : items.find? (name · = name a) with
  | none => exact absurd (decide_eq_true rfl) (List.find?_eq_none.mp found a member)
  | some b =>
    have same : name b = name a := by simpa using List.find?_some found
    rw [apart b (List.mem_of_find?_eq_some found) a member same]

theorem mem_addAll_of_more (within : ∀ n ∈ k.map name, n ∈ l.map name) (member : a ∈ addAll name l items) :
    a ∈ l ∨ a ∈ addAll name k items := by
  refine (mem_addAll.mp member).imp_right fun added => ?_
  exact mem_addAll.mpr (Or.inr ⟨fun known => added.1 (within _ known), added.2⟩)

theorem addAll_split (name : α → β) (l items : List α) : ∃ more, addAll name l items = l ++ more ∧
    more.Sublist items ∧ (more.map name).Nodup ∧ ∀ a ∈ more, name a ∉ l.map name := by
  induction items generalizing l with
  | nil => exact ⟨[], by simp [addAll]⟩
  | cons a rest ih =>
    obtain ⟨more, added, within, once, new⟩ := ih (addNew name l a)
    by_cases known : name a ∈ l.map name
    · rw [addNew_of_known known] at new
      refine ⟨more, added.trans ?_, within.cons a, once, new⟩
      rw [addNew_of_known known]
    · have others : ∀ b ∈ more, name b ∉ l.map name ∧ ¬ name a = name b := by
        intro b member
        exact not_or.mp (mt mem_addNew_names.mpr (new b member))
      refine ⟨a :: more, added.trans ?_, within.cons_cons a, ?_, ?_⟩
      · rw [addNew_of_new known, List.append_assoc, List.singleton_append]
      · rw [List.map_cons, List.nodup_cons]
        refine ⟨fun again => ?_, once⟩
        obtain ⟨b, member, same⟩ := List.mem_map.mp again
        exact (others b member).2 same.symm
      · rintro b member
        rcases List.mem_cons.mp member with rfl | later
        · exact known
        · exact (others b later).1

theorem addAll_names_nodup (once : (l.map name).Nodup) : ((addAll name l items).map name).Nodup := by
  obtain ⟨more, added, -, others, new⟩ := addAll_split name l items
  rw [added, List.map_append, List.nodup_append']
  refine ⟨once, others, fun n known again => ?_⟩
  obtain ⟨a, member, rfl⟩ := List.mem_map.mp again
  exact new a member known

theorem addAll_nodup (once : l.Nodup) : (addAll name l items).Nodup := by
  obtain ⟨more, added, -, others, new⟩ := addAll_split name l items
  rw [added, List.nodup_append']
  refine ⟨once, others.of_map, fun a known again => ?_⟩
  exact new a again (List.mem_map.mpr ⟨a, known, rfl⟩)

theorem addAll_names_perm (same : ∀ n, n ∈ one.map name ↔ n ∈ two.map name) :
    ((addAll name l one).map name).Perm ((addAll name l two).map name) := by
  obtain ⟨first, addedFirst, -, firstOnce, firstNew⟩ := addAll_split name l one
  obtain ⟨second, addedSecond, -, secondOnce, secondNew⟩ := addAll_split name l two
  have members : ∀ {more items}, addAll name l items = l ++ more → (∀ a ∈ more, name a ∉ l.map name) →
      ∀ n, n ∈ more.map name ↔ n ∉ l.map name ∧ n ∈ items.map name := by
    intro more items added new n
    have all : n ∈ (addAll name l items).map name ↔ _ := mem_addAll_names
    rw [added, List.map_append, List.mem_append] at all
    have apart : n ∈ more.map name → n ∉ l.map name := by
      rintro member
      obtain ⟨a, inside, rfl⟩ := List.mem_map.mp member
      exact new a inside
    tauto
  rw [addedFirst, addedSecond, List.map_append, List.map_append]
  refine List.Perm.append_left _ ((List.perm_ext_iff_of_nodup firstOnce secondOnce).mpr fun n => ?_)
  rw [members addedFirst firstNew, members addedSecond secondNew, same n]

end StaleStore
