import StaleStore.Proofs.Store.Groups

namespace StaleStore
namespace Page

inductive Entry where
  | object (summary : Summary)
  | group (name : Text)
deriving DecidableEq

namespace Entry

def name : Entry → Text
  | object s => s.key
  | group g => g

def summary? : Entry → Option Summary
  | object s => some s
  | group _ => none

def group? : Entry → Option Text
  | object _ => none
  | group g => some g

def ofObject (bucket : Text) (rollUp : Text → Option Text) (e : Text × StoredObject) : Entry :=
  match rollUp e.1 with
  | some g => group g
  | none => object (e.2.summary bucket e.1)

theorem ofObject_name (bucket : Text) (rollUp : Text → Option Text) (e : Text × StoredObject) :
    (ofObject bucket rollUp e).name = shownAs rollUp e.1 := by
  unfold ofObject shownAs
  cases rollUp e.1 <;> rfl

theorem ofObject_group {bucket : Text} {rollUp : Text → Option Text} {e : Text × StoredObject} {g : Text} :
    ofObject bucket rollUp e = group g ↔ rollUp e.1 = some g := by
  unfold ofObject
  cases rollUp e.1 <;> simp

theorem ofObject_object {bucket : Text} {rollUp : Text → Option Text} {e : Text × StoredObject} {s : Summary} :
    ofObject bucket rollUp e = object s ↔ rollUp e.1 = none ∧ e.2.summary bucket e.1 = s := by
  unfold ofObject
  cases rollUp e.1 <;> simp

end Entry

def ofEntries (room : Nat) (entries : List Entry) : Page where
  summaries := (entries.take room).filterMap Entry.summary?
  commonPrefixes := (entries.take room).filterMap Entry.group?
  truncated := decide (room < entries.length)
  lastEntry := (entries.take room).getLast?.map Entry.name

def entries (bucket : Text) (group : Text → Option Text) (start : Option Text) :
    (lastGroup : Option Text) → List (Text × StoredObject) → List Entry
  | _, [] => []
  | lastGroup, (key, o) :: rest =>
    match group key with
    | some g =>
      if start = some g || lastGroup = some g then entries bucket group start lastGroup rest
      else .group g :: entries bucket group start (some g) rest
    | none => .object (o.summary bucket key) :: entries bucket group start lastGroup rest

theorem ofEntries_nil (room : Nat) : ofEntries room [] = empty := by simp [ofEntries, empty]

theorem ofEntries_zero (e : Entry) (es : List Entry) : ofEntries 0 (e :: es) = cut := by simp [ofEntries, cut]

theorem getLast?_cons_or {α : Type} (a : α) (l : List α) : (a :: l).getLast? = l.getLast?.or (some a) := by
  rw [List.getLast?_cons]
  cases l.getLast? <;> rfl

theorem ofEntries_object (s : Summary) (room : Nat) (es : List Entry) :
    ofEntries (room + 1) (.object s :: es) = addSummary s (ofEntries room es) := by
  simp only [ofEntries, addSummary, List.take_succ_cons, List.length_cons, Nat.add_lt_add_iff_right,
    getLast?_cons_or]
  cases (es.take room).getLast? <;> simp [List.filterMap_cons, Entry.summary?, Entry.group?, Entry.name]

theorem ofEntries_group (g : Text) (room : Nat) (es : List Entry) :
    ofEntries (room + 1) (.group g :: es) = addGroup g (ofEntries room es) := by
  simp only [ofEntries, addGroup, List.take_succ_cons, List.length_cons, Nat.add_lt_add_iff_right,
    getLast?_cons_or]
  cases (es.take room).getLast? <;> simp [List.filterMap_cons, Entry.summary?, Entry.group?, Entry.name]

theorem collect_entries (bucket : Text) (group : Text → Option Text) (start lastGroup : Option Text) (room : Nat)
    (objects : List (Text × StoredObject)) :
    collect bucket group start lastGroup room objects
      = ofEntries room (entries bucket group start lastGroup objects) := by
  induction objects generalizing lastGroup room with
  | nil => rw [collect, entries, ofEntries_nil]
  | cons e rest ih =>
    obtain ⟨key, o⟩ := e
    simp only [collect, entries]
    cases group key with
    | some g =>
      by_cases passed : (start = some g || lastGroup = some g) = true
      · simpa only [passed, if_true] using ih lastGroup room
      · simp only [if_neg passed]
        cases room with
        | zero => exact (ofEntries_zero _ _).symm
        | succ room => rw [ofEntries_group, ← ih]
    | none =>
      cases room with
      | zero => exact (ofEntries_zero _ _).symm
      | succ room => rw [ofEntries_object, ← ih]

theorem entries_from {bucket : Text} {group : Text → Option Text} {start lastGroup : Option Text}
    {objects : List (Text × StoredObject)} {entry : Entry}
    (member : entry ∈ entries bucket group start lastGroup objects) :
    ∃ e ∈ objects, Entry.ofObject bucket group e = entry ∧ (start = some entry.name → group e.1 = none) := by
  induction objects generalizing lastGroup with
  | nil => cases member
  | cons first rest ih =>
    obtain ⟨key, o⟩ := first
    rw [entries] at member
    cases rolled : group key with
    | none =>
      simp only [rolled] at member
      rcases List.mem_cons.mp member with rfl | later
      · exact ⟨(key, o), List.mem_cons_self, by simp [Entry.ofObject, rolled], fun _ => rolled⟩
      · obtain ⟨e, walked, shown, notStart⟩ := ih later
        exact ⟨e, List.mem_cons_of_mem _ walked, shown, notStart⟩
    | some g =>
      simp only [rolled] at member
      split at member
      · obtain ⟨e, walked, shown, notStart⟩ := ih member
        exact ⟨e, List.mem_cons_of_mem _ walked, shown, notStart⟩
      · rename_i fresh
        rcases List.mem_cons.mp member with rfl | later
        · refine ⟨(key, o), List.mem_cons_self, Entry.ofObject_group.mpr rolled, ?_⟩
          intro same
          simp [same, Entry.name] at fresh
        · obtain ⟨e, walked, shown, notStart⟩ := ih later
          exact ⟨e, List.mem_cons_of_mem _ walked, shown, notStart⟩

section
variable {bucket under : Text} {group : Text → Option Text} (valid : Grouping under group)
include valid

theorem Grouping.ofObject_eq_group {e : Text × StoredObject} {key g : Text} (rolled : group key = some g)
    (named : (Entry.ofObject bucket group e).name = g) : Entry.ofObject bucket group e = .group g := by
  rw [Entry.ofObject_name] at named
  unfold shownAs at named
  cases alone : group e.1 with
  | none =>
    rw [alone] at named
    exact absurd named.symm (valid.ne_of_alone alone rolled)
  | some h =>
    rw [alone] at named
    exact Entry.ofObject_group.mpr (alone.trans (congrArg some named))

theorem Grouping.mem_entries {start lastGroup : Option Text} {objects : List (Text × StoredObject)}
    {e : Text × StoredObject} (walked : e ∈ objects)
    (notStart : start ≠ some (Entry.ofObject bucket group e).name)
    (notLast : lastGroup ≠ some (Entry.ofObject bucket group e).name) :
    Entry.ofObject bucket group e ∈ entries bucket group start lastGroup objects := by
  induction objects generalizing lastGroup with
  | nil => cases walked
  | cons first rest ih =>
    obtain ⟨key, o⟩ := first
    rw [entries]
    cases rolled : group key with
    | none =>
      rcases List.mem_cons.mp walked with rfl | later
      · simp [Entry.ofObject, rolled]
      · exact List.mem_cons_of_mem _ (ih later notLast)
    | some g =>
      by_cases named : (Entry.ofObject bucket group e).name = g
      · rw [named] at notStart notLast
        rw [valid.ofObject_eq_group rolled named]
        simp [notStart, notLast]
      · have later : e ∈ rest := by
          rcases List.mem_cons.mp walked with rfl | later
          · exact absurd (congrArg Entry.name (Entry.ofObject_group.mpr rolled)) named
          · exact later
        dsimp only
        split
        · exact ih later notLast
        · exact List.mem_cons_of_mem _ (ih later fun h => named (Option.some.inj h).symm)

theorem Grouping.ne_lastGroup {start lastGroup : Option Text} {objects : List (Text × StoredObject)}
    (lie : ∀ e ∈ objects, under <+: e.1) (ordered : objects.Pairwise fun a b => a.1 < b.1)
    (last : ∀ g, lastGroup = some g → (∃ key, group key = some g) ∧ ∀ e ∈ objects, g ≤ shownAs group e.1)
    {entry : Entry} (member : entry ∈ entries bucket group start lastGroup objects) :
    lastGroup ≠ some entry.name := by
  induction objects generalizing lastGroup with
  | nil => cases member
  | cons first rest ih =>
    obtain ⟨key, o⟩ := first
    obtain ⟨above, orderedRest⟩ := List.pairwise_cons.mp ordered
    have lieRest : ∀ e ∈ rest, under <+: e.1 := fun e walked => lie e (List.mem_cons_of_mem _ walked)
    have lastRest : ∀ g, lastGroup = some g →
        (∃ key, group key = some g) ∧ ∀ e ∈ rest, g ≤ shownAs group e.1 := fun g same =>
      ⟨(last g same).1, fun e walked => (last g same).2 e (List.mem_cons_of_mem _ walked)⟩
    rw [entries] at member
    cases rolled : group key with
    | none =>
      simp only [rolled] at member
      rcases List.mem_cons.mp member with rfl | later
      · intro same
        obtain ⟨⟨other, belongs⟩, -⟩ := last _ same
        exact valid.ne_of_alone rolled belongs rfl
      · exact ih lieRest orderedRest lastRest later
    | some g =>
      simp only [rolled] at member
      split at member
      · exact ih lieRest orderedRest lastRest member
      · rename_i fresh
        rcases List.mem_cons.mp member with rfl | later
        · intro same
          simp [same, Entry.name] at fresh
        · have upward : ∀ e ∈ rest, g ≤ shownAs group e.1 := by
            intro e walked
            have mono := valid.shownAs_mono (lie _ List.mem_cons_self) (lieRest e walked) (above e walked).le
            simpa only [shownAs, rolled, Option.getD_some] using mono
          have notThis : some g ≠ some entry.name := by
            refine ih lieRest orderedRest ?_ later
            intro h same
            cases same
            exact ⟨⟨key, rolled⟩, upward⟩
          intro same
          obtain ⟨e, walked, rfl, -⟩ := entries_from later
          have low := (last _ same).2 _ List.mem_cons_self
          have high := upward e walked
          rw [Entry.ofObject_name] at low notThis
          simp only [shownAs, rolled, Option.getD_some] at low high notThis
          exact notThis (congrArg some (le_antisymm high low))

theorem Grouping.entries_ordered {start lastGroup : Option Text} {objects : List (Text × StoredObject)}
    (lie : ∀ e ∈ objects, under <+: e.1) (ordered : objects.Pairwise fun a b => a.1 < b.1)  :
    (entries bucket group start lastGroup objects).Pairwise fun a b => a.name < b.name := by
  induction objects generalizing lastGroup with
  | nil => exact List.Pairwise.nil
  | cons first rest ih =>
    obtain ⟨key, o⟩ := first
    obtain ⟨above, orderedRest⟩ := List.pairwise_cons.mp ordered
    have lieRest : ∀ e ∈ rest, under <+: e.1 := fun e walked => lie e (List.mem_cons_of_mem _ walked)
    rw [entries]
    cases rolled : group key with
    | none =>
      refine List.Pairwise.cons ?_ (ih lieRest orderedRest)
      intro entry later
      obtain ⟨e, walked, rfl, -⟩ := entries_from later
      have less := valid.shownAs_lt_of_alone (lie _ List.mem_cons_self) (lieRest e walked) rolled (above e walked)
      simp only [shownAs, rolled, Option.getD_none] at less
      rw [Entry.ofObject_name]
      exact less
    | some g =>
      dsimp only
      split
      · exact ih lieRest orderedRest
      · refine List.Pairwise.cons ?_ (ih lieRest orderedRest)
        intro entry later
        have upward : ∀ e ∈ rest, g ≤ shownAs group e.1 := by
          intro e walked
          have mono := valid.shownAs_mono (lie _ List.mem_cons_self) (lieRest e walked) (above e walked).le
          simpa only [shownAs, rolled, Option.getD_some] using mono
        have fresh : some g ≠ some entry.name := by
          refine valid.ne_lastGroup lieRest orderedRest ?_ later
          intro h same
          cases same
          exact ⟨⟨key, rolled⟩, upward⟩
        obtain ⟨e, walked, rfl, -⟩ := entries_from later
        rw [Entry.ofObject_name] at fresh ⊢
        exact lt_of_le_of_ne (upward e walked) fun same => fresh (congrArg some same)

end
end Page
end StaleStore
