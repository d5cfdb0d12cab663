import StaleStore.Proofs.Store.Entries

namespace StaleStore

theorem dropWhile_eq_filter {α : Type} {p : α → Bool} {l : List α}
    (downward : l.Pairwise fun a b => p b = true → p a = true) : l.dropWhile p = l.filter (!p ·) := by
  induction l with
  | nil => rfl
  | cons a l ih =>
    obtain ⟨first, rest⟩ := List.pairwise_cons.mp downward
    cases holds : p a with
    | true => simpa [holds] using ih rest
    | false =>
      have none : ∀ b ∈ l, (!p b) = true := by
        intro b member
        cases later : p b with
        | true => exact absurd (first b member later) (by simp [holds])
        | false => rfl
      simp [holds, List.filter_eq_self.mpr none]

theorem takeWhile_eq_filter {α : Type} {p : α → Bool} {l : List α}
    (downward : l.Pairwise fun a b => p b = true → p a = true) : l.takeWhile p = l.filter p := by
  induction l with
  | nil => rfl
  | cons a l ih =>
    obtain ⟨first, rest⟩ := List.pairwise_cons.mp downward
    cases holds : p a with
    | true => simpa [holds] using ih rest
    | false =>
      have none : l.filter p = [] := by
        rw [List.filter_eq_nil_iff]
        intro b member later
        exact absurd (first b member later) (by simp [holds])
      simp [holds, none]

namespace Page

theorem objects_ordered (objects : Bucket) : objects.toList.Pairwise fun a b => a.1 < b.1 :=
  objects.ordered_keys_toList.imp fun less => (Text.compare_lt_iff _ _).mp less

theorem tooEarly_iff {under key : Text} {start : Option Text} :
    tooEarly under start key = true ↔ key < under ∨ (∃ s, start = some s ∧ under ≤ s ∧ key ≤ s) := by
  unfold tooEarly
  cases start with
  | none => simp [Text.before_iff]
  | some s =>
    by_cases low : s < under
    · simp [Text.before_iff, low, not_le.mpr low]
    · have high := not_lt.mp low
      simp only [Text.before_iff, low, if_false, Bool.not_eq_true', ← Bool.not_eq_true, not_lt,
        Option.some.injEq, exists_eq_left', high, true_and]
      exact ⟨Or.inr, fun h => h.elim (fun less => (less.trans_le high).le) id⟩

theorem keysUnder_eq_filter (under : Text) (start : Option Text) (objects : Bucket) :
    keysUnder under start objects
      = objects.toList.filter fun e => !tooEarly under start e.1 && under.isPrefixOf e.1 := by
  have sought : (objects.toList.dropWhile fun e => tooEarly under start e.1)
      = objects.toList.filter (!tooEarly under start ·.1) := by
    refine dropWhile_eq_filter ((objects_ordered objects).imp ?_)
    intro a b less early
    rw [tooEarly_iff] at early ⊢
    rcases early with before | ⟨s, given, above, reached⟩
    · exact Or.inl (less.trans before)
    · exact Or.inr ⟨s, given, above, less.le.trans reached⟩
  have taken : ((objects.toList.filter (!tooEarly under start ·.1)).takeWhile fun e => under.isPrefixOf e.1)
      = (objects.toList.filter (!tooEarly under start ·.1)).filter fun e => under.isPrefixOf e.1 := by
    refine takeWhile_eq_filter (((objects_ordered objects).filter _).imp_of_mem ?_)
    intro a b walked _ less starts
    rw [List.isPrefixOf_iff_prefix] at starts ⊢
    have late : ¬ tooEarly under start a.1 = true := by simpa using (List.mem_filter.mp walked).2
    rw [tooEarly_iff, not_or, not_lt] at late
    exact Text.starts_of_between late.1 less.le starts
  rw [keysUnder, sought, taken, List.filter_filter]
  simp only [Bool.and_comm]

theorem mem_keysUnder {under key : Text} {start : Option Text} {objects : Bucket} {o : StoredObject} :
    (key, o) ∈ keysUnder under start objects ↔
      objects[key]? = some o ∧ under <+: key ∧ ∀ s, start = some s → s < key := by
  rw [keysUnder_eq_filter, List.mem_filter, Std.ExtTreeMap.mem_toList_iff_getElem?_eq_some,
    Bool.and_eq_true, Bool.not_eq_true', ← Bool.not_eq_true, tooEarly_iff, List.isPrefixOf_iff_prefix]
  refine and_congr_right fun _ => ⟨?_, ?_⟩
  · intro walked
    obtain ⟨late, lies⟩ := walked
    refine ⟨lies, fun s given => ?_⟩
    by_contra reached
    refine late (Or.inr ⟨s, given, ?_, not_lt.mp reached⟩)
    exact (Text.le_of_starts lies).trans (not_lt.mp reached)
  · intro shows
    obtain ⟨lies, after⟩ := shows
    refine ⟨?_, lies⟩
    intro early
    rcases early with before | ⟨s, given, -, reached⟩
    · exact absurd before (not_lt.mpr (Text.le_of_starts lies))
    · exact absurd (after s given) (not_lt.mpr reached)

theorem keysUnder_ordered (under : Text) (start : Option Text) (objects : Bucket) :
    (keysUnder under start objects).Pairwise fun a b => a.1 < b.1 := by
  rw [keysUnder_eq_filter]
  exact (objects_ordered objects).filter _

def wholeListing (bucket : Text) (objects : Bucket) (under : Text) (delimiter start : Option Text) : List Entry :=
  entries bucket (group? under delimiter) start none (keysUnder under start objects)

theorem ofBucket_eq (bucket : Text) (objects : Bucket) (under : Text) (delimiter start : Option Text)
    (maxKeys : Nat) : ofBucket bucket objects under delimiter start maxKeys
      = ofEntries maxKeys (wholeListing bucket objects under delimiter start) :=
  collect_entries _ _ _ _ _ _

section
variable {bucket under : Text} {objects : Bucket} {delimiter start : Option Text} {entry : Entry}

structure Shows (bucket : Text) (objects : Bucket) (under : Text) (delimiter start : Option Text) (entry : Entry)
    (key : Text) (o : StoredObject) : Prop where
  stored : objects[key]? = some o
  lies : under <+: key
  after : ∀ s, start = some s → s < key
  shown : Entry.ofObject bucket (group? under delimiter) (key, o) = entry
  notStart : start ≠ some entry.name

theorem mem_wholeListing : entry ∈ wholeListing bucket objects under delimiter start ↔
    ∃ key o, Shows bucket objects under delimiter start entry key o := by
  constructor
  · intro member
    obtain ⟨⟨key, o⟩, walked, shown, alone⟩ := entries_from member
    obtain ⟨stored, lies, after⟩ := mem_keysUnder.mp walked
    refine ⟨key, o, stored, lies, after, shown, ?_⟩
    intro same
    have named := Entry.ofObject_name bucket (group? under delimiter) (key, o)
    rw [shown, shownAs, alone same, Option.getD_none] at named
    exact absurd (after _ same) (by rw [named]; exact lt_irrefl key)
  · intro shows
    obtain ⟨key, o, stored, lies, after, rfl, notStart⟩ := shows
    exact (group?_grouping under delimiter).mem_entries (mem_keysUnder.mpr ⟨stored, lies, after⟩) notStart
      (by simp)

theorem wholeListing_ordered :
    (wholeListing bucket objects under delimiter start).Pairwise fun a b => a.name < b.name :=
  (group?_grouping under delimiter).entries_ordered (fun _ walked => (mem_keysUnder.mp walked).2.1)
    (keysUnder_ordered under start objects)

theorem Shows.name_eq {key : Text} {o : StoredObject}
    (shows : Shows bucket objects under delimiter start entry key o) :
    entry.name = shownAs (group? under delimiter) key := by
  rw [← shows.shown, Entry.ofObject_name]

-- What comes behind an entry has a name behind its name, also where the objects have changed since the entry was shown.
theorem wholeListing_after {later : Bucket} {last : Entry}
    (listed : last ∈ wholeListing bucket objects under delimiter start)
    (member : entry ∈ wholeListing bucket later under delimiter (some last.name)) : last.name < entry.name := by
  have valid := group?_grouping under delimiter
  obtain ⟨lastKey, lastObject, lastShows⟩ := mem_wholeListing.mp listed
  obtain ⟨key, o, shows⟩ := mem_wholeListing.mp member
  have behind : last.name < key := shows.after _ rfl
  by_contra notAfter
  rw [not_lt, shows.name_eq] at notAfter
  -- A group that the entry is in front of, and that has a key behind it, is the entry.
  have same := valid.shownAs_between shows.lies notAfter behind.le
  rw [lastShows.name_eq, valid.shownAs_shownAs lastShows.lies, ← lastShows.name_eq, ← shows.name_eq] at same
  exact shows.notStart (congrArg some same)

-- Where the last entry of a page is a group, the keys of the group are passed over on the next page; where the
-- start lies inside a group, the group comes before the start and still is not reported twice.
theorem wholeListing_resume {front rest : List Entry} {last : Entry}
    (split : wholeListing bucket objects under delimiter start = front ++ last :: rest) :
    wholeListing bucket objects under delimiter (some last.name) = rest := by
  have valid := group?_grouping under delimiter
  have ordered : (front ++ last :: rest).Pairwise fun a b => a.name < b.name := split ▸ wholeListing_ordered
  obtain ⟨-, upper, across⟩ := List.pairwise_append.mp ordered
  obtain ⟨above, restOrdered⟩ := List.pairwise_cons.mp upper
  have listed : last ∈ wholeListing bucket objects under delimiter start := by simp [split]
  obtain ⟨lastKey, lastObject, lastShows⟩ := mem_wholeListing.mp listed
  have mem_rest : ∀ e, e ∈ rest ↔ e ∈ wholeListing bucket objects under delimiter start ∧ last.name < e.name := by
    intro e
    refine ⟨fun member => ⟨by simp [split, member], above e member⟩, ?_⟩
    intro further
    obtain ⟨member, later⟩ := further
    rw [split, List.mem_append, List.mem_cons] at member
    rcases member with before | rfl | after
    · exact absurd later (lt_asymm (across e before last List.mem_cons_self))
    · exact absurd later (lt_irrefl _)
    · exact after
  refine eq_of_ordered_by wholeListing_ordered restOrdered fun e => ?_
  rw [mem_rest]
  constructor
  · intro member
    have later := wholeListing_after listed member
    obtain ⟨key, o, shows⟩ := mem_wholeListing.mp member
    have order : lastKey < key := by
      by_contra less
      have mono := valid.shownAs_mono shows.lies lastShows.lies (not_lt.mp less)
      rw [← shows.name_eq, ← lastShows.name_eq] at mono
      exact not_lt.mpr mono later
    refine ⟨mem_wholeListing.mpr ⟨key, o, shows.stored, shows.lies, ?_, shows.shown, ?_⟩, later⟩
    · exact fun s given => (lastShows.after s given).trans order
    · intro same
      have low : shownAs (group? under delimiter) key ≤ lastKey := by
        rw [← shows.name_eq]
        exact (lastShows.after _ same).le
      have between := valid.shownAs_between shows.lies low order.le
      rw [← lastShows.name_eq, ← shows.name_eq] at between
      exact later.ne between
  · intro further
    obtain ⟨member, later⟩ := further
    obtain ⟨key, o, shows⟩ := mem_wholeListing.mp member
    refine mem_wholeListing.mpr ⟨key, o, shows.stored, shows.lies, ?_, shows.shown, ?_⟩
    · intro s given
      cases given
      rw [shows.name_eq] at later
      exact later.trans_le (valid.shownAs_le shows.lies)
    · intro same
      exact later.ne (Option.some.inj same)

end
end Page
end StaleStore
