import StaleStore.Proofs.Store.WholeListing

namespace StaleStore
namespace Page

def storedUnder (under : Text) (objects : Bucket) : Nat :=
  objects.toList.countP fun e => under.isPrefixOf e.1

theorem storedUnder_le_size (under : Text) (objects : Bucket) : storedUnder under objects ≤ objects.size := by
  rw [← Std.ExtTreeMap.length_toList]
  exact List.countP_le_length

theorem entries_length_le (bucket : Text) (group : Text → Option Text) (start lastGroup : Option Text)
    (objects : List (Text × StoredObject)) :
    (entries bucket group start lastGroup objects).length ≤ objects.length := by
  induction objects generalizing lastGroup with
  | nil => exact Nat.le_refl _
  | cons e rest ih =>
    obtain ⟨key, o⟩ := e
    rw [entries]
    split
    · split
      · exact Nat.le_succ_of_le (ih _)
      · exact Nat.succ_le_succ (ih _)
    · exact Nat.succ_le_succ (ih _)

theorem wholeListing_length_le (bucket : Text) (objects : Bucket) (under : Text) (delimiter start : Option Text) :
    (wholeListing bucket objects under delimiter start).length ≤ storedUnder under objects := by
  refine (entries_length_le _ _ _ _ _).trans ?_
  rw [keysUnder_eq_filter, storedUnder, List.countP_eq_length_filter]
  refine List.Sublist.length_le ?_
  exact List.monotone_filter_right _ fun e kept => (Bool.and_eq_true_iff.mp kept).2

theorem parts_ordered {α : Type} {part : Entry → Option α} {nameOf : α → Text} {es : List Entry}
    (named : ∀ {entry a}, part entry = some a → nameOf a = entry.name)
    (ordered : es.Pairwise fun a b => a.name < b.name) : ((es.filterMap part).map nameOf).Pairwise (· < ·) := by
  rw [List.pairwise_map, List.pairwise_filterMap]
  refine ordered.imp ?_
  intro first second less a shown b shownToo
  rwa [named shown, named shownToo]

theorem keys_ordered {es : List Entry} (ordered : es.Pairwise fun a b => a.name < b.name) :
    ((es.filterMap Entry.summary?).map (·.key)).Pairwise (· < ·) := by
  refine parts_ordered ?_ ordered
  intro entry s shown
  cases entry with
  | object summary =>
    cases shown
    rfl
  | group g => cases shown

theorem prefixes_ordered {es : List Entry} (ordered : es.Pairwise fun a b => a.name < b.name) :
    (es.filterMap Entry.group?).Pairwise (· < ·) := by
  rw [← List.map_id (es.filterMap Entry.group?)]
  refine parts_ordered ?_ ordered
  intro entry g shown
  cases entry with
  | object summary => cases shown
  | group name =>
    cases shown
    rfl

theorem keys_once {bucket under : Text} {objects : Bucket} {delimiter start : Option Text} :
    (((wholeListing bucket objects under delimiter start).filterMap Entry.summary?).map (·.key)).Nodup :=
  (keys_ordered wholeListing_ordered).imp fun less => less.ne

theorem prefixes_once {bucket under : Text} {objects : Bucket} {delimiter start : Option Text} :
    ((wholeListing bucket objects under delimiter start).filterMap Entry.group?).Nodup :=
  (prefixes_ordered wholeListing_ordered).imp fun less => less.ne

theorem stored_of_shown {bucket under : Text} {objects : Bucket} {delimiter start : Option Text} {room : Nat}
    {x : Summary} (shown : x ∈ (ofBucket bucket objects under delimiter start room).summaries) :
    ∃ o, objects[x.key]? = some o ∧ o.summary bucket x.key = x := by
  rw [ofBucket_eq] at shown
  obtain ⟨entry, taken, same⟩ := List.mem_filterMap.mp shown
  obtain ⟨key, o, shows⟩ := mem_wholeListing.mp (List.mem_of_mem_take taken)
  cases entry with
  | group g => cases same
  | object y =>
    cases same
    obtain ⟨-, rfl⟩ := Entry.ofObject_object.mp shows.shown
    exact ⟨o, shows.stored, rfl⟩

theorem shown_starts {bucket under : Text} {objects : Bucket} {delimiter start : Option Text} {room : Nat}
    {x : Summary} (shown : x ∈ (ofBucket bucket objects under delimiter start room).summaries) : under <+: x.key := by
  rw [ofBucket_eq] at shown
  obtain ⟨entry, taken, same⟩ := List.mem_filterMap.mp shown
  obtain ⟨key, o, shows⟩ := mem_wholeListing.mp (List.mem_of_mem_take taken)
  cases entry with
  | group g => cases same
  | object y =>
    cases same
    obtain ⟨-, rfl⟩ := Entry.ofObject_object.mp shows.shown
    exact shows.lies

theorem key_of_group {bucket under g : Text} {objects : Bucket} {delimiter start : Option Text} {room : Nat}
    (shown : g ∈ (ofBucket bucket objects under delimiter start room).commonPrefixes) :
    ∃ key o, objects[key]? = some o ∧ under <+: key ∧ group? under delimiter key = some g := by
  rw [ofBucket_eq] at shown
  obtain ⟨entry, taken, same⟩ := List.mem_filterMap.mp shown
  obtain ⟨key, o, shows⟩ := mem_wholeListing.mp (List.mem_of_mem_take taken)
  cases entry with
  | object y => cases same
  | group name =>
    cases same
    exact ⟨key, o, shows.stored, shows.lies, Entry.ofObject_group.mp shows.shown⟩

theorem commonPrefix_starts {bucket under g : Text} {objects : Bucket} {delimiter start : Option Text} {room : Nat}
    (shown : g ∈ (ofBucket bucket objects under delimiter start room).commonPrefixes) : under <+: g := by
  obtain ⟨key, o, -, -, rolled⟩ := key_of_group shown
  exact (group?_starts rolled).1

theorem ne_of_missing {bucket under key : Text} {objects : Bucket} {delimiter start : Option Text} {room : Nat}
    {x : Summary} (missing : objects[key]? = none)
    (shown : x ∈ (ofBucket bucket objects under delimiter start room).summaries) : x.key ≠ key := by
  rintro rfl
  obtain ⟨o, stored, -⟩ := stored_of_shown shown
  rw [missing] at stored
  cases stored

section
variable {bucket under : Text} {objects : Bucket} {delimiter start : Option Text} {room : Nat}

theorem ofBucket_of_ended (ended : (ofBucket bucket objects under delimiter start room).truncated = false) :
    (ofBucket bucket objects under delimiter start room).summaries
        = (wholeListing bucket objects under delimiter start).filterMap Entry.summary? ∧
      (ofBucket bucket objects under delimiter start room).commonPrefixes
        = (wholeListing bucket objects under delimiter start).filterMap Entry.group? := by
  rw [ofBucket_eq] at ended ⊢
  have all := not_lt.mp (of_decide_eq_false ended)
  simp only [ofEntries, List.take_of_length_le all, and_self]

theorem ended_of_fewer {fewer : Bucket} (within : ∀ (key : Text) o, fewer[key]? = some o → objects[key]? = some o)
    (ended : (ofBucket bucket objects under delimiter start room).truncated = false) :
    (ofBucket bucket fewer under delimiter start room).truncated = false := by
  have length : (wholeListing bucket fewer under delimiter start).length
      ≤ (wholeListing bucket objects under delimiter start).length := by
    apply List.Subperm.length_le
    apply List.subperm_of_subset
    · rw [List.nodup_iff_pairwise_ne]
      exact wholeListing_ordered.imp fun less same => less.ne (congrArg Entry.name same)
    · intro entry member
      obtain ⟨key, o, shows⟩ := mem_wholeListing.mp member
      exact mem_wholeListing.mpr ⟨key, o, { shows with stored := within key o shows.stored }⟩
  rw [ofBucket_eq] at ended ⊢
  exact decide_eq_false (not_lt.mpr (length.trans (not_lt.mp (of_decide_eq_false ended))))

-- A key comes first of all that start with it, so a page of these has it however few of them there is room for.
theorem summary_first {key : Text} {o : StoredObject} (stored : objects[key]? = some o) (positive : 0 < room) :
    o.summary bucket key ∈ (ofBucket bucket objects key none none room).summaries := by
  have ordered : (wholeListing bucket objects key none none).Pairwise fun a b => a.name < b.name :=
    wholeListing_ordered
  have member : .object (o.summary bucket key) ∈ wholeListing bucket objects key none none :=
    mem_wholeListing.mpr ⟨key, o, stored, List.prefix_rfl, nofun, rfl, nofun⟩
  have above : ∀ entry ∈ wholeListing bucket objects key none none, key ≤ entry.name := by
    intro entry member
    obtain ⟨other, o, shows⟩ := mem_wholeListing.mp member
    rw [shows.name_eq]
    exact Text.le_of_starts shows.lies
  rw [ofBucket_eq]
  cases listing : wholeListing bucket objects key none none with
  | nil =>
    rw [listing] at member
    cases member
  | cons first rest =>
    rw [listing] at ordered member above
    have same : first = .object (o.summary bucket key) := by
      cases List.mem_cons.mp member with
      | inl same => exact same.symm
      | inr later =>
        have less := (List.pairwise_cons.mp ordered).1 _ later
        exact absurd (above first List.mem_cons_self) (not_le.mpr less)
    obtain ⟨room, rfl⟩ := Nat.exists_eq_succ_of_ne_zero positive.ne'
    simp [ofEntries, same, Entry.summary?]

theorem mem_summaries_of_ended {x : Summary}
    (ended : (ofBucket bucket objects under delimiter none room).truncated = false) :
    x ∈ (ofBucket bucket objects under delimiter none room).summaries ↔
      ∃ key o, objects[key]? = some o ∧ under <+: key ∧ group? under delimiter key = none ∧
        o.summary bucket key = x := by
  rw [(ofBucket_of_ended ended).1, List.mem_filterMap]
  constructor
  · intro shown
    obtain ⟨entry, member, same⟩ := shown
    obtain ⟨key, o, shows⟩ := mem_wholeListing.mp member
    cases entry with
    | object y =>
      cases same
      obtain ⟨alone, summary⟩ := Entry.ofObject_object.mp shows.shown
      exact ⟨key, o, shows.stored, shows.lies, alone, summary⟩
    | group g => cases same
  · intro found
    obtain ⟨key, o, stored, lies, alone, summary⟩ := found
    refine ⟨.object x, mem_wholeListing.mpr ⟨key, o, stored, lies, nofun, ?_, nofun⟩, rfl⟩
    exact Entry.ofObject_object.mpr ⟨alone, summary⟩

theorem mem_commonPrefixes_of_ended {g : Text}
    (ended : (ofBucket bucket objects under delimiter none room).truncated = false) :
    g ∈ (ofBucket bucket objects under delimiter none room).commonPrefixes ↔
      ∃ key o, objects[key]? = some o ∧ under <+: key ∧ group? under delimiter key = some g := by
  rw [(ofBucket_of_ended ended).2, List.mem_filterMap]
  constructor
  · intro shown
    obtain ⟨entry, member, same⟩ := shown
    obtain ⟨key, o, shows⟩ := mem_wholeListing.mp member
    cases entry with
    | object y => cases same
    | group name =>
      cases same
      exact ⟨key, o, shows.stored, shows.lies, Entry.ofObject_group.mp shows.shown⟩
  · intro found
    obtain ⟨key, o, stored, lies, rolled⟩ := found
    refine ⟨.group g, mem_wholeListing.mpr ⟨key, o, stored, lies, nofun, ?_, nofun⟩, rfl⟩
    exact Entry.ofObject_group.mpr rolled

end

section
variable {bucket under : Text} {objects : Bucket} {delimiter : Option Text} {room : Nat}
  (fits : storedUnder under objects ≤ room)
include fits

theorem ofBucket_of_room (delimiter start : Option Text) :
    (ofBucket bucket objects under delimiter start room).truncated = false ∧
      (ofBucket bucket objects under delimiter start room).summaries
        = (wholeListing bucket objects under delimiter start).filterMap Entry.summary? ∧
      (ofBucket bucket objects under delimiter start room).commonPrefixes
        = (wholeListing bucket objects under delimiter start).filterMap Entry.group? := by
  have all : (wholeListing bucket objects under delimiter start).length ≤ room :=
    (wholeListing_length_le ..).trans fits
  rw [ofBucket_eq]
  simp only [ofEntries, List.take_of_length_le all, and_true]
  exact decide_eq_false (not_lt.mpr all)

theorem summaries_once (start : Option Text) :
    ((ofBucket bucket objects under delimiter start room).summaries.map (·.key)).Nodup := by
  rw [(ofBucket_of_room fits delimiter start).2.1]
  exact keys_once

theorem mem_summaries {x : Summary} : x ∈ (ofBucket bucket objects under delimiter none room).summaries ↔
    ∃ key o, objects[key]? = some o ∧ under <+: key ∧ group? under delimiter key = none ∧
      o.summary bucket key = x :=
  mem_summaries_of_ended (ofBucket_of_room fits delimiter none).1

theorem mem_commonPrefixes {g : Text} :
    g ∈ (ofBucket bucket objects under delimiter none room).commonPrefixes ↔
      ∃ key o, objects[key]? = some o ∧ under <+: key ∧ group? under delimiter key = some g :=
  mem_commonPrefixes_of_ended (ofBucket_of_room fits delimiter none).1

end
end Page
end StaleStore
