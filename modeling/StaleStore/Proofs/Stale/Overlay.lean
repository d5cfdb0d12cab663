import StaleStore.Delay.Overlay
import StaleStore.Delay.Record
import StaleStore.Proofs.FirstCome

namespace StaleStore

-- Every held delete that has a summary has the one of its own key, and no key is held twice.
structure HeldWell (held : List (Text × Option Summary)) : Prop where
  named : ∀ {key x}, (key, some x) ∈ held → x.key = key
  once : (held.map (·.1)).Nodup

theorem HeldWell.perm {one two : List (Text × Option Summary)} (well : HeldWell one) (perm : one.Perm two) :
    HeldWell two where
  named member := well.named (perm.mem_iff.mpr member)
  once := (perm.map _).nodup_iff.mp well.once

theorem HeldWell.arrange {held : List (Text × Option Summary)} (well : HeldWell held) (order : TableOrder) :
    HeldWell (order.arrange held) := well.perm (order.perm held).symm

def Path.IsSlashed (p : Text) : Prop := normalize p ++ [separator] = p

theorem Path.IsSlashed.normalize_inj {p q : Text} (slashed : IsSlashed p) (other : IsSlashed q)
    (same : normalize p = normalize q) : p = q := by
  rw [← slashed, ← other, same]

namespace OverlaidListing

variable {under : Text} {recursive : Bool} {held : List (Text × Option Summary)}

theorem summaryOf?_eq_some {e : Text × Option Summary} {s : Summary} :
    summaryOf? under recursive e = some s ↔ Path.isDescendant under e.1 recursive = true ∧ e.2 = some s := by
  unfold summaryOf?
  split <;> simp_all

theorem mem_summaries_held (well : HeldWell held) {x : Summary} :
    x ∈ held.filterMap (summaryOf? under recursive) ↔
      (x.key, some x) ∈ held ∧ Path.isDescendant under x.key recursive = true := by
  rw [List.mem_filterMap]
  constructor
  · rintro ⟨⟨key, summary⟩, member, shown⟩
    obtain ⟨descends, rfl⟩ := summaryOf?_eq_some.mp shown
    obtain rfl := well.named member
    exact ⟨member, descends⟩
  · rintro ⟨member, descends⟩
    exact ⟨_, member, summaryOf?_eq_some.mpr ⟨descends, rfl⟩⟩

theorem summaries_held_apart (well : HeldWell held) : ∀ x ∈ held.filterMap (summaryOf? under recursive),
    ∀ y ∈ held.filterMap (summaryOf? under recursive), x.key = y.key → x = y := by
  intro x member y memberToo same
  have first := ((mem_summaries_held well).mp member).1
  have second := ((mem_summaries_held well).mp memberToo).1
  rw [← same] at second
  have once := List.inj_on_of_nodup_map well.once first second rfl
  exact Option.some.inj (congrArg Prod.snd once)

structure Adds (l k : OverlaidListing) (shown : List Summary) (rolled : List Text) : Prop where
  summaries : k.summaries = addAll (·.key) l.summaries shown
  commonPrefixes : k.commonPrefixes = addAll Path.normalize l.commonPrefixes rolled
  hidden : k.hidden = l.hidden
  restoredSummaries : k.restoredSummaries + l.summaries.length = l.restoredSummaries + k.summaries.length
  restoredPrefixes : k.restoredPrefixes + l.commonPrefixes.length = l.restoredPrefixes + k.commonPrefixes.length

section
variable {l k j : OverlaidListing} {shown more : List Summary} {rolled further : List Text}

theorem Adds.nothing (l : OverlaidListing) : Adds l l [] [] := ⟨rfl, rfl, rfl, rfl, rfl⟩

theorem Adds.trans (first : Adds l k shown rolled) (second : Adds k j more further) :
    Adds l j (shown ++ more) (rolled ++ further) where
  summaries := by rw [addAll_append, ← first.summaries, second.summaries]
  commonPrefixes := by rw [addAll_append, ← first.commonPrefixes, second.commonPrefixes]
  hidden := second.hidden.trans first.hidden
  restoredSummaries := by
    have one := first.restoredSummaries
    have two := second.restoredSummaries
    omega
  restoredPrefixes := by
    have one := first.restoredPrefixes
    have two := second.restoredPrefixes
    omega

theorem addSummary_adds (s : Summary) (l : OverlaidListing) : Adds l (addSummary s l) [s] [] := by
  unfold addSummary
  split
  · rename_i known
    exact ⟨(if_pos known).symm, rfl, rfl, rfl, rfl⟩
  · rename_i new
    refine ⟨(if_neg new).symm, rfl, rfl, ?_, rfl⟩
    dsimp only
    rw [List.length_append, List.length_singleton]
    omega

theorem addPrefix_adds (p : Text) (l : OverlaidListing) : Adds l (addPrefix p l) [] [p] := by
  unfold addPrefix
  split
  · rename_i known
    exact ⟨rfl, (if_pos known).symm, rfl, rfl, rfl⟩
  · rename_i new
    refine ⟨rfl, (if_neg new).symm, rfl, rfl, ?_⟩
    dsimp only
    rw [List.length_append, List.length_singleton]
    omega

theorem restore_adds (l : OverlaidListing) (e : Text × Option Summary) : Adds l (restore under recursive l e)
    (summaryOf? under recursive e).toList (prefixOf? under recursive e.1).toList := by
  unfold restore
  cases summaryOf? under recursive e with
  | none =>
    cases prefixOf? under recursive e.1 with
    | none => exact .nothing l
    | some p => exact addPrefix_adds p l
  | some s =>
    cases prefixOf? under recursive e.1 with
    | none => exact addSummary_adds s l
    | some p => exact (addSummary_adds s l).trans (addPrefix_adds p _)

theorem foldl_restore_adds (held : List (Text × Option Summary)) (l : OverlaidListing) :
    Adds l (held.foldl (restore under recursive) l) (held.filterMap (summaryOf? under recursive))
      (held.filterMap fun e => prefixOf? under recursive e.1) := by
  rw [List.filterMap_eq_flatMap_toList, List.filterMap_eq_flatMap_toList]
  induction held generalizing l with
  | nil => exact .nothing l
  | cons e rest ih => exact (restore_adds l e).trans (ih _)

end

end OverlaidListing

section
variable {hides : Text → Bool} {held : List (Text × Option Summary)} {under : Text} {recursive : Bool}
  {summaries : List Summary} {commonPrefixes : List Text}

theorem overlay_adds : OverlaidListing.Adds (.ofRaw hides summaries commonPrefixes)
    (overlay hides held under recursive summaries commonPrefixes)
    (held.filterMap (OverlaidListing.summaryOf? under recursive))
    (held.filterMap fun e => OverlaidListing.prefixOf? under recursive e.1) :=
  OverlaidListing.foldl_restore_adds held _

theorem overlay_keys_nodup (once : (summaries.map (·.key)).Nodup) :
    ((overlay hides held under recursive summaries commonPrefixes).summaries.map (·.key)).Nodup := by
  rw [overlay_adds.summaries]
  exact addAll_names_nodup (once.sublist (List.filter_sublist.map _))

theorem mem_overlay_summaries (well : HeldWell held) {x : Summary} :
    x ∈ (overlay hides held under recursive summaries commonPrefixes).summaries ↔
      (x ∈ summaries ∧ hides x.key = false) ∨
      ((x.key, some x) ∈ held ∧ Path.isDescendant under x.key recursive = true ∧
        ∀ y ∈ summaries, y.key = x.key → hides x.key = true) := by
  have absent : x.key ∉ (summaries.filter (!hides ·.key)).map (·.key) ↔
      ∀ y ∈ summaries, y.key = x.key → hides x.key = true := by
    simp only [List.mem_map, List.mem_filter, Bool.not_eq_true', not_exists, not_and, and_imp]
    refine forall₂_congr fun y _ => ⟨fun shown same => ?_, fun hidden shown same => ?_⟩
    · rw [← same, ← Bool.not_eq_false]
      exact fun shows => shown shows same
    · rw [same, hidden same] at shown
      cases shown
  rw [overlay_adds.summaries, mem_addAll_of_apart (OverlaidListing.summaries_held_apart well),
    OverlaidListing.mem_summaries_held well]
  simp only [OverlaidListing.ofRaw, absent, List.mem_filter, Bool.not_eq_true']
  refine or_congr_right ?_
  rw [and_comm, and_assoc]

theorem mem_overlay_commonPrefixes {p : Text} (listed : ∀ r ∈ commonPrefixes, Path.IsSlashed r)
    (rolled : ∀ e ∈ held, ∀ r, OverlaidListing.prefixOf? under recursive e.1 = some r → Path.IsSlashed r) :
    p ∈ (overlay hides held under recursive summaries commonPrefixes).commonPrefixes ↔
      (p ∈ commonPrefixes ∧ hides p = false) ∨
      ∃ e ∈ held, OverlaidListing.prefixOf? under recursive e.1 = some p := by
  have slashed : ∀ r ∈ held.filterMap fun e => OverlaidListing.prefixOf? under recursive e.1, Path.IsSlashed r := by
    intro r member
    obtain ⟨e, inside, found⟩ := List.mem_filterMap.mp member
    exact rolled e inside r found
  have listedToo : p ∈ (held.filterMap fun e => OverlaidListing.prefixOf? under recursive e.1) →
      Path.normalize p ∈ (commonPrefixes.filter (!hides ·)).map Path.normalize →
      p ∈ commonPrefixes.filter (!hides ·) := by
    intro member known
    obtain ⟨r, kept, same⟩ := List.mem_map.mp known
    exact (listed r (List.mem_filter.mp kept).1).normalize_inj (slashed p member) same ▸ kept
  rw [overlay_adds.commonPrefixes, mem_addAll_of_apart fun r member r' memberToo same =>
    (slashed r member).normalize_inj (slashed r' memberToo) same, ← List.mem_filterMap]
  have kept : p ∈ commonPrefixes.filter (!hides ·) ↔ p ∈ commonPrefixes ∧ hides p = false := by simp
  rw [← kept, OverlaidListing.ofRaw]
  tauto

theorem mem_overlay_keys (well : HeldWell held) {key : Text} :
    key ∈ (overlay hides held under recursive summaries commonPrefixes).summaries.map (·.key) ↔
      (key ∈ summaries.map (·.key) ∧ hides key = false) ∨
      ∃ x, (key, some x) ∈ held ∧ Path.isDescendant under key recursive = true := by
  simp only [List.mem_map, mem_overlay_summaries well]
  constructor
  · rintro ⟨x, ⟨listed, shown⟩ | ⟨kept, descends, -⟩, rfl⟩
    · exact Or.inl ⟨⟨x, listed, rfl⟩, shown⟩
    · exact Or.inr ⟨x, kept, descends⟩
  · rintro (⟨⟨x, listed, rfl⟩, shown⟩ | ⟨x, kept, descends⟩)
    · exact ⟨x, Or.inl ⟨listed, shown⟩, rfl⟩
    · cases well.named kept
      by_cases known : ∃ y ∈ summaries, y.key = x.key ∧ hides x.key = false
      · obtain ⟨y, listed, same, shown⟩ := known
        exact ⟨y, Or.inl ⟨listed, same ▸ shown⟩, same⟩
      · refine ⟨x, Or.inr ⟨kept, descends, fun y listed same => ?_⟩, rfl⟩
        cases shown : hides x.key with
        | true => rfl
        | false => exact absurd ⟨y, listed, same, shown⟩ known

theorem overlay_prefixes_nodup (once : commonPrefixes.Nodup) :
    (overlay hides held under recursive summaries commonPrefixes).commonPrefixes.Nodup := by
  rw [overlay_adds.commonPrefixes]
  exact addAll_nodup (once.sublist List.filter_sublist)

-- Directories that do not all end with one separator are still told apart without the slashes at their end.
theorem mem_overlay_directories {directory : Text} :
    directory ∈ (overlay hides held under recursive summaries commonPrefixes).commonPrefixes.map Path.normalize ↔
      (∃ p ∈ commonPrefixes, hides p = false ∧ Path.normalize p = directory) ∨
      ∃ e ∈ held, ∃ p, OverlaidListing.prefixOf? under recursive e.1 = some p ∧ Path.normalize p = directory := by
  rw [overlay_adds.commonPrefixes, mem_addAll_names]
  simp only [OverlaidListing.ofRaw, List.mem_map, List.mem_filter, List.mem_filterMap, Bool.not_eq_true', and_assoc]
  refine or_congr_right ⟨?_, ?_⟩
  · rintro ⟨p, ⟨e, member, rolled⟩, same⟩
    exact ⟨e, member, p, rolled, same⟩
  · rintro ⟨e, member, p, rolled, same⟩
    exact ⟨p, ⟨e, member, rolled⟩, same⟩

theorem overlay_prefixes_keep {p : Text} (listed : p ∈ commonPrefixes) (shows : hides p = false) :
    p ∈ (overlay hides held under recursive summaries commonPrefixes).commonPrefixes := by
  rw [overlay_adds.commonPrefixes, mem_addAll]
  exact Or.inl (List.mem_filter.mpr ⟨listed, by simp [shows]⟩)

theorem overlay_prefixes_from {p : Text}
    (shown : p ∈ (overlay hides held under recursive summaries commonPrefixes).commonPrefixes) :
    (p ∈ commonPrefixes ∧ hides p = false) ∨ ∃ e ∈ held, OverlaidListing.prefixOf? under recursive e.1 = some p := by
  rw [overlay_adds.commonPrefixes, mem_addAll] at shown
  refine shown.imp (fun listed => ?_) fun added => List.mem_filterMap.mp (List.mem_of_find?_eq_some added.2)
  simpa [OverlaidListing.ofRaw] using listed

theorem overlay_summaries_from {x : Summary}
    (shown : x ∈ (overlay hides held under recursive summaries commonPrefixes).summaries) :
    (x ∈ summaries ∧ hides x.key = false) ∨ ∃ e ∈ held, OverlaidListing.summaryOf? under recursive e = some x := by
  rw [overlay_adds.summaries, mem_addAll] at shown
  refine shown.imp (fun listed => ?_) fun added => List.mem_filterMap.mp (List.mem_of_find?_eq_some added.2)
  simpa [OverlaidListing.ofRaw] using listed

theorem overlay_prefixes_within (fewer : List Summary) {fewerPrefixes : List Text}
    (within : ∀ p ∈ fewerPrefixes, p ∈ commonPrefixes) {p : Text}
    (shown : p ∈ (overlay hides held under recursive summaries commonPrefixes).commonPrefixes) :
    (p ∈ commonPrefixes ∧ hides p = false) ∨
      p ∈ (overlay hides held under recursive fewer fewerPrefixes).commonPrefixes := by
  rw [overlay_adds.commonPrefixes] at shown ⊢
  have more : ∀ d ∈ (fewerPrefixes.filter (!hides ·)).map Path.normalize,
      d ∈ (commonPrefixes.filter (!hides ·)).map Path.normalize := by
    intro d member
    obtain ⟨r, kept, rfl⟩ := List.mem_map.mp member
    obtain ⟨listed, shows⟩ := List.mem_filter.mp kept
    exact List.mem_map.mpr ⟨r, List.mem_filter.mpr ⟨within r listed, shows⟩, rfl⟩
  refine (mem_addAll_of_more more shown).imp_left fun listed => ?_
  simpa [OverlaidListing.ofRaw] using listed

theorem overlay_keys_count (well : HeldWell held) {key : Text}
    (free : ∀ x, (key, some x) ∈ held → Path.isDescendant under key recursive = false) :
    ((overlay hides held under recursive summaries commonPrefixes).summaries.map (·.key)).count key
      ≤ (summaries.map (·.key)).count key := by
  rw [overlay_adds.summaries]
  obtain ⟨more, added, within, -⟩ := addAll_split (·.key) (summaries.filter (!hides ·.key))
    (held.filterMap (OverlaidListing.summaryOf? under recursive))
  have none : (more.map (·.key)).count key = 0 := by
    rw [List.count_eq_zero]
    intro member
    obtain ⟨x, inside, rfl⟩ := List.mem_map.mp member
    obtain ⟨kept, descends⟩ := (OverlaidListing.mem_summaries_held well).mp (within.subset inside)
    rw [free x kept] at descends
    cases descends
  rw [OverlaidListing.ofRaw, added, List.map_append, List.count_append, none]
  exact (List.filter_sublist.map _).count_le key

theorem overlay_prefixes_count {p : Text}
    (free : ∀ e ∈ held, OverlaidListing.prefixOf? under recursive e.1 ≠ some p) :
    (overlay hides held under recursive summaries commonPrefixes).commonPrefixes.count p
      ≤ commonPrefixes.count p := by
  rw [overlay_adds.commonPrefixes]
  obtain ⟨more, added, within, -⟩ := addAll_split Path.normalize (commonPrefixes.filter (!hides ·))
    (held.filterMap fun e => OverlaidListing.prefixOf? under recursive e.1)
  have none : more.count p = 0 := by
    rw [List.count_eq_zero]
    intro member
    obtain ⟨e, inside, rolled⟩ := List.mem_filterMap.mp (within.subset member)
    exact free e inside rolled
  rw [OverlaidListing.ofRaw, added, List.count_append, none]
  exact List.filter_sublist.count_le p

end
end StaleStore
