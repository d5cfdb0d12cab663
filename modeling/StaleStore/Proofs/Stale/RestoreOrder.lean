import StaleStore.Proofs.Stale.PathListing

namespace StaleStore

namespace OverlaidListing

-- The same counts and the same entries, in whatever order, where directories are compared like the listing does.
structure AlikeUpToSlashes (l k : OverlaidListing) : Prop where
  summaries : ∀ x, x ∈ l.summaries ↔ x ∈ k.summaries
  directories : ∀ d, d ∈ l.commonPrefixes.map Path.normalize ↔ d ∈ k.commonPrefixes.map Path.normalize
  hidden : l.hidden = k.hidden
  restoredSummaries : l.restoredSummaries = k.restoredSummaries
  restoredPrefixes : l.restoredPrefixes = k.restoredPrefixes

structure Alike (l k : OverlaidListing) : Prop extends AlikeUpToSlashes l k where
  commonPrefixes : ∀ p, p ∈ l.commonPrefixes ↔ p ∈ k.commonPrefixes

-- Two held deletes show up as the same directory under different names, and the listing does not have it otherwise.
def Rivals (hides : Text → Bool) (held : List (Text × Option Summary)) (under : Text) (recursive : Bool)
    (commonPrefixes : List Text) : Prop :=
  ∃ e ∈ held, ∃ e' ∈ held, ∃ p p', prefixOf? under recursive e.1 = some p ∧ prefixOf? under recursive e'.1 = some p' ∧
    p ≠ p' ∧ Path.normalize p = Path.normalize p' ∧
    ∀ r ∈ commonPrefixes, hides r = false → Path.normalize r ≠ Path.normalize p

variable {hides : Text → Bool} {held one two : List (Text × Option Summary)} {under : Text} {recursive : Bool}
  {summaries : List Summary} {commonPrefixes : List Text}

theorem first_spells {e : Text × Option Summary} {p q : Text} (rolled : prefixOf? under recursive e.1 = some p)
    (unlisted : ∀ r ∈ commonPrefixes, hides r = false → Path.normalize r ≠ Path.normalize p)
    (same : Path.normalize p = Path.normalize q) :
    q ∈ (overlay hides (e :: held) under recursive summaries commonPrefixes).commonPrefixes ↔ p = q := by
  have missing : Path.normalize q ∉ (commonPrefixes.filter (!hides ·)).map Path.normalize := by
    rw [← same]
    simpa using unlisted
  have absent : q ∉ commonPrefixes.filter (!hides ·) := fun kept => missing (List.mem_map.mpr ⟨q, kept, rfl⟩)
  have first : ((e :: held).filterMap fun e => prefixOf? under recursive e.1)
      = p :: held.filterMap fun e => prefixOf? under recursive e.1 := List.filterMap_cons_some rolled
  rw [overlay_adds.commonPrefixes, mem_addAll, ofRaw, or_iff_right absent, and_iff_right missing, first,
    List.find?_cons_of_pos (by simpa using same), Option.some_inj]

theorem alikeUpToSlashes_of_perm (well : HeldWell one) (perm : one.Perm two) :
    (overlay hides one under recursive summaries commonPrefixes).AlikeUpToSlashes
      (overlay hides two under recursive summaries commonPrefixes) := by
  have shown := perm.filterMap (summaryOf? under recursive)
  have rolled := perm.filterMap fun e => prefixOf? under recursive e.1
  have adds : ∀ held, Adds _ (overlay hides held under recursive summaries commonPrefixes) _ _ := fun _ => overlay_adds
  have first := adds one
  have second := adds two
  have keys := (addAll_names_perm (l := (ofRaw hides summaries commonPrefixes).summaries)
    fun n => (shown.map (·.key)).mem_iff (a := n)).length_eq
  have directories := addAll_names_perm (l := (ofRaw hides summaries commonPrefixes).commonPrefixes)
    fun n => (rolled.map Path.normalize).mem_iff (a := n)
  rw [← first.summaries, ← second.summaries, List.length_map, List.length_map] at keys
  rw [← first.commonPrefixes, ← second.commonPrefixes] at directories
  have names := directories.length_eq
  rw [List.length_map, List.length_map] at names
  refine ⟨fun x => ?_, fun d => directories.mem_iff, first.hidden.trans second.hidden.symm, ?_, ?_⟩
  · rw [mem_overlay_summaries well, mem_overlay_summaries (well.perm perm), perm.mem_iff]
  · have one := first.restoredSummaries
    have two := second.restoredSummaries
    omega
  · have one := first.restoredPrefixes
    have two := second.restoredPrefixes
    omega

theorem commonPrefix_of_perm (alone : ¬ Rivals hides two under recursive commonPrefixes) (perm : one.Perm two)
    {p : Text} (shown : p ∈ (overlay hides one under recursive summaries commonPrefixes).commonPrefixes) :
    p ∈ (overlay hides two under recursive summaries commonPrefixes).commonPrefixes := by
  rw [overlay_adds.commonPrefixes, mem_addAll] at shown ⊢
  refine shown.imp_right ?_
  rintro ⟨missing, first⟩
  refine ⟨missing, ?_⟩
  obtain ⟨e, member, rolled⟩ := List.mem_filterMap.mp (List.mem_of_find?_eq_some first)
  have inside := perm.mem_iff.mp member
  cases found : (two.filterMap fun e => prefixOf? under recursive e.1).find? (Path.normalize · = Path.normalize p) with
  | none =>
    have other := List.find?_eq_none.mp found p (List.mem_filterMap.mpr ⟨e, inside, rolled⟩)
    exact absurd (decide_eq_true rfl) other
  | some p' =>
    have same : Path.normalize p' = Path.normalize p := by simpa using List.find?_some found
    obtain ⟨e', inside', rolled'⟩ := List.mem_filterMap.mp (List.mem_of_find?_eq_some found)
    by_contra differs
    refine alone ⟨e, inside, e', inside', p, p', rolled, rolled', fun again => differs (again ▸ rfl), same.symm, ?_⟩
    intro r listed shows known
    refine missing (List.mem_map.mpr ⟨r, ?_, known⟩)
    exact List.mem_filter.mpr ⟨listed, by simp [shows]⟩

theorem alike_iff_not_rivals (well : HeldWell held) :
    (∀ one two : List (Text × Option Summary), one.Perm held → two.Perm held →
      (overlay hides one under recursive summaries commonPrefixes).Alike
        (overlay hides two under recursive summaries commonPrefixes)) ↔
      ¬ Rivals hides held under recursive commonPrefixes := by
  constructor
  · rintro alike ⟨e, member, e', memberToo, p, p', rolled, rolled', differs, same, unlisted⟩
    have both := (alike _ _ (List.perm_cons_erase member).symm (List.perm_cons_erase memberToo).symm).commonPrefixes p
    rw [first_spells rolled unlisted rfl, first_spells rolled' (same ▸ unlisted) same.symm] at both
    exact differs (both.mp rfl).symm
  · intro alone one two perm perm'
    have change := perm.trans perm'.symm
    have rivals : ∀ {other}, other.Perm held → ¬ Rivals hides other under recursive commonPrefixes := by
      rintro other perm ⟨e, member, e', memberToo, rest⟩
      exact alone ⟨e, perm.mem_iff.mp member, e', perm.mem_iff.mp memberToo, rest⟩
    refine ⟨alikeUpToSlashes_of_perm (well.perm perm.symm) change, fun p => ⟨?_, ?_⟩⟩
    · exact commonPrefix_of_perm (rivals perm') change
    · exact commonPrefix_of_perm (rivals perm) change.symm

end OverlaidListing

theorem Stale.Keyed.not_rivals {bucket : Text} {o : Bucket} {now : Timestamp} {s : Stale Memory} {q : Query}
    (keyed : Keyed bucket o now s) (listed : q.IsOfDirectory bucket) (commonPrefixes : List Text) :
    ¬ OverlaidListing.Rivals (s.delays.hides s.rules.window now) (s.delays.purge s.rules.window now).heldDeletes q.under
      q.isRecursive commonPrefixes := by
  have slashed : ∀ e ∈ (s.delays.purge s.rules.window now).heldDeletes, ∀ p,
      OverlaidListing.prefixOf? q.under q.isRecursive e.1 = some p → Path.IsSlashed p := by
    intro e member p rolled
    have occupies : s.Occupies o now e.1 := Or.inr ⟨e.2, member⟩
    obtain ⟨lies, grouped⟩ := (keyed.prefixOf?_iff listed occupies).mp rolled
    exact (keyed.slashed listed occupies lies grouped).1
  rintro ⟨e, member, e', memberToo, p, p', rolled, rolled', differs, same, -⟩
  exact differs ((slashed e member p rolled).normalize_inj (slashed e' memberToo p' rolled') same)

namespace Timeline

-- In any state a run comes to, for any raw listing and any prefix.
theorem restore_order_matters_iff_rivals {m : Memory} {settings : Settings} {draws : DrawStream} {s : Stale Memory}
    (created : Stale.create m settings draws = .ok s) (timeline : Timeline) (now : Timestamp) (under : Text)
    (recursive : Bool) (summaries : List Summary) (commonPrefixes : List Text) :
    let t := (timeline.run s).2
    let hides := t.delays.hides t.rules.window now
    let held := (t.delays.purge t.rules.window now).heldDeletes
    let lay := fun order => overlay hides order under recursive summaries commonPrefixes
    (∀ one two : List (Text × Option Summary), one.Perm held → two.Perm held →
      (lay one).AlikeUpToSlashes (lay two)) ∧
    ((∀ one two : List (Text × Option Summary), one.Perm held → two.Perm held → (lay one).Alike (lay two)) ↔
      ¬ OverlaidListing.Rivals hides held under recursive commonPrefixes) := by
  intro t hides held lay
  have named : t.delays.Named := timeline.run_named (.of_empty (Stale.create_fresh created).delays_eq)
  have well : HeldWell held := named.purge.held_well
  refine ⟨fun one two perm perm' => ?_, OverlaidListing.alike_iff_not_rivals well⟩
  exact OverlaidListing.alikeUpToSlashes_of_perm (well.perm perm.symm) (perm.trans perm'.symm)

-- Deletes of two keys that were never stored, in one directory by two names.
def twoNames : Timeline := [(.zero, .call (.deleteBatch ['b'] ["b//y".toList, "b/x".toList]))]

theorem two_names_depend_on_order :
    let t := (twoNames.run lagging).2
    let held := (t.delays.purge t.rules.window .zero).heldDeletes
    let lay := fun order => overlay (t.delays.hides t.rules.window .zero) order [] false [] []
    Stale.create (Memory.withBucket ['b']) (.delayAll (.ofMillis 1000)) (.ofSeed 0) = .ok lagging ∧
      (∃ u, (Query.markers (.delimited ['b'] [])).ask .zero t = (.ok ⟨[], ["b//".toList], false, none⟩, u)) ∧
      (lay held).commonPrefixes = ["b//".toList] ∧ held.reverse.Perm held ∧
      (lay held.reverse).commonPrefixes = ["b/".toList] ∧ ¬ (lay held).Alike (lay held.reverse) := by
  intro t held lay
  have one : (lay held).commonPrefixes = ["b//".toList] := by decide +kernel
  have two : (lay held.reverse).commonPrefixes = ["b/".toList] := by decide +kernel
  refine ⟨rfl, ⟨_, Action.eq_of_toOption (by decide +kernel)⟩, one, List.reverse_perm held, two, ?_⟩
  intro alike
  have both := alike.commonPrefixes "b/".toList
  rw [one, two] at both
  revert both
  decide

theorem two_names_are_rivals :
    let t := (twoNames.run lagging).2
    let hides := t.delays.hides t.rules.window .zero
    let held := (t.delays.purge t.rules.window .zero).heldDeletes
    let lay := fun order => overlay hides order [] false [] []
    Stale.create (Memory.withBucket ['b']) (.delayAll (.ofMillis 1000)) (.ofSeed 0) = .ok lagging ∧
      (∀ one two : List (Text × Option Summary), one.Perm held → two.Perm held →
        (lay one).AlikeUpToSlashes (lay two)) ∧
      ((∀ one two : List (Text × Option Summary), one.Perm held → two.Perm held → (lay one).Alike (lay two)) ↔
        ¬ OverlaidListing.Rivals hides held [] false []) := by
  have created : Stale.create (Memory.withBucket ['b']) (.delayAll (.ofMillis 1000)) (.ofSeed 0) = .ok lagging := rfl
  exact ⟨created, restore_order_matters_iff_rivals created twoNames .zero [] false [] []⟩

end Timeline
end StaleStore
