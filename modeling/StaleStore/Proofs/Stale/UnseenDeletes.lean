import StaleStore.Proofs.Stale.Certain
import StaleStore.Proofs.Stale.Pages
import StaleStore.Proofs.Stale.TidyRuns

namespace StaleStore

structure Settings.DelaysAll (settings : Settings) : Prop where
  certain : settings.delayProbability = .one
  never : settings.throttleProbability.isNonPositive = true
  lasting : 0 < settings.delayMillis

structure View.Alike (v w : View) : Prop where
  summaries : ∀ x, x ∈ v.summaries ↔ x ∈ w.summaries
  commonPrefixes : ∀ g, g ∈ v.commonPrefixes ↔ g ∈ w.commonPrefixes

structure Query.Shows (q : Query) (x : Summary) (v : View) : Prop where
  summary : ∀ y, y.key = x.key → (y ∈ v.summaries ↔
    y = x ∧ q.under <+: x.key ∧ Page.group? q.under q.delimiter x.key = none)
  directory : ∀ g, q.under <+: x.key → Page.group? q.under q.delimiter x.key = some g → g ∈ v.commonPrefixes

namespace History

variable {h : History} {o : Bucket} {bucket key : Text} {window : UInt64} {now next : Timestamp} {x : Summary}

theorem held?_delete (captured : Option Summary) (order : now.ms ≤ next.ms)
    (soon : next.ms.toNat < now.ms.toNat + window.toNat) :
    held? (h ++ [.delete key now captured]) window next key = some ⟨now, captured⟩ := by
  rw [UInt64.le_iff_toNat_le] at order
  have pending : Timestamp.isPast window next now = false := by
    apply decide_eq_false
    omega
  rw [held?, lastDelete?_delete, if_pos rfl, Option.filter_some, pending]
  rfl

theorem held?_delete_now (captured : Option Summary) (lasting : 0 < window) :
    held? (h ++ [.delete key now captured]) window now key = some ⟨now, captured⟩ := by
  rw [UInt64.lt_iff_toNat_lt, UInt64.toNat_zero] at lasting
  exact held?_delete captured UInt64.le_rfl (by omega)

theorem held?_delete_other {other : Text} (captured : Option Summary) (differs : key ≠ other) :
    held? (h ++ [.delete key now captured]) window next other = h.held? window next other := by
  rw [held?, lastDelete?_delete, if_neg differs, held?]

section
variable (live : h.live? o bucket window now key = some x) (lasting : 0 < window)
include live lasting

theorem shown?_delete (other : Text) :
    shown? (h ++ [.delete key now (some x)]) (o.erase key) bucket window now other
      = h.shown? o bucket window now other := by
  by_cases same : key = other
  · subst same
    rw [shown?_of_missing (by simp), held?_delete_now _ lasting, shown?, live]
    rfl
  · have stays : (o.erase key)[other]? = o[other]? := by
      simp only [Std.ExtTreeMap.getElem?_erase, Std.LawfulEqOrd.compare_eq_iff_eq, same, if_false]
    simp only [shown?, live?, left?, lastPut?_delete, lastDelete?_delete, if_neg same, stays]

theorem occupies_delete (other : Text) :
    Occupies (h ++ [.delete key now (some x)]) (o.erase key) window now other ↔ h.Occupies o window now other := by
  by_cases same : key = other
  · subst same
    have stored : ∃ object, o[key]? = some object := by
      cases found : o[key]? with
      | none =>
        rw [live?_of_missing found] at live
        cases live
      | some object => exact ⟨object, rfl⟩
    exact ⟨fun _ => Or.inl stored, fun _ => Or.inr ⟨_, held?_delete_now _ lasting⟩⟩
  · rw [Occupies, held?_delete_other _ same, Occupies]
    simp only [Std.ExtTreeMap.getElem?_erase, Std.LawfulEqOrd.compare_eq_iff_eq, same, if_false]

end
end History

namespace Stale

variable {bucket key : Text} {o : Bucket} {window : UInt64} {h : History} {now : Timestamp} {s t : Stale Memory}
  {q : Query} {x : Summary}

theorem create_steady {m : Memory} {settings : Settings} {draws : DrawStream}
    (created : create m settings draws = .ok s) (delays : settings.DelaysAll)
    (stored : m.buckets[bucket]? = some o) (names : ∀ {key object}, o[key]? = some object → Path.IsKey key) :
    Steady bucket o settings.delayMillis [] .zero s := by
  obtain ⟨backend, delaysEmpty, rules, -, -, probability⟩ := create_fresh created
  refine ⟨⟨backend ▸ stored, names, ?_, ?_, nofun⟩, probability ▸ delays.never, ?_⟩
  · rw [rules]
    rfl
  · rw [delaysEmpty]
    exact .start _ _
  · rw [rules]
    exact delays.certain

theorem Steady.delete (steady : Steady bucket o window h now s) (live : h.live? o bucket window now key = some x)
    (eligible : s.rules.isEligible key = true) : ∃ t, Stale.delete now bucket key s = (.ok (), t) ∧
      Steady bucket (o.erase key) window (h ++ [.delete key now (some x)]) now t := by
  obtain ⟨⟨object, found, rfl⟩, -⟩ := steady.recounts.live?_eq_some.mp live
  rcases delete_certain now key steady.certain steady.stored with stops | ⟨draws, stats, deletes⟩
  · exact absurd (stops.map fun _ => Reply.deleted) (not_stops now (c := .delete bucket key) steady.never)
  · rw [if_pos eligible, steady.captured_eq (steady.names found), live, steady.window_eq] at deletes
    refine ⟨_, deletes, ⟨Std.ExtTreeMap.getElem?_insert_self, ?_, steady.window_eq, ?_, ?_⟩, steady.never,
      steady.certain⟩
    · exact fun stays => steady.names (Memory.stored_of_erased stays)
    · apply steady.recounts.purge.enter
      rintro other madeAt x ⟨⟩
      rfl
    · exact List.forall_mem_append.mpr ⟨steady.told, List.forall_mem_singleton.mpr (steady.names found)⟩

namespace Orderly

section
variable (listed : q.IsOfDirectory bucket)
include listed

-- Before and after the delete a listing of a directory shows the same, and has room for it if it had before.
theorem alike (before : Orderly bucket o window h now s)
    (after : Orderly bucket (o.erase key) window (h ++ [.delete key now (some x)]) now t)
    (live : h.live? o bucket window now key = some x) (lasting : 0 < window)
    (ended : (q.page o).truncated = false) : (q.page (o.erase key)).truncated = false ∧
      (q.laid now t (q.page (o.erase key))).Alike (q.laid now s (q.page o)) := by
  have endedToo : (q.page (o.erase key)).truncated = false :=
    Page.ended_of_fewer (fun _ _ => Memory.stored_of_erased) ended
  refine ⟨endedToo, ⟨fun y => ?_, fun g => ?_⟩⟩
  · simp only [after.mem_summaries listed endedToo, before.mem_summaries listed ended,
      History.shown?_delete live lasting]
  · simp only [after.mem_commonPrefixes listed endedToo, before.mem_commonPrefixes listed ended,
      History.occupies_delete live lasting]

theorem shows_held (orderly : Orderly bucket o window h now s) {deletedAt : Timestamp}
    (held : h.held? window now x.key = some ⟨deletedAt, some x⟩) (missing : o[x.key]? = none)
    (ended : (q.page o).truncated = false) : q.Shows x (q.laid now s (q.page o)) where
  summary := by
    intro y own
    have shown : h.shown? o bucket window now x.key = some x := by
      rw [History.shown?_of_missing missing, held]
      rfl
    rw [orderly.mem_summaries listed ended]
    constructor
    · rintro ⟨other, lies, alone, shows⟩
      obtain rfl : x.key = other := own.symm.trans (orderly.recounts.shown?_key shows)
      rw [shown] at shows
      cases shows
      exact ⟨rfl, lies, alone⟩
    · rintro ⟨rfl, lies, alone⟩
      exact ⟨y.key, lies, alone, shown⟩
  directory := by
    intro g lies rolled
    exact (orderly.mem_commonPrefixes listed ended).mpr ⟨x.key, Or.inr ⟨_, held⟩, lies, rolled⟩

end

theorem key_absent (orderly : Orderly bucket o window h now s) (missing : o[key]? = none)
    (uncaptured : ∀ d, h.held? window now key = some d → d.summary = none) :
    key ∉ (q.laid now s (q.page o)).keys := by
  intro member
  rcases (mem_overlay_keys (orderly.held_well.arrange s.order)).mp member with ⟨listed, -⟩ | ⟨x, held, -⟩
  · obtain ⟨x, shown, own⟩ := List.mem_map.mp listed
    exact absurd own (Page.ne_of_missing missing shown)
  · obtain ⟨d, held, captured⟩ := orderly.mem_held.mp (s.order.mem_arrange.mp held)
    rw [uncaptured d held] at captured
    cases captured

end Orderly
end Stale

namespace History

variable {h more : History} {key : Text} {window : UInt64} {now next : Timestamp} {x : Summary} {timeline : Timeline}

-- What is entered later does not end a delete before its window has passed, and does not bring a key back afterwards.
theorem held?_later (entered : ∀ e ∈ more, timeline.MayEnter key e) (uncleared : ¬ timeline.Clears)
    (unnamed : ¬ timeline.Names key) (order : now.ms ≤ next.ms)
    (soon : next.ms.toNat < now.ms.toNat + window.toNat) :
    held? (h ++ [.delete key now (some x)] ++ more) window next key = some ⟨now, some x⟩ := by
  have kept : lastDelete? (h ++ [.delete key now (some x)] ++ more) key
      = lastDelete? (h ++ [.delete key now (some x)]) key := by
    apply lastDelete?_append_of_quiet
    · exact fun member => uncleared (entered _ member)
    · exact fun madeAt captured member => unnamed (entered _ member).1
  rw [held?, kept]
  exact held?_delete (some x) order soon

theorem uncaptured_later (entered : ∀ e ∈ more, timeline.MayEnter key e)
    (passed : now.ms.toNat + window.toNat ≤ next.ms.toNat) {d : DelayedDelete}
    (held : held? (h ++ [.delete key now (some x)] ++ more) window next key = some d) : d.summary = none := by
  obtain ⟨last, pending⟩ := Option.filter_eq_some_iff.mp held
  rcases lastDelete?_append last with first | later
  · rw [lastDelete?_delete, if_pos rfl] at first
    cases first
    have elapsed : Timestamp.isPast window next now = true := by
      apply decide_eq_true
      omega
    simp [elapsed] at pending
  · exact (entered _ later).2 rfl

end History

namespace Timeline

-- From any store in memory whose bucket has keys only, along any run that keeps to them, and for any that follows.
theorem delayed_delete_unseen {m : Memory} {settings : Settings} {draws : DrawStream} {s : Stale Memory}
    {bucket : Text} {o : Bucket} {timeline : Timeline} {now : Timestamp} {key : Text} {object : StoredObject}
    (created : Stale.create m settings draws = .ok s) (delays : settings.DelaysAll)
    (stored : m.buckets[bucket]? = some o) (names : ∀ {key object}, o[key]? = some object → Path.IsKey key)
    (tidy : timeline.IsTidy bucket) (ends : timeline.Until now) :
    let t := (timeline.run s).2
    t.backend.object? bucket key = some object → t.rules.isEligible key = true →
      t.delays.hides t.rules.window now key = false →
      (∀ q : Query, q.IsOfDirectory bucket → ∃ before t' u after u',
        q.ask now t = (.ok before, t') ∧ Stale.delete now bucket key t' = (.ok (), u) ∧
          q.ask now u = (.ok after, u') ∧
          (before.truncated = false → after.truncated = false ∧ after.Alike before)) ∧
      ∃ u, Stale.delete now bucket key t = (.ok (), u) ∧
        ∀ (later : Timeline) (next : Timestamp), later.IsTidy bucket → later.Until next →
          (∀ e ∈ later, now.ms ≤ e.1.ms) → now.ms ≤ next.ms →
          (next.ms.toNat < now.ms.toNat + settings.delayMillis.toNat → ¬ later.Clears → ¬ later.Names key →
            ∀ q : Query, q.IsOfDirectory bucket → ∃ v w, q.ask next (later.run u).2 = (.ok v, w) ∧
              (v.truncated = false → q.Shows (object.summary bucket key) v)) ∧
          (now.ms.toNat + settings.delayMillis.toNat ≤ next.ms.toNat → later.Spares bucket key u →
            ∀ q : Query, q.bucket = bucket → ∃ v w, q.ask next (later.run u).2 = (.ok v, w) ∧ key ∉ v.keys) := by
  intro t found eligible shown
  obtain ⟨o₁, steady, -⟩ := run_steady (Stale.create_steady created delays stored names) tidy
    (fun _ _ => UInt64.zero_le) UInt64.zero_le ends
  rw [List.nil_append] at steady
  rw [Memory.object?_of_stored steady.stored] at found
  rw [steady.window_eq] at shown
  have live : (timeline.history s).live? o₁ bucket settings.delayMillis now key = some (object.summary bucket key) :=
    steady.recounts.live?_eq_some.mpr ⟨⟨object, found, rfl⟩, shown⟩
  constructor
  · intro q listed
    obtain ⟨t', asked, rules, still⟩ := steady.ask listed.bucket
    obtain ⟨u, deletes, deleted⟩ := still.delete live (rules ▸ eligible)
    obtain ⟨u', askedAgain, -⟩ := deleted.ask listed.bucket
    refine ⟨_, t', u, _, u', asked, deletes, askedAgain, ?_⟩
    exact steady.alike listed deleted.toOrderly live delays.lasting
  · obtain ⟨u, deletes, deleted⟩ := steady.delete live eligible
    refine ⟨u, deletes, ?_⟩
    intro later next tidyLater endsLater after order
    obtain ⟨o₂, steadyLater, stays⟩ := run_steady deleted tidyLater after order endsLater
    have gone : (o₁.erase key)[key]? = none := by simp
    constructor
    · intro soon uncleared unnamed q listed
      obtain ⟨missing, entered⟩ := stays key gone (spares_of_unnamed unnamed u)
      obtain ⟨w, asked, -⟩ := steadyLater.ask listed.bucket
      refine ⟨_, w, asked, fun ended => ?_⟩
      exact steadyLater.shows_held listed (History.held?_later entered uncleared unnamed order soon) missing ended
    · intro passed spares q onBucket
      obtain ⟨missing, entered⟩ := stays key gone spares
      obtain ⟨w, asked, -⟩ := steadyLater.ask onBucket
      refine ⟨_, w, asked, ?_⟩
      exact steadyLater.key_absent missing fun d => History.uncaptured_later entered passed

def onlyKey : Text := ['d', '/', 'k']

def twoPuts : Timeline := [(.zero, .call (.put ['b'] onlyKey [])), (.zero, .call (.put ['b'] ['e'] [1]))]

def putAgain : Timeline := [(⟨2500⟩, .call (.put ['b'] ['e'] []))]

-- The delete of the only key of the directory, up to the last reading before its window has passed and from then on.
theorem only_key_deleted_unseen :
    let t := (twoPuts.run lagging).2
    Stale.create (Memory.withBucket ['b']) (.delayAll (.ofMillis 1000)) (.ofSeed 0) = .ok lagging ∧
      t.backend.object? ['b'] onlyKey = some ⟨[], "00000000".toList, .zero⟩ ∧
      t.rules.isEligible onlyKey = true ∧ t.delays.hides t.rules.window ⟨2000⟩ onlyKey = false ∧
      (∀ q : Query, q.IsOfDirectory ['b'] → ∃ before t' u after u',
        q.ask ⟨2000⟩ t = (.ok before, t') ∧ Stale.delete ⟨2000⟩ ['b'] onlyKey t' = (.ok (), u) ∧
          q.ask ⟨2000⟩ u = (.ok after, u') ∧
          (before.truncated = false → after.truncated = false ∧ after.Alike before)) ∧
      ∃ u, Stale.delete ⟨2000⟩ ['b'] onlyKey t = (.ok (), u) ∧
        (∀ q : Query, q.IsOfDirectory ['b'] → ∃ v w, q.ask ⟨2999⟩ (putAgain.run u).2 = (.ok v, w) ∧
          (v.truncated = false → q.Shows ⟨['b'], onlyKey, 0, "00000000".toList, .zero, "STANDARD".toList⟩ v)) ∧
        ∀ q : Query, q.bucket = ['b'] → ∃ v w, q.ask ⟨3000⟩ (putAgain.run u).2 = (.ok v, w) ∧ onlyKey ∉ v.keys := by
  dsimp only
  have letter : ∀ c : Char, c ≠ Path.separator → Path.IsName [c] := fun c other =>
    ⟨by simp, by simpa using other.symm⟩
  have isKey : Path.IsKey onlyKey := .deeper (letter 'd' (by decide)) (.name (letter 'k' (by decide)))
  have beside : Path.IsKey ['e'] := .name (letter 'e' (by decide))
  have tidy : twoPuts.IsTidy ['b'] := by
    simp [IsTidy, twoPuts, Step.IsTidy, Call.bucket, Call.keys, isKey, beside]
  have tidyLater : putAgain.IsTidy ['b'] := by
    simp [IsTidy, putAgain, Step.IsTidy, Call.bucket, Call.keys, beside]
  have uncleared : ¬ putAgain.Clears := by
    simp [Clears, putAgain]
  have unnamed : ¬ putAgain.Names onlyKey := by
    simp [Names, putAgain, Call.keys, onlyKey]
  have created : Stale.create (Memory.withBucket ['b']) (.delayAll (.ofMillis 1000)) (.ofSeed 0) = .ok lagging := rfl
  have stored : (twoPuts.run lagging).2.backend.object? ['b'] onlyKey = some ⟨[], "00000000".toList, .zero⟩ := by
    decide +kernel
  have eligible : (twoPuts.run lagging).2.rules.isEligible onlyKey = true := by
    decide +kernel
  have shown : (twoPuts.run lagging).2.delays.hides (twoPuts.run lagging).2.rules.window ⟨2000⟩ onlyKey = false := by
    decide +kernel
  obtain ⟨same, u, deletes, goesOn⟩ := @delayed_delete_unseen _ _ _ _ _ ∅ _ ⟨2000⟩ _ _ created ⟨rfl, rfl, by decide⟩
    (by decide) (by simp) tidy ⟨by decide, by decide⟩ stored eligible shown
  refine ⟨created, stored, eligible, shown, same, u, deletes, ?_, ?_⟩
  · apply (goesOn putAgain ⟨2999⟩ tidyLater ⟨by decide, by decide⟩ (by decide) (by decide)).1
    · decide
    · exact uncleared
    · exact unnamed
  · apply (goesOn putAgain ⟨3000⟩ tidyLater ⟨by decide, by decide⟩ (by decide) (by decide)).2
    · decide
    · exact spares_of_unnamed unnamed u

end Timeline
end StaleStore
