import StaleStore.Proofs.Stale.RecordedKeys

namespace StaleStore

def DelayEvent.IsPast (window : UInt64) (now : Timestamp) : DelayEvent → Prop
  | put _ madeAt => Timestamp.isPast window now madeAt = true
  | delete _ madeAt _ => Timestamp.isPast window now madeAt = true
  | cleared => True

instance (window : UInt64) (now : Timestamp) : (e : DelayEvent) → Decidable (e.IsPast window now)
  | .put _ madeAt => inferInstanceAs (Decidable (Timestamp.isPast window now madeAt = true))
  | .delete _ madeAt _ => inferInstanceAs (Decidable (Timestamp.isPast window now madeAt = true))
  | .cleared => inferInstanceAs (Decidable True)

namespace DelayRecord

-- What is recorded was entered since the last clear. Unlike `Recounts` this asks nothing of the clock.
structure ToldBy (h : History) (r : DelayRecord) : Prop where
  puts : ∀ {key : Text} {madeAt : Timestamp}, r.puts[key]? = some madeAt → .put key madeAt ∈ h.sinceClear
  deletes : ∀ {key : Text} {d : DelayedDelete}, r.deletes[key]? = some d →
    .delete key d.deletedAt d.summary ∈ h.sinceClear

variable {h : History} {r : DelayRecord} {window : Span} {now : Timestamp}

theorem ToldBy.of_empty (h : History) : ToldBy h .empty where
  puts found := by simp [empty] at found
  deletes found := by simp [empty] at found

theorem ToldBy.purge (told : ToldBy h r) : ToldBy h (r.purge window now) where
  puts := told.puts
  deletes := by
    intro key d found
    rw [purge_deletes, Option.filter_eq_some_iff] at found
    exact told.deletes found.1

theorem ToldBy.enter (told : ToldBy h r) (e : DelayEvent) : ToldBy (h ++ [e]) (e.enter r) := by
  cases e with
  | put key madeAt =>
    refine ⟨fun {other made} found => ?_, fun {other d} found => ?_⟩
    · rw [History.sinceClear_put]
      rw [DelayEvent.enter, recordPut_puts] at found
      split at found
      · rename_i same
        cases found
        exact same ▸ List.mem_cons_self
      · exact List.mem_cons_of_mem _ (told.puts found)
    · rw [History.sinceClear_put]
      exact List.mem_cons_of_mem _ (told.deletes found)
  | delete key madeAt captured =>
    refine ⟨fun {other made} found => ?_, fun {other d} found => ?_⟩
    · rw [History.sinceClear_delete]
      exact List.mem_cons_of_mem _ (told.puts found)
    · rw [History.sinceClear_delete]
      rw [DelayEvent.enter, recordDelete_deletes] at found
      split at found
      · rename_i same
        cases found
        exact same ▸ List.mem_cons_self
      · exact List.mem_cons_of_mem _ (told.deletes found)
  | cleared => exact .of_empty _

end DelayRecord

theorem Timeline.run_told {h : History} {s : Stale Memory} (timeline : Timeline) (told : s.delays.ToldBy h) :
    (timeline.run s).2.delays.ToldBy (h ++ timeline.history s) :=
  timeline.run_holds (fun _ {_ _} told => told.purge) (fun _ told => told.enter _) told

namespace Stale

variable {now : Timestamp} {s : Stale Memory}

structure Settled (now : Timestamp) (s : Stale Memory) : Prop where
  shown : ∀ key, s.delays.hides s.rules.window now key = false
  released : (s.delays.purge s.rules.window now).heldDeletes = []

theorem Settled.of_past {h : History} {window : UInt64} (told : s.delays.ToldBy h)
    (window_eq : s.rules.window = .ofMillis window) (past : ∀ e ∈ h.sinceClear, e.IsPast window now) :
    Settled now s where
  shown := by
    intro key
    unfold DelayRecord.hides
    cases recorded : s.delays.puts[key]? with
    | none => rfl
    | some madeAt =>
      have passed := past _ (told.puts recorded)
      rw [DelayEvent.IsPast, ← Timestamp.hasElapsed_ofMillis, ← window_eq] at passed
      simp [passed]
  released := by
    refine List.eq_nil_iff_forall_not_mem.mpr ?_
    rintro ⟨key, summary⟩ held
    obtain ⟨d, recorded, inside, -⟩ := DelayRecord.mem_held.mp held
    have passed := past _ (told.deletes recorded)
    rw [DelayEvent.IsPast, ← Timestamp.hasElapsed_ofMillis, ← window_eq, inside] at passed
    cases passed

theorem Settled.overlaid (settled : Settled now s) (under : Text) (recursive : Bool) (summaries : List Summary)
    (commonPrefixes : List Text) :
    s.overlaid now under recursive summaries commonPrefixes = ⟨summaries, commonPrefixes, 0, 0, 0⟩ := by
  rw [Stale.overlaid, settled.released, TableOrder.arrange_nil, overlay, List.foldl_nil, OverlaidListing.ofRaw]
  simp [settled.shown]

theorem Settled.listing (settled : Settled now s) (o : Bucket) (r : ListRequest) :
    s.listing now o r = r.answer (Page.ofBucket r.bucket o r.under r.delimiter r.marker r.maxKeys) := by
  simp only [Stale.listing, settled.overlaid]
  rfl

theorem Settled.tokenListing (settled : Settled now s) (o : Bucket) (r : TokenRequest) :
    s.tokenListing now o r = r.answer (Page.ofBucket r.bucket o r.under r.delimiter r.start r.maxKeys) := by
  simp only [Stale.tokenListing, settled.overlaid]
  rfl

theorem Settled.checked (settled : Settled now s) (draws : DrawStream) (stats : Stats) :
    Settled now { s with draws := draws, stats := stats } := ⟨settled.shown, settled.released⟩

theorem Settled.list_passes (settled : Settled now s) (r : ListRequest) :
    Transparent Eq (list now r) (Memory.list r) s := by
  refine .afterCheck fun draws stats => ?_
  have same := settled.checked draws stats
  cases found : s.backend.buckets[r.bucket]? with
  | none => exact .error_of_eq (listUnchecked_of_missing now r found) (Memory.list_of_missing r found)
  | some o =>
    obtain ⟨stats', listed⟩ := listUnchecked_of_stored now r (s := { s with draws := draws, stats := stats }) found
    exact .ok_of_eq listed (Memory.list_of_stored r found) (same.listing o r)

theorem Settled.listTokens_passes (settled : Settled now s) (r : TokenRequest) :
    Transparent Eq (listTokens now r) (Memory.listTokens r) s := by
  refine .afterCheck fun draws stats => ?_
  have same := settled.checked draws stats
  cases found : s.backend.buckets[r.bucket]? with
  | none => exact .error_of_eq (listTokensUnchecked_of_missing now r found) (Memory.listTokens_of_missing r found)
  | some o =>
    obtain ⟨stats', listed⟩ :=
      listTokensUnchecked_of_stored now r (s := { s with draws := draws, stats := stats }) found
    exact .ok_of_eq listed (Memory.listTokens_of_stored r found) (same.tokenListing o r)

end Stale

namespace Timeline

-- A run has come to rest when all it recorded since the last clear has passed. So it has right after a clear,
-- and always where there is no window, where nothing is ever delayed, or where no key may be.
inductive IsQuiescent (settings : Settings) (s : Stale Memory) (timeline : Timeline) (now : Timestamp) : Prop where
  | passed : (∀ e ∈ (timeline.history s).sinceClear, e.IsPast settings.delayMillis now) →
      IsQuiescent settings s timeline now
  | justCleared {earlier reading} : timeline = earlier ++ [(reading, .clear)] → IsQuiescent settings s timeline now
  | noWindow : settings.delayMillis = 0 → IsQuiescent settings s timeline now
  | neverDelays : settings.delayProbability.isNonPositive = true → IsQuiescent settings s timeline now
  | unmatched : (∀ key, timeline.Names key → s.rules.isEligible key = false) →
      IsQuiescent settings s timeline now

variable {m : Memory} {settings : Settings} {draws : DrawStream} {s : Stale Memory} {timeline : Timeline}
  {now : Timestamp}

theorem past_of_never {window : UInt64} (never : ∀ key, timeline.Names key → ¬ s.rules.MayDelay key) :
    ∀ e ∈ (timeline.history s).sinceClear, e.IsPast window now := by
  intro e member
  have own := timeline.history_on s e (History.mem_of_mem_sinceClear member)
  cases e with
  | put key madeAt => exact absurd own.2 (never key own.1)
  | delete key madeAt captured => exact absurd own.2 (never key own.1)
  | cleared => trivial

theorem IsQuiescent.past (fresh : Stale.Fresh m settings s) (quiet : timeline.IsQuiescent settings s now) :
    ∀ e ∈ (timeline.history s).sinceClear, e.IsPast settings.delayMillis now := by
  cases quiet with
  | passed past => exact past
  | justCleared last =>
    rw [last, history_append]
    simp only [history, Step.events, List.append_nil, History.sinceClear_cleared]
    exact fun _ member => absurd member List.not_mem_nil
  | noWindow none =>
    intro e _
    cases e <;> simp [DelayEvent.IsPast, Timestamp.isPast, none]
  | neverDelays never =>
    refine past_of_never fun key _ may => ?_
    have positive := may.positive
    rw [fresh.rules_eq, never] at positive
    cases positive
  | unmatched unmatched =>
    refine past_of_never fun key named may => ?_
    have eligible := may.eligible
    rw [unmatched key named] at eligible
    cases eligible

-- However the clock went before, and whatever the two requests ask for: a listing that is not throttled is the
-- wrapped store's own, with its order and all that has to do with paging.
theorem quiescent_listings_pass (created : Stale.create m settings draws = .ok s)
    (quiet : timeline.IsQuiescent settings s now) :
    let t := (timeline.run s).2
    (∀ r, Stale.Transparent Eq (Stale.list now r) (Memory.list r) t) ∧
      ∀ r, Stale.Transparent Eq (Stale.listTokens now r) (Memory.listTokens r) t := by
  have fresh := Stale.create_fresh created
  have begun : s.delays.ToldBy [] := fresh.delays_eq ▸ .of_empty []
  have window_eq : (timeline.run s).2.rules.window = .ofMillis settings.delayMillis := by
    rw [timeline.run_rules, fresh.rules_eq, Settings.window]
  have settled : Stale.Settled now (timeline.run s).2 :=
    .of_past (timeline.run_told begun) window_eq (quiet.past fresh)
  exact ⟨settled.list_passes, settled.listTokens_passes⟩

def passedDelays : Timeline :=
  [(.zero, .call (.put ['b'] ['k'] [])), (⟨1000⟩, .call (.delete ['b'] ['k'])), (⟨1500⟩, .createBucket ['c'])]

theorem passed_delays_pass :
    let t := (passedDelays.run lagging).2
    Stale.create (Memory.withBucket ['b']) (.delayAll (.ofMillis 1000)) (.ofSeed 0) = .ok lagging ∧
      (t.delays.pendingPuts = 1 ∧ t.delays.pendingDeletes = 1) ∧
      (∀ e ∈ (passedDelays.history lagging).sinceClear, e.IsPast 1000 ⟨2000⟩) ∧
      (∀ r, Stale.Transparent Eq (Stale.list ⟨2000⟩ r) (Memory.list r) t) ∧
      ∀ r, Stale.Transparent Eq (Stale.listTokens ⟨2000⟩ r) (Memory.listTokens r) t := by
  have created : Stale.create (Memory.withBucket ['b']) (.delayAll (.ofMillis 1000)) (.ofSeed 0) = .ok lagging := rfl
  have past : ∀ e ∈ (passedDelays.history lagging).sinceClear, e.IsPast 1000 ⟨2000⟩ := by decide +kernel
  exact ⟨created, by decide +kernel, past, quiescent_listings_pass created (.passed past)⟩

end Timeline
end StaleStore
