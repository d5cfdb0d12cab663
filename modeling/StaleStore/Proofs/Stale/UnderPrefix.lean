import StaleStore.Proofs.Prefixes
import StaleStore.Proofs.Stale.Pages

namespace StaleStore

theorem OverlaidListing.prefixOf?_starts {under key p : Text} {recursive : Bool}
    (rolled : prefixOf? under recursive key = some p) : under <+: p := by
  unfold prefixOf? at rolled
  split at rolled
  · rename_i deeper
    exact Path.rollUp?_starts (Bool.and_eq_true_iff.mp deeper).2 rolled
  · cases rolled

namespace Query

variable {q : Query} {now : Timestamp} {s : Stale Memory} {o : Bucket}

theorem laid_prefixes_start {p : Text} (shown : p ∈ (q.laid now s (q.page o)).commonPrefixes) : q.under <+: p := by
  rcases overlay_prefixes_from shown with ⟨listed, -⟩ | ⟨e, -, rolled⟩
  · exact Page.commonPrefix_starts listed
  · exact OverlaidListing.prefixOf?_starts rolled

theorem laid_keys_start_iff (named : s.delays.Named) : (∀ x ∈ (q.laid now s (q.page o)).summaries, q.under <+: x.key) ↔
    ∀ key, q.Restores now s key → q.under <+: key := by
  have keys : (∀ x ∈ (q.laid now s (q.page o)).summaries, q.under <+: x.key) ↔
      ∀ key ∈ (q.laid now s (q.page o)).keys, q.under <+: key := by
    simp [View.keys]
  rw [keys]
  constructor
  · intro start key restores
    exact start key ((mem_laid_keys named).mpr (Or.inr restores))
  · intro start key shown
    rcases (mem_laid_keys named).mp shown with ⟨listed, -⟩ | restores
    · obtain ⟨x, member, rfl⟩ := List.mem_map.mp listed
      exact Page.shown_starts member
    · exact start key restores

end Query

namespace Timeline

-- Keys from elsewhere are put back only under a prefix with a slash too many, whose children are taken to be those of
-- the directory without the slashes at its end.
theorem listing_stays_under_prefix {m : Memory} {settings : Settings} {draws : DrawStream} {s u : Stale Memory}
    {now : Timestamp} {q : Query} {v : View} (created : Stale.create m settings draws = .ok s) (timeline : Timeline) :
    let t := (timeline.run s).2
    q.ask now t = (.ok v, u) →
      (∀ p ∈ v.commonPrefixes, q.under <+: p) ∧
      ((∀ x ∈ v.summaries, q.under <+: x.key) ↔ ∀ key, q.Restores now t key → q.under <+: key) ∧
      (q.isRecursive = true ∨ ¬ Path.HasSpareSlash q.under → ∀ x ∈ v.summaries, q.under <+: x.key) := by
  intro t asked
  have named : t.delays.Named := timeline.run_named (.of_empty (Stale.create_fresh created).delays_eq)
  obtain ⟨o, draws', stats, stored, rfl, rfl⟩ := Query.ask_ok asked
  refine ⟨fun p => Query.laid_prefixes_start, Query.laid_keys_start_iff named, fun plain => ?_⟩
  apply (Query.laid_keys_start_iff named).mpr
  intro key restores
  exact Path.descendants_start_iff.mpr plain key restores.1

theorem key_beside_prefix_listed :
    let timeline : Timeline := [(.zero, .call (.put ['b'] ['x'] [])), (⟨2000⟩, .call (.delete ['b'] ['x']))]
    let t := (timeline.run lagging).2
    let q : Query := .markers (.delimited ['b'] ['/'])
    let x : Summary := ⟨['b'], ['x'], 0, "00000000".toList, .zero, "STANDARD".toList⟩
    Stale.create (Memory.withBucket ['b']) (.delayAll (.ofMillis 1000)) (.ofSeed 0) = .ok lagging ∧
      (∃ u, q.ask ⟨2000⟩ t = (.ok ⟨[x], [], false, none⟩, u)) ∧ ¬ q.under <+: x.key := by
  intro timeline t q x
  exact ⟨rfl, ⟨_, Action.eq_of_toOption (by decide +kernel)⟩, by decide⟩

theorem directory_stays_under_prefix :
    let t := (deletions.run lagging).2
    let q : Query := .tokens ⟨['b'], "p/".toList, some directoryDelimiter, none, none, 1000⟩
    ∃ v u, Stale.create (Memory.withBucket ['b']) (.delayAll (.ofMillis 1000)) (.ofSeed 0) = .ok lagging ∧
      q.ask ⟨2000⟩ t = (.ok v, u) ∧ (∀ p ∈ v.commonPrefixes, q.under <+: p) ∧
      ((∀ x ∈ v.summaries, q.under <+: x.key) ↔ ∀ key, q.Restores ⟨2000⟩ t key → q.under <+: key) ∧
      (q.isRecursive = true ∨ ¬ Path.HasSpareSlash q.under → ∀ x ∈ v.summaries, q.under <+: x.key) := by
  intro t q
  have created : Stale.create (Memory.withBucket ['b']) (.delayAll (.ofMillis 1000)) (.ofSeed 0) = .ok lagging := rfl
  let z : Summary := ⟨['b'], "p/z".toList, 0, "00000000".toList, .zero, "STANDARD".toList⟩
  let v : View := ⟨[z], ["p/b/".toList, "p/c/".toList, "p/d/".toList], false, none⟩
  have asked : q.ask ⟨2000⟩ t = (.ok v, (q.ask ⟨2000⟩ t).2) := Action.eq_of_toOption (by decide +kernel)
  exact ⟨v, _, created, asked, listing_stays_under_prefix created deletions asked⟩

end Timeline
end StaleStore
