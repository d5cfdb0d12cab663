import StaleStore.Proofs.Paths
import StaleStore.Proofs.Stale.Captures
import StaleStore.Proofs.Stale.Deletes
import StaleStore.Proofs.Stale.Pages

namespace StaleStore

section
variable {now : Timestamp} {bucket key : Text} {s : Stale Memory} {o : Bucket} {x : Summary}

theorem Query.mem_laid_of_missing {q : Query} (named : s.delays.Named) (missing : o[x.key]? = none) :
    x ∈ (q.laid now s (q.page o)).summaries ↔
      (x.key, some x) ∈ (s.delays.purge s.rules.window now).heldDeletes ∧
        Path.isDescendant q.under x.key q.isRecursive = true := by
  refine (mem_overlay_summaries (named.purge.held_well.arrange s.order)).trans ?_
  rw [TableOrder.mem_arrange]
  constructor
  · rintro (⟨shown, -⟩ | ⟨held, descends, -⟩)
    · exact absurd rfl (Page.ne_of_missing missing shown)
    · exact ⟨held, descends⟩
  · rintro ⟨held, descends⟩
    exact Or.inr ⟨held, descends, fun y shown same => absurd same (Page.ne_of_missing missing shown)⟩

theorem Stale.captured_of_missing (named : s.delays.Named) (missing : o[key]? = none) :
    s.captured now bucket key o = some x ↔
      (key, some x) ∈ (s.delays.purge s.rules.window now).heldDeletes ∧ Path.isBelow key key = true := by
  rw [captured_eq_some named.purge.held_well]
  simp [ShowsStored, PutsBack, missing]

end

namespace Call

open Stale

variable {now : Timestamp} {bucket key : Text} {s : Stale Memory} {o : Bucket} {c : Call}

theorem Deletes.effect (now : Timestamp) (deletes : c.Deletes bucket key)
    (never : s.throttle.probability.isNonPositive = true) (certain : s.rules.probability = .one)
    (eligible : s.rules.isEligible key = true) (stored : s.backend.buckets[bucket]? = some o) :
    ∃ r t o', c.perform now s = (.ok r, t) ∧ t.backend.buckets[bucket]? = some o' ∧ o'[key]? = none ∧
      t.throttle = s.throttle ∧ t.delays.deletes[key]? = some ⟨now, s.captured now bucket key o⟩ := by
  have chosen : key ∈ s.selected c.keys := by
    rw [Stale.selected, DelayRules.choose_certain certain]
    exact List.mem_filter.mpr ⟨deletes.mem_keys, eligible⟩
  rcases deletes.outcome now stored with stops | ⟨r, t, o', deleted, throttle, storedLater, missing, recorded⟩
  · exact absurd stops (not_stops now never)
  · exact ⟨r, t, o', deleted, storedLater, missing, throttle, recorded chosen⟩

-- After another delete of the key listings have of it what the earlier one had, if the key lies below itself.
theorem Deletes.again {w : UInt64} {x : Summary} (deletes : c.Deletes bucket x.key) (named : s.delays.Named)
    (never : s.throttle.probability.isNonPositive = true) (certain : s.rules.probability = .one)
    (window : s.rules.window = .ofMillis w) (lasting : 0 < w) (eligible : s.rules.isEligible x.key = true)
    (stored : s.backend.buckets[bucket]? = some o) (missing : o[x.key]? = none)
    (held : (x.key, some x) ∈ (s.delays.purge s.rules.window now).heldDeletes) :
    ∃ r t o', c.perform now s = (.ok r, t) ∧ t.throttle = s.throttle ∧ t.backend.buckets[bucket]? = some o' ∧
      ∀ (q : Query) (y : Summary), y.key = x.key → (y ∈ (q.laid now t (q.page o')).summaries ↔
        y = x ∧ Path.isBelow x.key x.key = true ∧ Path.isDescendant q.under x.key q.isRecursive = true) := by
  obtain ⟨r, t, o', deleted, storedLater, missingLater, throttle, recorded⟩ :=
    deletes.effect now never certain eligible stored
  refine ⟨r, t, o', deleted, throttle, storedLater, ?_⟩
  intro q y own
  have namedLater : t.delays.Named := by
    have performed : ((Step.call c).perform now s).2.delays.Named := (Step.call c).perform_named named
    rwa [Step.perform, deleted] at performed
  have rules : t.rules = s.rules := by
    have performed := (Step.call c).perform_rules now s
    rwa [Step.perform, deleted] at performed
  have pending : now.hasElapsed now t.rules.window = false := by
    rw [rules, window]
    exact Timestamp.not_hasElapsed_now now lasting
  have heldLater : (y.key, some y) ∈ (t.delays.purge t.rules.window now).heldDeletes ↔
      s.captured now bucket x.key o = some y := by
    rw [own, DelayRecord.mem_held, recorded]
    simp [pending]
  rw [Query.mem_laid_of_missing namedLater (own.symm ▸ missingLater), heldLater, own,
    captured_of_missing named missing, and_assoc]
  refine and_congr_left fun _ => ⟨fun again => ?_, ?_⟩
  · exact Option.some.inj (DelayRecord.heldDeletes_unique again held)
  · rintro rfl
    exact held

end Call

namespace Timeline

-- From any store in memory and along any run, however often calls were throttled on the way.
theorem deleted_again_stays_iff {m : Memory} {settings : Settings} {draws : DrawStream} {s t' : Stale Memory}
    {now : Timestamp} {q : Query} {key : Text} {c : Call} {before : View} {x : Summary}
    (created : Stale.create m settings draws = .ok s) (certain : settings.delayProbability = .one)
    (lasting : 0 < settings.delayMillis) (timeline : Timeline) :
    let t := (timeline.run s).2
    t.throttle.probability.isNonPositive = true → t.rules.isEligible key = true →
      t.backend.object? q.bucket key = none → q.ask now t = (.ok before, t') → x ∈ before.summaries → x.key = key →
      c.Deletes q.bucket key → ∃ r u after u', c.perform now t' = (.ok r, u) ∧ q.ask now u = (.ok after, u') ∧
        (x ∈ after.summaries ↔ key = [] ∨ key.getLast? = some Path.separator) ∧
        (key ∈ after.keys ↔ key = [] ∨ key.getLast? = some Path.separator) := by
  intro t never eligible missing asked shown own deletes
  have fresh := Stale.create_fresh created
  have rules : t.rules = s.rules := timeline.run_rules s
  have named : t.delays.Named := timeline.run_named (.of_empty fresh.delays_eq)
  obtain ⟨o, draws', stats, stored, rfl, rfl⟩ := Query.ask_ok asked
  subst own
  rw [Memory.object?_of_stored stored] at missing
  obtain ⟨held, descends⟩ := (Query.mem_laid_of_missing named missing).mp shown
  -- The listing itself has dropped what has passed, and nothing else.
  have heldStill : (x.key, some x) ∈ ((t.delays.purge t.rules.window now).purge t.rules.window now).heldDeletes := by
    rwa [DelayRecord.purge_purge]
  have always : t.rules.probability = .one := by
    rw [rules, fresh.rules_eq]
    exact certain
  have window : t.rules.window = .ofMillis settings.delayMillis := by
    rw [rules, fresh.rules_eq]
    rfl
  obtain ⟨r, u, o', deleted, throttle, storedLater, shows⟩ := deletes.again
    (s := { t with delays := t.delays.purge t.rules.window now, draws := draws', stats := stats })
    named.purge never always window lasting eligible stored missing heldStill
  obtain ⟨stats', asksAgain⟩ := Query.ask_of_stored now (throttle ▸ never) storedLater
  have stays : ∀ {y}, y.key = x.key → (y ∈ (q.laid now u (q.page o')).summaries ↔
      y = x ∧ (x.key = [] ∨ x.key.getLast? = some Path.separator)) := by
    intro y own
    rw [shows q y own, Path.isBelow_self_iff, and_iff_left descends]
  refine ⟨r, u, _, _, deleted, asksAgain, ?_, ?_⟩
  · rw [stays rfl, and_iff_right rfl]
  · rw [View.keys, List.mem_map]
    constructor
    · rintro ⟨y, again, own⟩
      exact ((stays own).mp again).2
    · exact fun slashed => ⟨x, (stays rfl).mpr ⟨rfl, slashed⟩, rfl⟩

def putAndDeleted (key : Text) : Timeline :=
  [(.zero, .call (.put ['b'] key [])), (⟨2000⟩, .call (.delete ['b'] key))]

theorem plain_key_deleted_again :
    let t := ((putAndDeleted ['k']).run lagging).2
    let q : Query := .markers (.recursive ['b'] [])
    let x : Summary := ⟨['b'], ['k'], 0, "00000000".toList, .zero, "STANDARD".toList⟩
    Stale.create (Memory.withBucket ['b']) (.delayAll (.ofMillis 1000)) (.ofSeed 0) = .ok lagging ∧
      t.throttle.probability = .zero ∧ t.rules.isEligible ['k'] = true ∧ t.backend.object? ['b'] ['k'] = none ∧
      ∃ t' u u', q.ask ⟨2000⟩ t = (.ok ⟨[x], [], false, none⟩, t') ∧
        Stale.delete ⟨2000⟩ ['b'] ['k'] t' = (.ok (), u) ∧ q.ask ⟨2000⟩ u = (.ok ⟨[], [], false, none⟩, u') := by
  intro t q x
  let t' := (q.ask ⟨2000⟩ t).2
  let u := (Stale.delete ⟨2000⟩ ['b'] ['k'] t').2
  refine ⟨rfl, by decide +kernel, by decide +kernel, by decide +kernel, t', u, (q.ask ⟨2000⟩ u).2, ?_, ?_, ?_⟩
  · exact Action.eq_of_toOption (by decide +kernel)
  · exact Action.eq_of_toOption (by decide +kernel)
  · exact Action.eq_of_toOption (by decide +kernel)

theorem slashed_key_deleted_again :
    let key : Text := ['d', '/']
    let t := ((putAndDeleted key).run lagging).2
    let q : Query := .markers (.recursive ['b'] [])
    let x : Summary := ⟨['b'], key, 0, "00000000".toList, .zero, "STANDARD".toList⟩
    ∃ before t', Stale.create (Memory.withBucket ['b']) (.delayAll (.ofMillis 1000)) (.ofSeed 0) = .ok lagging ∧
      t.throttle.probability.isNonPositive = true ∧ t.rules.isEligible key = true ∧
      t.backend.object? ['b'] key = none ∧ q.ask ⟨2000⟩ t = (.ok before, t') ∧ x ∈ before.summaries ∧
      ∃ r u after u', Call.perform ⟨2000⟩ (.deleteBatch ['b'] [['e'], key]) t' = (.ok r, u) ∧
        q.ask ⟨2000⟩ u = (.ok after, u') ∧
        (x ∈ after.summaries ↔ key = [] ∨ key.getLast? = some Path.separator) ∧
        (key ∈ after.keys ↔ key = [] ∨ key.getLast? = some Path.separator) := by
  intro key t q x
  have created : Stale.create (Memory.withBucket ['b']) (.delayAll (.ofMillis 1000)) (.ofSeed 0) = .ok lagging := rfl
  have never : t.throttle.probability.isNonPositive = true := by decide +kernel
  have eligible : t.rules.isEligible key = true := by decide +kernel
  have missing : t.backend.object? ['b'] key = none := by decide +kernel
  have asked : q.ask ⟨2000⟩ t = (.ok ⟨[x], [], false, none⟩, (q.ask ⟨2000⟩ t).2) :=
    Action.eq_of_toOption (by decide +kernel)
  refine ⟨_, _, created, never, eligible, missing, asked, List.mem_singleton_self x, ?_⟩
  exact deleted_again_stays_iff created rfl (by decide) (putAndDeleted key) never eligible missing asked
    (List.mem_singleton_self x) rfl (.among (by simp))

end Timeline
end StaleStore
