import StaleStore.Proofs.Draws
import StaleStore.Proofs.Stale.Checks
import StaleStore.Store.Faulty

namespace StaleStore

namespace DelayRules

structure MayDelay (r : DelayRules) (key : Text) : Prop where
  eligible : r.isEligible key = true
  positive : r.probability.isNonPositive = false

theorem mayDelay_of_delays {r : DelayRules} {h : r.probability.isNaN = false} {key : Text} {d : DrawStream}
    (delayed : (r.delays h key d).1 = true) : r.MayDelay key := by
  unfold delays at delayed
  split at delayed
  · rename_i eligible
    refine ⟨eligible, ?_⟩
    cases never : r.probability.isNonPositive with
    | false => rfl
    | true =>
      rw [DrawStream.toss_of_nonPositive h never] at delayed
      cases delayed
  · cases delayed

theorem mayDelay_of_choose {r : DelayRules} {h : r.probability.isNaN = false} {keys : List Text} {key : Text}
    {d : DrawStream} (chosen : key ∈ (r.choose h keys d).1) : r.MayDelay key := by
  induction keys generalizing d with
  | nil => cases chosen
  | cons first rest ih =>
    simp only [choose] at chosen
    split at chosen
    · rename_i delayed
      rcases List.mem_cons.mp chosen with rfl | later
      · exact mayDelay_of_delays delayed
      · exact ih later
    · exact ih chosen

end DelayRules

namespace Stale

variable {σ α β : Type} {now : Timestamp} {s t : Stale σ}

structure KeepsDelays (now : Timestamp) (s t : Stale σ) : Prop where
  rules : t.rules = s.rules
  puts : t.delays.puts = s.delays.puts
  deletes : ∀ key : Text, t.delays.deletes[key]? = s.delays.deletes[key]? ∨ t.delays.deletes[key]? = none ∧
    ∃ d, s.delays.deletes[key]? = some d ∧ now.hasElapsed d.deletedAt s.rules.window = true
  delayedPuts : t.stats.delayedPuts = s.stats.delayedPuts
  delayedDeletes : t.stats.delayedDeletes = s.stats.delayedDeletes

theorem KeepsDelays.trans {u : Stale σ} (first : KeepsDelays now s t) (second : KeepsDelays now t u) :
    KeepsDelays now s u where
  rules := second.rules.trans first.rules
  puts := second.puts.trans first.puts
  deletes key := by
    have before := first.deletes key
    rcases second.deletes key with same | ⟨dropped, d, held, passed⟩
    · rw [same]
      exact before
    · refine Or.inr ⟨dropped, ?_⟩
      rw [first.rules] at passed
      rcases before with same | ⟨gone, -⟩
      · exact ⟨d, same ▸ held, passed⟩
      · rw [gone] at held
        cases held
  delayedPuts := second.delayedPuts.trans first.delayedPuts
  delayedDeletes := second.delayedDeletes.trans first.delayedDeletes

instance : Trans (KeepsDelays (σ := σ) now) (KeepsDelays now) (KeepsDelays now) where
  trans := KeepsDelays.trans

theorem KeepsDelays.of_same (rules : t.rules = s.rules) (delays : t.delays = s.delays)
    (delayedPuts : t.stats.delayedPuts = s.stats.delayedPuts)
    (delayedDeletes : t.stats.delayedDeletes = s.stats.delayedDeletes) : KeepsDelays now s t where
  rules := rules
  puts := by rw [delays]
  deletes key := by simp [delays]
  delayedPuts := delayedPuts
  delayedDeletes := delayedDeletes

theorem checkThrottle_keeps : Moves (KeepsDelays (σ := σ) now) checkThrottle := by
  intro s
  rcases passes_or_fails s with ⟨draws, passed⟩ | ⟨-, draws, failed⟩
  · rw [passed]
    exact .of_same rfl rfl rfl rfl
  · rw [failed]
    exact .of_same rfl rfl rfl rfl

theorem onBackend_keeps (x : Action σ α) : Moves (KeepsDelays now) (onBackend x) :=
  fun _ => .of_same rfl rfl rfl rfl

theorem chooseDelay_keeps (key : Text) : Moves (KeepsDelays (σ := σ) now) (chooseDelay key) :=
  fun _ => .of_same rfl rfl rfl rfl

theorem pure_keeps (a : α) : Moves (KeepsDelays (σ := σ) now) (pure a) := fun _ => .of_same rfl rfl rfl rfl

theorem overlayRaw_keeps (under : Text) (recursive : Bool) (summaries : List Summary) (prefixes : List Text) :
    Moves (KeepsDelays (σ := σ) now) (overlayRaw now under recursive summaries prefixes) := by
  intro s
  refine ⟨rfl, rfl, fun key => ?_, rfl, rfl⟩
  have purged : (overlayRaw now under recursive summaries prefixes s).2.delays.deletes[key]? = _ :=
    DelayRecord.purge_deletes s.rules.window now s.delays key
  rw [purged]
  cases held : s.delays.deletes[key]? with
  | none => simp
  | some d =>
    cases passed : now.hasElapsed d.deletedAt s.rules.window with
    | false => simp [passed]
    | true => simp [passed]

def FailsClean (now : Timestamp) (x : Action (Stale σ) α) : Prop :=
  ∀ s t e, x s = (.error e, t) → KeepsDelays now s t

theorem FailsClean.of_moves {x : Action (Stale σ) α} (moves : Moves (KeepsDelays now) x) : FailsClean now x := by
  intro s t e failed
  exact moves.of_eq failed

theorem FailsClean.of_ok {x : Action (Stale σ) α} (succeeds : ∀ s, ∃ a t, x s = (.ok a, t)) : FailsClean now x := by
  intro s t e failed
  obtain ⟨a, u, done⟩ := succeeds s
  rw [done] at failed
  cases failed

theorem FailsClean.map {x : Action (Stale σ) α} (f : α → β) (clean : FailsClean now x) :
    FailsClean now (x.map f) :=
  fun s t e failed => clean s t e ((map_error f x).mp failed)

theorem FailsClean.bind {x : Action (Stale σ) α} {f : α → Action (Stale σ) β} (first : Moves (KeepsDelays now) x)
    (rest : ∀ a, FailsClean now (f a)) : FailsClean now (x >>= f) := by
  intro s t e failed
  rcases result : x s with ⟨e' | a, u⟩
  · rw [Action.bind_of_error result] at failed
    cases failed
    exact first.of_eq result
  · rw [Action.bind_of_ok result] at failed
    exact (first.of_eq result).trans (rest a u t e failed)

theorem checked_failsClean (x : Action σ α) : FailsClean now (checked x) :=
  .bind checkThrottle_keeps fun _ => .of_moves (onBackend_keeps x)

section
variable [ObjectStore σ]

theorem listUnchecked_keeps (r : ListRequest) : Moves (KeepsDelays (σ := σ) now) (listUnchecked now r) :=
  (onBackend_keeps _).bind fun _ => (overlayRaw_keeps _ _ _ _).bind fun _ => pure_keeps _

theorem listTokensUnchecked_keeps (r : TokenRequest) :
    Moves (KeepsDelays (σ := σ) now) (listTokensUnchecked now r) :=
  (onBackend_keeps _).bind fun _ => (overlayRaw_keeps _ _ _ _).bind fun _ => pure_keeps _

theorem capture_keeps (bucket key : Text) : Moves (KeepsDelays (σ := σ) now) (capture now bucket key) :=
  (listUnchecked_keeps _).bind fun _ => pure_keeps _

theorem captureAll_keeps (bucket : Text) (keys : List Text) :
    Moves (KeepsDelays (σ := σ) now) (captureAll now bucket keys) := by
  induction keys with
  | nil => exact pure_keeps []
  | cons key rest ih =>
    refine (chooseDelay_keeps key).bind fun delayed => ?_
    cases delayed with
    | false => exact ih
    | true => exact (capture_keeps bucket key).bind fun _ => ih.bind fun _ => pure_keeps _

theorem put_failsClean (bucket key : Text) (data : Bytes) :
    FailsClean now (put now bucket key data : Action (Stale σ) Text) := by
  refine .bind checkThrottle_keeps fun _ => .bind (onBackend_keeps _) fun etag => ?_
  refine .bind (chooseDelay_keeps key) fun delayed => ?_
  cases delayed with
  | false => exact .of_ok fun s => ⟨etag, s, rfl⟩
  | true => exact .of_ok fun s => ⟨etag, (recordPut now key s).2, rfl⟩

theorem delete_failsClean (bucket key : Text) : FailsClean now (delete now bucket key : Action (Stale σ) Unit) := by
  refine .bind checkThrottle_keeps fun _ => .bind (chooseDelay_keeps key) fun delayed => ?_
  cases delayed with
  | false => exact .of_moves (onBackend_keeps _)
  | true =>
    refine .bind (capture_keeps bucket key) fun summary => .bind (onBackend_keeps _) fun _ => ?_
    exact .of_ok fun s => ⟨(), (recordDelete now key summary s).2, rfl⟩

theorem deleteBatch_failsClean (bucket : Text) (keys : List Text) :
    FailsClean now (deleteBatch now bucket keys : Action (Stale σ) BatchDeletion) := by
  refine .bind checkThrottle_keeps fun _ => .bind (captureAll_keeps bucket keys) fun delayed => ?_
  refine .bind (onBackend_keeps _) fun result => ?_
  refine .of_ok fun s => ?_
  obtain ⟨stats, recorded⟩ :=
    recordDeletes_eq now (delayed.filter fun e => result.deleted.contains e.1) s
  exact ⟨result, _, Action.bind_of_ok recorded⟩

theorem perform_failsClean (c : Call) : FailsClean now (c.perform now : Action (Stale σ) Reply) := by
  cases c with
  | put bucket key data => exact (put_failsClean bucket key data).map _
  | get bucket key => exact (FailsClean.of_moves (onBackend_keeps _)).map _
  | delete bucket key => exact (delete_failsClean bucket key).map _
  | deleteBatch bucket keys => exact (deleteBatch_failsClean bucket keys).map _
  | list r => exact (FailsClean.bind checkThrottle_keeps fun _ => .of_moves (listUnchecked_keeps r)).map _
  | listTokens r =>
    exact (FailsClean.bind checkThrottle_keeps fun _ => .of_moves (listTokensUnchecked_keeps r)).map _
  | initiateUpload bucket key => exact (checked_failsClean _).map _
  | uploadPart bucket key uploadId n data => exact (checked_failsClean _).map _
  | completeUpload bucket key uploadId parts => exact (checked_failsClean _).map _
  | abortUpload bucket key uploadId => exact (FailsClean.of_moves (onBackend_keeps _)).map _
  | listUploads bucket under => exact (checked_failsClean _).map _

theorem capture_result {bucket key : Text} {summary : Option Summary}
    (captures : capture now bucket key s = (.ok summary, t)) :
    t.draws = s.draws ∧ ∀ x, summary = some x → x.key = key := by
  obtain ⟨l, u, listed, found⟩ := Action.bind_eq_ok.mp captures
  obtain ⟨raw, v, answered, overlaid⟩ := Action.bind_eq_ok.mp listed
  cases found
  refine ⟨?_, fun x found => by simpa using List.find?_some found⟩
  cases overlaid
  exact congrArg (fun r => r.2.draws) answered.symm

-- Whatever the captures give, the keys of a batch are chosen by the draws alone.
theorem captureAll_chooses {r : DelayRules} (h : r.probability.isNaN = false) {bucket : Text} {keys : List Text}
    {delayed : List (Text × Option Summary)} (rules : s.rules = r)
    (captures : captureAll now bucket keys s = (.ok delayed, t)) :
    delayed.map (·.1) = (r.choose h keys s.draws).1 ∧ ∀ key x, (key, some x) ∈ delayed → x.key = key := by
  induction keys generalizing s delayed with
  | nil =>
    cases captures
    exact ⟨rfl, fun _ _ => nofun⟩
  | cons key rest ih =>
    obtain ⟨chosen, u, chose, goesOn⟩ := Action.bind_eq_ok.mp captures
    subst rules
    obtain ⟨drawn, rfl⟩ : (s.rules.delays h key s.draws).1 = chosen ∧
        { s with draws := (s.rules.delays h key s.draws).2 } = u := by
      simpa [chooseDelay] using chose
    simp only [DelayRules.choose, drawn]
    cases chosen with
    | false => exact @ih { s with draws := (s.rules.delays h key s.draws).2 } delayed rfl goesOn
    | true =>
      obtain ⟨summary, v, captured, goesOn⟩ := Action.bind_eq_ok.mp goesOn
      obtain ⟨more, w, later, done⟩ := Action.bind_eq_ok.mp goesOn
      cases done
      obtain ⟨sameDraws, named⟩ := capture_result captured
      have sameRules := ((capture_keeps bucket key).of_eq captured).rules
      obtain ⟨all, namedLater⟩ := ih sameRules later
      rw [sameDraws] at all
      refine ⟨by simp [all], fun k x member => ?_⟩
      rcases List.mem_cons.mp member with same | member
      · cases same
        exact named x rfl
      · exact namedLater k x member

end

def selected (s : Stale σ) (keys : List Text) : List Text :=
  (s.rules.choose s.delay_isNaN_eq_false keys (checkThrottle s).2.draws).1

structure RecordsBatch (now : Timestamp) (keys : List Text) (result : BatchDeletion) (s t : Stale σ) : Prop where
  requested : (s.selected keys).Sublist keys
  rules : t.rules = s.rules
  puts : t.delays.puts = s.delays.puts
  written : ∀ key, key ∈ s.selected keys → key ∈ result.deleted → ∃ summary,
    t.delays.deletes[key]? = some ⟨now, summary⟩ ∧ ∀ x, summary = some x → x.key = key
  others : ∀ key, ¬(key ∈ s.selected keys ∧ key ∈ result.deleted) →
    t.delays.deletes[key]? = s.delays.deletes[key]? ∨ t.delays.deletes[key]? = none ∧
      ∃ d, s.delays.deletes[key]? = some d ∧ now.hasElapsed d.deletedAt s.rules.window = true
  delayedPuts : t.stats.delayedPuts = s.stats.delayedPuts
  delayedDeletes : t.stats.delayedDeletes
    = s.stats.delayedDeletes + ((s.selected keys).filter (result.deleted.contains ·)).length

section
variable [ObjectStore σ]

theorem deleteBatch_records {bucket : Text} {keys : List Text} {result : BatchDeletion}
    (succeeds : deleteBatch now bucket keys s = (.ok result, t)) : RecordsBatch now keys result s t := by
  obtain ⟨_, u, passed, goesOn⟩ := Action.bind_eq_ok.mp succeeds
  obtain ⟨delayed, v, captures, goesOn⟩ := Action.bind_eq_ok.mp goesOn
  obtain ⟨answer, w, answered, goesOn⟩ := Action.bind_eq_ok.mp goesOn
  rw [Action.bind_of_ok (recordDeletes_counted now _ w)] at goesOn
  cases goesOn
  have first : KeepsDelays now s u := checkThrottle_keeps.of_eq passed
  have kept : KeepsDelays now s w :=
    (first.trans ((captureAll_keeps bucket keys).of_eq captures)).trans ((onBackend_keeps _).of_eq answered)
  obtain ⟨chosen, named⟩ : delayed.map (·.1) = s.selected keys ∧ ∀ key x, (key, some x) ∈ delayed → x.key = key := by
    have chooses := captureAll_chooses s.delay_isNaN_eq_false first.rules captures
    have draws : (checkThrottle s).2.draws = u.draws := congrArg (fun r => r.2.draws) passed
    rwa [selected, draws]
  let recorded := delayed.filter fun e => result.deleted.contains e.1
  have keysRecorded : recorded.map (·.1) = (s.selected keys).filter (result.deleted.contains ·) := by
    rw [← chosen, List.filter_map]
    rfl
  have mem_recorded : ∀ key, key ∈ recorded.map (·.1) ↔ key ∈ s.selected keys ∧ key ∈ result.deleted := by
    intro key
    rw [keysRecorded, List.mem_filter, List.contains_iff_mem]
  refine ⟨DelayRules.choose_sublist .., kept.rules, ?_, fun key inside deleted => ?_, fun key outside => ?_,
    kept.delayedPuts, ?_⟩
  · exact (DelayRecord.recordDelete_all_puts now w.delays recorded).trans kept.puts
  · rcases DelayRecord.recordDelete_all now w.delays recorded key with
      ⟨summary, member, found⟩ | ⟨absent, -⟩
    · refine ⟨summary, found, fun x same => ?_⟩
      subst same
      exact named key x (List.mem_filter.mp member).1
    · exact absurd ((mem_recorded key).mpr ⟨inside, deleted⟩) absent
  · rcases DelayRecord.recordDelete_all now w.delays recorded key with
      ⟨summary, member, -⟩ | ⟨-, found⟩
    · exact absurd ((mem_recorded key).mp (List.mem_map.mpr ⟨_, member, rfl⟩)) outside
    · have before := kept.deletes key
      rw [← found] at before
      exact before
  · have length := congrArg List.length keysRecorded
    rw [List.length_map] at length
    rw [← length, ← kept.delayedDeletes]

-- Whatever the wrapped store is and answers, and from any state.
theorem only_successes_are_recorded (s : Stale σ) (now : Timestamp) (c : Call) :
    (∀ e t, c.perform now s = (.error e, t) → KeepsDelays now s t) ∧
    (∀ n, c.injected? s = some n → ∃ t,
      (∀ [ObjectStore σ], c.perform now s = (.error (.throttled n), t)) ∧
        t.backend = s.backend ∧ t.delays = s.delays ∧ t.throttle.count = s.throttle.count + 1) ∧
    ∀ bucket keys result t, c = .deleteBatch bucket keys → c.perform now s = (.ok (.batch result), t) →
      RecordsBatch now keys result s t := by
  refine ⟨fun e t failed => perform_failsClean c s t e failed, fun n injected => ?_, ?_⟩
  · obtain ⟨-, ⟨budget, draws, failed⟩, rfl, -⟩ := Call.perform_of_injected now injected
    refine ⟨(checkThrottle s).2, fun {_} => (Call.perform_of_injected now injected).2.2.2, ?_⟩
    rw [failed]
    exact ⟨rfl, rfl, rfl⟩
  · intro bucket keys result t same done
    subst same
    obtain ⟨answer, answered, same⟩ := (map_ok _ _).mp done
    cases same
    exact deleteBatch_records answered

end

def troubled : Stale Faulty where
  backend := ⟨Memory.withBucket ['b'], ⟨[['k']], [], none⟩⟩
  throttle := ⟨.one, 1, 0, Binary64.one_isProbability⟩
  rules := ⟨[], .one, .ofMillis 1000⟩
  isProbability := Binary64.one_isProbability
  delays := .empty
  order := .byKey
  draws := .ofSeed 0
  stats := .zero

-- The throttle stops a batch, and the second time it is made the batch succeeds in part.
theorem partial_batch_is_recorded :
    let batch : Call := .deleteBatch ['b'] [['d'], ['k']]
    let result : BatchDeletion := ⟨[['d']], [⟨['k'], "InternalError".toList, Faulty.reason⟩]⟩
    create troubled.backend ((Settings.delayAll (.ofMillis 1000)).withThrottle .one 1) (.ofSeed 0) = .ok troubled ∧
      batch.injected? troubled = some 1 ∧ ∃ t,
      (∀ [ObjectStore Faulty], batch.perform ⟨1⟩ troubled = (.error (.throttled 1), t)) ∧
        KeepsDelays ⟨1⟩ troubled t ∧ t.delays = troubled.delays ∧ ∃ u,
      batch.perform ⟨2⟩ t = (.ok (.batch result), u) ∧ RecordsBatch ⟨2⟩ [['d'], ['k']] result t u := by
  dsimp only
  obtain ⟨fails, stops, -⟩ := only_successes_are_recorded troubled ⟨1⟩ (.deleteBatch ['b'] [['d'], ['k']])
  obtain ⟨t, stopped, -, kept, -⟩ := stops 1 rfl
  obtain ⟨-, -, records⟩ := only_successes_are_recorded t ⟨2⟩ (.deleteBatch ['b'] [['d'], ['k']])
  have clean := fails _ _ stopped
  have after : t = _ := (congrArg Prod.snd stopped).symm
  subst after
  have answered := Action.eq_of_toOption (a := .batch ⟨[['d']], [⟨['k'], "InternalError".toList, Faulty.reason⟩]⟩)
    (p := Call.perform ⟨2⟩ (.deleteBatch ['b'] [['d'], ['k']])
      (Call.perform ⟨1⟩ (.deleteBatch ['b'] [['d'], ['k']]) troubled).2) (by decide +kernel)
  exact ⟨rfl, rfl, _, stopped, clean, kept, _, answered, records _ _ _ _ rfl answered⟩

end Stale
end StaleStore
