import StaleStore.Proofs.Stale.Checks
import StaleStore.Store.Memory

namespace StaleStore

-- A check has the probability it was made with and the count its failure carried, if it failed its call.
inductive ThrottleEvent where
  | checked (probability : Binary64) (failure : Option Nat)
  | limitSet
  | statsReset
deriving DecidableEq

abbrev ThrottleLog := List ThrottleEvent

namespace ThrottleLog

def since (mark : ThrottleEvent) (log : ThrottleLog) : ThrottleLog :=
  (log.reverse.takeWhile (· ≠ mark)).reverse

def checks (log : ThrottleLog) : List (Option Nat) :=
  log.filterMap fun
    | .checked _ failure => some failure
    | _ => none

def failures (log : ThrottleLog) : List Nat := log.checks.filterMap id

variable (mark event : ThrottleEvent) (log : ThrottleLog) (probability : Binary64) (failure : Option Nat)

@[simp] theorem since_mark : since mark (log ++ [mark]) = [] := by simp [since]

theorem since_other (other : event ≠ mark) : since mark (log ++ [event]) = log.since mark ++ [event] := by
  simp [since, other]

@[simp] theorem since_checked_limitSet : since .limitSet (log ++ [.checked probability failure])
    = log.since .limitSet ++ [.checked probability failure] := since_other _ _ _ nofun

@[simp] theorem since_checked_statsReset : since .statsReset (log ++ [.checked probability failure])
    = log.since .statsReset ++ [.checked probability failure] := since_other _ _ _ nofun

@[simp] theorem checks_checked :
    checks (log ++ [.checked probability failure]) = log.checks ++ [failure] := by simp [checks]

@[simp] theorem failures_checked :
    failures (log ++ [.checked probability failure]) = log.failures ++ failure.toList := by
  cases failure <;> simp [failures]

-- A mark of the other kind does not end an epoch, and is neither a check nor a failure of it.
@[simp] theorem since_limitSet_statsReset :
    since .limitSet (log ++ [.statsReset]) = log.since .limitSet ++ [.statsReset] := since_other _ _ _ nofun

@[simp] theorem since_statsReset_limitSet :
    since .statsReset (log ++ [.limitSet]) = log.since .statsReset ++ [.limitSet] := since_other _ _ _ nofun

@[simp] theorem checks_limitSet : checks (log ++ [.limitSet]) = log.checks := by simp [checks]

@[simp] theorem checks_statsReset : checks (log ++ [.statsReset]) = log.checks := by simp [checks]

@[simp] theorem failures_limitSet : failures (log ++ [.limitSet]) = log.failures := by simp [failures]

@[simp] theorem failures_statsReset : failures (log ++ [.statsReset]) = log.failures := by simp [failures]

end ThrottleLog

inductive Command (σ : Type) where
  | call (now : Timestamp) (c : Call)
  | clear
  | resetStats
  | setFailureLimit (limit : UInt64)
  | setThrottleProbability (p : Binary64)
  | reorder (order : TableOrder)
  | changeBackend (f : σ → σ)

namespace Command

variable {σ : Type} [ObjectStore σ]

def perform : Command σ → Stale σ → Stale σ
  | call now c, s => (c.perform now s).2
  | clear, s => s.clear
  | resetStats, s => s.resetStats
  | setFailureLimit limit, s => s.setFailureLimit limit
  | setThrottleProbability p, s =>
    match s.setThrottleProbability p with
    | .ok s => s
    | .error _ => s
  | reorder order, s => s.reorder order
  | changeBackend f, s => { s with backend := f s.backend }

def events : Command σ → Stale σ → ThrottleLog
  | call _ c, s => if c.isChecked then [.checked s.throttle.probability (c.injected? s)] else []
  | resetStats, _ => [.statsReset]
  | setFailureLimit _, _ => [.limitSet]
  | _, _ => []

def run : List (Command σ) → Stale σ → Stale σ
  | [], s => s
  | command :: rest, s => run rest (command.perform s)

def log : List (Command σ) → Stale σ → ThrottleLog
  | [], _ => []
  | command :: rest, s => command.events s ++ log rest (command.perform s)

end Command

namespace Stale

variable {σ : Type} {s : Stale σ} {log : ThrottleLog}

def sureFailures (limit checks : Nat) : List (Option Nat) :=
  (List.range' 1 (min limit checks)).map some ++ List.replicate (checks - limit) none

theorem sureFailures_within {limit checks : Nat} (within : checks < limit) :
    sureFailures limit (checks + 1) = sureFailures limit checks ++ [some (checks + 1)] := by
  have small : min limit checks = checks := by omega
  have next : min limit (checks + 1) = checks + 1 := by omega
  have none : checks - limit = 0 := by omega
  have noneNext : checks + 1 - limit = 0 := by omega
  simp [sureFailures, small, next, none, noneNext, List.range'_1_concat, Nat.add_comm]

theorem sureFailures_beyond {limit checks : Nat} (beyond : limit ≤ checks) :
    sureFailures limit (checks + 1) = sureFailures limit checks ++ [none] := by
  have all : min limit checks = limit := by omega
  have allNext : min limit (checks + 1) = limit := by omega
  have more : checks + 1 - limit = (checks - limit) + 1 := by omega
  simp [sureFailures, all, allNext, more, List.replicate_succ']

structure Accounts (log : ThrottleLog) (s : Stale σ) : Prop where
  failures : (log.since .limitSet).failures = List.range' 1 s.throttle.count
  throttled : s.stats.throttled = (log.since .statsReset).failures.length
  operations : s.stats.operations = (log.since .statsReset).checks.length
  within : s.throttle.limit ≠ 0 → s.throttle.count ≤ s.throttle.limit.toNat
  certain : s.throttle.limit ≠ 0 → (∀ p failure, .checked p failure ∈ log.since .limitSet → p = .one) →
    s.throttle.count = min s.throttle.limit.toNat (log.since .limitSet).checks.length ∧
    (log.since .limitSet).checks = sureFailures s.throttle.limit.toNat (log.since .limitSet).checks.length

theorem create_accounts {backend : σ} {settings : Settings} {draws : DrawStream}
    (created : create backend settings draws = .ok s) : Accounts [] s := by
  unfold create Settings.validated at created
  split at created
  · split at created
    · cases created
      refine ⟨rfl, rfl, rfl, fun _ => Nat.zero_le _, fun _ _ => ⟨(Nat.min_zero _).symm, ?_⟩⟩
      simp [ThrottleLog.since, ThrottleLog.checks, sureFailures]
    · cases created
  · cases created

theorem hasBudget_iff (t : Throttle) : t.hasBudget = true ↔ t.limit = 0 ∨ t.count < t.limit.toNat := by
  simp [Throttle.hasBudget]

namespace Accounts

variable {t : Stale σ} (accounts : Accounts log s)
include accounts

-- The probability may have been changed: what it was at each check is in the log.
theorem same (limit : t.throttle.limit = s.throttle.limit) (count : t.throttle.count = s.throttle.count)
    (throttled : t.stats.throttled = s.stats.throttled) (operations : t.stats.operations = s.stats.operations) :
    Accounts log t := by
  constructor
  · rw [count]
    exact accounts.failures
  · rw [throttled]
    exact accounts.throttled
  · rw [operations]
    exact accounts.operations
  · rw [limit, count]
    exact accounts.within
  · rw [limit, count]
    exact accounts.certain

theorem resetStats : Accounts (log ++ [.statsReset]) s.resetStats := by
  refine ⟨?_, by simp [Stale.resetStats, Stats.zero, ThrottleLog.failures, ThrottleLog.checks],
    by simp [Stale.resetStats, Stats.zero, ThrottleLog.checks], accounts.within, fun limited always => ?_⟩
  · simp [Stale.resetStats, accounts.failures]
  · simpa [Stale.resetStats] using accounts.certain limited fun p failure member => always p failure (by simp [member])

theorem setFailureLimit (limit : UInt64) : Accounts (log ++ [.limitSet]) (s.setFailureLimit limit) := by
  refine ⟨by simp [ThrottleLog.failures, ThrottleLog.checks, Stale.setFailureLimit, Throttle.setLimit],
    by simp [accounts.throttled, Stale.setFailureLimit], by simp [accounts.operations, Stale.setFailureLimit],
    fun _ => Nat.zero_le _, fun _ _ => ?_⟩
  simp [ThrottleLog.checks, sureFailures, Stale.setFailureLimit, Throttle.setLimit]

theorem passes (passed : s.failure? = none) (throttle : t.throttle = s.throttle)
    (throttled : t.stats.throttled = s.stats.throttled) (operations : t.stats.operations = s.stats.operations + 1) :
    Accounts (log ++ [.checked s.throttle.probability none]) t := by
  refine ⟨?_, ?_, ?_, ?_, fun limited always => ?_⟩
  · simp [throttle, accounts.failures]
  · simp [throttled, accounts.throttled]
  · simp [operations, accounts.operations]
  · rw [throttle]
    exact accounts.within
  · rw [throttle] at limited ⊢
    obtain ⟨count, checks⟩ := accounts.certain limited fun p failure member => always p failure (by simp [member])
    have certain : s.throttle.probability = .one := always _ none (by simp)
    -- A failure would be sure if there were budget for it.
    have spent : ¬ s.throttle.hasBudget = true := by
      intro budget
      rw [(fails_of_always certain budget).failure?_eq] at passed
      cases passed
    rw [hasBudget_iff] at spent
    have beyond : s.throttle.limit.toNat ≤ (log.since .limitSet).checks.length := by
      simp only [limited, false_or] at spent
      omega
    simp only [ThrottleLog.since_checked_limitSet, ThrottleLog.checks_checked, List.length_append,
      List.length_singleton]
    refine ⟨by omega, ?_⟩
    rw [sureFailures_beyond beyond, ← checks]

theorem fails (budget : s.throttle.hasBudget = true)
    (throttle : t.throttle = { s.throttle with count := s.throttle.count + 1 })
    (throttled : t.stats.throttled = s.stats.throttled + 1)
    (operations : t.stats.operations = s.stats.operations + 1) :
    Accounts (log ++ [.checked s.throttle.probability (some (s.throttle.count + 1))]) t := by
  rw [hasBudget_iff] at budget
  refine ⟨?_, ?_, ?_, ?_, fun limited always => ?_⟩
  · simp [throttle, accounts.failures, List.range'_1_concat, Nat.add_comm]
  · simp [throttled, accounts.throttled]
  · simp [operations, accounts.operations]
  · intro limited
    rw [throttle] at limited ⊢
    simp only [limited, false_or] at budget
    exact budget
  · rw [throttle] at limited ⊢
    obtain ⟨count, checks⟩ := accounts.certain limited fun p failure member => always p failure (by simp [member])
    simp only [limited, false_or] at budget
    have within : (log.since .limitSet).checks.length < s.throttle.limit.toNat := by omega
    have all : s.throttle.count = (log.since .limitSet).checks.length := by omega
    simp only [ThrottleLog.since_checked_limitSet, ThrottleLog.checks_checked, List.length_append,
      List.length_singleton]
    refine ⟨by omega, ?_⟩
    rw [sureFailures_within within, ← checks, all]

variable [ObjectStore σ]

theorem perform (command : Command σ) : Accounts (log ++ command.events s) (command.perform s) := by
  cases command with
  | clear =>
    simp only [Command.events, List.append_nil]
    exact accounts.same rfl rfl rfl rfl
  | resetStats => exact accounts.resetStats
  | setFailureLimit limit => exact accounts.setFailureLimit limit
  | reorder order =>
    simp only [Command.events, List.append_nil]
    exact accounts.same rfl rfl rfl rfl
  | changeBackend f =>
    simp only [Command.events, List.append_nil]
    exact accounts.same rfl rfl rfl rfl
  | setThrottleProbability p =>
    simp only [Command.events, List.append_nil, Command.perform, Stale.setThrottleProbability,
      Throttle.setProbability]
    split
    · rename_i t accepted
      split at accepted
      · cases accepted
        exact accounts.same rfl rfl rfl rfl
      · cases accepted
    · exact accounts
  | call now c =>
    simp only [Command.events, Command.perform]
    cases injected : c.injected? s with
    | some n =>
      obtain ⟨checked, ⟨budget, draws, failed⟩, rfl, stopped⟩ := Call.perform_of_injected now injected
      rw [stopped, failed, if_pos checked]
      exact accounts.fails budget rfl rfl rfl
    | none =>
      obtain ⟨throttle, throttled, operations⟩ := Call.perform_of_not_injected now injected
      cases checked : c.isChecked with
      | true =>
        rw [checked, if_pos rfl] at operations
        rw [Call.injected?, checked, if_pos rfl] at injected
        rw [if_pos rfl]
        exact accounts.passes injected throttle throttled operations
      | false =>
        rw [checked, if_neg Bool.false_ne_true] at operations
        rw [if_neg Bool.false_ne_true, List.append_nil]
        exact accounts.same (by rw [throttle]) (by rw [throttle]) throttled operations

theorem run (commands : List (Command σ)) : Accounts (log ++ Command.log commands s) (Command.run commands s) := by
  induction commands generalizing s log with
  | nil =>
    rw [Command.log, List.append_nil]
    exact accounts
  | cons command rest ih =>
    rw [Command.log, ← List.append_assoc]
    exact ih (accounts.perform command)

end Accounts

-- An epoch begins when the limit is set; the first one begins with the store.
theorem failures_keep_to_budget [ObjectStore σ] {backend : σ} {settings : Settings} {draws : DrawStream}
    (created : create backend settings draws = .ok s) (commands : List (Command σ)) :
    let t := Command.run commands s
    let log := Command.log commands s
    let epoch := log.since .limitSet
    epoch.failures = List.range' 1 t.throttle.count ∧
      t.stats.throttled = (log.since .statsReset).failures.length ∧
      t.stats.operations = (log.since .statsReset).checks.length ∧
      (t.throttle.limit ≠ 0 → epoch.failures.length ≤ t.throttle.limit.toNat) ∧
      (t.throttle.limit ≠ 0 → (∀ p failure, .checked p failure ∈ epoch → p = .one) →
        epoch.checks = sureFailures t.throttle.limit.toNat epoch.checks.length) ∧
      ∀ (u : Stale σ) (now : Timestamp) (c : Call),
        (∀ n, c.injected? u = some n → (c.perform now u).1 = .error (.throttled n)) ∧
          (c.isChecked = true → c.injected? u = none → u.Passes) ∧
          (c.isChecked = false → c.perform now u = onBackend (c.perform now) u) := by
  dsimp only
  have accounts := (create_accounts created).run commands
  rw [List.nil_append] at accounts
  refine ⟨accounts.failures, accounts.throttled, accounts.operations, fun limited => ?_,
    fun limited always => (accounts.certain limited always).2, fun u now c => ⟨fun n injected => ?_, ?_, ?_⟩⟩
  · rw [accounts.failures, List.length_range']
    exact accounts.within limited
  · rw [(Call.perform_of_injected now injected).2.2.2]
  · intro checked passed
    rw [Call.injected?, checked, if_pos rfl] at passed
    cases passes_or_fails u with
    | inl passes => exact passes
    | inr fails =>
      rw [fails.failure?_eq] at passed
      cases passed
  · intro unchecked
    rw [Call.perform_of_unchecked now unchecked]

theorem spent_budget_kept :
    let commands : List (Command Memory) :=
      [.call ⟨1⟩ (.list (.recursive ['b'] [])), .call ⟨1⟩ (.get ['b'] ['k']), .call ⟨2⟩ (.put ['b'] ['k'] []),
        .call ⟨3⟩ (.put ['b'] ['k'] []), .resetStats, .call ⟨3⟩ (.delete ['b'] ['k']), .setFailureLimit 1,
        .call ⟨4⟩ (.delete ['b'] ['k']), .setThrottleProbability .zero, .call ⟨5⟩ (.delete ['b'] ['k'])]
    ∃ s, create (Memory.withBucket ['b']) (Settings.defaults.withThrottle .one 2) (.ofSeed 0) = .ok s ∧
      let t := Command.run commands s
      let log := Command.log commands s
      let epoch := log.since .limitSet
      epoch.failures = List.range' 1 t.throttle.count ∧
        t.stats.throttled = (log.since .statsReset).failures.length ∧
        t.stats.operations = (log.since .statsReset).checks.length ∧
        (t.throttle.limit ≠ 0 → epoch.failures.length ≤ t.throttle.limit.toNat) ∧
        (t.throttle.limit ≠ 0 → (∀ p failure, .checked p failure ∈ epoch → p = .one) →
          epoch.checks = sureFailures t.throttle.limit.toNat epoch.checks.length) ∧
        ∀ (u : Stale Memory) (now : Timestamp) (c : Call),
          (∀ n, c.injected? u = some n → (c.perform now u).1 = .error (.throttled n)) ∧
            (c.isChecked = true → c.injected? u = none → u.Passes) ∧
            (c.isChecked = false → c.perform now u = onBackend (c.perform now) u) := by
  intro commands
  obtain ⟨s, created⟩ := create_of_probabilities (Memory.withBucket ['b'])
    (Settings.defaults.withThrottle .one 2) (.ofSeed 0) (by decide) (by decide)
  exact ⟨s, created, failures_keep_to_budget created commands⟩

end Stale
end StaleStore
