import StaleStore.Proofs.Simulation.Matches

namespace StaleStore
namespace Simulation

namespace Harness

variable {h : Harness} {α : Type} {x : Timestamp → Action (Stale Memory) α} {t : Stale Memory}

theorem call_ok {a : α} (result : x h.now h.store = (.ok a, t)) : h.call x = (some a, { h with store := t }) := by
  rw [call, result]

theorem call_throttled {n : Nat} (result : x h.now h.store = (.error (.throttled n), t)) :
    h.call x = (none, { h with
      store := t
      report := { h.report with throttled := h.report.throttled + 1 } }) := by
  rw [call, result]

end Harness

structure InStep (h : Harness) : Prop where
  quiet : h.report.violations = []
  limit : h.store.throttle.limit = h.plan.failureLimit
  budget : h.plan.failureLimit ≠ 0 → h.store.throttle.count ≤ h.plan.failureLimit.toNat
  counted : h.store.throttle.count = h.report.throttled
  agree : ∃ o history, Matches h.plan h.now o history h.store h.shadow

structure Advances (h h' : Harness) : Prop where
  inStep : InStep h'
  plan : h'.plan = h.plan
  operations : h'.report.operations = h.report.operations
  early : h.now.ms.toNat ≤ h'.now.ms.toNat
  late : h'.now.ms.toNat ≤ h.now.ms.toNat + h.plan.maxAdvance.toNat

namespace InStep

variable {h : Harness} (inStep : InStep h)
include inStep

theorem throttled {t : Stale Memory} (stopped : h.store.Throttled t) : Advances h { h with
    store := t
    report := { h.report with throttled := h.report.throttled + 1 } } := by
  obtain ⟨hasBudget, draws, stats, rfl⟩ := stopped
  obtain ⟨o, history, agree⟩ := inStep.agree
  refine ⟨⟨inStep.quiet, inStep.limit, ?_, congrArg (· + 1) inStep.counted, o, history, agree.frame rfl rfl rfl⟩,
    rfl, rfl, Nat.le_refl _, Nat.le_add_right _ _⟩
  intro limited
  rcases Bool.or_eq_true_iff.mp hasBudget with unlimited | below
  · rw [inStep.limit] at unlimited
    exact absurd (of_decide_eq_true unlimited) limited
  · rw [inStep.limit] at below
    exact of_decide_eq_true below

-- An operation that was not throttled: what is left to show is that store and shadow match.
theorem moves {h' : Harness} {o : Bucket} {history : History} (plan : h'.plan = h.plan) (now : h'.now = h.now)
    (throttle : h'.store.throttle = h.store.throttle) (quiet : h'.report.violations = h.report.violations)
    (throttled : h'.report.throttled = h.report.throttled) (operations : h'.report.operations = h.report.operations)
    (agree : Matches h.plan h.now o history h'.store h'.shadow) : Advances h h' := by
  refine ⟨⟨quiet.trans inStep.quiet, ?_, ?_, ?_, o, history, ?_⟩, plan, operations, ?_, ?_⟩
  · rw [throttle, plan]
    exact inStep.limit
  · rw [throttle, plan]
    exact inStep.budget
  · rw [throttle, throttled]
    exact inStep.counted
  · rw [plan, now]
    exact agree
  · rw [now]
  · rw [now]
    exact Nat.le_add_right _ _

theorem put_advances {key : Text} (isKey : h.plan.IsKey key) : Advances h (h.put key) := by
  obtain ⟨o, history, agree⟩ := inStep.agree
  rcases Stale.put_certain h.now key agree.certain (Harness.keyBytes key) agree.stored with
    ⟨t, stopped, result⟩ | ⟨draws, stats, result⟩
  · have called := Harness.call_throttled (x := (ObjectStore.put · bucket key (Harness.keyBytes key))) result
    rw [Harness.put, called]
    exact inStep.throttled stopped
  · have called := Harness.call_ok (x := (ObjectStore.put · bucket key (Harness.keyBytes key))) result
    rw [Harness.put, called]
    exact inStep.moves rfl rfl rfl rfl rfl rfl
      (agree.put isKey _ Std.ExtTreeMap.getElem?_insert_self rfl rfl)

theorem delete_advances {key : Text} (isKey : h.plan.IsKey key) : Advances h (h.delete key) := by
  obtain ⟨o, history, agree⟩ := inStep.agree
  rcases Stale.delete_certain h.now key agree.certain agree.stored with
    ⟨t, stopped, result⟩ | ⟨draws, stats, result⟩
  · have called := Harness.call_throttled (x := (ObjectStore.delete · bucket key)) result
    rw [Harness.delete, called]
    exact inStep.throttled stopped
  · have called := Harness.call_ok (x := (ObjectStore.delete · bucket key)) result
    rw [Harness.delete, called, ← agree.captured_isSome isKey]
    exact inStep.moves rfl rfl rfl rfl rfl rfl
      (agree.delete isKey (Stale.captured_key h.now bucket key) Std.ExtTreeMap.getElem?_insert_self rfl rfl)

theorem deleteBatch_advances {keys : List Text} (nonempty : keys ≠ [])
    (areKeys : ∀ key ∈ keys, h.plan.IsKey key) : Advances h (h.deleteBatch keys) := by
  obtain ⟨o, history, agree⟩ := inStep.agree
  rcases Stale.deleteBatch_certain h.now agree.certain nonempty agree.stored with
    ⟨t, stopped, result⟩ | ⟨base, draws, stats, kept, result⟩
  · have called := Harness.call_throttled (x := (ObjectStore.deleteBatch · bucket keys)) result
    rw [Harness.deleteBatch, called]
    exact inStep.throttled stopped
  · have called := Harness.call_ok (x := (ObjectStore.deleteBatch · bucket keys)) result
    have captured : (keys.map fun key => (key, h.shadow.captures h.now key)).foldl
          (fun s d => s.delete h.now d.1 d.2) h.shadow
        = keys.foldl (fun s k => s.delete h.now k (h.store.captured h.now bucket k o).isSome) h.shadow := by
      rw [List.foldl_map]
      refine List.foldl_ext _ _ _ fun s key member => ?_
      rw [agree.captured_isSome (areKeys key member)]
    rw [Harness.deleteBatch, called]
    dsimp only
    rw [if_neg (fun differ => differ rfl), captured]
    exact inStep.moves rfl rfl rfl rfl rfl rfl
      (agree.deleteBatch areKeys (fun {k _} => Stale.captured_key h.now bucket k) kept
        Std.ExtTreeMap.getElem?_insert_self rfl rfl)

theorem listRecursive_advances (small : h.plan.Fits) {under : Text}
    (isPlace : under = [] ∨ h.plan.IsDirectory under) : Advances h (h.listRecursive under) := by
  obtain ⟨o, history, agree⟩ := inStep.agree
  rcases Stale.list_answers h.now (.recursive bucket under) agree.stored with
    ⟨t, stopped, result⟩ | ⟨draws, stats, result⟩
  · have called := Harness.call_throttled (x := (ObjectStore.list · (.recursive bucket under))) result
    rw [Harness.listRecursive, called]
    exact inStep.throttled stopped
  · have called := Harness.call_ok (x := (ObjectStore.list · (.recursive bucket under))) result
    rw [Harness.listRecursive, called]
    dsimp only
    rw [if_pos (agree.recursive_agrees small isPlace)]
    exact inStep.moves rfl rfl rfl rfl rfl rfl (agree.dropped rfl rfl rfl)

theorem listDelimited_advances (small : h.plan.Fits) {under : Text} (isDirectory : h.plan.IsDirectory under) :
    Advances h (h.listDelimited under) := by
  obtain ⟨o, history, agree⟩ := inStep.agree
  rcases Stale.list_answers h.now (.delimited bucket under) agree.stored with
    ⟨t, stopped, result⟩ | ⟨draws, stats, result⟩
  · have called := Harness.call_throttled (x := (ObjectStore.list · (.delimited bucket under))) result
    rw [Harness.listDelimited, called]
    exact inStep.throttled stopped
  · have called := Harness.call_ok (x := (ObjectStore.list · (.delimited bucket under))) result
    rw [Harness.listDelimited, called]
    dsimp only
    rw [← agree.delimited_agrees small isDirectory]
    dsimp only
    rw [if_pos ⟨rfl, rfl⟩]
    exact inStep.moves rfl rfl rfl rfl rfl rfl (agree.dropped rfl rfl rfl)

theorem clear_advances : Advances h h.clear := by
  obtain ⟨o, history, agree⟩ := inStep.agree
  exact inStep.moves rfl rfl rfl rfl rfl rfl agree.clear

theorem advance_advances {ms : UInt64} (allowed : ms ≤ h.plan.maxAdvance)
    (room : h.now.ms.toNat + h.plan.maxAdvance.toNat < UInt64.size) :
    Advances h (Harness.perform (.advance ms) h) := by
  obtain ⟨o, history, agree⟩ := inStep.agree
  rw [UInt64.le_iff_toNat_le] at allowed
  have moved : (h.now.ms + ms).toNat = h.now.ms.toNat + ms.toNat := by
    rw [UInt64.toNat_add]
    exact Nat.mod_eq_of_lt (Nat.lt_of_le_of_lt (Nat.add_le_add_left allowed _) room)
  have order : h.now.ms.toNat ≤ (h.now.ms + ms).toNat := moved ▸ Nat.le_add_right _ _
  refine ⟨⟨inStep.quiet, inStep.limit, inStep.budget, inStep.counted, o, history, ?_⟩, rfl, rfl, order, ?_⟩
  · exact agree.later (UInt64.le_iff_toNat_le.mpr order)
  · exact moved ▸ Nat.add_le_add_left allowed _

theorem perform_advances (small : h.plan.Fits) {op : Operation} (allowed : h.plan.Allows op)
    (room : h.now.ms.toNat + h.plan.maxAdvance.toNat < UInt64.size) : Advances h (Harness.perform op h) := by
  cases op with
  | put key => exact inStep.put_advances allowed
  | delete key => exact inStep.delete_advances allowed
  | deleteBatch keys => exact inStep.deleteBatch_advances allowed.1 allowed.2
  | listRecursive under => exact inStep.listRecursive_advances small allowed
  | listDelimited under => exact inStep.listDelimited_advances small allowed
  | advance ms => exact inStep.advance_advances allowed room
  | clear => exact inStep.clear_advances

theorem broken?_eq_none : h.broken? = none := by
  obtain ⟨o, history, agree⟩ := inStep.agree
  have stored : h.store.backend.objectCount bucket = h.shadow.objects.size := by
    rw [Memory.objectCount, agree.stored]
    exact agree.size_eq
  have pending : h.store.delays.pendingPuts = h.shadow.puts.size := by
    rw [DelayRecord.pendingPuts, agree.puts_eq]
  unfold Harness.broken?
  dsimp only
  rw [if_neg, if_neg, if_neg, if_neg]
  · exact fun differ => differ pending
  · exact fun differ => differ stored
  · exact fun differ => differ inStep.counted
  · exact fun exceeds => Nat.not_lt_of_le (inStep.budget exceeds.1) exceeds.2

theorem begins (draws : DrawStream) (op : Operation) : InStep (Harness.begin op { h with draws := draws }) :=
  ⟨inStep.quiet, inStep.limit, inStep.budget, inStep.counted, inStep.agree⟩

theorem step?_advances (small : h.plan.Fits) (clears : h.plan.clearProbability.isNaN = false)
    (started : 0 < h.now.ms.toNat) (room : h.now.ms.toNat + h.plan.maxAdvance.toNat < UInt64.size) :
    ∃ op draws next, h.step? = some next ∧ Advances (Harness.begin op { h with draws := draws }) next := by
  have bounded : h.plan.maxAdvance + 1 ≠ 0 := by
    intro none
    have sum : (h.plan.maxAdvance + 1).toNat = (h.plan.maxAdvance.toNat + 1) % 2 ^ 64 := UInt64.toNat_add ..
    rw [none, Nat.mod_eq_of_lt (by simp only [UInt64.size] at room; omega)] at sum
    cases sum
  obtain ⟨op, draws, drawn, allowed⟩ := h.plan.drawOperation?_allowed h.draws clears bounded
  have advances := (inStep.begins draws op).perform_advances small allowed room
  refine ⟨op, draws, _, ?_, advances⟩
  rw [Harness.step?, drawn]
  show some (Harness.checkRules _) = some _
  rw [Harness.checkRules, advances.inStep.broken?_eq_none]
  rfl

theorem run?_ends (small : h.plan.Fits) (clears : h.plan.clearProbability.isNaN = false) (n : Nat)
    (started : 0 < h.now.ms.toNat) (room : h.now.ms.toNat + n * h.plan.maxAdvance.toNat < UInt64.size) :
    ∃ ended, h.run? n = some ended ∧ InStep ended ∧ ended.plan = h.plan ∧
      ended.report.operations = h.report.operations + n := by
  induction n generalizing h with
  | zero => exact ⟨h, rfl, inStep, rfl, rfl⟩
  | succ n ih =>
    rw [Nat.succ_mul] at room
    obtain ⟨op, draws, next, stepped, advances⟩ := inStep.step?_advances small clears started (by omega)
    have plan : next.plan = h.plan := advances.plan
    have operations : next.report.operations = h.report.operations + 1 := advances.operations
    have early : h.now.ms.toNat ≤ next.now.ms.toNat := advances.early
    have late : next.now.ms.toNat ≤ h.now.ms.toNat + h.plan.maxAdvance.toNat := advances.late
    obtain ⟨ended, ran, endsInStep, endPlan, endOperations⟩ :=
      ih advances.inStep (plan ▸ small) (plan ▸ clears) (by omega) (by rw [plan]; omega)
    refine ⟨ended, ?_, endsInStep, endPlan.trans plan, by omega⟩
    have success : next.report.isSuccess = true := by
      rw [Report.isSuccess, advances.inStep.quiet]
      rfl
    rw [Harness.run?, stepped]
    show (if next.report.isSuccess = true then next.run? n else some next) = some ended
    rw [if_pos success]
    exact ran

end InStep

-- Store and shadow agree: about what listings show, also those that were not asked for, and by the standing rules.
structure Harness.Accords (h : Harness) : Prop where
  quiet : h.report.violations = []
  recursive : ∀ under, under = [] ∨ h.plan.IsDirectory under → (h.listRecursive under).report.violations = []
  delimited : ∀ under, h.plan.IsDirectory under → (h.listDelimited under).report.violations = []
  rules : h.broken? = none

theorem InStep.accords {h : Harness} (inStep : InStep h) (small : h.plan.Fits) : h.Accords where
  quiet := inStep.quiet
  recursive _ isPlace := (inStep.listRecursive_advances small isPlace).inStep.quiet
  delimited _ isDirectory := (inStep.listDelimited_advances small isDirectory).inStep.quiet
  rules := inStep.broken?_eq_none

theorem create_inStep (p : Plan) (throttles : p.throttleProbability.IsProbability) :
    ∃ start, Harness.create p = .ok start ∧ InStep start ∧ start.plan = p ∧ start.now = ⟨1000000⟩ ∧
      start.report.operations = 0 := by
  obtain ⟨store, created⟩ := Stale.create_of_probabilities (Memory.withBucket bucket) p.settings
    (.ofSeed p.storeSeed) (Or.inl UInt64.le_rfl) throttles
  have fresh := Stale.create_fresh created
  have creates : Harness.create p
      = .ok ⟨p, .ofSeed p.seed, ⟨1000000⟩, store, .start p.delayMillis, .start p.seed⟩ := by
    rw [Harness.create, created]
    rfl
  refine ⟨_, creates, ⟨rfl, fresh.limit_eq, ?_, fresh.count_eq, ∅, [], ?_⟩, rfl, rfl, rfl⟩
  · intro _
    rw [fresh.count_eq]
    exact Nat.zero_le _
  · refine ⟨fresh.rules_eq, rfl, ?_, ?_, ?_, ?_, .start _, nofun⟩
    · rw [fresh.backend_eq]
      exact Std.ExtTreeMap.getElem?_insert_self
    · intro key
      exact iff_of_false Std.ExtTreeMap.not_mem_empty Std.ExtTreeSet.not_mem_empty
    · intro key member
      exact absurd member Std.ExtTreeMap.not_mem_empty
    · rw [fresh.delays_eq]
      exact .start _ _

-- For every seed, window and limit. The bound on the clock keeps it from wrapping around.
theorem Harness.run_finds_no_violation (p : Plan) (n : Nat) (throttles : p.throttleProbability.IsProbability)
    (clears : p.clearProbability.isNaN = false)
    (few : max 1 p.directories.toNat * max 1 p.files.toNat ≤ 250)
    (room : 1000000 + n * p.maxAdvance.toNat < UInt64.size) :
    ∃ start ended, Harness.create p = .ok start ∧ start.run? n = some ended ∧
      ended.report.operations = n ∧ ended.Accords := by
  obtain ⟨start, created, inStep, rfl, now, operations⟩ := create_inStep p throttles
  obtain ⟨ended, ran, endsInStep, plan, count⟩ :=
    inStep.run?_ends few clears n (by rw [now]; decide) (by rw [now]; exact room)
  refine ⟨start, ended, created, ran, ?_, endsInStep.accords (plan ▸ few)⟩
  rw [count, operations, Nat.zero_add]

theorem Harness.throttled_run_finds_no_violation :
    let p := Plan.throttled 7
    p.throttleProbability.IsProbability ∧ p.clearProbability.isNaN = false ∧
      max 1 p.directories.toNat * max 1 p.files.toNat ≤ 250 ∧ 1000000 + 10000 * p.maxAdvance.toNat < UInt64.size ∧
      ∃ start ended, Harness.create p = .ok start ∧ start.run? 10000 = some ended ∧
        ended.report.operations = 10000 ∧ ended.Accords := by
  intro p
  have throttles : p.throttleProbability.IsProbability := by decide +kernel
  have clears : p.clearProbability.isNaN = false := by decide +kernel
  have few : max 1 p.directories.toNat * max 1 p.files.toNat ≤ 250 := by decide
  have room : 1000000 + 10000 * p.maxAdvance.toNat < UInt64.size := by decide
  exact ⟨throttles, clears, few, room, run_finds_no_violation p 10000 throttles clears few room⟩

end Simulation
end StaleStore
