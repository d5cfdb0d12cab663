import StaleStore.Proofs.Simulation.Lockstep

namespace StaleStore
namespace Simulation

namespace Plan

structure Alike (p q : Plan) : Prop where
  seed : q.seed = p.seed
  maxAdvance : q.maxAdvance = p.maxAdvance
  clearProbability : q.clearProbability = p.clearProbability
  directories : q.directories = p.directories
  files : q.files = p.files

section
variable {p q : Plan} (alike : p.Alike q) (d : DrawStream)
include alike

theorem Alike.drawDirectory : q.drawDirectory d = p.drawDirectory d := by
  rw [Plan.drawDirectory, Plan.drawDirectory, alike.directories]

theorem Alike.drawKey : q.drawKey d = p.drawKey d := by
  rw [Plan.drawKey, Plan.drawKey, alike.drawDirectory, alike.files]

theorem Alike.drawKeys (count : Nat) : q.drawKeys count d = p.drawKeys count d := by
  induction count generalizing d with
  | zero => rfl
  | succ count ih => simp only [Plan.drawKeys, alike.drawKey, ih]

theorem Alike.drawOfKind? (kind : UInt64) : q.drawOfKind? kind d = p.drawOfKind? kind d := by
  simp only [Plan.drawOfKind?, alike.drawKey, alike.drawKeys, alike.drawDirectory, advanceBound?, alike.maxAdvance]

theorem Alike.drawOperation? : q.drawOperation? d = p.drawOperation? d := by
  simp only [Plan.drawOperation?, alike.drawOfKind?, alike.clearProbability]

end
end Plan

-- What the draws and the clock of a run depend on, and what the report has noted of it. What the stores answer differs,
-- but it never reaches the draws.
structure Abreast (h k : Harness) : Prop where
  plans : h.plan.Alike k.plan
  draws : k.draws = h.draws
  now : k.now = h.now
  operations : k.report.operations = h.report.operations
  last : k.report.last = h.report.last
  clears : k.report.clears = h.report.clears

def Operation.isCall : Operation → Bool
  | .advance _ | .clear => false
  | _ => true

namespace Harness

structure Keeps (h k : Harness) : Prop where
  plan : k.plan = h.plan
  draws : k.draws = h.draws
  now : k.now = h.now
  operations : k.report.operations = h.report.operations
  last : k.report.last = h.report.last
  clears : k.report.clears = h.report.clears

variable {h h' k k' j : Harness} {α : Type}

theorem Keeps.trans (first : Keeps h k) (second : Keeps k j) : Keeps h j where
  plan := second.plan.trans first.plan
  draws := second.draws.trans first.draws
  now := second.now.trans first.now
  operations := second.operations.trans first.operations
  last := second.last.trans first.last
  clears := second.clears.trans first.clears

theorem violate_keeps (message : Text) (h : Harness) : Keeps h (h.violate message) := ⟨rfl, rfl, rfl, rfl, rfl, rfl⟩

theorem call_keeps {x : Timestamp → Action (Stale Memory) α} {outcome : Option α} (called : h.call x = (outcome, k)) :
    Keeps h k := by
  have kept : Keeps h (h.call x).2 := by
    unfold call
    rcases x h.now h.store with ⟨e | a, t⟩
    · cases e <;> exact ⟨rfl, rfl, rfl, rfl, rfl, rfl⟩
    · exact ⟨rfl, rfl, rfl, rfl, rfl, rfl⟩
  rwa [called] at kept

theorem perform_keeps {op : Operation} (isCall : op.isCall = true) (h : Harness) : Keeps h (perform op h) := by
  cases op with
  | put key =>
    rcases called : h.call (ObjectStore.put · bucket key (keyBytes key)) with ⟨outcome | etag, k⟩ <;>
      rw [perform, put, called] <;> exact (call_keeps called).trans ⟨rfl, rfl, rfl, rfl, rfl, rfl⟩
  | delete key =>
    rcases called : h.call (ObjectStore.delete · bucket key) with ⟨outcome | done, k⟩ <;>
      rw [perform, delete, called] <;> exact (call_keeps called).trans ⟨rfl, rfl, rfl, rfl, rfl, rfl⟩
  | deleteBatch keys =>
    rcases called : h.call (ObjectStore.deleteBatch · bucket keys) with ⟨outcome | result, k⟩ <;>
      rw [perform, deleteBatch, called]
    · exact call_keeps called
    · dsimp only
      split <;> exact (call_keeps called).trans ⟨rfl, rfl, rfl, rfl, rfl, rfl⟩
  | listRecursive under =>
    rcases called : h.call (ObjectStore.list · (.recursive bucket under)) with ⟨outcome | listing, k⟩ <;>
      rw [perform, listRecursive, called]
    · exact call_keeps called
    · dsimp only
      split <;> exact (call_keeps called).trans ⟨rfl, rfl, rfl, rfl, rfl, rfl⟩
  | listDelimited under =>
    rcases called : h.call (ObjectStore.list · (.delimited bucket under)) with ⟨outcome | listing, k⟩ <;>
      rw [perform, listDelimited, called]
    · exact call_keeps called
    · dsimp only
      split <;> exact (call_keeps called).trans ⟨rfl, rfl, rfl, rfl, rfl, rfl⟩
  | advance ms => cases isCall
  | clear => cases isCall

theorem perform_last (op : Operation) (h : Harness) : (perform op h).report.last = h.report.last := by
  cases op with
  | advance ms => rfl
  | clear => rfl
  | _ => exact (h.perform_keeps rfl).last

theorem checkRules_keeps (h : Harness) : Keeps h h.checkRules := by
  unfold checkRules
  cases h.broken? with
  | none => exact ⟨rfl, rfl, rfl, rfl, rfl, rfl⟩
  | some message => exact violate_keeps message h

end Harness

variable {h h' k k' : Harness}

theorem Abreast.keeps (abreast : Abreast h k) (one : h.Keeps h') (two : k.Keeps k') : Abreast h' k' where
  plans := by
    rw [one.plan, two.plan]
    exact abreast.plans
  draws := by rw [one.draws, two.draws, abreast.draws]
  now := by rw [one.now, two.now, abreast.now]
  operations := by rw [one.operations, two.operations, abreast.operations]
  last := by rw [one.last, two.last, abreast.last]
  clears := by rw [one.clears, two.clears, abreast.clears]

theorem Abreast.perform (abreast : Abreast h k) (op : Operation) : Abreast (h.perform op) (k.perform op) := by
  cases op with
  | advance ms =>
    exact ⟨abreast.plans, abreast.draws, congrArg (·.advanceMillis ms) abreast.now, abreast.operations, abreast.last,
      abreast.clears⟩
  | clear =>
    exact ⟨abreast.plans, abreast.draws, abreast.now, abreast.operations, abreast.last,
      congrArg (· + 1) abreast.clears⟩
  | _ => exact abreast.keeps (h.perform_keeps rfl) (k.perform_keeps rfl)

theorem Abreast.step? (abreast : Abreast h k) (stepped : h.step? = some h') :
    ∃ k', k.step? = some k' ∧ Abreast h' k' := by
  obtain ⟨⟨op, draws⟩, drawn, performed⟩ := Option.bind_eq_some_iff.mp stepped
  cases performed
  have drawnToo : k.plan.drawOperation? k.draws = some (op, draws) := by
    rw [abreast.plans.drawOperation?, abreast.draws, drawn]
  have begins : Abreast (Harness.begin op { h with draws := draws }) (Harness.begin op { k with draws := draws }) :=
    ⟨abreast.plans, rfl, abreast.now, congrArg (· + 1) abreast.operations, rfl, abreast.clears⟩
  refine ⟨_, Option.bind_eq_some_iff.mpr ⟨_, drawnToo, rfl⟩, ?_⟩
  exact (begins.perform op).keeps (Harness.checkRules_keeps _) (Harness.checkRules_keeps _)

namespace Harness

theorem step?_last (stepped : h.step? = some h') : ∃ op, h'.report.last = some op := by
  obtain ⟨⟨op, draws⟩, -, performed⟩ := Option.bind_eq_some_iff.mp stepped
  cases performed
  exact ⟨op, (checkRules_keeps _).last.trans (perform_last op _)⟩

def performed : Nat → Harness → List Operation
  | 0, _ => []
  | count + 1, h =>
    match h.step? with
    | none => []
    | some next => next.report.last.toList ++ if next.report.isSuccess then performed count next else []

theorem create_starts {p : Plan} (created : create p = .ok h) :
    h.plan = p ∧ h.draws = .ofSeed p.seed ∧ h.now = ⟨1000000⟩ ∧ h.report = .start p.seed := by
  rw [create] at created
  cases built : Stale.create (Memory.withBucket bucket) p.settings (.ofSeed p.storeSeed) with
  | error e =>
    rw [built] at created
    cases created
  | ok store =>
    rw [built] at created
    cases created
    exact ⟨rfl, rfl, rfl, rfl⟩

theorem create_abreast {p q : Plan} (alike : p.Alike q) (created : create p = .ok h) (createdToo : create q = .ok k) :
    Abreast h k := by
  obtain ⟨rfl, draws, now, report⟩ := create_starts created
  obtain ⟨rfl, drawsToo, nowToo, reportToo⟩ := create_starts createdToo
  refine ⟨alike, ?_, nowToo.trans now.symm, ?_, ?_, ?_⟩
  · rw [draws, drawsToo, alike.seed]
  all_goals rw [report, reportToo]; rfl

theorem run?_succ {n : Nat} {next : Harness} (stepped : h.step? = some next) :
    h.run? (n + 1) = if next.report.isSuccess then next.run? n else some next := by
  rw [run?, stepped]
  rfl

theorem run?_abreast (n : Nat) (abreast : Abreast h k) (ran : h.run? n = some h') (quiet : h'.report.isSuccess = true) :
    ∃ k', k.run? n = some k' ∧ (k'.report.isSuccess = true →
      performed n k = performed n h ∧ (performed n h).length = n ∧ Abreast h' k') := by
  induction n generalizing h k with
  | zero =>
    cases ran
    exact ⟨k, rfl, fun _ => ⟨rfl, rfl, abreast⟩⟩
  | succ n ih =>
    obtain ⟨next, stepped, -⟩ := Option.bind_eq_some_iff.mp ran
    obtain ⟨nextToo, steppedToo, again⟩ := abreast.step? stepped
    rw [run?_succ stepped] at ran
    rw [run?_succ steppedToo]
    cases success : next.report.isSuccess with
    | false =>
      rw [success] at ran
      cases ran
      rw [success] at quiet
      cases quiet
    | true =>
      rw [success, if_pos rfl] at ran
      cases successToo : nextToo.report.isSuccess with
      | false => exact ⟨nextToo, rfl, fun quietToo => Bool.noConfusion (successToo.symm.trans quietToo)⟩
      | true =>
        obtain ⟨endedToo, ranToo, same⟩ := ih again ran
        refine ⟨endedToo, ranToo, fun quietToo => ?_⟩
        obtain ⟨operations, count, ended⟩ := same quietToo
        obtain ⟨op, noted⟩ := step?_last stepped
        simp only [performed, stepped, steppedToo, success, successToo, again.last, noted, if_true, operations]
        exact ⟨trivial, congrArg (· + 1) count, ended⟩

theorem perform_plan (op : Operation) (h : Harness) : (perform op h).plan = h.plan := by
  cases op with
  | advance ms => rfl
  | clear => rfl
  | _ => exact (h.perform_keeps rfl).plan

-- Only the coin for clearing and the bound of the clock's steps can leave a run without a next operation.
theorem run?_total (clears : h.plan.clearProbability.isNaN = false) (bounded : h.plan.maxAdvance + 1 ≠ 0) (n : Nat) :
    ∃ ended, h.run? n = some ended := by
  induction n generalizing h with
  | zero => exact ⟨h, rfl⟩
  | succ n ih =>
    obtain ⟨op, draws, drawn, -⟩ := h.plan.drawOperation?_allowed h.draws clears bounded
    let begun := begin op { h with draws := draws }
    have stepped : h.step? = some (perform op begun).checkRules := by
      rw [step?, drawn]
      rfl
    have plan : (perform op begun).checkRules.plan = h.plan :=
      (checkRules_keeps _).plan.trans (perform_plan op begun)
    rw [run?_succ stepped]
    split
    · exact ih (plan ▸ clears) (plan ▸ bounded)
    · exact ⟨_, rfl⟩

theorem operations_independent_of_faults {p q : Plan} (alike : p.Alike q)
    (valid : p.throttleProbability.IsProbability) (validToo : q.throttleProbability.IsProbability) :
    ∃ one two, create p = .ok one ∧ create q = .ok two ∧
      (p.clearProbability.isNaN = false → p.maxAdvance + 1 ≠ 0 → ∀ n, ∃ ended, one.run? n = some ended) ∧
      ∀ n ended, one.run? n = some ended → ended.report.isSuccess = true →
        ∃ endedToo, two.run? n = some endedToo ∧ (endedToo.report.isSuccess = true →
          performed n two = performed n one ∧ (performed n one).length = n ∧ Abreast ended endedToo) := by
  obtain ⟨one, created, -, rfl, -⟩ := create_inStep p valid
  obtain ⟨two, createdToo, -⟩ := create_inStep q validToo
  refine ⟨one, two, created, createdToo, fun clears bounded => run?_total clears bounded, fun n ended ran quiet => ?_⟩
  exact run?_abreast n (create_abreast alike created createdToo) ran quiet

theorem throttled_run_performs_same :
    let p := Plan.standard 7
    let q := { Plan.throttled 7 with delayMillis := 5000 }
    p.Alike q ∧ p.throttleProbability.IsProbability ∧ q.throttleProbability.IsProbability ∧
      ∃ one two ended endedToo, create p = .ok one ∧ create q = .ok two ∧ one.run? 10000 = some ended ∧
        two.run? 10000 = some endedToo ∧ performed 10000 two = performed 10000 one ∧
        (performed 10000 one).length = 10000 ∧ Abreast ended endedToo := by
  intro p q
  have alike : p.Alike q := ⟨rfl, rfl, rfl, rfl, rfl⟩
  have valid : p.throttleProbability.IsProbability := by decide +kernel
  have validToo : q.throttleProbability.IsProbability := by decide +kernel
  obtain ⟨one, two, created, createdToo, -, same⟩ := operations_independent_of_faults alike valid validToo
  have runs : ∀ r : Plan, r.throttleProbability.IsProbability → r.clearProbability.isNaN = false → r.Fits →
      1000000 + 10000 * r.maxAdvance.toNat < UInt64.size → ∀ start, create r = .ok start →
      ∃ ended, start.run? 10000 = some ended ∧ ended.report.isSuccess = true := by
    intro r throttles clears small room start creates
    obtain ⟨start', creates', inStep, rfl, now, -⟩ := create_inStep r throttles
    cases creates.symm.trans creates'
    obtain ⟨ended, ran, endsInStep, -⟩ :=
      inStep.run?_ends small clears 10000 (by rw [now]; decide) (by rw [now]; exact room)
    exact ⟨ended, ran, by rw [Report.isSuccess, endsInStep.quiet]; rfl⟩
  have clears : p.clearProbability.isNaN = false := by decide +kernel
  obtain ⟨ended, ran, quiet⟩ := runs p valid clears (by unfold Plan.Fits; decide) (by decide) one created
  obtain ⟨ended', ran', quiet'⟩ := runs q validToo clears (by unfold Plan.Fits; decide) (by decide) two createdToo
  obtain ⟨endedToo, ranToo, rest⟩ := same 10000 ended ran quiet
  cases ran'.symm.trans ranToo
  exact ⟨alike, valid, validToo, one, two, ended, _, created, createdToo, ran, ranToo, rest quiet'⟩

end Harness
end Simulation
end StaleStore
