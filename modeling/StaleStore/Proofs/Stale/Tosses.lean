import StaleStore.Proofs.Probabilities
import StaleStore.Proofs.Stale.Budget

namespace StaleStore

abbrev Coin := Binary64 → DrawStream → Option (Bool × DrawStream)

namespace Binary64

variable {x : Binary64}

def clamp (x : Binary64) : Binary64 :=
  if x.isNaN then x
  else if x.isNegative && !x.isZero then zero
  else if !x.isNegative && one.bits < x.bits then one
  else x

theorem clamp_isProbability (number : x.isNaN = false) : x.clamp.IsProbability := by
  rw [clamp, number, if_neg Bool.false_ne_true]
  by_cases below : (x.isNegative && !x.isZero) = true
  · rw [if_pos below]
    exact isProbability_iff_fields.mpr (.inl (by decide))
  · rw [if_neg below]
    by_cases above : (!x.isNegative && one.bits < x.bits) = true
    · rw [if_pos above]
      exact one_isProbability
    · rw [if_neg above]
      cases negative : x.isNegative with
      | false =>
        simp only [negative, Bool.not_false, Bool.true_and, decide_eq_true_eq] at above
        exact .inl (UInt64.not_lt.mp above)
      | true =>
        simp only [negative, Bool.true_and, Bool.not_eq_true', Bool.not_eq_false, isZero, Bool.and_eq_true,
          decide_eq_true_eq] at below
        exact isProbability_iff_fields.mpr (.inr ⟨negative, below⟩)

end Binary64

namespace DrawStream

theorem toss?_congr {p q : Binary64} (number : p.isNaN = false) (numberToo : q.isNaN = false)
    (same : Odds.ofProbability p = Odds.ofProbability q) (d : DrawStream) : d.toss? p = d.toss? q := by
  rw [toss?, toss?, dif_pos number, dif_pos numberToo, toss, toss, same]

theorem toss?_clamp (p : Binary64) (d : DrawStream) : d.toss? p.clamp = d.toss? p := by
  unfold Binary64.clamp
  cases number : p.isNaN with
  | true => rw [if_pos rfl]
  | false =>
    rw [if_neg Bool.false_ne_true]
    split
    · rename_i below
      refine toss?_congr (by decide) number ?_ d
      rw [Odds.ofProbability.eq_def p, if_pos (Bool.and_eq_true_iff.mp below).1]
      decide
    · split
      · rename_i above
        rw [Bool.and_eq_true_iff, Bool.not_eq_true', decide_eq_true_eq] at above
        refine toss?_congr (by decide) number ?_ d
        rw [Odds.ofProbability.eq_def p, above.1, if_neg Bool.false_ne_true, if_pos (UInt64.le_of_lt above.2)]
        decide
      · rfl

end DrawStream

def Coin.draw (coin : Coin) (p : Binary64) (d : DrawStream) : Option (Bool × DrawStream) := coin p.clamp d

-- There is an outcome, and tossing the coin of the stream it is the one given.
def Yields {α : Type} (coin : Coin) (x : Option α) (a : α) : Prop :=
  ∃ b, x = some b ∧ (coin = DrawStream.toss? → b = a)

section
variable {α β : Type} {coin : Coin} {x : Option α} {a : α}

theorem Yields.some (a : α) : Yields coin (some a) a := ⟨a, rfl, fun _ => rfl⟩

theorem Yields.bind {f : α → Option β} {g : α → β} (first : Yields coin x a) (rest : ∀ b, Yields coin (f b) (g b)) :
    Yields coin (x >>= f) (g a) := by
  obtain ⟨b, rfl, same⟩ := first
  obtain ⟨c, done, sameToo⟩ := rest b
  refine ⟨c, done, fun stream => ?_⟩
  rw [sameToo stream, same stream]

theorem Yields.map (f : α → β) (first : Yields coin x a) : Yields coin (x.map f) (f a) := by
  obtain ⟨b, rfl, same⟩ := first
  exact ⟨f b, rfl, fun stream => congrArg f (same stream)⟩

end

def Chancy (σ α : Type) : Type := σ → Option (Except StoreError α × σ)

namespace Chancy

variable {σ α β : Type}

def sure (x : Action σ α) : Chancy σ α := fun s => some (x s)

def andThen (x : Chancy σ α) (f : α → Chancy σ β) : Chancy σ β := fun s => do
  match ← x s with
  | (.ok a, s) => f a s
  | (.error e, s) => some (.error e, s)

instance : Monad (Chancy σ) where
  pure a := sure (pure a)
  bind := andThen

def Follows (coin : Coin) (x : Chancy σ α) (y : Action σ α) : Prop := ∀ s, Yields coin (x s) (y s)

variable {coin : Coin} {x : Chancy σ α} {y : Action σ α}

theorem Follows.sure (y : Action σ α) : Follows coin (sure y) y := fun s => .some (y s)

theorem Follows.bind {f : α → Chancy σ β} {g : α → Action σ β} (first : Follows coin x y)
    (rest : ∀ a, Follows coin (f a) (g a)) : Follows coin (x >>= f) (y >>= g) := by
  intro s
  refine Yields.bind (g := fun p : Except StoreError α × σ => match p with
    | (.ok a, s) => g a s
    | (.error e, s) => (.error e, s)) (first s) fun p => ?_
  rcases p with ⟨e | a, t⟩
  · exact .some _
  · exact rest a t

theorem Follows.map (f : α → β) (first : Follows coin x y) : Follows coin (do return f (← x)) (y.map f) := by
  intro s
  refine Yields.bind (g := fun p : Except StoreError α × σ => (match p with
    | (.ok a, s) => (.ok (f a), s)
    | (.error e, s) => (.error e, s) : Except StoreError β × σ)) (first s) fun p => ?_
  rcases p with ⟨e | a, t⟩
  · exact .some _
  · exact .some _

end Chancy

def Throttle.check? (coin : Coin) (t : Throttle) (d : DrawStream) :
    Option (Except StoreError Unit × Throttle × DrawStream) :=
  if t.probability.isNonPositive then some (.ok (), t, d)
  else (coin.draw t.probability d).map fun (falls, d) =>
    if falls && t.hasBudget then (.error (.throttled (t.count + 1)), { t with count := t.count + 1 }, d)
    else (.ok (), t, d)

def DelayRules.asks? (coin : Coin) (r : DelayRules) (key : Text) (d : DrawStream) : Option (Bool × DrawStream) :=
  if r.isEligible key then coin.draw r.probability d else some (false, d)

namespace Stale

variable {σ α : Type}

def checkThrottle? (coin : Coin) : Chancy (Stale σ) Unit := fun s =>
  (s.throttle.check? coin s.draws).map fun (outcome, throttle, draws) =>
    let throttled := match outcome with
      | .ok () => 0
      | .error _ => 1
    (outcome, { s with
      throttle := throttle
      draws := draws
      stats := { s.stats with
        operations := s.stats.operations + 1
        throttled := s.stats.throttled + throttled } })

def chooseDelay? (coin : Coin) (key : Text) : Chancy (Stale σ) Bool := fun s =>
  (s.rules.asks? coin key s.draws).map fun (delayed, draws) => (.ok delayed, { s with draws := draws })

def checked? (coin : Coin) (x : Action σ α) : Chancy (Stale σ) α := do
  checkThrottle? coin
  .sure (onBackend x)

variable [ObjectStore σ] (coin : Coin) (now : Timestamp)

def put? (bucket key : Text) (data : Bytes) : Chancy (Stale σ) Text := do
  checkThrottle? coin
  let etag ← Chancy.sure (onBackend (ObjectStore.put now bucket key data))
  if ← chooseDelay? coin key then Chancy.sure (recordPut now key)
  return etag

def delete? (bucket key : Text) : Chancy (Stale σ) Unit := do
  checkThrottle? coin
  if ← chooseDelay? coin key then
    let summary ← Chancy.sure (capture now bucket key)
    Chancy.sure (onBackend (ObjectStore.delete now bucket key))
    Chancy.sure (recordDelete now key summary)
  else Chancy.sure (onBackend (ObjectStore.delete now bucket key))

def captureAll? (bucket : Text) : List Text → Chancy (Stale σ) (List (Text × Option Summary))
  | [] => pure []
  | key :: rest => do
    if ← chooseDelay? coin key then
      let summary ← Chancy.sure (capture now bucket key)
      return (key, summary) :: (← captureAll? bucket rest)
    else captureAll? bucket rest

def deleteBatch? (bucket : Text) (keys : List Text) : Chancy (Stale σ) BatchDeletion := do
  checkThrottle? coin
  let delayed ← captureAll? coin now bucket keys
  let result ← Chancy.sure (onBackend (ObjectStore.deleteBatch now bucket keys))
  Chancy.sure (recordDeletes now (delayed.filter fun (key, _) => result.deleted.contains key))
  return result

def list? (r : ListRequest) : Chancy (Stale σ) Listing := do
  checkThrottle? coin
  Chancy.sure (listUnchecked now r)

def listTokens? (r : TokenRequest) : Chancy (Stale σ) TokenListing := do
  checkThrottle? coin
  Chancy.sure (listTokensUnchecked now r)

def perform? : Call → Chancy (Stale σ) Reply
  | .put b k data => return .stored (← put? coin now b k data)
  | .get b k => .sure (Call.perform now (.get b k))
  | .delete b k => do
    delete? coin now b k
    return .deleted
  | .deleteBatch b ks => return .batch (← deleteBatch? coin now b ks)
  | .list r => return .listing (← list? coin now r)
  | .listTokens r => return .tokenListing (← listTokens? coin now r)
  | .initiateUpload b k => return .initiated (← checked? coin (ObjectStore.initiateUpload now b k))
  | .uploadPart b k u n data => return .part (← checked? coin (ObjectStore.uploadPart now b k u n data))
  | .completeUpload b k u parts => return .completed (← checked? coin (ObjectStore.completeUpload now b k u parts))
  | .abortUpload b k u => .sure (Call.perform now (.abortUpload b k u))
  | .listUploads b under => return .uploads (← checked? coin (ObjectStore.listUploads now b under))

end Stale

namespace Command

variable {σ : Type} [ObjectStore σ] (coin : Coin)

def performReplying? : Command σ → Stale σ → Option (List (Except StoreError Reply) × Stale σ)
  | call now c, s => (Stale.perform? coin now c s).map fun (reply, t) => ([reply], t)
  | command, s => some ([], command.perform s)

def reply : Command σ → Stale σ → List (Except StoreError Reply)
  | call now c, s => [(c.perform now s).1]
  | _, _ => []

def run? : List (Command σ) → Stale σ → Option (List (Except StoreError Reply) × Stale σ)
  | [], s => some ([], s)
  | command :: rest, s => do
    let (reply, t) ← command.performReplying? coin s
    let (replies, u) ← run? rest t
    return (reply ++ replies, u)

def replies : List (Command σ) → Stale σ → List (Except StoreError Reply)
  | [], _ => []
  | command :: rest, s => command.reply s ++ replies rest (command.perform s)

end Command

namespace Stale

variable {σ α : Type} {coin : Coin}

theorem create_iff {backend : σ} {settings : Settings} {draws : DrawStream} :
    (∃ s, create backend settings draws = .ok s) ↔
      settings.delayProbability.IsProbability ∧ settings.throttleProbability.IsProbability := by
  constructor
  · rintro ⟨s, created⟩
    have fresh := create_fresh created
    refine ⟨?_, fresh.probability_eq ▸ s.throttle.isProbability⟩
    have delay := s.isProbability
    rwa [fresh.rules_eq] at delay
  · exact fun ⟨delay, throttle⟩ => create_of_probabilities backend settings draws delay throttle

variable {p : Binary64}

theorem setThrottleProbability_out (out : ¬ p.IsProbability) (s : Stale σ) :
    s.setThrottleProbability p = .error (.probabilityOutOfRange Settings.throttleProbabilityName p) := by
  rw [setThrottleProbability, Throttle.setProbability, dif_neg out]
  rfl

theorem setThrottleProbability_ok_iff {s : Stale σ} :
    (∃ t, s.setThrottleProbability p = .ok t ∧ t.throttle.probability = p) ↔ p.IsProbability := by
  constructor
  · rintro ⟨t, -, rfl⟩
    exact t.throttle.isProbability
  · intro probability
    rw [setThrottleProbability, Throttle.setProbability, dif_pos probability]
    exact ⟨_, rfl, rfl⟩

-- What is out of range is rejected in every state, so it does not matter how the tosses before it came out.
theorem run?_rejected [ObjectStore σ] (out : ¬ p.IsProbability) (commands later : List (Command σ)) (s : Stale σ) :
    Command.run? coin (commands ++ .setThrottleProbability p :: later) s
      = Command.run? coin (commands ++ later) s := by
  induction commands generalizing s with
  | nil =>
    have same : Command.perform (.setThrottleProbability p) s = s := by
      rw [Command.perform, setThrottleProbability_out out]
    have skipped : Command.performReplying? coin (.setThrottleProbability p) s = some ([], s) :=
      congrArg (fun t => some ([], t)) same
    rw [List.nil_append, List.nil_append, Command.run?, skipped]
    exact Option.bind_fun_some _
  | cons command rest ih => simp only [List.cons_append, Command.run?, ih]

section
variable (fair : ∀ p : Binary64, p.IsFromZeroToOne → ∀ d, (coin p d).isSome)
include fair

theorem draw_yields {p : Binary64} (number : p.isNaN = false) (d : DrawStream) :
    Yields coin (coin.draw p d) (d.toss p number) := by
  have ranged := Binary64.isProbability_iff.mp (Binary64.clamp_isProbability number)
  obtain ⟨b, tossed⟩ := Option.isSome_iff_exists.mp (fair _ ranged d)
  refine ⟨b, tossed, fun stream => ?_⟩
  subst stream
  rw [DrawStream.toss?_clamp, DrawStream.toss?, dif_pos number] at tossed
  exact (Option.some.inj tossed).symm

theorem check?_yields (t : Throttle) (d : DrawStream) : Yields coin (t.check? coin d) (t.check d) := by
  unfold Throttle.check? Throttle.check
  split
  · exact .some _
  · exact .map _ (draw_yields fair t.isProbability.isNaN_eq_false d)

theorem asks?_yields (r : DelayRules) (number : r.probability.isNaN = false) (key : Text) (d : DrawStream) :
    Yields coin (r.asks? coin key d) (r.delays number key d) := by
  unfold DelayRules.asks? DelayRules.delays
  split
  · exact draw_yields fair number d
  · exact .some _

theorem checkThrottle?_follows : Chancy.Follows coin (checkThrottle? coin) (checkThrottle (σ := σ)) :=
  fun s => .map _ (check?_yields fair s.throttle s.draws)

theorem chooseDelay?_follows (key : Text) :
    Chancy.Follows coin (chooseDelay? coin key) (chooseDelay (σ := σ) key) :=
  fun s => .map _ (asks?_yields fair s.rules s.delay_isNaN_eq_false key s.draws)

theorem checked?_follows (x : Action σ α) : Chancy.Follows coin (checked? coin x) (checked x) :=
  .bind (checkThrottle?_follows fair) fun _ => .sure _

variable [ObjectStore σ] (now : Timestamp)

theorem put?_follows (bucket key : Text) (data : Bytes) :
    Chancy.Follows coin (put? coin now bucket key data) (put (σ := σ) now bucket key data) := by
  refine .bind (checkThrottle?_follows fair) fun _ => .bind (.sure _) fun etag =>
    .bind (chooseDelay?_follows fair key) fun delayed => ?_
  cases delayed with
  | false => exact .sure _
  | true => exact .bind (.sure _) fun _ => .sure _

theorem delete?_follows (bucket key : Text) :
    Chancy.Follows coin (delete? coin now bucket key) (delete (σ := σ) now bucket key) := by
  refine .bind (checkThrottle?_follows fair) fun _ => .bind (chooseDelay?_follows fair key) fun delayed => ?_
  cases delayed with
  | false => exact .sure _
  | true => exact .bind (.sure _) fun summary => .bind (.sure _) fun _ => .sure _

theorem captureAll?_follows (bucket : Text) (keys : List Text) :
    Chancy.Follows coin (captureAll? coin now bucket keys) (captureAll (σ := σ) now bucket keys) := by
  induction keys with
  | nil => exact .sure _
  | cons key rest ih =>
    refine .bind (chooseDelay?_follows fair key) fun delayed => ?_
    cases delayed with
    | false => exact ih
    | true => exact .bind (.sure _) fun summary => .bind ih fun later => .sure _

theorem deleteBatch?_follows (bucket : Text) (keys : List Text) :
    Chancy.Follows coin (deleteBatch? coin now bucket keys) (deleteBatch (σ := σ) now bucket keys) :=
  .bind (checkThrottle?_follows fair) fun _ => .bind (captureAll?_follows fair now bucket keys) fun _ =>
    .bind (.sure _) fun _ => .bind (.sure _) fun _ => .sure _

theorem perform?_follows (c : Call) : Chancy.Follows coin (perform? coin now c) (c.perform (σ := Stale σ) now) := by
  have unchecked : ∀ {α : Type} (x : Action (Stale σ) α),
      Chancy.Follows coin (do checkThrottle? coin; .sure x) (do checkThrottle; x) :=
    fun x => .bind (checkThrottle?_follows fair) fun _ => .sure x
  cases c with
  | put b k data => exact .map _ (put?_follows fair now b k data)
  | get b k => exact .sure _
  | delete b k => exact .map _ (delete?_follows fair now b k)
  | deleteBatch b ks => exact .map _ (deleteBatch?_follows fair now b ks)
  | list r => exact .map _ (unchecked _)
  | listTokens r => exact .map _ (unchecked _)
  | initiateUpload b k => exact .map _ (checked?_follows fair _)
  | uploadPart b k u n data => exact .map _ (checked?_follows fair _)
  | completeUpload b k u parts => exact .map _ (checked?_follows fair _)
  | abortUpload b k u => exact .sure _
  | listUploads b under => exact .map _ (checked?_follows fair _)

theorem performReplying?_yields (command : Command σ) (s : Stale σ) :
    Yields coin (command.performReplying? coin s) (command.reply s, command.perform s) := by
  cases command with
  | call now c => exact .map _ (perform?_follows fair now c s)
  | _ => exact .some _

theorem run?_yields (commands : List (Command σ)) (s : Stale σ) :
    Yields coin (Command.run? coin commands s) (Command.replies commands s, Command.run commands s) := by
  induction commands generalizing s with
  | nil => exact .some _
  | cons command rest ih =>
    refine Yields.bind (g := fun p => (p.1 ++ Command.replies rest p.2, Command.run rest p.2))
      (performReplying?_yields fair command s) fun p => ?_
    exact Yields.bind (g := fun q => (p.1 ++ q.1, q.2)) (ih p.2) fun q => .some _

theorem accepted_store_always_draws (backend : σ) (settings : Settings) (draws : DrawStream) :
    ((∃ s, create backend settings draws = .ok s) ↔
      settings.delayProbability.IsFromZeroToOne ∧ settings.throttleProbability.IsFromZeroToOne) ∧
    ∀ s, create backend settings draws = .ok s → ∀ commands : List (Command σ),
      ∃ replies t, Command.run? coin commands s = some (replies, t) ∧
        (coin = DrawStream.toss? → replies = Command.replies commands s ∧ t = Command.run commands s) ∧
        t.throttle.probability.IsFromZeroToOne ∧ t.rules.probability.IsFromZeroToOne ∧
        (∀ p, (∃ u, t.setThrottleProbability p = .ok u ∧ u.throttle.probability = p) ↔ p.IsFromZeroToOne) ∧
        ∀ p e, t.setThrottleProbability p = .error e → ∀ later,
          Command.run? coin (commands ++ .setThrottleProbability p :: later) s
            = Command.run? coin (commands ++ later) s := by
  refine ⟨?_, fun s _ commands => ?_⟩
  · rw [create_iff, Binary64.isProbability_iff, Binary64.isProbability_iff]
  · obtain ⟨⟨replies, t⟩, ran, same⟩ := run?_yields fair commands s
    refine ⟨replies, t, ran, fun stream => Prod.mk.inj (same stream), ?_, ?_, fun p => ?_, fun p e rejected later => ?_⟩
    · exact Binary64.isProbability_iff.mp t.throttle.isProbability
    · exact Binary64.isProbability_iff.mp t.isProbability
    · rw [setThrottleProbability_ok_iff, Binary64.isProbability_iff]
    · have out : ¬ p.IsProbability := by
        intro probability
        obtain ⟨u, accepted, -⟩ := (setThrottleProbability_ok_iff (s := t)).mpr probability
        cases rejected.symm.trans accepted
      exact run?_rejected out commands later s

end

-- A coin that has no outcome for any pattern out of range.
theorem subnormal_throttle_draws :
    let coin : Coin := fun p d => if p.IsProbability then d.toss? p else none
    let settings := { Settings.defaults with throttleProbability := ⟨1⟩, delayProbability := .one }
    let commands : List (Command Memory) :=
      [.call ⟨1⟩ (.put ['b'] ['k'] []), .setThrottleProbability Binary64.zero.negate,
        .call ⟨2⟩ (.deleteBatch ['b'] [['k'], ['l']]), .setThrottleProbability .one]
    (∀ p : Binary64, p.IsFromZeroToOne → ∀ d, (coin p d).isSome) ∧
      (∀ d, coin .nan d = none ∧ coin .infinity d = none) ∧
      ∃ s, create (Memory.withBucket ['b']) settings (.ofSeed 0) = .ok s ∧
        ∃ replies t, Command.run? coin commands s = some (replies, t) ∧
          t.throttle.probability.IsFromZeroToOne ∧ t.rules.probability.IsFromZeroToOne ∧
          ∀ later, Command.run? coin (commands ++ .setThrottleProbability .nan :: later) s
            = Command.run? coin (commands ++ later) s := by
  intro coin settings commands
  have fair : ∀ p : Binary64, p.IsFromZeroToOne → ∀ d, (coin p d).isSome := by
    intro p ranged d
    have probability := Binary64.isProbability_iff.mpr ranged
    have tossed : coin p d = some (d.toss p probability.isNaN_eq_false) :=
      (if_pos probability).trans (dif_pos probability.isNaN_eq_false)
    rw [tossed]
    rfl
  obtain ⟨accepts, draws⟩ := accepted_store_always_draws fair (Memory.withBucket ['b']) settings (.ofSeed 0)
  have delay := Binary64.isProbability_iff.mp (show settings.delayProbability.IsProbability by decide)
  have throttle := Binary64.isProbability_iff.mp (show settings.throttleProbability.IsProbability by decide)
  obtain ⟨s, created⟩ := accepts.mpr ⟨delay, throttle⟩
  obtain ⟨replies, t, ran, -, throttle', delay', -, rejected⟩ := draws s created commands
  refine ⟨fair, fun d => ⟨if_neg (by decide), if_neg (by decide)⟩, s, created, replies, t, ran, throttle', delay', ?_⟩
  exact rejected .nan _ (setThrottleProbability_out (by decide) t)

end Stale
end StaleStore
