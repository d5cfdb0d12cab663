import StaleStore.Proofs.Stale.Delays
import StaleStore.Proofs.Store.Calls
import StaleStore.Stale

namespace StaleStore

namespace DelayRules

def choose (r : DelayRules) (h : r.probability.isNaN = false) : List Text → DrawStream → List Text × DrawStream
  | [], d => ([], d)
  | key :: rest, d =>
    let (delayed, d) := r.delays h key d
    let (chosen, d) := choose r h rest d
    (if delayed then key :: chosen else chosen, d)

theorem choose_sublist (r : DelayRules) (h : r.probability.isNaN = false) (keys : List Text) (d : DrawStream) :
    (r.choose h keys d).1.Sublist keys := by
  induction keys generalizing d with
  | nil => exact .slnil
  | cons key rest ih =>
    simp only [choose]
    split
    · exact (ih _).cons_cons key
    · exact (ih _).cons key

theorem delays_certain {r : DelayRules} (certain : r.probability = .one) (h : r.probability.isNaN = false) (key : Text)
    (d : DrawStream) : r.delays h key d = (r.isEligible key, d) := by
  have always : DrawStream.Odds.ofProbability r.probability = .always := by
    rw [certain]
    rfl
  unfold delays DrawStream.toss
  rw [always]
  cases r.isEligible key <;> rfl

theorem choose_certain {r : DelayRules} (certain : r.probability = .one) (h : r.probability.isNaN = false)
    (keys : List Text) (d : DrawStream) : r.choose h keys d = (keys.filter r.isEligible, d) := by
  induction keys with
  | nil => rfl
  | cons key rest ih =>
    simp only [choose, delays_certain certain, ih, List.filter_cons]

end DelayRules

namespace Stale

variable {σ : Type} (now : Timestamp) (bucket key : Text)

structure Fresh (backend : σ) (settings : Settings) (s : Stale σ) : Prop where
  backend_eq : s.backend = backend
  delays_eq : s.delays = .empty
  rules_eq : s.rules = ⟨if settings.substring = Settings.matchAll then [] else settings.substring,
    settings.delayProbability, settings.window⟩
  count_eq : s.throttle.count = 0
  limit_eq : s.throttle.limit = settings.failureLimit
  probability_eq : s.throttle.probability = settings.throttleProbability

theorem create_fresh {backend : σ} {settings : Settings} {draws : DrawStream} {s : Stale σ}
    (created : create backend settings draws = .ok s) : Fresh backend settings s := by
  unfold create Settings.validated at created
  split at created
  · split at created
    · cases created
      exact ⟨rfl, rfl, rfl, rfl, rfl, rfl⟩
    · cases created
  · cases created

theorem create_of_probabilities (backend : σ) (settings : Settings) (draws : DrawStream)
    (delay : settings.delayProbability.IsProbability) (throttle : settings.throttleProbability.IsProbability) :
    ∃ s, create backend settings draws = .ok s := by
  unfold create Settings.validated
  rw [dif_pos delay, dif_pos throttle]
  exact ⟨_, rfl⟩

def Passes (s : Stale σ) : Prop :=
  ∃ draws, checkThrottle s = (.ok (), { s with
    draws := draws
    stats := { s.stats with operations := s.stats.operations + 1 } })

def Fails (s : Stale σ) : Prop :=
  s.throttle.hasBudget = true ∧ ∃ draws, checkThrottle s = (.error (.throttled (s.throttle.count + 1)), { s with
    throttle := { s.throttle with count := s.throttle.count + 1 }
    draws := draws
    stats := { s.stats with
      operations := s.stats.operations + 1
      throttled := s.stats.throttled + 1 } })

theorem passes_or_fails (s : Stale σ) : s.Passes ∨ s.Fails := by
  unfold Passes Fails checkThrottle Throttle.check
  by_cases never : s.throttle.probability.isNonPositive = true
  · simp only [never, if_true]
    exact Or.inl ⟨_, rfl⟩
  · simp only [if_neg never]
    split
    · rename_i falls
      exact Or.inr ⟨(Bool.and_eq_true_iff.mp falls).2, _, rfl⟩
    · exact Or.inl ⟨_, rfl⟩

theorem checkThrottle_cases (s : Stale σ) :
    (∃ draws stats, checkThrottle s = (.ok (), { s with draws := draws, stats := stats })) ∨
    (s.throttle.hasBudget = true ∧ ∃ draws stats, checkThrottle s
      = (.error (.throttled (s.throttle.count + 1)),
        { s with
          throttle := { s.throttle with count := s.throttle.count + 1 }
          draws := draws
          stats := stats })) := by
  rcases passes_or_fails s with ⟨draws, passed⟩ | ⟨budget, draws, failed⟩
  · exact Or.inl ⟨draws, _, passed⟩
  · exact Or.inr ⟨budget, draws, _, failed⟩

def Throttled (s t : Stale σ) : Prop :=
  s.throttle.hasBudget = true ∧ ∃ draws stats, t = { s with
    throttle := { s.throttle with count := s.throttle.count + 1 }
    draws := draws
    stats := stats }

theorem afterThrottle_cases {α : Type} (rest : Action (Stale σ) α) (s : Stale σ) :
    (∃ t, s.Throttled t ∧
      (do checkThrottle; rest : Action (Stale σ) α) s = (.error (.throttled (s.throttle.count + 1)), t)) ∨
    ∃ draws stats, (do checkThrottle; rest : Action (Stale σ) α) s
      = rest { s with draws := draws, stats := stats } := by
  rcases checkThrottle_cases s with ⟨draws, stats, passed⟩ | ⟨budget, draws, stats, failed⟩
  · exact Or.inr ⟨draws, stats, Action.bind_of_ok passed⟩
  · exact Or.inl ⟨_, ⟨budget, draws, stats, rfl⟩, Action.bind_of_error failed⟩

theorem onBackend_eq {α : Type} {y : Action σ α} {s : Stale σ} {r : Except StoreError α} {b : σ}
    (result : y s.backend = (r, b)) : onBackend y s = (r, { s with backend := b }) := by
  rw [onBackend, Action.onPart, result]

theorem chooseDelay_eq (s : Stale σ) :
    ∃ delayed draws, chooseDelay key s = (.ok delayed, { s with draws := draws }) ∧
      (delayed = true → s.rules.isEligible key = true) := by
  refine ⟨(s.rules.delays s.delay_isNaN_eq_false key s.draws).1,
    (s.rules.delays s.delay_isNaN_eq_false key s.draws).2, rfl, ?_⟩
  unfold DelayRules.delays
  split
  · rename_i eligible
    exact fun _ => eligible
  · intro impossible
    cases impossible

theorem chooseDelay_certain {s : Stale σ} (certain : s.rules.probability = .one) :
    chooseDelay key s = (.ok (s.rules.isEligible key), s) := by
  unfold chooseDelay
  rw [DelayRules.delays_certain certain]

theorem recordDeletes_counted (deletes : List (Text × Option Summary)) (s : Stale σ) :
    recordDeletes now deletes s = (.ok (), { s with
      delays := deletes.foldl (fun d e => d.recordDelete now e.1 e.2) s.delays
      stats := { s.stats with delayedDeletes := s.stats.delayedDeletes + deletes.length } }) := by
  induction deletes generalizing s with
  | nil => rfl
  | cons e rest ih =>
    refine (ih (recordDelete now e.1 e.2 s).2).trans ?_
    simp [recordDelete, Action.modify, Nat.add_assoc, Nat.add_comm 1]

theorem recordDeletes_eq (deletes : List (Text × Option Summary)) (s : Stale σ) :
    ∃ stats, recordDeletes now deletes s = (.ok (), { s with
      delays := deletes.foldl (fun d e => d.recordDelete now e.1 e.2) s.delays
      stats := stats }) :=
  ⟨_, recordDeletes_counted now deletes s⟩

def overlaid (under : Text) (recursive : Bool) (summaries : List Summary) (commonPrefixes : List Text)
    (s : Stale σ) : OverlaidListing :=
  overlay (s.delays.hides s.rules.window now) (s.order.arrange (s.delays.purge s.rules.window now).heldDeletes) under
    recursive summaries commonPrefixes

-- A listing looks at what is left of the delays after dropping what has passed, and at nothing else of them.
theorem overlaid_congr {s t : Stale σ} (rules : t.rules = s.rules) (order : t.order = s.order)
    (same : t.delays.purge s.rules.window now = s.delays.purge s.rules.window now) (under : Text)
    (recursive : Bool) (summaries : List Summary) (commonPrefixes : List Text) :
    t.overlaid now under recursive summaries commonPrefixes
      = s.overlaid now under recursive summaries commonPrefixes := by
  rw [overlaid, overlaid, rules, order, ← DelayRecord.hides_purge, same, DelayRecord.hides_purge]

section
variable (o : Bucket)

def listing (r : ListRequest) (s : Stale Memory) : Listing :=
  let page := Page.ofBucket r.bucket o r.under r.delimiter r.marker r.maxKeys
  let out := s.overlaid now r.under r.isRecursive page.summaries page.commonPrefixes
  { r.answer page with summaries := out.summaries, commonPrefixes := out.commonPrefixes }

def tokenListing (r : TokenRequest) (s : Stale Memory) : TokenListing :=
  let page := Page.ofBucket r.bucket o r.under r.delimiter r.start r.maxKeys
  let out := s.overlaid now r.under r.isRecursive page.summaries page.commonPrefixes
  { r.answer page with summaries := out.summaries, commonPrefixes := out.commonPrefixes }

def captured (s : Stale Memory) : Option Summary :=
  (s.listing now o (.recursive bucket key)).summaries.find? (·.key = key)

end

variable {s : Stale Memory} {o : Bucket}

theorem listUnchecked_of_stored (r : ListRequest) (stored : s.backend.buckets[r.bucket]? = some o) :
    ∃ stats, listUnchecked now r s = (.ok (s.listing now o r),
      { s with delays := s.delays.purge s.rules.window now, stats := stats }) := by
  have asked : onBackend (ObjectStore.list now r) s
      = (.ok (r.answer (Page.ofBucket r.bucket o r.under r.delimiter r.marker r.maxKeys)), s) :=
    onBackend_eq (Memory.list_of_stored r stored)
  rw [listUnchecked, Action.bind_of_ok asked]
  exact ⟨_, rfl⟩

theorem listUnchecked_of_missing (r : ListRequest) (missing : s.backend.buckets[r.bucket]? = none) :
    listUnchecked now r s = (.error (.noSuchBucket r.bucket), s) := by
  have asked : onBackend (ObjectStore.list now r) s = (.error (.noSuchBucket r.bucket), s) :=
    onBackend_eq (Memory.list_of_missing r missing)
  rw [listUnchecked, Action.bind_of_error asked]

theorem listTokensUnchecked_of_stored (r : TokenRequest) (stored : s.backend.buckets[r.bucket]? = some o) :
    ∃ stats, listTokensUnchecked now r s = (.ok (s.tokenListing now o r),
      { s with delays := s.delays.purge s.rules.window now, stats := stats }) := by
  have asked : onBackend (ObjectStore.listTokens now r) s
      = (.ok (r.answer (Page.ofBucket r.bucket o r.under r.delimiter r.start r.maxKeys)), s) :=
    onBackend_eq (Memory.listTokens_of_stored r stored)
  rw [listTokensUnchecked, Action.bind_of_ok asked]
  exact ⟨_, rfl⟩

theorem listTokensUnchecked_of_missing (r : TokenRequest) (missing : s.backend.buckets[r.bucket]? = none) :
    listTokensUnchecked now r s = (.error (.noSuchBucket r.bucket), s) := by
  have asked : onBackend (ObjectStore.listTokens now r) s = (.error (.noSuchBucket r.bucket), s) :=
    onBackend_eq (Memory.listTokens_of_missing r missing)
  rw [listTokensUnchecked, Action.bind_of_error asked]

theorem capture_of_stored (stored : s.backend.buckets[bucket]? = some o) :
    ∃ stats, capture now bucket key s = (.ok (s.captured now bucket key o),
      { s with delays := s.delays.purge s.rules.window now, stats := stats }) := by
  obtain ⟨stats, listed⟩ := listUnchecked_of_stored now (.recursive bucket key) stored
  refine ⟨stats, ?_⟩
  rw [capture, Action.bind_of_ok listed]
  rfl

theorem capture_of_missing (missing : s.backend.buckets[bucket]? = none) :
    capture now bucket key s = (.error (.noSuchBucket bucket), s) := by
  rw [capture, Action.bind_of_error (listUnchecked_of_missing now (.recursive bucket key) missing)]
  rfl

theorem captured_key {x : Summary} (found : s.captured now bucket key o = some x) : x.key = key := by
  simpa using List.find?_some found

theorem captured_congr {t : Stale Memory} (rules : t.rules = s.rules) (order : t.order = s.order)
    (same : t.delays.purge s.rules.window now = s.delays.purge s.rules.window now) :
    t.captured now bucket key o = s.captured now bucket key o := by
  simp only [captured, listing, overlaid_congr now rules order same]

-- Capturing for one key of a batch does not change what is captured for the next.
theorem captureAll_of_stored (keys : List Text) (stored : s.backend.buckets[bucket]? = some o) :
    let chosen := s.rules.choose s.delay_isNaN_eq_false keys s.draws
    ∃ delays stats, (delays = s.delays ∨ delays = s.delays.purge s.rules.window now) ∧
      captureAll now bucket keys s = (.ok (chosen.1.map fun k => (k, s.captured now bucket k o)),
        { s with delays := delays, draws := chosen.2, stats := stats }) := by
  induction keys generalizing s with
  | nil => exact ⟨s.delays, s.stats, .inl rfl, rfl⟩
  | cons key rest ih =>
    let drawn := s.rules.delays s.delay_isNaN_eq_false key s.draws
    have chose : chooseDelay key s = (.ok drawn.1, { s with draws := drawn.2 }) := rfl
    rw [captureAll, Action.bind_of_ok chose, DelayRules.choose]
    dsimp only
    cases delayed : drawn.1 with
    | false => exact @ih { s with draws := drawn.2 } stored
    | true =>
      obtain ⟨stats, capture⟩ := capture_of_stored now bucket key (s := { s with draws := drawn.2 }) stored
      obtain ⟨delays, stats', kept, captures⟩ :=
        @ih { s with delays := s.delays.purge s.rules.window now, draws := drawn.2, stats := stats } stored
      refine ⟨delays, stats', ?_, ?_⟩
      · rw [DelayRecord.purge_purge, or_self] at kept
        exact Or.inr kept
      · have same := fun k => captured_congr now bucket k (s := s) (o := o)
          (t := { s with delays := s.delays.purge s.rules.window now, draws := drawn.2, stats := stats }) rfl rfl
          (DelayRecord.purge_purge _ _ _)
        rw [if_pos rfl, Action.bind_of_ok capture, Action.bind_of_ok captures]
        simp only [same]
        rfl

theorem captureAll_of_missing (keys : List Text) (missing : s.backend.buckets[bucket]? = none) :
    ∃ draws, captureAll now bucket keys s = (.ok [], { s with draws := draws }) ∨
      keys ≠ [] ∧ captureAll now bucket keys s = (.error (.noSuchBucket bucket), { s with draws := draws }) := by
  induction keys generalizing s with
  | nil => exact ⟨s.draws, .inl rfl⟩
  | cons key rest ih =>
    obtain ⟨delayed, draws, chose, -⟩ := chooseDelay_eq key s
    rw [captureAll, Action.bind_of_ok chose]
    cases delayed with
    | false =>
      obtain ⟨draws', passed | ⟨-, failed⟩⟩ := @ih { s with draws := draws } missing
      · exact ⟨draws', .inl passed⟩
      · exact ⟨draws', .inr ⟨List.cons_ne_nil _ _, failed⟩⟩
    | true =>
      have capture := capture_of_missing now bucket key (s := { s with draws := draws }) missing
      refine ⟨draws, .inr ⟨List.cons_ne_nil _ _, ?_⟩⟩
      rw [if_pos rfl, Action.bind_of_error capture]

-- What comes after the throttle check of a delete, where there is the bucket: it cannot fail any more.
theorem delete_unchecked (stored : s.backend.buckets[bucket]? = some o) :
    let drawn := s.rules.delays s.delay_isNaN_eq_false key s.draws
    ∃ stats, (do
        if ← chooseDelay key then
          let summary ← capture now bucket key
          onBackend (ObjectStore.delete now bucket key)
          recordDelete now key summary
        else onBackend (ObjectStore.delete now bucket key) : Action (Stale Memory) Unit) s = (.ok (), { s with
      backend := { s.backend with buckets := s.backend.buckets.insert bucket (o.erase key) }
      delays := if drawn.1 then (s.delays.purge s.rules.window now).recordDelete now key (s.captured now bucket key o)
        else s.delays
      draws := drawn.2
      stats := stats }) := by
  intro drawn
  have chose : chooseDelay key s = (.ok drawn.1, { s with draws := drawn.2 }) := rfl
  rw [Action.bind_of_ok chose]
  cases delayed : drawn.1 with
  | false =>
    have deletes := onBackend_eq (Memory.delete_of_stored key stored) (s := { s with draws := drawn.2 })
    exact ⟨s.stats, deletes⟩
  | true =>
    obtain ⟨stats, captures⟩ := capture_of_stored now bucket key (s := { s with draws := drawn.2 }) stored
    have deletes := onBackend_eq (Memory.delete_of_stored key stored)
      (s := { s with delays := s.delays.purge s.rules.window now, draws := drawn.2, stats := stats })
    refine ⟨{ stats with delayedDeletes := stats.delayedDeletes + 1 }, ?_⟩
    rw [if_pos rfl, Action.bind_of_ok captures]
    exact Action.bind_of_ok deletes

theorem deleteBatch_unchecked {keys : List Text} (nonempty : keys ≠ [])
    (stored : s.backend.buckets[bucket]? = some o) :
    let chosen := s.rules.choose s.delay_isNaN_eq_false keys s.draws
    ∃ base stats, (base = s.delays ∨ base = s.delays.purge s.rules.window now) ∧ (do
        let delayed ← captureAll now bucket keys
        let result ← onBackend (ObjectStore.deleteBatch now bucket keys)
        recordDeletes now (delayed.filter fun (key, _) => result.deleted.contains key)
        return result : Action (Stale Memory) BatchDeletion) s = (.ok ⟨keys, []⟩, { s with
      backend := { s.backend with buckets := s.backend.buckets.insert bucket (keys.foldl (·.erase ·) o) }
      delays := chosen.1.foldl (fun d k => d.recordDelete now k (s.captured now bucket k o)) base
      draws := chosen.2
      stats := stats }) := by
  intro chosen
  obtain ⟨base, stats, kept, captures⟩ := captureAll_of_stored now bucket keys stored
  let delayed := chosen.1.map fun k => (k, s.captured now bucket k o)
  have deletes := onBackend_eq (Memory.deleteBatch_of_stored nonempty stored)
    (s := { s with delays := base, draws := chosen.2, stats := stats })
  have known : delayed.filter (fun e => keys.contains e.1) = delayed := by
    apply List.filter_eq_self.mpr
    intro e member
    obtain ⟨k, chose, rfl⟩ := List.mem_map.mp member
    exact List.contains_iff_mem.mpr ((DelayRules.choose_sublist ..).subset chose)
  obtain ⟨stats', recorded⟩ := recordDeletes_eq now delayed { s with
    backend := { s.backend with buckets := s.backend.buckets.insert bucket (keys.foldl (·.erase ·) o) }
    delays := base
    draws := chosen.2
    stats := stats }
  rw [List.foldl_map] at recorded
  refine ⟨base, stats', kept, (Action.bind_of_ok captures).trans ((Action.bind_of_ok deletes).trans ?_)⟩
  exact Action.bind_of_ok ((congrArg (recordDeletes now · _) known).trans recorded)

end Stale
end StaleStore
