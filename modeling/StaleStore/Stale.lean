import StaleStore.Delay.Overlay
import StaleStore.Delay.Record
import StaleStore.Delay.Rules
import StaleStore.Store.Interface
import StaleStore.Throttle

namespace StaleStore

-- What has been injected so far, in unbounded numbers; counters of 64 bits agree with them below 2 ^ 64.
structure Stats where
  operations : Nat
  throttled : Nat
  delayedPuts : Nat
  delayedDeletes : Nat
  listings : Nat
  hiddenEntries : Nat
  restoredSummaries : Nat
  restoredPrefixes : Nat
deriving DecidableEq, Repr

def Stats.zero : Stats := ⟨0, 0, 0, 0, 0, 0, 0, 0⟩

-- Throttle and delays draw from one stream.
structure Stale (σ : Type) where
  backend : σ
  throttle : Throttle
  rules : DelayRules
  isProbability : rules.probability.IsProbability
  delays : DelayRecord
  order : TableOrder
  draws : DrawStream
  stats : Stats

namespace Stale

variable {σ α : Type}

theorem delay_isNaN_eq_false (s : Stale σ) : s.rules.probability.isNaN = false := s.isProbability.isNaN_eq_false

def create (backend : σ) (settings : Settings) (draws : DrawStream) : Except SettingsError (Stale σ) := do
  let s ← settings.validated
  return {
    backend := backend
    throttle := ⟨s.throttleProbability, s.failureLimit, 0, s.throttle_isProbability⟩
    rules := .ofSettings s.toSettings
    isProbability := s.delay_isProbability
    delays := .empty
    order := .byKey
    draws := draws
    stats := .zero }

def clear (s : Stale σ) : Stale σ := { s with delays := .empty }

def setFailureLimit (limit : UInt64) (s : Stale σ) : Stale σ :=
  { s with throttle := s.throttle.setLimit limit }

def setThrottleProbability (p : Binary64) (s : Stale σ) : Except SettingsError (Stale σ) := do
  return { s with throttle := ← s.throttle.setProbability p }

def resetStats (s : Stale σ) : Stale σ := { s with stats := .zero }

-- The same store, whose deletes come out of their table in another order from now on. A new store has key order until
-- it is given any other.
def reorder (order : TableOrder) (s : Stale σ) : Stale σ := { s with order := order }

def delayMillis (s : Stale σ) : UInt64 := s.rules.window.toMillis64

def describe (s : Stale σ) : Text :=
  "Inconsistent object store with ".toList
    ++ Settings.describeDelay s.delayMillis s.rules.substring s.rules.probability
      s.throttle.probability s.throttle.limit
    ++ ", failure count ".toList ++ Text.decimal s.throttle.count

-- The throttle check, which comes first.
def checkThrottle : Action (Stale σ) Unit := fun s =>
  let (outcome, throttle, draws) := s.throttle.check s.draws
  let throttled := match outcome with
    | .ok () => 0
    | .error _ => 1
  (outcome, { s with
    throttle := throttle
    draws := draws
    stats := { s.stats with
      operations := s.stats.operations + 1
      throttled := s.stats.throttled + throttled } })

def onBackend (x : Action σ α) : Action (Stale σ) α :=
  .onPart (·.backend) (fun b s => { s with backend := b }) x

def chooseDelay (key : Text) : Action (Stale σ) Bool := fun s =>
  let (delayed, draws) := s.rules.delays s.delay_isNaN_eq_false key s.draws
  (.ok delayed, { s with draws := draws })

def recordPut (now : Timestamp) (key : Text) : Action (Stale σ) Unit :=
  .modify fun s => { s with
    delays := s.delays.recordPut now key
    stats := { s.stats with delayedPuts := s.stats.delayedPuts + 1 } }

def recordDelete (now : Timestamp) (key : Text) (summary : Option Summary) : Action (Stale σ) Unit :=
  .modify fun s => { s with
    delays := s.delays.recordDelete now key summary
    stats := { s.stats with delayedDeletes := s.stats.delayedDeletes + 1 } }

def recordDeletes (now : Timestamp) : List (Text × Option Summary) → Action (Stale σ) Unit
  | [] => pure ()
  | (key, summary) :: rest => do
    recordDelete now key summary
    recordDeletes now rest

-- Lay the delays over a raw listing. Deletes that have passed are dropped on the way.
def overlayRaw (now : Timestamp) (under : Text) (recursive : Bool) (summaries : List Summary)
    (commonPrefixes : List Text) : Action (Stale σ) OverlaidListing := fun s =>
  let delays := s.delays.purge s.rules.window now
  let out := overlay (s.delays.hides s.rules.window now) (s.order.arrange delays.heldDeletes) under recursive summaries
    commonPrefixes
  (.ok out, { s with
    delays := delays
    stats := { s.stats with
      listings := s.stats.listings + 1
      hiddenEntries := s.stats.hiddenEntries + out.hidden
      restoredSummaries := s.stats.restoredSummaries + out.restoredSummaries
      restoredPrefixes := s.stats.restoredPrefixes + out.restoredPrefixes } })

variable [ObjectStore σ]

-- Listings without the throttle check. All that has to do with paging is the wrapped store's.
def listUnchecked (now : Timestamp) (r : ListRequest) : Action (Stale σ) Listing := do
  let raw ← onBackend (ObjectStore.list now r)
  let out ← overlayRaw now r.under r.isRecursive raw.summaries raw.commonPrefixes
  return { raw with summaries := out.summaries, commonPrefixes := out.commonPrefixes }

def listTokensUnchecked (now : Timestamp) (r : TokenRequest) : Action (Stale σ) TokenListing := do
  let raw ← onBackend (ObjectStore.listTokens now r)
  let out ← overlayRaw now r.under r.isRecursive raw.summaries raw.commonPrefixes
  return { raw with summaries := out.summaries, commonPrefixes := out.commonPrefixes }

def capture (now : Timestamp) (bucket key : Text) : Action (Stale σ) (Option Summary) := do
  let l ← listUnchecked now (.recursive bucket key)
  return l.summaries.find? (·.key = key)

def captureAll (now : Timestamp) (bucket : Text) :
    List Text → Action (Stale σ) (List (Text × Option Summary))
  | [] => pure []
  | key :: rest => do
    if ← chooseDelay key then
      let summary ← capture now bucket key
      return (key, summary) :: (← captureAll now bucket rest)
    else captureAll now bucket rest

def put (now : Timestamp) (bucket key : Text) (data : Bytes) : Action (Stale σ) Text := do
  checkThrottle
  let etag ← onBackend (ObjectStore.put now bucket key data)
  if ← chooseDelay key then recordPut now key
  return etag

def delete (now : Timestamp) (bucket key : Text) : Action (Stale σ) Unit := do
  checkThrottle
  if ← chooseDelay key then
    let summary ← capture now bucket key
    onBackend (ObjectStore.delete now bucket key)
    recordDelete now key summary
  else onBackend (ObjectStore.delete now bucket key)

def deleteBatch (now : Timestamp) (bucket : Text) (keys : List Text) : Action (Stale σ) BatchDeletion := do
  checkThrottle
  let delayed ← captureAll now bucket keys
  let result ← onBackend (ObjectStore.deleteBatch now bucket keys)
  recordDeletes now (delayed.filter fun (key, _) => result.deleted.contains key)
  return result

def list (now : Timestamp) (r : ListRequest) : Action (Stale σ) Listing := do
  checkThrottle
  listUnchecked now r

def listTokens (now : Timestamp) (r : TokenRequest) : Action (Stale σ) TokenListing := do
  checkThrottle
  listTokensUnchecked now r

def checked (x : Action σ α) : Action (Stale σ) α := do
  checkThrottle
  onBackend x

instance : ObjectStore (Stale σ) where
  put := put
  get now b k := onBackend (ObjectStore.get now b k)
  delete := delete
  deleteBatch := deleteBatch
  list := list
  listTokens := listTokens
  initiateUpload now b k := checked (ObjectStore.initiateUpload now b k)
  uploadPart now b k u n data := checked (ObjectStore.uploadPart now b k u n data)
  completeUpload now b k u parts := checked (ObjectStore.completeUpload now b k u parts)
  abortUpload now b k u := onBackend (ObjectStore.abortUpload now b k u)
  listUploads now b under := checked (ObjectStore.listUploads now b under)

end Stale
end StaleStore
