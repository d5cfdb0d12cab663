import StaleStore.Simulation.Choice
import StaleStore.Stale
import StaleStore.Store.Memory

namespace StaleStore
namespace Simulation

def bucket : Text := "dst".toList

structure Harness where
  plan : Plan
  draws : DrawStream
  now : Timestamp
  store : Stale Memory
  shadow : Shadow
  report : Report

namespace Harness

def create (p : Plan) : Except SettingsError Harness := do
  let store ← Stale.create (Memory.withBucket bucket) p.settings (.ofSeed p.storeSeed)
  return {
    plan := p
    draws := .ofSeed p.seed
    now := ⟨1000000⟩
    store := store
    shadow := .start p.delayMillis
    report := .start p.seed }

def violate (message : Text) (h : Harness) : Harness :=
  { h with report := h.report.addViolation message }

def call {α : Type} (x : Timestamp → Action (Stale Memory) α) (h : Harness) : Option α × Harness :=
  let (outcome, store) := x h.now h.store
  let h := { h with store := store }
  match outcome with
  | .ok a => (some a, h)
  | .error (.throttled _) => (none, { h with report := { h.report with throttled := h.report.throttled + 1 } })
  | .error e => (none, h.violate ("unexpected store error: ".toList ++ e.message))

def keyBytes (key : Text) : Bytes := (String.ofList key).toUTF8.toList

def clear (h : Harness) : Harness :=
  { h with
    store := h.store.clear
    shadow := h.shadow.clear
    report := { h.report with clears := h.report.clears + 1 } }

def put (key : Text) (h : Harness) : Harness :=
  match h.call (ObjectStore.put · bucket key (keyBytes key)) with
  | (none, h) => h
  | (some _, h) =>
    { h with
      shadow := h.shadow.put h.now key
      report := { h.report with puts := h.report.puts + 1 } }

-- Whether a delete captures a summary is settled before the call.
def delete (key : Text) (h : Harness) : Harness :=
  let captured := h.shadow.captures h.now key
  match h.call (ObjectStore.delete · bucket key) with
  | (none, h) => h
  | (some _, h) =>
    { h with
      shadow := h.shadow.delete h.now key captured
      report := { h.report with deletes := h.report.deletes + 1 } }

def deleteBatch (keys : List Text) (h : Harness) : Harness :=
  let captured := keys.map fun key => (key, h.shadow.captures h.now key)
  match h.call (ObjectStore.deleteBatch · bucket keys) with
  | (none, h) => h
  | (some result, h) =>
    let h :=
      if result.deleted.length ≠ keys.length then
        h.violate ("batch deleted ".toList ++ Text.quotedList result.deleted)
      else h
    { h with
      shadow := captured.foldl (fun s (key, captured) => s.delete h.now key captured) h.shadow
      report := { h.report with deletes := h.report.deletes + keys.length } }

def keySet (keys : List Text) : KeySet := .ofList keys

def listRecursive (under : Text) (h : Harness) : Harness :=
  match h.call (ObjectStore.list · (.recursive bucket under)) with
  | (none, h) => h
  | (some listing, h) =>
    let h := { h with report := { h.report with listings := h.report.listings + 1 } }
    let actual : List Text := (keySet (listing.summaries.map (·.key))).toList
    let expected := h.shadow.expectedRecursive h.now under
    if actual = expected then h
    else h.violate ("recursive listing mismatch: actual=".toList ++ Text.quotedSet actual
      ++ ", expected=".toList ++ Text.quotedSet expected)

def listDelimited (under : Text) (h : Harness) : Harness :=
  match h.call (ObjectStore.list · (.delimited bucket under)) with
  | (none, h) => h
  | (some listing, h) =>
    let h := { h with report := { h.report with listings := h.report.listings + 1 } }
    let keys : List Text := (keySet (listing.summaries.map (·.key))).toList
    let prefixes : List Text := (keySet listing.commonPrefixes).toList
    let (expectedKeys, expectedPrefixes) := h.shadow.expectedDelimited h.now under
    if keys = expectedKeys ∧ prefixes = expectedPrefixes.toList then h
    else h.violate ("delimited listing mismatch: actual=(".toList ++ Text.quotedSet keys ++ ", ".toList
      ++ Text.quotedSet prefixes ++ "), expected=(".toList ++ Text.quotedSet expectedKeys
      ++ ", ".toList ++ Text.quotedSet expectedPrefixes.toList ++ [')'])

def perform : Operation → Harness → Harness
  | .put key => put key
  | .delete key => delete key
  | .deleteBatch keys => deleteBatch keys
  | .listRecursive under => listRecursive under
  | .listDelimited under => listDelimited under
  | .advance ms => fun h => { h with now := h.now.advanceMillis ms }
  | .clear => clear

-- The first of the standing rules that is broken: the budget is kept, every throttle was seen, the
-- wrapped store holds what it should, and so does the record of delayed puts.
def broken? (h : Harness) : Option Text :=
  let count := h.store.throttle.count
  let limit := h.plan.failureLimit
  let stored := h.store.backend.objectCount bucket
  let delayed := h.store.delays.pendingPuts
  if limit ≠ 0 ∧ limit.toNat < count then
    some ("failure count ".toList ++ Text.decimal count ++ " exceeds limit ".toList
      ++ Text.decimal limit.toNat)
  else if count ≠ h.report.throttled then
    some ("failure count ".toList ++ Text.decimal count ++ " != observed throttles ".toList
      ++ Text.decimal h.report.throttled)
  else if stored ≠ h.shadow.objects.size then
    some ("underlying store has ".toList ++ Text.decimal stored ++ " objects, model has ".toList
      ++ Text.decimal h.shadow.objects.size)
  else if delayed ≠ h.shadow.puts.size then
    some ("store holds ".toList ++ Text.decimal delayed ++ " delayed puts, model ".toList
      ++ Text.decimal h.shadow.puts.size)
  else none

def checkRules (h : Harness) : Harness := h.broken?.elim h (h.violate ·)

def begin (op : Operation) (h : Harness) : Harness :=
  { h with report := { h.report with operations := h.report.operations + 1, last := some op } }

def step? (h : Harness) : Option Harness := do
  let (op, draws) ← h.plan.drawOperation? h.draws
  return (perform op (begin op { h with draws := draws })).checkRules

def run? : Nat → Harness → Option Harness
  | 0, h => some h
  | count + 1, h => do
    let h ← h.step?
    if h.report.isSuccess then h.run? count else return h

end Harness

-- The run of one plan; a plan no store can be built from is itself a violation.
def runPlan? (p : Plan) (operations : Nat) : Option Report :=
  match Harness.create p with
  | .ok h => (h.run? operations).map (·.report)
  | .error e =>
    some { Report.start p.seed with violations := ["invalid config: ".toList ++ e.message] }

def seedsFrom? (first : UInt64) (count : Nat) : Option (List UInt64) :=
  if first.toNat + count ≤ UInt64.size then
    some ((List.range count).map fun i => first + UInt64.ofNat i)
  else none

def runBatch? (plan : UInt64 → Plan) (firstSeed : UInt64) (seeds operations : Nat) : Option (List Report) := do
  (← seedsFrom? firstSeed seeds).mapM fun seed => runPlan? (plan seed) operations

end Simulation
end StaleStore
