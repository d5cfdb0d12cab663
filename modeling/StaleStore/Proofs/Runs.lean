import StaleStore.Stale
import StaleStore.Store.Memory

namespace StaleStore

inductive Step where
  | call (c : Call)
  | createBucket (bucket : Text)
  | clear
  | resetStats
  | setFailureLimit (limit : UInt64)
  | setThrottleProbability (p : Binary64)
  | reorder (order : TableOrder)

inductive Outcome where
  | replied (r : Except StoreError Reply)
  | changed (r : Except SettingsError Unit)

namespace Step

def perform (now : Timestamp) : Step → Stale Memory → Outcome × Stale Memory
  | call c, s => let (r, s) := c.perform now s; (.replied r, s)
  | createBucket b, s => (.changed (.ok ()), { s with backend := s.backend.createBucket b })
  | clear, s => (.changed (.ok ()), s.clear)
  | resetStats, s => (.changed (.ok ()), s.resetStats)
  | setFailureLimit limit, s => (.changed (.ok ()), s.setFailureLimit limit)
  | setThrottleProbability p, s =>
    match s.setThrottleProbability p with
    | .ok s => (.changed (.ok ()), s)
    | .error e => (.changed (.error e), s)
  | reorder order, s => (.changed (.ok ()), s.reorder order)

def performPlain (now : Timestamp) : Step → Memory → Outcome × Memory
  | call c, m => let (r, m) := c.perform now m; (.replied r, m)
  | createBucket b, m => (.changed (.ok ()), m.createBucket b)
  | _, m => (.changed (.ok ()), m)

end Step

abbrev Timeline := List (Timestamp × Step)

namespace Timeline

def run : Timeline → Stale Memory → List Outcome × Stale Memory
  | [], s => ([], s)
  | (now, step) :: rest, s =>
    let (outcome, s) := step.perform now s
    let (outcomes, s) := run rest s
    (outcome :: outcomes, s)

def runPlain : Timeline → Memory → List Outcome × Memory
  | [], m => ([], m)
  | (now, step) :: rest, m =>
    let (outcome, m) := step.performPlain now m
    let (outcomes, m) := runPlain rest m
    (outcome :: outcomes, m)

end Timeline

def Outcome.isThrottled : Outcome → Bool
  | .replied (.error (.throttled _)) => true
  | _ => false

end StaleStore
