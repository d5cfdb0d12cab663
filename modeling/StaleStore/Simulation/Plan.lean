import StaleStore.Settings
import StaleStore.Simulation.Shadow

namespace StaleStore
namespace Simulation

structure Plan where
  seed : UInt64
  delayMillis : UInt64
  throttleProbability : Binary64
  failureLimit : UInt64
  maxAdvance : UInt64
  clearProbability : Binary64
  directories : UInt64
  files : UInt64
deriving DecidableEq, Repr

namespace Plan

def fraction (digits places : Nat) : Binary64 := .ofDecimal digits (-places)

def standard (seed : UInt64) : Plan where
  seed := seed
  delayMillis := 1000
  throttleProbability := .zero
  failureLimit := 0
  maxAdvance := 400
  clearProbability := fraction 1 2
  directories := 3
  files := 4

def throttled (seed : UInt64) : Plan :=
  { standard seed with throttleProbability := fraction 3 1, failureLimit := 25 }

def highChaos (seed : UInt64) : Plan where
  seed := seed
  delayMillis := 5000
  throttleProbability := fraction 2 1
  failureLimit := 0
  maxAdvance := 200
  clearProbability := fraction 5 3
  directories := 2
  files := 3

def settings (p : Plan) : Settings where
  substring := delayMark
  delayProbability := .one
  delayMillis := p.delayMillis
  throttleProbability := p.throttleProbability
  failureLimit := p.failureLimit

-- A step of the clock is drawn below this bound. There is none where the greatest step allowed is the
-- last word.
def advanceBound? (p : Plan) : Option UInt64 :=
  if p.maxAdvance + 1 = 0 then none else some (p.maxAdvance + 1)

-- The store draws from a stream of its own, so that the operations do not depend on its faults.
def storeSeed (p : Plan) : UInt64 := p.seed + 0x9E3779B97F4A7C15

end Plan
end Simulation
end StaleStore
