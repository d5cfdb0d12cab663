import StaleStore.Draws.Stream
import StaleStore.Simulation.Plan
import StaleStore.Simulation.Report

namespace StaleStore
namespace Simulation

def nestedOdds : Binary64 := Plan.fraction 3 1
def markedOdds : Binary64 := Plan.fraction 6 1
def rootOdds : Binary64 := Plan.fraction 3 1

theorem nestedOdds_isNaN : nestedOdds.isNaN = false := by decide +kernel
theorem markedOdds_isNaN : markedOdds.isNaN = false := by decide +kernel
theorem rootOdds_isNaN : rootOdds.isNaN = false := by decide +kernel

def directoryName (number : UInt64) : Text := 'd' :: (Text.decimal number.toNat ++ ['/'])

def fileName (nested marked : Bool) (number : UInt64) : Text :=
  (if nested then "sub/".toList else []) ++ (if marked then delayMark else [])
    ++ 'f' :: Text.decimal number.toNat

namespace Plan

def drawDirectory (p : Plan) (d : DrawStream) : Text × DrawStream :=
  let (number, d) := d.between 0 p.directories
  (directoryName number, d)

def drawKey (p : Plan) (d : DrawStream) : Text × DrawStream :=
  let (directory, d) := p.drawDirectory d
  let (nested, d) := d.toss nestedOdds nestedOdds_isNaN
  let (marked, d) := d.toss markedOdds markedOdds_isNaN
  let (number, d) := d.between 0 p.files
  (directory ++ fileName nested marked number, d)

def drawKeys (p : Plan) : Nat → DrawStream → KeySet × DrawStream
  | 0, d => (∅, d)
  | count + 1, d =>
    let (key, d) := p.drawKey d
    let (keys, d) := p.drawKeys count d
    (keys.insert key, d)

-- The operation of a kind from 0 to 99; there is none where the clock is to move and the plan has no bound
-- for the step.
def drawOfKind? (p : Plan) (kind : UInt64) (d : DrawStream) : Option (Operation × DrawStream) :=
  if kind < 25 then
    let (key, d) := p.drawKey d
    some (.put key, d)
  else if kind < 40 then
    let (key, d) := p.drawKey d
    some (.delete key, d)
  else if kind < 48 then
    let (count, d) := d.between 1 4
    let (keys, d) := p.drawKeys count.toNat d
    some (.deleteBatch keys.toList, d)
  else if kind < 65 then
    let (atRoot, d) := d.toss rootOdds rootOdds_isNaN
    if atRoot then some (.listRecursive [], d)
    else
      let (directory, d) := p.drawDirectory d
      some (.listRecursive directory, d)
  else if kind < 80 then
    let (directory, d) := p.drawDirectory d
    some (.listDelimited directory, d)
  else
    p.advanceBound?.map fun bound =>
      let (ms, d) := d.between 0 bound
      (.advance ms, d)

def drawOperation? (p : Plan) (d : DrawStream) : Option (Operation × DrawStream) := do
  let (kind, d) := d.between 0 100
  let (clears, d) ← d.toss? p.clearProbability
  if clears then return (.clear, d) else p.drawOfKind? kind d

end Plan
end Simulation
end StaleStore
