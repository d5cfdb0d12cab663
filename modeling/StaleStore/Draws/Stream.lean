import StaleStore.Binary64
import StaleStore.Draws.Seed

namespace StaleStore

structure DrawStream where
  key : Draws.Key
  drawn : Nat
deriving DecidableEq, Repr

namespace DrawStream

def ofSeed (seed : UInt64) : DrawStream := ⟨Draws.Key.ofSeed seed, 0⟩

def valueAt (key : Draws.Key) (position : Nat) : UInt64 :=
  (key.block (UInt64.ofNat (position / 8))).value ⟨position % 8, Nat.mod_lt _ (by decide)⟩

def next (d : DrawStream) : UInt64 × DrawStream :=
  (valueAt d.key d.drawn, { d with drawn := d.drawn + 1 })

inductive Odds where
  | always
  | below (threshold : UInt64)
deriving DecidableEq, Repr

-- A draw of 64 bits is compared with the probability times `2 ^ 64`, cut to a whole number.
def Odds.ofProbability (p : Binary64) : Odds :=
  if p.isNegative then .below 0
  else if Binary64.one.bits ≤ p.bits then .always
  else .below (UInt64.ofNat (p.shiftedFloor 64))

def tossOdds (odds : Odds) (d : DrawStream) : Bool × DrawStream :=
  match odds with
  | .always => (true, d)
  | .below threshold => let (v, d) := d.next; (v < threshold, d)

-- A coin whose probability is not a number has no outcome.
def toss (p : Binary64) (_ : p.isNaN = false) (d : DrawStream) : Bool × DrawStream :=
  d.tossOdds (.ofProbability p)

def toss? (p : Binary64) (d : DrawStream) : Option (Bool × DrawStream) :=
  if h : p.isNaN = false then some (d.toss p h) else none

-- Draw until the low half of `value * range` is at most `zone`. A draw is rejected with probability
-- under one half, so the attempts allowed are never used up in practice.
def uniform (range zone : UInt64) : Nat → DrawStream → UInt64 × DrawStream
  | 0, d => (0, d)
  | attempts + 1, d =>
    let (v, d) := d.next
    let product := v.toNat * range.toNat
    if product % UInt64.size ≤ zone.toNat then (UInt64.ofNat (product / UInt64.size), d)
    else uniform range zone attempts d

-- The greatest multiple of `range` by a power of two below `2 ^ 64`, less one.
def zoneOf (range : UInt64) : UInt64 :=
  UInt64.ofNat (range.toNat <<< (63 - range.toNat.log2) - 1)

def between (low high : UInt64) (d : DrawStream) : UInt64 × DrawStream :=
  if high ≤ low then (low, d)
  else
    let range := high - low
    let (offset, d) := uniform range (zoneOf range) 4096 d
    (low + offset, d)

end DrawStream
end StaleStore
