import StaleStore.Draws.Stream
import StaleStore.Settings

namespace StaleStore

structure DelayRules where
  substring : Text
  probability : Binary64
  window : Span
deriving DecidableEq, Repr

namespace DelayRules

def ofSettings (s : Settings) : DelayRules := ⟨s.substring, s.delayProbability, s.window⟩

def isEligible (r : DelayRules) (key : Text) : Bool := Text.hasInfix r.substring key

def delays (r : DelayRules) (h : r.probability.isNaN = false) (key : Text) (d : DrawStream) :
    Bool × DrawStream :=
  if r.isEligible key then d.toss r.probability h else (false, d)

def delays? (r : DelayRules) (key : Text) (d : DrawStream) : Option (Bool × DrawStream) :=
  if r.isEligible key then d.toss? r.probability else some (false, d)

end DelayRules
end StaleStore
