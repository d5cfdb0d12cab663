import StaleStore.Draws.Stream
import StaleStore.Settings
import StaleStore.Store.Error

namespace StaleStore

-- The count is an unbounded number; a counter of 64 bits agrees with it until 2 ^ 64 calls have failed.
structure Throttle where
  probability : Binary64
  limit : UInt64
  count : Nat
  isProbability : probability.IsProbability
deriving DecidableEq

namespace Throttle

def create (probability : Binary64) (limit : UInt64) : Except SettingsError Throttle :=
  if h : probability.IsProbability then .ok ⟨probability, limit, 0, h⟩
  else .error (.probabilityOutOfRange Settings.throttleProbabilityName probability)

def hasBudget (t : Throttle) : Bool := t.limit = 0 || t.count < t.limit.toNat

-- Nothing is drawn where the probability is zero or less, but a used-up budget still tosses the coin.
def check (t : Throttle) (d : DrawStream) : Except StoreError Unit × Throttle × DrawStream :=
  if t.probability.isNonPositive then (.ok (), t, d)
  else
    let (falls, d) := d.toss t.probability t.isProbability.isNaN_eq_false
    if falls && t.hasBudget then
      (.error (.throttled (t.count + 1)), { t with count := t.count + 1 }, d)
    else (.ok (), t, d)

def setLimit (limit : UInt64) (t : Throttle) : Throttle := { t with limit := limit, count := 0 }

def setProbability (p : Binary64) (t : Throttle) : Except SettingsError Throttle :=
  if h : p.IsProbability then .ok { t with probability := p, isProbability := h }
  else .error (.probabilityOutOfRange Settings.throttleProbabilityName p)

end Throttle
end StaleStore
