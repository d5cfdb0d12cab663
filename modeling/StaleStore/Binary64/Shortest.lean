import StaleStore.Binary64
import StaleStore.Text

namespace StaleStore
namespace Binary64

-- The reals that round to `significand * 2 ^ scale`, in quarters of its last binary place. Below a
-- power of two the neighbour is only half as far.
structure Interval where
  low : Nat
  value : Nat
  high : Nat
  closed : Bool

def interval (x : Binary64) : Interval :=
  let m := x.significand
  let near := x.fractionField = 0 ∧ 1 < x.exponentField
  { low := if near then 4 * m - 1 else 4 * m - 2
    value := 4 * m
    high := 4 * m + 2
    closed := m % 2 = 0 }

def Interval.holds (i : Interval) (scaled den : Nat) : Bool :=
  if i.closed then i.low * den ≤ scaled && scaled ≤ i.high * den
  else i.low * den < scaled && scaled < i.high * den

structure Decimal where
  digits : Nat
  exponent : Int
deriving DecidableEq, Repr

def powerRatio (base : Nat) (e : Int) : Nat × Nat :=
  if 0 ≤ e then (Nat.pow base e.toNat, 1) else (1, Nat.pow base (-e).toNat)

inductive Tie where
  | toEven
  | away
deriving DecidableEq, Repr

def Tie.takesLower (tie : Tie) (lower : Nat) : Bool :=
  match tie with
  | .toEven => lower % 2 = 0
  | .away => false

def gridPoint? (tie : Tie) (i : Interval) (unit place : Int) : Option Decimal :=
  let (un, ud) := powerRatio 2 unit
  let (pn, pd) := powerRatio 10 place
  -- a grid point `c` has `c * pn * ud` in units of `1 / (pd * un)`, the interval `un * pd` per quarter
  let step := pn * ud
  let quarter := un * pd
  let below := i.value * quarter / step
  let above := below + 1
  let belowFits := i.holds (below * step) quarter && below ≠ 0
  let aboveFits := i.holds (above * step) quarter
  let belowGap := i.value * quarter - below * step
  let aboveGap := above * step - i.value * quarter
  if belowFits && aboveFits then
    some ⟨if belowGap < aboveGap || (belowGap = aboveGap && tie.takesLower below) then below else above, place⟩
  else if belowFits then some ⟨below, place⟩
  else if aboveFits then some ⟨above, place⟩
  else none

-- The least `k` with value `< 10 ^ k`, from a floor of the logarithm that is at most two too small.
def decimalSize (i : Interval) (unit : Int) : Int :=
  let guess : Int := ((i.value.log2 : Int) + unit) * 30103 / 100000
  let (un, ud) := powerRatio 2 unit
  let under (k : Int) : Bool := let (pn, pd) := powerRatio 10 k; i.value * un * pd < pn * ud
  if under guess then guess else if under (guess + 1) then guess + 1 else guess + 2

def firstGrid (tie : Tie) (i : Interval) (unit size : Int) : Nat → Nat → Decimal
  | _, 0 => ⟨i.value, unit⟩
  | count, fuel + 1 =>
    match gridPoint? tie i unit (size - count) with
    | some d => d
    | none => firstGrid tie i unit size (count + 1) fuel

-- The shortest decimal of a finite number other than zero, its sign left out. Seventeen digits always
-- suffice.
def shortest (tie : Tie) (x : Binary64) : Decimal :=
  let i := x.interval
  let unit := x.scale - 2
  firstGrid tie i unit (decimalSize i unit) 1 17

structure Layout where
  tie : Tie
  plainFrom : Option Int
  plainBelow : Option Int
  wholeEnd : Text
  notANumber : Text
  infinite : Text

def Decimal.spread (d : Decimal) : Text × Int :=
  let all := Text.decimal d.digits
  (all.trimRight '0', all.length + d.exponent)

def Layout.plain (layout : Layout) (digits : Text) (point : Int) : Text :=
  if point ≤ 0 then '0' :: '.' :: (List.replicate (-point).toNat '0' ++ digits)
  else
    let p := point.toNat
    if digits.length ≤ p then digits ++ List.replicate (p - digits.length) '0' ++ layout.wholeEnd
    else digits.take p ++ '.' :: digits.drop p

def scientific (digits : Text) (point : Int) : Text :=
  let e := point - 1
  let sign := if e < 0 then '-' else '+'
  let front :=
    match digits with
    | [] => []
    | [d] => [d]
    | d :: rest => d :: '.' :: rest
  front ++ 'e' :: sign :: Text.decimal e.natAbs

def Layout.render (layout : Layout) (x : Binary64) : Text :=
  let sign : Text := if x.isNegative then ['-'] else []
  if x.isNaN then layout.notANumber
  else if x.isInfinite then sign ++ layout.infinite
  else if x.isZero then sign ++ '0' :: layout.wholeEnd
  else
    let (digits, point) := (x.shortest layout.tie).spread
    let isPlain := layout.plainFrom.all (· ≤ point - 1) && layout.plainBelow.all (point - 1 < ·)
    sign ++ if isPlain then layout.plain digits point else scientific digits point

-- In messages numbers never have an exponent and whole numbers no point, and of two digits that are
-- equally near the greater is written.
def messageLayout : Layout where
  tie := .away
  plainFrom := none
  plainBelow := none
  wholeEnd := []
  notANumber := ['N', 'a', 'N']
  infinite := ['i', 'n', 'f']

def toMessage (x : Binary64) : Text := messageLayout.render x

end Binary64
end StaleStore
