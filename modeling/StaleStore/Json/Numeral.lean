import StaleStore.Binary64.Reading

namespace StaleStore
namespace Json

structure Numeral where
  negative : Bool
  whole : Text
  fraction : Option Text
  exponent : Option (Bool × Text)
deriving DecidableEq, Repr

namespace Numeral

def wholeOk : Text → Bool
  | [] => false
  | [_] => true
  | d :: _ => d != '0'

def exponentOf? : Text → Option (Option (Bool × Text))
  | [] => some none
  | c :: rest =>
    if c = 'e' || c = 'E' then
      let (negative, digits) := Text.splitSign rest
      if digits.isEmpty || !digits.all Char.isDigit then none else some (some (negative, digits))
    else none

def fractionOf? (t : Text) : Option (Option Text × Text) :=
  match t with
  | '.' :: rest =>
    let (digits, after) := Text.spanDigits rest
    if digits.isEmpty then none else some (some digits, after)
  | _ => some (none, t)

def ofText? (t : Text) : Option Numeral := do
  let (negative, rest) := match t with
    | '-' :: rest => (true, rest)
    | _ => (false, t)
  let (whole, rest) := Text.spanDigits rest
  if !wholeOk whole then none
  else
    let (fraction, rest) ← fractionOf? rest
    let exponent ← exponentOf? rest
    some ⟨negative, whole, fraction, exponent⟩

def toUInt64? (n : Numeral) : Option UInt64 :=
  if n.negative || n.fraction.isSome || n.exponent.isSome then none
  else
    let v := Text.digitsValue n.whole
    if v < UInt64.size then some (UInt64.ofNat v) else none

def toNat? (n : Numeral) : Option Nat :=
  if n.negative || n.fraction.isSome || n.exponent.isSome then none
  else some (Text.digitsValue n.whole)

def exponentValue (n : Numeral) : Int :=
  match n.exponent with
  | none => 0
  | some (negative, digits) =>
    ((Binary64.readExponent? digits).getD 0) * if negative then -1 else 1

def toNearest (n : Numeral) : Binary64 :=
  .withSign n.negative (.ofParts n.whole (n.fraction.getD []) n.exponentValue)

def packDigits : Nat → Text → Nat × Nat
  | value, [] => (value, 0)
  | value, d :: rest =>
    let grown := value * 10 + (d.toNat - '0'.toNat)
    if grown < UInt64.size then packDigits grown rest else (value, rest.length + 1)

-- A positive number scaled by a power of ten in floating point: one product or quotient with a power
-- in range, and quotients by the greatest power in range before that while the exponent lies below.
def scaled? (x : Binary64) (exponent : Int) : Nat → Option Binary64
  | 0 => none
  | steps + 1 =>
    if exponent.natAbs ≤ 308 then
      let power := Binary64.ofDecimal 1 exponent.natAbs
      if 0 ≤ exponent then
        let product := x.mulUnsigned power
        if product.isInfinite then none else some product
      else some (x.divUnsigned power)
    else if x.isZero then some x
    else if 0 ≤ exponent then none
    else scaled? (x.divUnsigned (Binary64.ofDecimal 1 308)) (exponent + 308) steps

-- The number a configuration text means: a whole number that fits is rounded once; any other packs
-- the digits that fit into 64 bits and scales them. A magnitude out of range is refused.
def toScaled? (n : Numeral) : Option Binary64 :=
  let (value, left) := packDigits 0 n.whole
  let isWhole := n.fraction.isNone && n.exponent.isNone
  if isWhole && left = 0 then
    some (.withSign n.negative (.ofNat value))
  else
    let fraction := n.fraction.getD []
    let (value, unused) := packDigits value fraction
    let cut := fraction.length - unused
    (scaled? (.ofNat value) (n.exponentValue + left - cut) 4096).map (.withSign n.negative)

end Numeral
end Json
end StaleStore
