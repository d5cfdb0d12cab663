namespace StaleStore

structure Binary64 where
  bits : UInt64
deriving DecidableEq, Repr, Inhabited

namespace Binary64

def zero : Binary64 := ⟨0⟩
def one : Binary64 := ⟨0x3FF0000000000000⟩
def infinity : Binary64 := ⟨0x7FF0000000000000⟩
def nan : Binary64 := ⟨0x7FF8000000000000⟩

def leadingDigit : Nat := 0x10000000000000

def isNegative (x : Binary64) : Bool := 0x8000000000000000 ≤ x.bits.toNat
def exponentField (x : Binary64) : Nat := x.bits.toNat / leadingDigit % 2048
def fractionField (x : Binary64) : Nat := x.bits.toNat % leadingDigit

def isNaN (x : Binary64) : Bool := x.exponentField = 2047 && x.fractionField ≠ 0
def isInfinite (x : Binary64) : Bool := x.exponentField = 2047 && x.fractionField = 0
def isZero (x : Binary64) : Bool := x.exponentField = 0 && x.fractionField = 0

-- A finite number is its sign times `significand * 2 ^ scale`.
def significand (x : Binary64) : Nat :=
  if x.exponentField = 0 then x.fractionField else leadingDigit + x.fractionField
def scale (x : Binary64) : Int := (max x.exponentField 1 : Nat) - 1075

def negate (x : Binary64) : Binary64 := ⟨x.bits ^^^ 0x8000000000000000⟩

def withSign (negative : Bool) (x : Binary64) : Binary64 := if negative then x.negate else x

-- Numbers from zero to one, both included. Patterns of numbers without a sign are ordered like the
-- numbers; with a sign, zero alone is in range.
def IsProbability (x : Binary64) : Prop := x.bits ≤ one.bits ∨ x.bits = zero.negate.bits

instance (x : Binary64) : Decidable x.IsProbability := inferInstanceAs (Decidable (_ ∨ _))

theorem IsProbability.isNaN_eq_false {x : Binary64} (h : x.IsProbability) : x.isNaN = false := by
  rcases h with h | h
  · have bound : x.bits.toNat ≤ 0x3FF0000000000000 := UInt64.le_iff_toNat_le.mp h
    have field : x.exponentField ≠ 2047 := by unfold exponentField leadingDigit; omega
    simp [isNaN, field]
  · have : x = zero.negate := by cases x; exact congrArg mk h
    subst this; decide

theorem one_isProbability : one.IsProbability := Or.inl (UInt64.le_refl _)

-- Zero or less; no comparison holds of a pattern that is not a number.
def isNonPositive (x : Binary64) : Bool := x.isZero || (x.isNegative && !x.isNaN)

def roundDiv (num den : Nat) : Nat :=
  let q := num / den
  let r := num % den
  if den < 2 * r || (den = 2 * r && q % 2 = 1) then q + 1 else q

def floorLog (num den : Nat) : Int :=
  let k : Int := (num.log2 : Int) - den.log2
  let reached := if 0 ≤ k then den <<< k.toNat ≤ num else den ≤ num <<< (-k).toNat
  if reached then k else k - 1

-- The number nearest to `num / den`: 53 binary digits, fewer below the least normal number, and an
-- infinity beyond the greatest finite one. A significand that rounds up to the next power of two
-- carries into the exponent by plain addition of the fields.
def ofRatio (num den : Nat) : Binary64 :=
  if num = 0 then zero
  else
    let unit := max (floorLog num den - 52) (-1074)
    let n := if 0 ≤ unit then roundDiv num (den <<< unit.toNat)
      else roundDiv (num <<< (-unit).toNat) den
    let bits := (unit + 1074).toNat * leadingDigit + n
    if infinity.bits.toNat ≤ bits then infinity else ⟨UInt64.ofNat bits⟩

def ofDecimal (digits : Nat) (exponent : Int) : Binary64 :=
  if digits = 0 then zero
  else if 400 < exponent then infinity
  else if exponent + (digits.log2 / 3 + 1 : Nat) < -400 then zero
  else if 0 ≤ exponent then ofRatio (digits * Nat.pow 10 exponent.toNat) 1
  else ofRatio digits (Nat.pow 10 (-exponent).toNat)

def ofNat (n : Nat) : Binary64 := ofRatio n 1

def mulUnsigned (x y : Binary64) : Binary64 :=
  let m := x.significand * y.significand
  let q := x.scale + y.scale
  if 0 ≤ q then ofRatio (m <<< q.toNat) 1 else ofRatio m (1 <<< (-q).toNat)

def divUnsigned (x y : Binary64) : Binary64 :=
  let q := x.scale - y.scale
  if 0 ≤ q then ofRatio (x.significand <<< q.toNat) y.significand
  else ofRatio x.significand (y.significand <<< (-q).toNat)

def shiftedFloor (x : Binary64) (shift : Nat) : Nat :=
  let q := x.scale + shift
  if 0 ≤ q then x.significand <<< q.toNat else x.significand >>> (-q).toNat

end Binary64
end StaleStore
