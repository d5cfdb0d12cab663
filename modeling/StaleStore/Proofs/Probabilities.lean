import Mathlib.Algebra.Order.Field.Rat
import Mathlib.Algebra.Order.Field.Power
import StaleStore.Binary64

namespace StaleStore
namespace Binary64

def toRat (x : Binary64) : ℚ := (if x.isNegative then -1 else 1) * (x.significand * 2 ^ x.scale)

structure IsFromZeroToOne (x : Binary64) : Prop where
  number : x.isNaN = false
  finite : x.isInfinite = false
  low : 0 ≤ x.toRat
  high : x.toRat ≤ 1

variable {x : Binary64}

theorem bits_eq_fields (x : Binary64) : x.bits.toNat
    = (if x.isNegative then 2048 * leadingDigit else 0) + (x.exponentField * leadingDigit + x.fractionField) := by
  have bound := x.bits.toNat_lt
  unfold isNegative exponentField fractionField leadingDigit
  split
  · rename_i negative
    have negative := of_decide_eq_true negative
    omega
  · rename_i positive
    have positive : ¬ _ := fun negative => positive (decide_eq_true negative)
    omega

theorem fractionField_lt (x : Binary64) : x.fractionField < leadingDigit := Nat.mod_lt _ (by decide)

theorem exponentField_lt (x : Binary64) : x.exponentField < 2048 := Nat.mod_lt _ (by decide)

theorem isFinite_iff : (x.isNaN = false ∧ x.isInfinite = false) ↔ x.exponentField ≠ 2047 := by
  unfold isNaN isInfinite
  by_cases special : x.exponentField = 2047 <;> simp [special]

-- A number without its sign, in units of half the least subnormal number.
theorem magnitude_le_one_iff_units :
    (x.significand : ℚ) * 2 ^ x.scale ≤ 1 ↔ x.significand * 2 ^ max x.exponentField 1 ≤ 2 ^ 1075 := by
  have parts : (2 : ℚ) ^ x.scale = 2 ^ max x.exponentField 1 / 2 ^ 1075 := by
    rw [scale, zpow_sub₀ two_ne_zero, zpow_natCast, zpow_ofNat]
  rw [parts, ← mul_div_assoc, div_le_one₀ (pow_pos two_pos 1075)]
  exact_mod_cast Iff.rfl

theorem units_le_one_iff : x.significand * 2 ^ max x.exponentField 1 ≤ 2 ^ 1075 ↔
    x.exponentField * leadingDigit + x.fractionField ≤ 1023 * leadingDigit := by
  have fraction := x.fractionField_lt
  have unit : leadingDigit = 2 ^ 52 := by decide
  have whole : (2 : Nat) ^ 1075 = leadingDigit * 2 ^ 1023 := by rw [unit, ← pow_add]
  have leads : 1 ≤ x.exponentField → x.significand = leadingDigit + x.fractionField := by
    intro positive
    rw [significand, if_neg (by omega)]
  rcases Nat.lt_trichotomy x.exponentField 1023 with below | same | above
  · refine iff_of_true ?_ ?_
    · have short : x.significand ≤ 2 * leadingDigit := by
        unfold significand
        split <;> omega
      have least : max x.exponentField 1 + 1 ≤ 1023 :=
        Nat.succ_le_succ (Nat.max_le.mpr ⟨Nat.le_of_lt_succ below, by decide⟩)
      have power : 2 ^ (max x.exponentField 1 + 1) ≤ 2 ^ 1023 := pow_le_pow_right₀ one_le_two least
      calc x.significand * 2 ^ max x.exponentField 1
          ≤ 2 * leadingDigit * 2 ^ max x.exponentField 1 := Nat.mul_le_mul_right _ short
        _ = leadingDigit * 2 ^ (max x.exponentField 1 + 1) := by rw [pow_succ', Nat.mul_comm 2, Nat.mul_assoc]
        _ ≤ leadingDigit * 2 ^ 1023 := Nat.mul_le_mul_left leadingDigit power
        _ = 2 ^ 1075 := whole.symm
    · have product := Nat.mul_le_mul_right leadingDigit (Nat.succ_le_of_lt below)
      rw [Nat.succ_mul] at product
      omega
  · rw [leads (by omega), same, Nat.max_eq_left (by decide), whole, Nat.mul_le_mul_right_iff (Nat.two_pow_pos _)]
    omega
  · refine iff_of_false (Nat.not_le_of_lt ?_) ?_
    · have power : 2 ^ 1024 ≤ 2 ^ max x.exponentField 1 := pow_le_pow_right₀ one_le_two (le_max_of_le_left above)
      calc 2 ^ 1075 = leadingDigit * 2 ^ 1023 := whole
        _ < leadingDigit * 2 ^ 1024 :=
          Nat.mul_lt_mul_of_pos_left (pow_lt_pow_right₀ one_lt_two (by decide)) (by decide)
        _ ≤ x.significand * 2 ^ max x.exponentField 1 := Nat.mul_le_mul (by rw [leads (by omega)]; omega) power
    · have product := Nat.mul_le_mul_right leadingDigit (Nat.succ_le_of_lt above)
      rw [Nat.succ_mul] at product
      have positive : 0 < leadingDigit := by decide
      omega

theorem magnitude_eq_zero_iff :
    (x.significand : ℚ) * 2 ^ x.scale = 0 ↔ x.exponentField = 0 ∧ x.fractionField = 0 := by
  have power : (2 : ℚ) ^ x.scale ≠ 0 := zpow_ne_zero _ two_ne_zero
  rw [mul_eq_zero, or_iff_left power, Nat.cast_eq_zero, significand]
  by_cases subnormal : x.exponentField = 0
  · simp [subnormal]
  · have positive : 0 < leadingDigit := by decide
    rw [if_neg subnormal]
    omega

theorem isProbability_iff_fields : x.IsProbability ↔
    (x.isNegative = false ∧ x.exponentField * leadingDigit + x.fractionField ≤ 1023 * leadingDigit) ∨
      (x.isNegative = true ∧ x.exponentField = 0 ∧ x.fractionField = 0) := by
  have bits := x.bits_eq_fields
  have fraction := x.fractionField_lt
  have exponent := x.exponentField_lt
  have greatest : one.bits.toNat = 1023 * leadingDigit := by decide
  have signed : zero.negate.bits.toNat = 2048 * leadingDigit := by decide
  rw [IsProbability, UInt64.le_iff_toNat_le, ← UInt64.toNat_inj, greatest, signed, bits]
  cases x.isNegative with
  | false =>
    have room := Nat.mul_le_mul_right leadingDigit (Nat.le_of_lt_succ exponent)
    simp only [Bool.false_eq_true, if_false, true_and, false_and, or_false]
    omega
  | true =>
    have positive : 0 < leadingDigit := by decide
    have zero : x.exponentField * leadingDigit = 0 ↔ x.exponentField = 0 := by
      rw [Nat.mul_eq_zero, or_iff_left positive.ne']
    simp only [if_true, Bool.true_eq_false, false_and, true_and, false_or]
    omega

theorem isProbability_iff : x.IsProbability ↔ x.IsFromZeroToOne := by
  have magnitude : 0 ≤ (x.significand : ℚ) * 2 ^ x.scale :=
    mul_nonneg (Nat.cast_nonneg _) (zpow_nonneg zero_le_two _)
  have small : x.exponentField * leadingDigit + x.fractionField ≤ 1023 * leadingDigit → x.exponentField ≠ 2047 := by
    unfold leadingDigit
    omega
  rw [isProbability_iff_fields]
  cases negative : x.isNegative with
  | false =>
    have value : x.toRat = x.significand * 2 ^ x.scale := by simp [toRat, negative]
    have within : x.toRat ≤ 1 ↔ x.exponentField * leadingDigit + x.fractionField ≤ 1023 * leadingDigit := by
      rw [value, magnitude_le_one_iff_units, units_le_one_iff]
    simp only [true_and, Bool.false_eq_true, false_and, or_false, ← within]
    constructor
    · intro high
      obtain ⟨number, finite⟩ := isFinite_iff.mpr (small (within.mp high))
      exact ⟨number, finite, value ▸ magnitude, high⟩
    · exact fun probability => probability.high
  | true =>
    have value : x.toRat = -(x.significand * 2 ^ x.scale) := by simp [toRat, negative]
    have within : 0 ≤ x.toRat ↔ x.exponentField = 0 ∧ x.fractionField = 0 := by
      rw [value, Left.nonneg_neg_iff, ← magnitude_eq_zero_iff]
      exact ⟨fun low => le_antisymm low magnitude, le_of_eq⟩
    simp only [Bool.true_eq_false, false_and, true_and, false_or, ← within]
    constructor
    · intro low
      obtain ⟨exponent, fraction⟩ := within.mp low
      obtain ⟨number, finite⟩ := isFinite_iff.mpr (exponent.trans_ne (by decide))
      refine ⟨number, finite, low, ?_⟩
      rw [value]
      exact (neg_nonpos.mpr magnitude).trans zero_le_one
    · exact fun probability => probability.low

end Binary64
end StaleStore
