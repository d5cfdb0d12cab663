import StaleStore.Draws.Stream

namespace StaleStore

theorem Binary64.eq_zero_of_nonPositive {x : Binary64} (never : x.isNonPositive = true)
    (unsigned : x.isNegative = false) : x = .zero := by
  obtain ⟨exponent, fraction⟩ : x.exponentField = 0 ∧ x.fractionField = 0 := by
    simpa [isNonPositive, unsigned, isZero] using never
  have bounded : x.bits.toNat < 0x8000000000000000 := by simpa [isNegative] using unsigned
  have same : x.bits.toNat = (0 : UInt64).toNat := by
    rw [UInt64.toNat_zero]
    unfold exponentField leadingDigit at exponent
    unfold fractionField leadingDigit at fraction
    omega
  exact congrArg mk (UInt64.toNat_inj.mp same)

namespace DrawStream

theorem uniform_lt {range : UInt64} (positive : 0 < range.toNat) (zone : UInt64) (attempts : Nat)
    (d : DrawStream) : (uniform range zone attempts d).1.toNat < range.toNat := by
  induction attempts generalizing d with
  | zero => exact positive
  | succ attempts ih =>
    rw [uniform]
    rcases d.next with ⟨v, later⟩
    dsimp only
    split
    · have product : v.toNat * range.toNat < UInt64.size * range.toNat :=
        Nat.mul_lt_mul_of_pos_right v.toNat_lt positive
      have quotient := Nat.div_lt_of_lt_mul product
      rw [UInt64.toNat_ofNat_of_lt' (Nat.lt_trans quotient range.toNat_lt)]
      exact quotient
    · exact ih later

theorem between_bounds {low high : UInt64} (less : low < high) (d : DrawStream) :
    low.toNat ≤ (between low high d).1.toNat ∧ (between low high d).1.toNat < high.toNat := by
  have order := UInt64.lt_iff_toNat_lt.mp less
  have width : (high - low).toNat = high.toNat - low.toNat :=
    UInt64.toNat_sub_of_le _ _ (UInt64.le_iff_toNat_le.mpr (Nat.le_of_lt order))
  have positive : 0 < (high - low).toNat := by omega
  have offset := uniform_lt positive (zoneOf (high - low)) 4096 d
  have fits := high.toNat_lt
  rw [between, if_neg (UInt64.not_le.mpr less)]
  dsimp only
  rw [UInt64.toNat_add, Nat.mod_eq_of_lt (by omega)]
  omega

theorem between_zero_lt (bound : UInt64) (d : DrawStream) :
    (between 0 bound d).1.toNat < max 1 bound.toNat := by
  by_cases less : 0 < bound
  · have bounds := between_bounds less d
    omega
  · rw [between, if_pos (UInt64.not_lt.mp less)]
    exact Nat.lt_of_lt_of_le Nat.one_pos (Nat.le_max_left 1 _)

theorem toss_of_nonPositive {p : Binary64} (number : p.isNaN = false) (never : p.isNonPositive = true)
    (d : DrawStream) : (d.toss p number).1 = false := by
  have odds : Odds.ofProbability p = .below 0 := by
    unfold Odds.ofProbability
    split
    · rfl
    · rename_i unsigned
      rw [Binary64.eq_zero_of_nonPositive never (Bool.not_eq_true _ ▸ unsigned)]
      decide
  rw [toss, odds]
  simp [tossOdds]

end DrawStream
end StaleStore
