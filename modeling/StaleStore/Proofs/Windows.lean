import StaleStore.Time

namespace StaleStore
namespace Timestamp

theorem millisSince_toNat (now earlier : Timestamp) :
    (now.millisSince earlier).toNat = now.ms.toNat - earlier.ms.toNat := by
  unfold millisSince
  split
  · rename_i early
    rw [UInt64.le_iff_toNat_le] at early
    simp [Nat.sub_eq_zero_of_le early]
  · rename_i late
    rw [UInt64.le_iff_toNat_le, Nat.not_le] at late
    exact UInt64.toNat_sub_of_le _ _ (UInt64.le_iff_toNat_le.mpr (Nat.le_of_lt late))

theorem ofMillis_toNanos (ms : UInt64) : (Span.ofMillis ms).toNanos = ms.toNat * 1000000 := by
  simp only [Span.ofMillis, Span.toNanos, UInt64.toNat_div, UInt64.reduceToNat]
  omega

theorem hasElapsed_iff (now earlier : Timestamp) (span : Span) : now.hasElapsed earlier span = true ↔
    span.toNanos ≤ (now.ms.toNat - earlier.ms.toNat) * 1000000 := by
  unfold hasElapsed since
  rw [decide_eq_true_iff, ofMillis_toNanos, millisSince_toNat]

theorem hasElapsed_mono {now later earlier : Timestamp} {span : Span} (order : now.ms ≤ later.ms)
    (elapsed : now.hasElapsed earlier span = true) : later.hasElapsed earlier span = true := by
  rw [UInt64.le_iff_toNat_le] at order
  rw [hasElapsed_iff] at elapsed ⊢
  exact Nat.le_trans elapsed (Nat.mul_le_mul_right _ (Nat.sub_le_sub_right order _))

def isPast (window : UInt64) (now earlier : Timestamp) : Bool :=
  window.toNat ≤ now.ms.toNat - earlier.ms.toNat

theorem hasElapsed_ofMillis (now earlier : Timestamp) (window : UInt64) :
    now.hasElapsed earlier (.ofMillis window) = isPast window now earlier := by
  rw [Bool.eq_iff_iff, hasElapsed_iff, ofMillis_toNanos]
  unfold isPast
  rw [decide_eq_true_iff]
  exact Nat.mul_le_mul_right_iff (by decide)

theorem not_hasElapsed_now (now : Timestamp) {window : UInt64} (lasting : 0 < window) :
    now.hasElapsed now (.ofMillis window) = false := by
  rw [UInt64.lt_iff_toNat_lt, UInt64.toNat_zero] at lasting
  rw [hasElapsed_ofMillis, isPast, Nat.sub_self]
  exact decide_eq_false (Nat.not_le.mpr lasting)

end Timestamp

theorem Span.toMillis_eq (span : Span) : span.toMillis = span.toNanos / 1000000 := by
  simp only [toMillis, toNanos]
  omega

def Span.IsWhole (span : Span) : Prop := span.toNanos % 1000000 = 0

instance (span : Span) : Decidable span.IsWhole := Nat.decEq _ _

namespace Timestamp

def Reaches (earlier : Timestamp) (span : Span) : Prop := earlier.ms.toNat + span.toMillis < UInt64.size

instance (earlier : Timestamp) (span : Span) : Decidable (earlier.Reaches span) := Nat.decLt _ _

theorem add_toNat (earlier : Timestamp) {span : Span} (fits : span.toMillis < UInt64.size) :
    (earlier.add span).ms.toNat = min (earlier.ms.toNat + span.toMillis) (UInt64.size - 1) := by
  have length : span.toMillis64.toNat = span.toMillis := UInt64.toNat_ofNat_of_lt' fits
  unfold add
  dsimp only
  rw [length]
  split
  · rename_i beyond
    rw [UInt64.toNat_ofNat_of_lt' (by decide)]
    omega
  · rename_i reaches
    rw [UInt64.toNat_add, length, Nat.mod_eq_of_lt (Nat.not_le.mp reaches)]
    omega

theorem hasElapsed_anti {now earlier : Timestamp} {short long : Span} (order : short.toNanos ≤ long.toNanos)
    (elapsed : now.hasElapsed earlier long = true) : now.hasElapsed earlier short = true := by
  rw [hasElapsed_iff] at elapsed ⊢
  exact Nat.le_trans order elapsed

theorem add_mono (earlier : Timestamp) {short long : Span} (order : short.toNanos ≤ long.toNanos)
    (fits : long.toMillis < UInt64.size) : (earlier.add short).ms ≤ (earlier.add long).ms := by
  have shorter : short.toMillis ≤ long.toMillis := by
    rw [Span.toMillis_eq, Span.toMillis_eq]
    exact Nat.div_le_div_right order
  rw [UInt64.le_iff_toNat_le, add_toNat earlier fits, add_toNat earlier (Nat.lt_of_le_of_lt shorter fits)]
  omega

theorem hasElapsed_iff_add {now earlier : Timestamp} {span : Span} (order : earlier.ms ≤ now.ms)
    (fits : span.toMillis < UInt64.size) : now.hasElapsed earlier span = true ↔
      (earlier.add span).ms ≤ now.ms ∧ earlier.Reaches span ∧ (¬ span.IsWhole → (earlier.add span).ms < now.ms) := by
  have last : now.ms.toNat < UInt64.size := now.ms.toNat_lt
  have length := span.toMillis_eq
  rw [UInt64.le_iff_toNat_le] at order
  rw [hasElapsed_iff, UInt64.le_iff_toNat_le, UInt64.lt_iff_toNat_lt, add_toNat earlier fits]
  unfold Reaches Span.IsWhole
  constructor
  · intro elapsed
    refine ⟨?_, ?_, fun part => ?_⟩ <;> omega
  · intro ends
    obtain ⟨reached, reaches, beyond⟩ := ends
    by_cases whole : span.toNanos % 1000000 = 0
    · omega
    · have beyond := beyond whole
      omega

-- A sum takes less than a millisecond for nothing, and stops at the last reading: the clock has come to it, but the
-- window has not passed.
theorem sum_before_end :
    let half : Span := ⟨0, 500000, by decide⟩
    let longest : Span := .ofMillis 18446744073709551615
    let first : Timestamp := ⟨1⟩
    let last : Timestamp := ⟨18446744073709551615⟩
    (first.ms ≤ first.ms ∧ ¬ (first.hasElapsed first half = true ↔ (first.add half).ms ≤ first.ms)) ∧
      first.ms ≤ last.ms ∧ ¬ (last.hasElapsed first longest = true ↔ (first.add longest).ms ≤ last.ms) := by
  decide

-- A window has ended as soon as the clock has come to the sum of its start and its length, if that sum is a reading,
-- and come past it, if the length is no whole number of milliseconds.
theorem window_ends_at_sum (now earlier : Timestamp) (span : Span) :
    (earlier.ms ≤ now.ms → span.toMillis < UInt64.size → (now.hasElapsed earlier span = true ↔
      (earlier.add span).ms ≤ now.ms ∧ earlier.Reaches span ∧
        (¬ span.IsWhole → (earlier.add span).ms < now.ms))) ∧
      (now.hasElapsed earlier span = true →
        (∀ later : Timestamp, now.ms ≤ later.ms → later.hasElapsed earlier span = true) ∧
          ∀ shorter : Span, shorter.toNanos ≤ span.toNanos → now.hasElapsed earlier shorter = true) ∧
      (span.toMillis < UInt64.size → ∀ shorter : Span, shorter.toNanos ≤ span.toNanos →
        (earlier.add shorter).ms ≤ (earlier.add span).ms) := by
  refine ⟨hasElapsed_iff_add, fun elapsed => ⟨?_, ?_⟩, ?_⟩
  · intro later order
    exact hasElapsed_mono order elapsed
  · intro shorter order
    exact hasElapsed_anti order elapsed
  · intro fits shorter order
    exact add_mono earlier order fits

theorem half_millisecond_awaited :
    let start : Timestamp := ⟨5⟩
    let now : Timestamp := ⟨1006⟩
    let window : Span := ⟨1, 500000, by decide⟩
    (start.ms ≤ now.ms ∧ window.toMillis < UInt64.size ∧ now.ms ≤ 2000 ∧
        (Span.ofMillis 1000).toNanos ≤ window.toNanos) ∧
      now.hasElapsed start window = true ∧ Timestamp.hasElapsed ⟨2000⟩ start window = true ∧
      now.hasElapsed start (.ofMillis 1000) = true ∧ (start.add (.ofMillis 1000)).ms ≤ (start.add window).ms := by
  intro start now window
  have order : start.ms ≤ now.ms := by decide
  have fits : window.toMillis < UInt64.size := by decide
  have later : now.ms ≤ 2000 := by decide
  have shorter : (Span.ofMillis 1000).toNanos ≤ window.toNanos := by decide
  obtain ⟨ends, stays, grows⟩ := window_ends_at_sum now start window
  have elapsed : now.hasElapsed start window = true := (ends order fits).mpr (by decide)
  obtain ⟨afterwards, sooner⟩ := stays elapsed
  exact ⟨⟨order, fits, later, shorter⟩, elapsed, afterwards ⟨2000⟩ later, sooner _ shorter, grows fits _ shorter⟩

end Timestamp
end StaleStore
