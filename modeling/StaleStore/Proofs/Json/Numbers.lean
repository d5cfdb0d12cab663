import StaleStore.Json.Token
import StaleStore.Json.Value

namespace StaleStore
namespace Json

def AreDigits (t : Text) : Prop := t ≠ [] ∧ ∀ c ∈ t, c.isDigit = true

inductive IsWhole : Text → Prop where
  | zero : IsWhole ['0']
  | positive {d rest} : d ≠ '0' → AreDigits (d :: rest) → IsWhole (d :: rest)

inductive IsFraction : Text → Prop where
  | nothing : IsFraction []
  | point {digits} : AreDigits digits → IsFraction ('.' :: digits)

inductive IsExponent : Text → Prop where
  | nothing : IsExponent []
  | power {e sign digits} : e ∈ ['e', 'E'] → sign ∈ [[], ['+'], ['-']] → AreDigits digits →
      IsExponent (e :: (sign ++ digits))

inductive IsNumber : Text → Prop where
  | mk {sign whole fraction exponent} : sign ∈ [[], ['-']] → IsWhole whole → IsFraction fraction →
      IsExponent exponent → IsNumber (sign ++ whole ++ fraction ++ exponent)

variable {t whole fraction exponent digits rest : Text} {c : Char}

theorem IsWhole.areDigits (isWhole : IsWhole whole) : AreDigits whole := by
  cases isWhole with
  | zero => exact ⟨by simp, by simp⟩
  | positive _ digits => exact digits

theorem IsWhole.wholeOk (isWhole : IsWhole whole) : Numeral.wholeOk whole = true := by
  cases isWhole with
  | zero => rfl
  | @positive d rest nonzero _ =>
    cases rest with
    | nil => rfl
    | cons e rest => simpa [Numeral.wholeOk] using nonzero

def EndsDigits (rest : Text) : Prop := ∀ c ∈ rest.head?, c.isDigit = false

theorem spanDigits_append (all : ∀ c ∈ digits, c.isDigit = true) (ends : EndsDigits rest) :
    Text.spanDigits (digits ++ rest) = (digits, rest) := by
  have stops : rest.takeWhile Char.isDigit = [] ∧ rest.dropWhile Char.isDigit = rest := by
    cases rest with
    | nil => exact ⟨rfl, rfl⟩
    | cons c more =>
      have first : c.isDigit = false := ends c rfl
      simp [first]
  unfold Text.spanDigits
  rw [List.takeWhile_append_of_pos all, List.dropWhile_append_of_pos all, stops.1, stops.2, List.append_nil]

theorem IsExponent.ends (isExponent : IsExponent exponent) : EndsDigits exponent := by
  cases isExponent with
  | nothing => intro c member; cases member
  | @power e _ _ letter _ _ =>
    intro c member
    cases member
    have all : ['e', 'E'].all (fun e => !e.isDigit) = true := by decide
    simpa using List.all_eq_true.mp all e letter

theorem IsFraction.ends (isFraction : IsFraction fraction) (isExponent : IsExponent exponent) :
    EndsDigits (fraction ++ exponent) := by
  cases isFraction with
  | nothing => exact isExponent.ends
  | point _ => intro c member; cases member; rfl

theorem IsFraction.read (isFraction : IsFraction fraction) (isExponent : IsExponent exponent) :
    ∃ part, Numeral.fractionOf? (fraction ++ exponent) = some (part, exponent) := by
  cases isFraction with
  | nothing =>
    refine ⟨none, ?_⟩
    cases isExponent with
    | nothing => rfl
    | @power e sign digits letter _ _ =>
      have other : e ≠ '.' := fun same => absurd (same ▸ letter) (by decide)
      simp [Numeral.fractionOf?, other]
  | @point digits areDigits =>
    refine ⟨some digits, ?_⟩
    have nonempty : digits.isEmpty = false := by simpa using areDigits.1
    simp [Numeral.fractionOf?, spanDigits_append areDigits.2 isExponent.ends, nonempty]

theorem splitSign_digits {sign : Text} (signed : sign ∈ [[], ['+'], ['-']]) (areDigits : AreDigits digits) :
    ∃ negative, Text.splitSign (sign ++ digits) = (negative, digits) := by
  simp only [List.mem_cons, List.not_mem_nil, or_false] at signed
  rcases signed with none | plus | minus
  · obtain ⟨d, more, rfl⟩ := List.exists_cons_of_ne_nil areDigits.1
    have digit := areDigits.2 d List.mem_cons_self
    have other : d ≠ '-' ∧ d ≠ '+' := by
      constructor <;> intro same <;> rw [same] at digit <;> exact absurd digit (by decide)
    refine ⟨false, ?_⟩
    rw [none, List.nil_append]
    unfold Text.splitSign
    split
    · rename_i rest same
      exact absurd (List.cons.inj same).1 other.1
    · rename_i rest same
      exact absurd (List.cons.inj same).1 other.2
    · rfl
  · exact ⟨false, by rw [plus]; rfl⟩
  · exact ⟨true, by rw [minus]; rfl⟩

theorem IsExponent.read (isExponent : IsExponent exponent) : ∃ part, Numeral.exponentOf? exponent = some part := by
  cases isExponent with
  | nothing => exact ⟨none, rfl⟩
  | @power e sign digits letter signed areDigits =>
    obtain ⟨negative, split⟩ := splitSign_digits signed areDigits
    have begins : (e = 'e' || e = 'E') = true := by simpa using letter
    have nonempty : digits.isEmpty = false := by simpa using areDigits.1
    have all : digits.all Char.isDigit = true := List.all_eq_true.mpr areDigits.2
    refine ⟨some (negative, digits), ?_⟩
    simp [Numeral.exponentOf?, begins, split, nonempty, all]

theorem ofText?_parts {rest after : Text} {part : Option Text} {power : Option (Bool × Text)} (isWhole : IsWhole whole)
    (ends : EndsDigits rest) (fraction : Numeral.fractionOf? rest = some (part, after))
    (exponent : Numeral.exponentOf? after = some power) :
    Numeral.ofText? (whole ++ rest) = some ⟨false, whole, part, power⟩ ∧
      Numeral.ofText? ('-' :: (whole ++ rest)) = some ⟨true, whole, part, power⟩ := by
  have split := spanDigits_append isWhole.areDigits.2 ends
  constructor
  · obtain ⟨d, more, written⟩ := List.exists_cons_of_ne_nil isWhole.areDigits.1
    have other : d ≠ '-' := by
      intro same
      have digit := isWhole.areDigits.2 d (by simp [written])
      rw [same] at digit
      exact absurd digit (by decide)
    have front : whole ++ rest = d :: (more ++ rest) := by rw [written, List.cons_append]
    rw [front] at split ⊢
    simp [Numeral.ofText?, other, split, isWhole.wholeOk, fraction, exponent]
  · simp [Numeral.ofText?, split, isWhole.wholeOk, fraction, exponent]

theorem IsNumber.read (isNumber : IsNumber t) : (Numeral.ofText? t).isSome = true := by
  cases isNumber with
  | @mk sign whole fraction exponent signed isWhole isFraction isExponent =>
    obtain ⟨part, readFraction⟩ := isFraction.read isExponent
    obtain ⟨power, readExponent⟩ := isExponent.read
    obtain ⟨plain, negative⟩ := ofText?_parts isWhole (isFraction.ends isExponent) readFraction readExponent
    simp only [List.mem_cons, List.not_mem_nil, or_false] at signed
    rcases signed with none | minus
    · simp [none, plain]
    · simp [minus, negative]

theorem isRunChar_of_digit (digit : c.isDigit = true) : isRunChar c = true := by
  simp [isRunChar, Char.isAlphanum, digit]

theorem IsNumber.run (isNumber : IsNumber t) : ∀ c ∈ t, isRunChar c = true := by
  cases isNumber with
  | @mk sign whole fraction exponent signed isWhole isFraction isExponent =>
    have inSign : ∀ sign ∈ [[], ['+'], ['-']], sign.all isRunChar = true := by decide
    have inFront : ∀ sign ∈ [[], ['-']], sign.all isRunChar = true := by decide
    have inWhole : ∀ c ∈ whole, isRunChar c = true := fun c member =>
      isRunChar_of_digit (isWhole.areDigits.2 c member)
    have inFraction : ∀ c ∈ fraction, isRunChar c = true := by
      cases isFraction with
      | nothing => simp
      | point areDigits =>
        intro c member
        rcases List.mem_cons.mp member with rfl | digit
        · decide
        · exact isRunChar_of_digit (areDigits.2 c digit)
    have inExponent : ∀ c ∈ exponent, isRunChar c = true := by
      cases isExponent with
      | nothing => simp
      | power letter signed areDigits =>
        have begins : ['e', 'E'].all isRunChar = true := by decide
        intro c member
        rcases List.mem_cons.mp member with rfl | later
        · exact List.all_eq_true.mp begins _ letter
        · rcases List.mem_append.mp later with sign | digit
          · exact List.all_eq_true.mp (inSign _ signed) c sign
          · exact isRunChar_of_digit (areDigits.2 c digit)
    intro c member
    simp only [List.mem_append] at member
    rcases member with ((sign | digit) | part) | power
    · exact List.all_eq_true.mp (inFront _ signed) c sign
    · exact inWhole c digit
    · exact inFraction c part
    · exact inExponent c power

theorem decimal_first {n : Nat} (positive : 0 < n) : ∃ d rest, Text.decimal n = d :: rest ∧ d ≠ '0' := by
  induction n using Nat.strongRecOn with
  | ind n ih =>
    unfold Text.decimal at ih ⊢
    by_cases small : n < 10
    · have nonzero : ∀ n < 10, 0 < n → n.digitChar ≠ '0' := by decide
      exact ⟨n.digitChar, [], Nat.toDigits_of_lt_base small, nonzero n small positive⟩
    · obtain ⟨d, rest, written, nonzero⟩ := ih (n / 10) (by omega) (by omega)
      refine ⟨d, rest ++ [(n % 10).digitChar], ?_, nonzero⟩
      rw [Nat.toDigits_of_base_le (by decide) (Nat.not_lt.mp small), written, List.cons_append]

theorem decimal_isWhole (n : Nat) : IsWhole (Text.decimal n) := by
  have areDigits : AreDigits (Text.decimal n) :=
    ⟨Nat.toDigits_ne_nil, fun c member => Nat.isDigit_of_mem_toDigits (by decide) (by decide) member⟩
  by_cases zero : n = 0
  · subst zero
    exact .zero
  · obtain ⟨d, rest, written, nonzero⟩ := decimal_first (Nat.pos_of_ne_zero zero)
    rw [written] at areDigits ⊢
    exact .positive nonzero areDigits

theorem decimal_isNumber (n : Nat) : IsNumber (Text.decimal n) := by
  have isNumber : IsNumber ([] ++ Text.decimal n ++ [] ++ []) :=
    .mk (by simp) (decimal_isWhole n) .nothing .nothing
  simpa using isNumber

theorem uint64?_nat (n : UInt64) : (Json.nat n.toNat).uint64? = some n := by
  have ends : EndsDigits [] := fun c member => nomatch member
  obtain ⟨plain, -⟩ := ofText?_parts (decimal_isWhole n.toNat) ends rfl rfl
  rw [List.append_nil] at plain
  have value : Text.digitsValue (Text.decimal n.toNat) = n.toNat := Nat.ofDigitChars_ten_toDigits
  simp [uint64?, numeral?, Json.nat, plain, Numeral.toUInt64?, value, n.toNat_lt, UInt64.size]

end Json
end StaleStore
