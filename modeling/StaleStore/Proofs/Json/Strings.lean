import StaleStore.Json.Token
import StaleStore.Json.Value

namespace StaleStore
namespace Json

def escapeLetters : Text := ['"', '\\', '/', 'b', 'f', 'n', 'r', 't']
def hexDigits : Text := "0123456789abcdefABCDEF".toList

-- A character that needs no escape, a backslash and a letter, or a backslash, a `u` and four hexadecimal digits, over
-- and over.
inductive IsSpelling : Text → Prop where
  | nothing : IsSpelling []
  | plain {c rest} : c ≠ '"' → c ≠ '\\' → 0x20 ≤ c.toNat → IsSpelling rest → IsSpelling (c :: rest)
  | letter {c rest} : c ∈ escapeLetters → IsSpelling rest → IsSpelling ('\\' :: c :: rest)
  | unit {a b c d rest} : [a, b, c, d] ⊆ hexDigits → IsSpelling rest →
      IsSpelling ('\\' :: 'u' :: a :: b :: c :: d :: rest)

variable {spelling run : Text} {a b c d : Char}

theorem simpleEscape?_isSome (letter : c ∈ escapeLetters) : (simpleEscape? c).isSome = true := by
  have all : escapeLetters.all (fun c => (simpleEscape? c).isSome) = true := by decide
  exact List.all_eq_true.mp all c letter

theorem hexUnit?_isSome (digits : [a, b, c, d] ⊆ hexDigits) : (hexUnit? a b c d).isSome = true := by
  have value : ∀ x ∈ [a, b, c, d], ∃ n, hexDigit? x = some n := by
    have all : hexDigits.all (fun x => (hexDigit? x).isSome) = true := by decide
    exact fun x member => Option.isSome_iff_exists.mp (List.all_eq_true.mp all x (digits member))
  obtain ⟨i, first⟩ := value a (by simp)
  obtain ⟨j, second⟩ := value b (by simp)
  obtain ⟨k, third⟩ := value c (by simp)
  obtain ⟨l, fourth⟩ := value d (by simp)
  simp [hexUnit?, first, second, third, fourth]

section
variable (rest : Text)

theorem pieces?_letter (letter : c ∈ escapeLetters) :
    pieces? ('\\' :: c :: rest) = (do some (.char (← simpleEscape? c) :: (← pieces? rest))) := by
  have other : c ≠ 'u' := fun same => absurd (same ▸ letter) (by decide)
  rw [pieces?]
  intro a b c' d tail same
  exact absurd same other

theorem pieces?_unit : pieces? ('\\' :: 'u' :: a :: b :: c :: d :: rest)
    = (do some (.unit (← hexUnit? a b c d) :: (← pieces? rest))) := by
  rw [pieces?]

theorem pieces?_plain (other : c ≠ '\\') (printed : 0x20 ≤ c.toNat) :
    pieces? (c :: rest) = (do some (.char c :: (← pieces? rest))) := by
  rw [pieces?]
  · simp [other, Nat.not_lt.mpr printed]
  · intro a b c' d tail same
    exact absurd same other
  · intro e tail same
    exact absurd same other

end

theorem IsSpelling.known (spelled : IsSpelling spelling) : (pieces? spelling).isSome = true := by
  induction spelled with
  | nothing => rfl
  | @plain c rest _ other printed _ ih =>
    obtain ⟨pieces, known⟩ := Option.isSome_iff_exists.mp ih
    simp [pieces?_plain rest other printed, known]
  | @letter c rest letter _ ih =>
    obtain ⟨pieces, known⟩ := Option.isSome_iff_exists.mp ih
    obtain ⟨e, named⟩ := Option.isSome_iff_exists.mp (simpleEscape?_isSome letter)
    simp [pieces?_letter rest letter, known, named]
  | @unit a b c d rest digits _ ih =>
    obtain ⟨pieces, known⟩ := Option.isSome_iff_exists.mp ih
    obtain ⟨n, named⟩ := Option.isSome_iff_exists.mp (hexUnit?_isSome digits)
    simp [pieces?_unit rest, known, named]

section
variable (back rest : Text) (found : List Token)

theorem quoted_plain (noQuote : c ≠ '"') (noEscape : c ≠ '\\') :
    tokensFrom? (.quoted back) found (c :: rest) = tokensFrom? (.quoted (c :: back)) found rest := by
  simp [tokensFrom?, Cutting.advance?, noQuote, noEscape]

theorem quoted_escape : tokensFrom? (.quoted back) found ('\\' :: c :: rest)
    = tokensFrom? (.quoted (c :: '\\' :: back)) found rest := by
  simp [tokensFrom?, Cutting.advance?]

theorem quoted_unit (digits : [a, b, c, d] ⊆ hexDigits) :
    tokensFrom? (.quoted back) found ('\\' :: 'u' :: a :: b :: c :: d :: rest)
      = tokensFrom? (.quoted (d :: c :: b :: a :: 'u' :: '\\' :: back)) found rest := by
  have other : ∀ x ∈ [a, b, c, d], x ≠ '"' ∧ x ≠ '\\' := by
    have all : hexDigits.all (fun x => x ≠ '"' ∧ x ≠ '\\') = true := by decide
    exact fun x member => of_decide_eq_true (List.all_eq_true.mp all x (digits member))
  have step : ∀ x ∈ [a, b, c, d], ∀ back rest : Text,
      tokensFrom? (.quoted back) found (x :: rest) = tokensFrom? (.quoted (x :: back)) found rest :=
    fun x member back rest => quoted_plain back rest found (other x member).1 (other x member).2
  rw [quoted_escape, step a (by simp), step b (by simp), step c (by simp), step d (by simp)]

theorem IsSpelling.passed (spelled : IsSpelling spelling) : tokensFrom? (.quoted back) found (spelling ++ rest)
    = tokensFrom? (.quoted (spelling.reverse ++ back)) found rest := by
  induction spelled generalizing back with
  | nothing => rfl
  | plain noQuote noEscape _ _ ih =>
    rw [List.cons_append, quoted_plain back _ found noQuote noEscape, ih]
    simp
  | letter _ _ ih =>
    rw [List.cons_append, List.cons_append, quoted_escape, ih]
    simp
  | unit digits _ ih =>
    simp only [List.cons_append]
    rw [quoted_unit back _ found digits, ih]
    simp

theorem IsSpelling.cut (spelled : IsSpelling spelling) : tokensFrom? .between found (quote spelling ++ rest)
    = tokensFrom? .between (.string spelling :: found) rest := by
  have begins : tokensFrom? .between found (quote spelling ++ rest)
      = tokensFrom? (.quoted []) found (spelling ++ '"' :: rest) := by
    simp [quote, tokensFrom?, Cutting.advance?, beginWith?, isSpace]
  rw [begins, spelled.passed]
  simp [tokensFrom?, Cutting.advance?, stringToken?, spelled.known]

end

theorem control_unit {n : Nat} (control : n < 0x20) :
    let high := (n / 16).digitChar
    let low := (n % 16).digitChar
    Text.paddedHex 4 n = ['0', '0', high, low] ∧ ['0', '0', high, low] ⊆ hexDigits ∧
      hexUnit? '0' '0' high low = some n := by
  have all : ∀ n < 0x20, let high := (n / 16).digitChar; let low := (n % 16).digitChar
      Text.paddedHex 4 n = ['0', '0', high, low] ∧ ['0', '0', high, low] ⊆ hexDigits ∧
        hexUnit? '0' '0' high low = some n := by decide
  exact all n control

def lettered : Text := ['"', '\\', '\n', '\r', '\t', '\x08', '\x0c']

theorem escapeChar_lettered (short : c ∈ lettered) :
    ∃ l ∈ escapeLetters, simpleEscape? l = some c ∧ escapeChar c = ['\\', l] := by
  have all : lettered.all (fun c => escapeLetters.any fun l => simpleEscape? l = some c ∧ escapeChar c = ['\\', l])
      = true := by decide
  obtain ⟨l, letter, both⟩ := List.any_eq_true.mp (List.all_eq_true.mp all c short)
  exact ⟨l, letter, of_decide_eq_true both⟩

theorem escapeChar_cases (c : Char) :
    (∃ l ∈ escapeLetters, simpleEscape? l = some c ∧ escapeChar c = ['\\', l]) ∨
      (c.toNat < 0x20 ∧ escapeChar c = '\\' :: 'u' :: Text.paddedHex 4 c.toNat) ∨
      (c ≠ '"' ∧ c ≠ '\\' ∧ 0x20 ≤ c.toNat ∧ escapeChar c = [c]) := by
  by_cases short : c ∈ lettered
  · exact Or.inl (escapeChar_lettered short)
  · simp only [lettered, List.mem_cons, List.not_mem_nil, or_false, not_or] at short
    obtain ⟨quotes, escapes, line, turn, tab, rub, feed⟩ := short
    have long : escapeChar c = if c.toNat < 0x20 then '\\' :: 'u' :: Text.paddedHex 4 c.toNat else [c] := by
      simp only [escapeChar, quotes, escapes, line, turn, tab, rub, feed, if_false]
    by_cases control : c.toNat < 0x20
    · exact Or.inr (Or.inl ⟨control, by rw [long, if_pos control]⟩)
    · exact Or.inr (Or.inr ⟨quotes, escapes, Nat.not_lt.mp control, by rw [long, if_neg control]⟩)

theorem joinPieces_control {n : Nat} (control : n < 0x20) (pieces : List Piece) :
    joinPieces (.unit n :: pieces) = (joinPieces pieces).map (Char.ofNat n :: ·) := by
  have high : isHighSurrogate n = false := by
    simp only [isHighSurrogate, Bool.and_eq_false_iff, decide_eq_false_iff_not]
    omega
  have low : isLowSurrogate n = false := by
    simp only [isLowSurrogate, Bool.and_eq_false_iff, decide_eq_false_iff_not]
    omega
  cases pieces with
  | nil => simp [joinPieces, high, low]
  | cons piece rest => cases piece <;> simp [joinPieces, high, low]

theorem encode_cons (c : Char) (t : Text) : encode (c :: t) = escapeChar c ++ encode t :=
  List.flatMap_cons

theorem encode_isSpelling (t : Text) : IsSpelling (encode t) := by
  induction t with
  | nil => exact .nothing
  | cons c rest ih =>
    rw [encode_cons]
    rcases escapeChar_cases c with ⟨l, letter, -, written⟩ | ⟨control, written⟩ | ⟨noQuote, noEscape, printed, written⟩
    · rw [written]
      exact .letter letter ih
    · obtain ⟨digits, hexadecimal, -⟩ := control_unit control
      rw [written, digits]
      exact .unit hexadecimal ih
    · rw [written]
      exact .plain noQuote noEscape printed ih

theorem decode?_encode (t : Text) : decode? (encode t) = some t := by
  have pieces : ∃ pieces, pieces? (encode t) = some pieces ∧ joinPieces pieces = some t := by
    induction t with
    | nil => exact ⟨[], rfl, rfl⟩
    | cons c rest ih =>
      obtain ⟨pieces, known, joined⟩ := ih
      rw [encode_cons]
      rcases escapeChar_cases c with ⟨l, letter, means, written⟩ | ⟨control, written⟩ | ⟨-, noEscape, printed, written⟩
      · refine ⟨.char c :: pieces, ?_, by simp [joinPieces, joined]⟩
        rw [written, List.cons_append, List.cons_append, List.nil_append, pieces?_letter _ letter, means, known]
        rfl
      · refine ⟨.unit c.toNat :: pieces, ?_, by simp [joinPieces_control control, joined]⟩
        obtain ⟨digits, -, value⟩ := control_unit control
        rw [written, digits]
        simp only [List.cons_append, List.nil_append]
        rw [pieces?_unit, value, known]
        rfl
      · refine ⟨.char c :: pieces, ?_, by simp [joinPieces, joined]⟩
        rw [written, List.singleton_append, pieces?_plain _ noEscape printed, known]
        rfl
  obtain ⟨pieces, known, joined⟩ := pieces
  simp [decode?, meaning?, known, joined]

end Json
end StaleStore
