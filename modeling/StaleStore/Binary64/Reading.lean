import StaleStore.Binary64
import StaleStore.Text

namespace StaleStore

namespace Text

def spanDigits (t : Text) : Text × Text := (t.takeWhile Char.isDigit, t.dropWhile Char.isDigit)

def digitsValue (digits : Text) : Nat := Nat.ofDigitChars 10 digits 0

def splitSign : Text → Bool × Text
  | '-' :: rest => (true, rest)
  | '+' :: rest => (false, rest)
  | t => (false, t)

def lowerAscii (t : Text) : Text := t.map Char.toLower

def readUInt64? (t : Text) : Option UInt64 :=
  let digits := match t with
    | '+' :: rest => rest
    | _ => t
  if digits.isEmpty || !digits.all Char.isDigit then none
  else
    let n := digitsValue digits
    if n < UInt64.size then some (UInt64.ofNat n) else none

end Text

namespace Binary64

-- An exponent part: a sign or none, then digits to the end. Its size is cut at a million, far beyond
-- what can still change the number read.
def readExponent? (t : Text) : Option Int :=
  let (negative, digits) := Text.splitSign t
  if digits.isEmpty || !digits.all Char.isDigit then none
  else
    let size := min (Text.digitsValue (digits.dropWhile (· = '0') |>.take 8)) 1000000
    some (if negative then -(size : Int) else size)

def ofParts (whole fraction : Text) (exponent : Int) : Binary64 :=
  ofDecimal (Text.digitsValue (whole ++ fraction)) (exponent - fraction.length)

def readUnsigned? (t : Text) : Option Binary64 :=
  let name := Text.lowerAscii t
  if name = ['i', 'n', 'f'] || name = ['i', 'n', 'f', 'i', 'n', 'i', 't', 'y'] then some infinity
  else if name = ['n', 'a', 'n'] then some nan
  else
    let (whole, rest) := Text.spanDigits t
    let (fraction, rest) := match rest with
      | '.' :: rest => Text.spanDigits rest
      | _ => ([], rest)
    if whole.isEmpty && fraction.isEmpty then none
    else
      match rest with
      | [] => some (ofParts whole fraction 0)
      | c :: rest =>
        if c = 'e' || c = 'E' then (readExponent? rest).map (ofParts whole fraction) else none

def read? (t : Text) : Option Binary64 :=
  let (negative, rest) := Text.splitSign t
  (readUnsigned? rest).map (withSign negative)

end Binary64
end StaleStore
