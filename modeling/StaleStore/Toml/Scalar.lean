import StaleStore.Binary64.Reading
import StaleStore.Toml.Value

namespace StaleStore
namespace Toml

abbrev Read (α : Type) := Text → Option (α × Text)

def moreDigits (isDigit : Char → Bool) : Text → Option (Text × Text)
  | [] => some ([], [])
  | '_' :: c :: rest =>
    if isDigit c then (moreDigits isDigit rest).map fun (ds, after) => (c :: ds, after) else none
  | '_' :: [] => none
  | c :: rest =>
    if isDigit c then (moreDigits isDigit rest).map fun (ds, after) => (c :: ds, after)
    else some ([], c :: rest)

def digits1 (isDigit : Char → Bool) : Read Text
  | c :: rest =>
    if isDigit c then (moreDigits isDigit rest).map fun (ds, after) => (c :: ds, after) else none
  | [] => none

def wholeDigits : Read Text
  | '0' :: rest => some (['0'], rest)
  | t => digits1 Char.isDigit t

def exponentPart? : Text → Option (Option Int × Text)
  | [] => some (none, [])
  | c :: rest =>
    if c = 'e' || c = 'E' then do
      let (negative, digits) := Text.splitSign rest
      let (ds, after) ← digits1 Char.isDigit digits
      let size ← Binary64.readExponent? ds
      some (some (if negative then -size else size), after)
    else some (none, c :: rest)

def fractionPart? : Text → Option (Option Text × Text)
  | '.' :: rest => (digits1 Char.isDigit rest).map fun (ds, after) => (some ds, after)
  | t => some (none, t)

def integerLeast : Int := -9223372036854775808
def integerGreatest : Int := 9223372036854775807

def integer? (n : Int) : Option Toml :=
  if integerLeast ≤ n && n ≤ integerGreatest then some (.integer n) else none

-- A number too large for the format is refused with a plus or no sign, and is an infinity with a minus.
def finish? (negative : Bool) (x : Binary64) : Option Toml :=
  if x.isInfinite && !negative then none else some (.float (x.withSign negative))

def specialFloat? (negative : Bool) : Text → Option (Toml × Text)
  | 'i' :: 'n' :: 'f' :: rest => some (.float (.withSign negative .infinity), rest)
  | 'n' :: 'a' :: 'n' :: rest => some (.float (.withSign negative .nan), rest)
  | _ => none

def decimalNumber : Read Toml := fun t => do
  let (negative, rest) := Text.splitSign t
  match specialFloat? negative rest with
  | some read => some read
  | none =>
    let (whole, rest) ← wholeDigits rest
    let (fraction, rest) ← fractionPart? rest
    let (exponent, rest) ← exponentPart? rest
    match fraction, exponent with
    | none, none =>
      let n : Int := Text.digitsValue whole
      some (← integer? (if negative then -n else n), rest)
    | _, _ =>
      let x := Binary64.ofParts whole (fraction.getD []) (exponent.getD 0)
      some (← finish? negative x, rest)

def hexValue? (c : Char) : Option Nat :=
  if c.isDigit then some (c.toNat - '0'.toNat)
  else if 'a' ≤ c && c ≤ 'f' then some (c.toNat - 'a'.toNat + 10)
  else if 'A' ≤ c && c ≤ 'F' then some (c.toNat - 'A'.toNat + 10)
  else none

def radixValue (base : Nat) (digits : Text) : Nat :=
  digits.foldl (fun n c => n * base + (hexValue? c).getD 0) 0

def radixNumber (base : Nat) : Read Toml := fun t => do
  let (ds, rest) ← digits1 (fun c => (hexValue? c).any (· < base)) t
  some (← integer? (radixValue base ds), rest)

def fixedDigits (count low high : Nat) : Read Nat := fun t =>
  let ds := t.take count
  if ds.length = count && ds.all Char.isDigit then
    let n := Text.digitsValue ds
    if low ≤ n && n ≤ high then some (n, t.drop count) else none
  else none

def expect (c : Char) : Read Unit
  | d :: rest => if d = c then some ((), rest) else none
  | [] => none

def isLeap (year : Nat) : Bool := year % 4 = 0 && (year % 100 != 0 || year % 400 = 0)

def daysIn (year month : Nat) : Nat :=
  if month = 2 then if isLeap year then 29 else 28
  else if month = 4 || month = 6 || month = 9 || month = 11 then 30
  else 31

def date : Read Unit := fun t => do
  let (year, t) ← fixedDigits 4 0 9999 t
  let (_, t) ← expect '-' t
  let (month, t) ← fixedDigits 2 1 12 t
  let (_, t) ← expect '-' t
  let (_, t) ← fixedDigits 2 1 (daysIn year month) t
  some ((), t)

def clockTime : Read Unit := fun t => do
  let (_, t) ← fixedDigits 2 0 23 t
  let (_, t) ← expect ':' t
  let (_, t) ← fixedDigits 2 0 59 t
  let (_, t) ← expect ':' t
  let (_, t) ← fixedDigits 2 0 60 t
  match t with
  | '.' :: c :: rest => if c.isDigit then some ((), rest.dropWhile Char.isDigit) else some ((), t)
  | _ => some ((), t)

def zone (t : Text) : Option Text :=
  match t with
  | [] => some []
  | c :: rest =>
    if c = 'Z' || c = 'z' then some rest
    else if c = '+' || c = '-' then do
      let (_, rest) ← fixedDigits 2 0 23 rest
      let (_, rest) ← expect ':' rest
      let (_, rest) ← fixedDigits 2 0 59 rest
      some rest
    else some t

def dateAndTime (t : Text) : Option Text := do
  let (_, rest) ← date t
  match rest with
  | [] => some []
  | c :: after =>
    if c = 'T' || c = 't' || c = ' ' then
      match clockTime after with
      | some (_, after) => zone after
      | none => some rest
    else some rest

def readDateTime : Read Toml := fun t => do
  let rest ← (dateAndTime t <|> (clockTime t).map (·.2))
  some (.dateTime (t.take (t.length - rest.length)), rest)

def readNumber : Read Toml := fun t =>
  match readDateTime t with
  | some read => some read
  | none =>
    match t with
    | '0' :: 'x' :: rest => radixNumber 16 rest
    | '0' :: 'o' :: rest => radixNumber 8 rest
    | '0' :: 'b' :: rest => radixNumber 2 rest
    | _ => decimalNumber t

def readTruth : Read Toml
  | 't' :: 'r' :: 'u' :: 'e' :: rest => some (.bool true, rest)
  | 'f' :: 'a' :: 'l' :: 's' :: 'e' :: rest => some (.bool false, rest)
  | _ => none

end Toml
end StaleStore
