import StaleStore.Toml.Scalar

namespace StaleStore
namespace Toml

def isPlain (c : Char) : Bool := c = '\t' || (0x20 ≤ c.toNat && c.toNat ≠ 0x7F)

def codePoint? (digits : Text) : Option Char :=
  if digits.all fun c => (hexValue? c).isSome then
    let n := radixValue 16 digits
    if n.isValidChar then some (Char.ofNat n) else none
  else none

def escape? (c : Char) : Option Char :=
  if c = '"' || c = '\\' then some c
  else if c = 'b' then some '\x08'
  else if c = 'f' then some '\x0c'
  else if c = 'n' then some '\n'
  else if c = 'r' then some '\r'
  else if c = 't' then some '\t'
  else none

def basicString : Read Text
  | '"' :: rest => some ([], rest)
  | '\\' :: 'u' :: a :: b :: c :: d :: rest => do
    let x ← codePoint? [a, b, c, d]
    let (t, after) ← basicString rest
    some (x :: t, after)
  | '\\' :: 'U' :: a :: b :: c :: d :: e :: f :: g :: h :: rest => do
    let x ← codePoint? [a, b, c, d, e, f, g, h]
    let (t, after) ← basicString rest
    some (x :: t, after)
  | '\\' :: c :: rest => do
    let x ← escape? c
    let (t, after) ← basicString rest
    some (x :: t, after)
  | c :: rest =>
    if c != '\\' && isPlain c then do
      let (t, after) ← basicString rest
      some (c :: t, after)
    else none
  | [] => none

def literalString : Read Text
  | '\'' :: rest => some ([], rest)
  | c :: rest =>
    if isPlain c then do
      let (t, after) ← literalString rest
      some (c :: t, after)
    else none
  | [] => none

-- In a basic string of several lines a backslash before a line break drops all white space up to the
-- next character. `ending` is the rest of that line, `dropping` what follows it.
inductive Fold where
  | none
  | ending
  | dropping

def foldedLines : Fold → Read Text
  | .ending, ' ' :: rest => foldedLines .ending rest
  | .ending, '\t' :: rest => foldedLines .ending rest
  | .ending, '\n' :: rest => foldedLines .dropping rest
  | .ending, '\r' :: '\n' :: rest => foldedLines .dropping rest
  | .ending, _ => Option.none
  | .dropping, ' ' :: rest => foldedLines .dropping rest
  | .dropping, '\t' :: rest => foldedLines .dropping rest
  | .dropping, '\n' :: rest => foldedLines .dropping rest
  | .dropping, '\r' :: '\n' :: rest => foldedLines .dropping rest
  | _, '"' :: '"' :: '"' :: '"' :: '"' :: rest => some (['"', '"'], rest)
  | _, '"' :: '"' :: '"' :: '"' :: rest => some (['"'], rest)
  | _, '"' :: '"' :: '"' :: rest => some ([], rest)
  | _, '\\' :: 'u' :: a :: b :: c :: d :: rest => do
    let x ← codePoint? [a, b, c, d]
    let (t, after) ← foldedLines .none rest
    some (x :: t, after)
  | _, '\\' :: 'U' :: a :: b :: c :: d :: e :: f :: g :: h :: rest => do
    let x ← codePoint? [a, b, c, d, e, f, g, h]
    let (t, after) ← foldedLines .none rest
    some (x :: t, after)
  | _, '\\' :: ' ' :: rest => foldedLines .ending rest
  | _, '\\' :: '\t' :: rest => foldedLines .ending rest
  | _, '\\' :: '\n' :: rest => foldedLines .dropping rest
  | _, '\\' :: '\r' :: '\n' :: rest => foldedLines .dropping rest
  | _, '\\' :: c :: rest => do
    let x ← escape? c
    let (t, after) ← foldedLines .none rest
    some (x :: t, after)
  | _, '\r' :: '\n' :: rest => do
    let (t, after) ← foldedLines .none rest
    some ('\n' :: t, after)
  | _, c :: rest =>
    if c = '\n' || (c != '\\' && isPlain c) then do
      let (t, after) ← foldedLines .none rest
      some (c :: t, after)
    else Option.none
  | _, [] => Option.none

def literalLines : Read Text
  | '\'' :: '\'' :: '\'' :: '\'' :: '\'' :: rest => some (['\'', '\''], rest)
  | '\'' :: '\'' :: '\'' :: '\'' :: rest => some (['\''], rest)
  | '\'' :: '\'' :: '\'' :: rest => some ([], rest)
  | '\r' :: '\n' :: rest => do
    let (t, after) ← literalLines rest
    some ('\n' :: t, after)
  | c :: rest =>
    if c = '\n' || isPlain c then do
      let (t, after) ← literalLines rest
      some (c :: t, after)
    else none
  | [] => none

def dropFirstBreak : Text → Text
  | '\n' :: rest => rest
  | '\r' :: '\n' :: rest => rest
  | t => t

def readString : Read Text
  | '"' :: '"' :: '"' :: rest => foldedLines .none (dropFirstBreak rest)
  | '"' :: rest => basicString rest
  | '\'' :: '\'' :: '\'' :: rest => literalLines (dropFirstBreak rest)
  | '\'' :: rest => literalString rest
  | _ => none

end Toml
end StaleStore
