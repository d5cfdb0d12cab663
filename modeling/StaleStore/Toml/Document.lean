import StaleStore.Toml.Quotation

namespace StaleStore
namespace Toml

def depthLimit : Nat := 79

def isSpace (c : Char) : Bool := c = ' ' || c = '\t'

def skipSpace (t : Text) : Text := t.dropWhile isSpace

def skipTrivia : (inComment : Bool) → Text → Text
  | _, '\n' :: rest => skipTrivia false rest
  | _, '\r' :: '\n' :: rest => skipTrivia false rest
  | true, c :: rest => if isPlain c then skipTrivia true rest else c :: rest
  | false, '#' :: rest => skipTrivia true rest
  | false, c :: rest => if isSpace c then skipTrivia false rest else c :: rest
  | _, [] => []

def isBare (c : Char) : Bool := c.isAlphanum || c = '_' || c = '-'

def simpleName : Read Text
  | '"' :: rest => basicString rest
  | '\'' :: rest => literalString rest
  | t =>
    let name := t.takeWhile isBare
    if name.isEmpty then none else some (name, t.drop name.length)

def dottedName : (parts : Nat) → Read (List Text)
  | 0, _ => none
  | parts + 1, t => do
    let (name, t) ← simpleName (skipSpace t)
    match skipSpace t with
    | '.' :: rest => do
      let (names, rest) ← dottedName parts rest
      some (name :: names, rest)
    | t => some ([name], t)

-- Items up to the closing bracket; a comma may follow the last. Each item takes a character at least,
-- so the length of the text bounds their number.
def arrayItems (item : Read Toml) : (bound : Nat) → Read (List Toml)
  | 0, _ => none
  | bound + 1, t =>
    match skipTrivia false t with
    | ']' :: rest => some ([], rest)
    | t => do
      let (v, t) ← item t
      match skipTrivia false t with
      | ',' :: rest => do
        let (vs, rest) ← arrayItems item bound rest
        some (v :: vs, rest)
      | ']' :: rest => some ([v], rest)
      | _ => none

def assignment (item : Read Toml) : Read (List Text × Toml) := fun t => do
  let (names, t) ← dottedName depthLimit t
  let (_, t) ← expect '=' t
  let (v, t) ← item (skipSpace t)
  some ((names, v), t)

def bracedEntries (item : Read Toml) : (bound : Nat) → Toml → Read Toml
  | 0, _, _ => none
  | bound + 1, built, t => do
    let ((names, v), t) ← assignment item t
    let built ← insertAt names v built
    match skipSpace t with
    | ',' :: rest => bracedEntries item bound built rest
    | '\x7d' :: rest => some (built, rest)
    | _ => none

def closeBraces : Toml → Toml
  | .table _ entries => .table .braced entries
  | v => v

def bracedTable (item : Read Toml) : Read Toml := fun t =>
  match skipSpace t with
  | '\x7d' :: rest => some (emptyTable .braced, rest)
  | t => do
    let (built, rest) ← bracedEntries item (t.length + 1) (emptyTable .defined) t
    some (closeBraces built, rest)

def scalar : Read Toml
  | [] => none
  | c :: rest =>
    if c = '"' || c = '\'' then (readString (c :: rest)).map fun (t, after) => (.string t, after)
    else if c = 't' || c = 'f' then readTruth (c :: rest)
    else readNumber (c :: rest)

def readValue : (depth : Nat) → Read Toml
  | 0, t => scalar t
  | depth + 1, t =>
    match t with
    | '[' :: rest => do
      let (items, rest) ← arrayItems (readValue depth) (rest.length + 1) rest
      some (.array items, rest)
    | '\x7b' :: rest => bracedTable (readValue depth) rest
    | t => scalar t

def lineEnd? (t : Text) : Option Text :=
  let t := match skipSpace t with
    | '#' :: rest => rest.dropWhile isPlain
    | t => t
  match t with
  | [] => some []
  | '\n' :: rest => some rest
  | '\r' :: '\n' :: rest => some rest
  | _ => none

structure Building where
  root : Toml
  current : List Text

def Building.start : Building := ⟨emptyTable .defined, []⟩

def Building.open? (b : Building) (names : List Text) (change : Text → Toml → Option Toml) :
    Option Building := do
  let (front, last) ← splitLast? names
  some ⟨← within false (change last) front b.root, names⟩

def Building.assign? (b : Building) (names : List Text) (v : Toml) : Option Building := do
  some { b with root := ← within false (insertAt names v) b.current b.root }

def line? (b : Building) (t : Text) : Option (Building × Text) :=
  match t with
  | '[' :: '[' :: rest => do
    let (names, rest) ← dottedName depthLimit rest
    let (_, rest) ← expect ']' rest
    let (_, rest) ← expect ']' rest
    some (← b.open? names openElement, ← lineEnd? rest)
  | '[' :: rest => do
    let (names, rest) ← dottedName depthLimit rest
    let (_, rest) ← expect ']' rest
    some (← b.open? names openTable, ← lineEnd? rest)
  | t => do
    let ((names, v), rest) ← assignment (readValue depthLimit) t
    some (← b.assign? names v, ← lineEnd? rest)

-- Every line takes a character at least, so the length of the text bounds their number.
def lines? : (bound : Nat) → Building → Text → Option Building
  | 0, _, _ => none
  | bound + 1, b, t =>
    match skipSpace t with
    | [] => some b
    | '\n' :: rest => lines? bound b rest
    | '\r' :: '\n' :: rest => lines? bound b rest
    | '#' :: rest => do lines? bound b (← lineEnd? ('#' :: rest))
    | t => do
      let (b, rest) ← line? b t
      lines? bound b rest

def dropByteOrderMark : Text → Text
  | '\uFEFF' :: rest => rest
  | t => t

def read? (t : Text) : Option Toml := (lines? (t.length + 1) .start (dropByteOrderMark t)).map (·.root)

def entry? (name : Text) : Toml → Option Toml
  | .table _ entries => lookup name entries
  | _ => none

end Toml
end StaleStore
