import StaleStore.Binary64
import StaleStore.Text

namespace StaleStore

-- How a table came about: passed through by a header, built by dotted names, defined by a header, or
-- written in braces and so closed for good.
inductive Toml.Origin where
  | passed
  | dotted
  | defined
  | braced
deriving DecidableEq, Repr

inductive Toml where
  | string (t : Text)
  | integer (n : Int)
  | float (x : Binary64)
  | bool (b : Bool)
  | dateTime (spelling : Text)
  | array (items : List Toml)
  | table (origin : Toml.Origin) (entries : List (Text × Toml))
  | tables (earlier : List Toml) (last : Toml)
deriving Inhabited

namespace Toml

def emptyTable (origin : Origin) : Toml := .table origin []

def lookup (name : Text) (entries : List (Text × Toml)) : Option Toml :=
  (entries.find? (·.1 = name)).map (·.2)

def replace (name : Text) (v : Toml) (entries : List (Text × Toml)) : List (Text × Toml) :=
  entries.map fun entry => if entry.1 = name then (name, v) else entry

-- Change the table at the end of a path, making the tables on the way that are missing. Of an array
-- of tables the way leads into the last. No way leads into a table in braces, and dotted names do not
-- lead into a table of a header.
def within (dotted : Bool) (change : Toml → Option Toml) : List Text → Toml → Option Toml
  | [], t => change t
  | name :: rest, .table origin entries =>
    match lookup name entries with
    | none => do
      let made ← within dotted change rest (emptyTable (if dotted then .dotted else .passed))
      some (.table origin (entries ++ [(name, made)]))
    | some (.tables earlier last) => do
      let changed ← within dotted change rest last
      some (.table origin (replace name (.tables earlier changed) entries))
    | some (.table inner old) =>
      if inner = .braced || (dotted && inner = .defined) then none
      else do
        let changed ← within dotted change rest (.table inner old)
        some (.table origin (replace name changed entries))
    | some _ => none
  | _ :: _, _ => none

-- Give the table a value under a new name. Only names with dots in front may add to a table built by
-- dotted names, and such names may add to no other.
def addValue (plain : Bool) (name : Text) (v : Toml) : Toml → Option Toml
  | .table origin entries =>
    if decide (origin = .dotted) = plain then none
    else if (lookup name entries).isSome then none
    else some (.table origin (entries ++ [(name, v)]))
  | _ => none

def openTable (name : Text) : Toml → Option Toml
  | .table origin entries =>
    match lookup name entries with
    | none => some (.table origin (entries ++ [(name, emptyTable .defined)]))
    | some (.table .passed inner) =>
      some (.table origin (replace name (.table .defined inner) entries))
    | some _ => none
  | _ => none

def openElement (name : Text) : Toml → Option Toml
  | .table origin entries =>
    match lookup name entries with
    | none => some (.table origin (entries ++ [(name, .tables [] (emptyTable .defined))]))
    | some (.tables earlier last) =>
      some (.table origin (replace name (.tables (earlier ++ [last]) (emptyTable .defined)) entries))
    | some _ => none
  | _ => none

def splitLast? : List Text → Option (List Text × Text)
  | [] => none
  | [name] => some ([], name)
  | name :: rest => (splitLast? rest).map fun (front, last) => (name :: front, last)

def insertAt (names : List Text) (v : Toml) (t : Toml) : Option Toml := do
  let (front, last) ← splitLast? names
  within true (addValue front.isEmpty last v) front t

end Toml
end StaleStore
