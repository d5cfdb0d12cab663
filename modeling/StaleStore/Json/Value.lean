import StaleStore.Json.Numeral
import StaleStore.Json.Spelling

namespace StaleStore

inductive Json where
  | null
  | bool (b : Bool)
  | number (spelling : Text)
  | string (spelling : Text)
  | array (items : List Json)
  | object (members : List (Text × Json))
deriving Repr, Inhabited

namespace Json

def text (t : Text) : Json := .string (encode t)
def nat (n : Nat) : Json := .number (Text.decimal n)

def quote (spelling : Text) : Text := '"' :: (spelling ++ ['"'])

mutual

def write : Json → Text
  | .null => ['n', 'u', 'l', 'l']
  | .bool true => ['t', 'r', 'u', 'e']
  | .bool false => ['f', 'a', 'l', 's', 'e']
  | .number spelling => spelling
  | .string spelling => quote spelling
  | .array items => '[' :: (writeItems items ++ [']'])
  | .object members => '\x7b' :: (writeMembers members ++ ['\x7d'])

def writeItems : List Json → Text
  | [] => []
  | [v] => write v
  | v :: rest => write v ++ ',' :: writeItems rest

def writeMembers : List (Text × Json) → Text
  | [] => []
  | [(name, v)] => quote name ++ ':' :: write v
  | (name, v) :: rest => quote name ++ ':' :: (write v ++ ',' :: writeMembers rest)

end

def ofMembers (members : List (Text × Json)) : Json :=
  .object (members.map fun (name, v) => (encode name, v))

def member? (name : Text) : Json → Option Json
  | .object members => (members.find? fun (spelling, _) => decode? spelling = some name).map (·.2)
  | _ => none

def numeral? : Json → Option Numeral
  | .number spelling => Numeral.ofText? spelling
  | _ => none

def text? : Json → Option Text
  | .string spelling => decode? spelling
  | _ => none

def uint64? (v : Json) : Option UInt64 := v.numeral?.bind Numeral.toUInt64?

end Json
end StaleStore
