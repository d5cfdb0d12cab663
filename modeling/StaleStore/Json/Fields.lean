import StaleStore.Json.Value

namespace StaleStore
namespace Json

abbrev Fields := List (Text × Json)

def fields? : List (Text × Json) → Option Fields
  | [] => some []
  | (spelling, v) :: rest => do
    let name ← decode? spelling
    some ((name, v) :: (← fields? rest))

namespace Fields

def named (name : Text) (fields : Fields) : List Json :=
  (fields.filter (·.1 = name)).map (·.2)

def one? (fields : Fields) (name : Text) : Option Json :=
  match fields.named name with
  | [v] => some v
  | _ => none

def optional? (fields : Fields) (name : Text) : Option (Option Json) :=
  match fields.named name with
  | [] => some none
  | [v] => some (some v)
  | _ => none

end Fields
end Json
end StaleStore
