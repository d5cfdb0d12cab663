import StaleStore.Json.Token
import StaleStore.Json.Value

namespace StaleStore
namespace Json

-- An open array with its items so far, or an open object with its members so far and the name whose
-- value is being read. Items and members are held last first.
inductive Frame where
  | array (items : List Json)
  | object (members : List (Text × Json)) (name : Text)

inductive Reading where
  | value (stack : List Frame)
  | firstItem (stack : List Frame)
  | ended (v : Json) (stack : List Frame)
  | firstName (stack : List Frame)
  | nextName (members : List (Text × Json)) (stack : List Frame)
  | colon (members : List (Text × Json)) (name : Text) (stack : List Frame)

def beginValue? (stack : List Frame) : Token → Option Reading
  | .null => some (.ended .null stack)
  | .bool b => some (.ended (.bool b) stack)
  | .number spelling => some (.ended (.number spelling) stack)
  | .string spelling => some (.ended (.string spelling) stack)
  | .openArray => some (.firstItem stack)
  | .openObject => some (.firstName stack)
  | _ => none

def Reading.advance? (state : Reading) (token : Token) : Option Reading :=
  match state, token with
  | .value stack, _ => beginValue? stack token
  | .firstItem stack, .closeArray => some (.ended (.array []) stack)
  | .firstItem stack, _ => beginValue? (.array [] :: stack) token
  | .ended v (.array items :: stack), .comma => some (.value (.array (v :: items) :: stack))
  | .ended v (.array items :: stack), .closeArray =>
    some (.ended (.array (v :: items).reverse) stack)
  | .ended v (.object members name :: stack), .comma => some (.nextName ((name, v) :: members) stack)
  | .ended v (.object members name :: stack), .closeObject =>
    some (.ended (.object ((name, v) :: members).reverse) stack)
  | .ended _ _, _ => none
  | .firstName stack, .closeObject => some (.ended (.object []) stack)
  | .firstName stack, .string name => some (.colon [] name stack)
  | .firstName _, _ => none
  | .nextName members stack, .string name => some (.colon members name stack)
  | .nextName _ _, _ => none
  | .colon members name stack, .colon => some (.value (.object members name :: stack))
  | .colon _ _ _, _ => none

def Reading.run? : Reading → List Token → Option Reading
  | state, [] => some state
  | state, token :: rest => do (← state.advance? token).run? rest

def Reading.result? : Reading → Option Json
  | .ended v [] => some v
  | _ => none

def read? (t : Text) : Option Json := do ((← (Reading.value []).run? (← tokens? t)).result?)

end Json
end StaleStore
