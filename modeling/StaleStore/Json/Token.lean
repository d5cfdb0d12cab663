import StaleStore.Json.Numeral
import StaleStore.Json.Spelling

namespace StaleStore
namespace Json

inductive Token where
  | openArray
  | closeArray
  | openObject
  | closeObject
  | comma
  | colon
  | null
  | bool (b : Bool)
  | number (spelling : Text)
  | string (spelling : Text)
deriving DecidableEq, Repr

-- Two values never stand next to each other without punctuation, so cutting at the longest run loses no text.
inductive Cutting where
  | between
  | run (back : Text)
  | quoted (back : Text)
  | escaped (back : Text)

def isRunChar (c : Char) : Bool := c.isAlphanum || c = '-' || c = '+' || c = '.'

def isSpace (c : Char) : Bool := c = ' ' || c = '\t' || c = '\n' || c = '\r'

def punctuation? (c : Char) : Option Token :=
  if c = '[' then some .openArray
  else if c = ']' then some .closeArray
  else if c = '\x7b' then some .openObject
  else if c = '\x7d' then some .closeObject
  else if c = ',' then some .comma
  else if c = ':' then some .colon
  else none

def runToken? (run : Text) : Option Token :=
  if run = ['n', 'u', 'l', 'l'] then some .null
  else if run = ['t', 'r', 'u', 'e'] then some (.bool true)
  else if run = ['f', 'a', 'l', 's', 'e'] then some (.bool false)
  else if (Numeral.ofText? run).isSome then some (.number run)
  else none

def stringToken? (spelling : Text) : Option Token :=
  if (pieces? spelling).isSome then some (.string spelling) else none

def beginWith? (c : Char) : Option (Cutting × List Token) :=
  if isSpace c then some (.between, [])
  else if c = '"' then some (.quoted [], [])
  else if isRunChar c then some (.run [c], [])
  else (punctuation? c).map fun token => (.between, [token])

def Cutting.advance? (state : Cutting) (c : Char) : Option (Cutting × List Token) :=
  match state with
  | .between => beginWith? c
  | .run back =>
    if isRunChar c then some (.run (c :: back), [])
    else do
      let token ← runToken? back.reverse
      let (next, tokens) ← beginWith? c
      some (next, token :: tokens)
  | .quoted back =>
    if c = '"' then do
      let token ← stringToken? back.reverse
      some (.between, [token])
    else if c = '\\' then some (.escaped (c :: back), [])
    else some (.quoted (c :: back), [])
  | .escaped back => some (.quoted (c :: back), [])

def Cutting.finish? : Cutting → Option (List Token)
  | .between => some []
  | .run back => (runToken? back.reverse).map ([·])
  | .quoted _ => none
  | .escaped _ => none

def tokensFrom? : Cutting → List Token → Text → Option (List Token)
  | state, back, [] => do some (back.reverse ++ (← state.finish?))
  | state, back, c :: rest => do
    let (next, found) ← state.advance? c
    tokensFrom? next (found.reverse ++ back) rest

def tokens? (t : Text) : Option (List Token) := tokensFrom? .between [] t

end Json
end StaleStore
