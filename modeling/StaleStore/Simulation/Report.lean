import StaleStore.Text.Quoted

namespace StaleStore
namespace Simulation

inductive Operation where
  | put (key : Text)
  | delete (key : Text)
  | deleteBatch (keys : List Text)
  | listRecursive (under : Text)
  | listDelimited (under : Text)
  | advance (ms : UInt64)
  | clear
deriving DecidableEq, Repr

def describeWith (name argument value : Text) : Text :=
  name ++ " \x7b ".toList ++ argument ++ ": ".toList ++ value ++ " \x7d".toList

def Operation.describe : Operation → Text
  | .put key => describeWith "Put".toList "key".toList (Text.quoted key)
  | .delete key => describeWith "Delete".toList "key".toList (Text.quoted key)
  | .deleteBatch keys => describeWith "DeleteBatch".toList "keys".toList (Text.quotedList keys)
  | .listRecursive under => describeWith "ListRecursive".toList "prefix".toList (Text.quoted under)
  | .listDelimited under => describeWith "ListDelimited".toList "prefix".toList (Text.quoted under)
  | .advance ms => describeWith "Advance".toList "ms".toList (Text.decimal ms.toNat)
  | .clear => "Clear".toList

def describeLast : Option Operation → Text
  | none => "None".toList
  | some op => "Some(".toList ++ op.describe ++ [')']

structure Report where
  seed : UInt64
  operations : Nat
  puts : Nat
  deletes : Nat
  listings : Nat
  throttled : Nat
  clears : Nat
  violations : List Text
  last : Option Operation
deriving DecidableEq, Repr

namespace Report

def start (seed : UInt64) : Report := ⟨seed, 0, 0, 0, 0, 0, 0, [], none⟩

def isSuccess (r : Report) : Bool := r.violations.isEmpty

def addViolation (message : Text) (r : Report) : Report :=
  let text := "Op #".toList ++ Text.decimal r.operations ++ ": ".toList ++ describeLast r.last
    ++ " - ".toList ++ message
  { r with violations := r.violations ++ [text] }

def summary (r : Report) : Text :=
  "Seed ".toList ++ Text.decimal r.seed.toNat ++ ": ".toList ++ Text.decimal r.operations
    ++ " ops (put:".toList ++ Text.decimal r.puts ++ ", delete:".toList ++ Text.decimal r.deletes
    ++ ", list:".toList ++ Text.decimal r.listings ++ ", throttled:".toList ++ Text.decimal r.throttled
    ++ ", clear:".toList ++ Text.decimal r.clears ++ "), ".toList ++ Text.decimal r.violations.length
    ++ " violations".toList

def failureLines (r : Report) : Text :=
  "  Seed ".toList ++ Text.decimal r.seed.toNat ++ ": ".toList ++ r.summary ++ ['\n']
    ++ r.violations.flatMap fun v => "    - ".toList ++ v ++ ['\n']

def total? (count : Report → Nat) (reports : List Report) : Option Nat :=
  let sum := (reports.map count).foldl (· + ·) 0
  if sum < UInt64.size then some sum else none

def summaryOf (operations throttled : Nat) (reports : List Report) : Text :=
  let failed := reports.filter (!·.isSuccess)
  let head := "Inconsistency DST Summary\n=========================\nSeeds: ".toList
    ++ Text.decimal reports.length ++ " total, ".toList
    ++ Text.decimal (reports.length - failed.length) ++ " passed, ".toList
    ++ Text.decimal failed.length ++ " failed\nTotal operations: ".toList
    ++ Text.decimal operations ++ ", throttled: ".toList ++ Text.decimal throttled ++ ['\n']
  if failed.isEmpty then head
  else head ++ "\nFailed seeds:\n".toList ++ failed.flatMap failureLines

def summarize? (reports : List Report) : Option Text := do
  let operations ← total? (·.operations) reports
  let throttled ← total? (·.throttled) reports
  return summaryOf operations throttled reports

end Report
end Simulation
end StaleStore
