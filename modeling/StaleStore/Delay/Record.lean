import Std.Data.ExtTreeMap
import StaleStore.Store.Summary

namespace StaleStore

-- The summary is missing where listings did not show the key when it was deleted.
structure DelayedDelete where
  deletedAt : Timestamp
  summary : Option Summary
deriving DecidableEq, Repr

-- Deletes that have passed are dropped whenever they are looked through; puts stay until everything is cleared.
structure DelayRecord where
  puts : Std.ExtTreeMap Text Timestamp
  deletes : Std.ExtTreeMap Text DelayedDelete
deriving DecidableEq

namespace DelayRecord

def empty : DelayRecord := ⟨∅, ∅⟩

def recordPut (now : Timestamp) (key : Text) (r : DelayRecord) : DelayRecord :=
  { r with puts := r.puts.insert key now }

def recordDelete (now : Timestamp) (key : Text) (summary : Option Summary) (r : DelayRecord) : DelayRecord :=
  { r with deletes := r.deletes.insert key ⟨now, summary⟩ }

def hides (window : Span) (now : Timestamp) (r : DelayRecord) (key : Text) : Bool :=
  match r.puts[key]? with
  | some madeAt => !now.hasElapsed madeAt window
  | none => false

def purge (window : Span) (now : Timestamp) (r : DelayRecord) : DelayRecord :=
  { r with deletes := r.deletes.filter fun _ d => !now.hasElapsed d.deletedAt window }

-- The deletes that are held, in key order. The table that holds them hands them out in an order of its own.
def heldDeletes (r : DelayRecord) : List (Text × Option Summary) :=
  r.deletes.toList.map fun (key, d) => (key, d.summary)

def pendingPuts (r : DelayRecord) : Nat := r.puts.size
def pendingDeletes (r : DelayRecord) : Nat := r.deletes.size

end DelayRecord

-- How a table hands out what it holds. Nothing is known of it, and it may be another one after every call.
structure TableOrder where
  arrange : List (Text × Option Summary) → List (Text × Option Summary)
  perm (held : List (Text × Option Summary)) : (arrange held).Perm held

namespace TableOrder

def byKey : TableOrder := ⟨id, fun _ => .refl _⟩

end TableOrder
end StaleStore
