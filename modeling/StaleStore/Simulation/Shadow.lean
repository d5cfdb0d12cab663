import Std.Data.ExtTreeMap
import Std.Data.ExtTreeSet
import StaleStore.Store.Listing
import StaleStore.Time

namespace StaleStore
namespace Simulation

abbrev KeySet := Std.ExtTreeSet Text

def delayMark : Text := "DELAY_".toList

-- It never forgets what has passed, and decides by the clock each time it is asked.
structure Shadow where
  objects : KeySet
  puts : Std.ExtTreeMap Text Timestamp
  deletes : Std.ExtTreeMap Text (Timestamp × Bool)
  window : UInt64

namespace Shadow

def start (window : UInt64) : Shadow := ⟨∅, ∅, ∅, window⟩

def isEligible (key : Text) : Bool := Text.hasInfix delayMark key

def isOpen (s : Shadow) (now since : Timestamp) : Bool := now.millisSince since < s.window

def hides (s : Shadow) (now : Timestamp) (key : Text) : Bool :=
  s.puts[key]?.any (s.isOpen now)

def activeDelete? (s : Shadow) (now : Timestamp) (key : Text) : Option Bool :=
  (s.deletes[key]?.filter fun (madeAt, _) => s.isOpen now madeAt).map (·.2)

-- Listed are stored keys outside of a put window and deleted keys that were captured.
def lists (s : Shadow) (now : Timestamp) (key : Text) : Bool :=
  (s.objects.contains key && !s.hides now key) || s.activeDelete? now key = some true

def candidates (s : Shadow) (now : Timestamp) : KeySet :=
  s.deletes.toList.foldl (fun keys (key, (madeAt, _)) => if s.isOpen now madeAt then keys.insert key else keys)
    s.objects

def expectedRecursive (s : Shadow) (now : Timestamp) (under : Text) : List Text :=
  (s.candidates now).toList.filter fun key => under.isPrefixOf key && s.lists now key

def directory? (under key : Text) : Option Text :=
  (Text.throughFirst? directoryDelimiter (key.drop under.length)).map (under ++ ·)

def expectedDelimited (s : Shadow) (now : Timestamp) (under : Text) : List Text × KeySet :=
  let below := (s.candidates now).toList.filter under.isPrefixOf
  (below.filter fun key => (directory? under key).isNone && s.lists now key,
    .ofList (below.filterMap (directory? under)))

def put (now : Timestamp) (key : Text) (s : Shadow) : Shadow :=
  { s with
    objects := s.objects.insert key
    puts := if isEligible key then s.puts.insert key now else s.puts }

def captures (s : Shadow) (now : Timestamp) (key : Text) : Bool :=
  s.objects.contains key && !s.hides now key

def delete (now : Timestamp) (key : Text) (captured : Bool) (s : Shadow) : Shadow :=
  { s with
    objects := s.objects.erase key
    deletes := if isEligible key then s.deletes.insert key (now, captured) else s.deletes }

def clear (s : Shadow) : Shadow := { s with puts := ∅, deletes := ∅ }

end Shadow
end Simulation
end StaleStore
