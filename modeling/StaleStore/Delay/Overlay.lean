import StaleStore.Path
import StaleStore.Store.Summary

namespace StaleStore

structure OverlaidListing where
  summaries : List Summary
  commonPrefixes : List Text
  hidden : Nat
  restoredSummaries : Nat
  restoredPrefixes : Nat
deriving DecidableEq, Repr

namespace OverlaidListing

def ofRaw (hides : Text → Bool) (summaries : List Summary) (commonPrefixes : List Text) : OverlaidListing :=
  let kept := summaries.filter (!hides ·.key)
  let keptPrefixes := commonPrefixes.filter (!hides ·)
  { summaries := kept
    commonPrefixes := keptPrefixes
    hidden := (summaries.length - kept.length) + (commonPrefixes.length - keptPrefixes.length)
    restoredSummaries := 0
    restoredPrefixes := 0 }

def addSummary (s : Summary) (l : OverlaidListing) : OverlaidListing :=
  if l.summaries.any (·.key = s.key) then l
  else { l with summaries := l.summaries ++ [s], restoredSummaries := l.restoredSummaries + 1 }

def addPrefix (p : Text) (l : OverlaidListing) : OverlaidListing :=
  if l.commonPrefixes.any (Path.normalize · = Path.normalize p) then l
  else { l with commonPrefixes := l.commonPrefixes ++ [p], restoredPrefixes := l.restoredPrefixes + 1 }

def summaryOf? (under : Text) (recursive : Bool) (held : Text × Option Summary) : Option Summary :=
  if Path.isDescendant under held.1 recursive then held.2 else none

def prefixOf? (under : Text) (recursive : Bool) (key : Text) : Option Text :=
  if !recursive && Path.isDescendant under key true then Path.rollUp? under key else none

def restore (under : Text) (recursive : Bool) (l : OverlaidListing) (held : Text × Option Summary) :
    OverlaidListing :=
  let l := (summaryOf? under recursive held).elim l (addSummary · l)
  (prefixOf? under recursive held.1).elim l (addPrefix · l)

end OverlaidListing

def overlay (hides : Text → Bool) (held : List (Text × Option Summary)) (under : Text) (recursive : Bool)
    (summaries : List Summary) (commonPrefixes : List Text) : OverlaidListing :=
  held.foldl (OverlaidListing.restore under recursive) (.ofRaw hides summaries commonPrefixes)

end StaleStore
