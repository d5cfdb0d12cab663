import Std.Data.ExtTreeMap
import StaleStore.Store.Listing

namespace StaleStore

structure StoredObject where
  data : Bytes
  etag : Text
  lastModified : Timestamp
deriving DecidableEq, Repr

abbrev Bucket := Std.ExtTreeMap Text StoredObject

def StoredObject.summary (bucket key : Text) (o : StoredObject) : Summary where
  bucket := bucket
  key := key
  size := UInt64.ofNat o.data.length
  etag := o.etag
  lastModified := o.lastModified
  storageClass := "STANDARD".toList

structure Page where
  summaries : List Summary
  commonPrefixes : List Text
  truncated : Bool
  lastEntry : Option Text
deriving DecidableEq, Repr

namespace Page

def empty : Page := ⟨[], [], false, none⟩
def cut : Page := ⟨[], [], true, none⟩

-- Entries are put in front of a page that holds what comes after them, so the last entry is known from
-- the page unless it has none.
def addSummary (s : Summary) (page : Page) : Page :=
  { page with summaries := s :: page.summaries, lastEntry := page.lastEntry.or (some s.key) }

def addGroup (g : Text) (page : Page) : Page :=
  { page with commonPrefixes := g :: page.commonPrefixes, lastEntry := page.lastEntry.or (some g) }

def group? (under : Text) (delimiter : Option Text) (key : Text) : Option Text := do
  let d ← delimiter
  if d.isEmpty then none
  else (Text.throughFirst? d (key.drop under.length)).map (under ++ ·)

-- Go through the keys in order with `room` for so many entries. A group is passed over if it was the
-- last one reported or is the entry to resume after.
def collect (bucket : Text) (group : Text → Option Text) (start : Option Text) :
    (lastGroup : Option Text) → (room : Nat) → List (Text × StoredObject) → Page
  | _, _, [] => empty
  | lastGroup, room, (key, o) :: rest =>
    match group key with
    | some g =>
      if start = some g || lastGroup = some g then collect bucket group start lastGroup room rest
      else
        match room with
        | 0 => cut
        | room + 1 => addGroup g (collect bucket group start (some g) room rest)
    | none =>
      match room with
      | 0 => cut
      | room + 1 => addSummary (o.summary bucket key) (collect bucket group start lastGroup room rest)

-- Does a key come too early for the page? A start at or behind the prefix is itself excluded.
def tooEarly (under : Text) (start : Option Text) (key : Text) : Bool :=
  match start with
  | some s => if s.before under then key.before under else !s.before key
  | none => key.before under

def keysUnder (under : Text) (start : Option Text) (objects : Bucket) : List (Text × StoredObject) :=
  (objects.toList.dropWhile fun e => tooEarly under start e.1).takeWhile fun e => under.isPrefixOf e.1

def ofBucket (bucket : Text) (objects : Bucket) (under : Text) (delimiter start : Option Text)
    (maxKeys : Nat) : Page :=
  collect bucket (group? under delimiter) start none maxKeys (keysUnder under start objects)

def next (page : Page) : Option Text := if page.truncated then page.lastEntry else none

end Page
end StaleStore
