import StaleStore.Store.Interface
import StaleStore.Store.Page

namespace StaleStore

structure Upload where
  bucket : Text
  key : Text
  initiated : Timestamp
  parts : Std.ExtTreeMap UInt32 (Text × Bytes)
deriving DecidableEq

-- `initiations` counts the uploads ever begun, and their ids come from it. It is an unbounded number; a counter of 64
-- bits gives out the same ids until 2 ^ 64 uploads have been begun.
structure Memory where
  buckets : Std.ExtTreeMap Text Bucket
  uploads : Std.ExtTreeMap Text Upload
  initiations : Nat
deriving DecidableEq

namespace Memory

def empty : Memory := ⟨∅, ∅, 0⟩

def createBucket (bucket : Text) (m : Memory) : Memory :=
  if m.buckets.contains bucket then m else { m with buckets := m.buckets.insert bucket ∅ }

def withBucket (bucket : Text) : Memory := empty.createBucket bucket

def objectCount (bucket : Text) (m : Memory) : Nat :=
  match m.buckets[bucket]? with
  | some objects => objects.size
  | none => 0

def objects (bucket : Text) : Action Memory Bucket := fun m =>
  match m.buckets[bucket]? with
  | some objects => (.ok objects, m)
  | none => (.error (.noSuchBucket bucket), m)

def setObjects (bucket : Text) (objects : Bucket) : Action Memory Unit :=
  .modify fun m => { m with buckets := m.buckets.insert bucket objects }

def storeObject (now : Timestamp) (bucket key : Text) (data : Bytes) (etag : Text) : Action Memory Unit := do
  let o ← objects bucket
  setObjects bucket (o.insert key ⟨data, etag, now⟩)

def put (now : Timestamp) (bucket key : Text) (data : Bytes) : Action Memory Text := do
  let etag := Checksum.tag data
  storeObject now bucket key data etag
  return etag

def get (bucket key : Text) : Action Memory ObjectContent := do
  let o ← objects bucket
  match o[key]? with
  | some object => return ⟨object.summary bucket key, object.data⟩
  | none => .fail (.noSuchKey bucket key)

def delete (bucket key : Text) : Action Memory Unit := do
  let o ← objects bucket
  setObjects bucket (o.erase key)

def deleteBatch (bucket : Text) (keys : List Text) : Action Memory BatchDeletion := do
  if keys.isEmpty then .fail (.invalidRequest "batch delete requires at least one key".toList)
  else
    let o ← objects bucket
    setObjects bucket (keys.foldl (·.erase ·) o)
    return ⟨keys, []⟩

def list (r : ListRequest) : Action Memory Listing := do
  let o ← objects r.bucket
  let page := Page.ofBucket r.bucket o r.under r.delimiter r.marker r.maxKeys
  return {
      request := r
      nextMarker := page.next
      encodingType := none
      truncated := page.truncated
      summaries := page.summaries
      commonPrefixes := page.commonPrefixes }

def listTokens (r : TokenRequest) : Action Memory TokenListing := do
  let o ← objects r.bucket
  let page := Page.ofBucket r.bucket o r.under r.delimiter r.start r.maxKeys
  return {
      request := r
      nextToken := page.next
      keyCount := page.summaries.length + page.commonPrefixes.length
      encodingType := none
      truncated := page.truncated
      summaries := page.summaries
      commonPrefixes := page.commonPrefixes }

-- Ids have at least eight digits.
def uploadId (count : Nat) : Text := "upload-".toList ++ Text.padded 8 count

def initiateUpload (now : Timestamp) (bucket key : Text) : Action Memory InitiatedUpload := do
  let _ ← objects bucket
  let m ← Action.get
  let count := m.initiations + 1
  let id := uploadId count
  .modify fun m => { m with uploads := m.uploads.insert id ⟨bucket, key, now, ∅⟩, initiations := count }
  return ⟨bucket, key, id⟩

def upload (bucket key uploadId : Text) : Action Memory Upload := fun m =>
  match m.uploads[uploadId]? with
  | some u => if u.bucket = bucket && u.key = key then (.ok u, m) else (.error (.noSuchUpload uploadId), m)
  | none => (.error (.noSuchUpload uploadId), m)

def uploadPart (bucket key uploadId : Text) (partNumber : UInt32) (data : Bytes) : Action Memory PartTag := do
  if partNumber = 0 then .fail (.invalidPart uploadId 0)
  else
    let u ← upload bucket key uploadId
    let etag := Checksum.tag data
    .modify fun m =>
      { m with uploads :=
          m.uploads.insert uploadId { u with parts := u.parts.insert partNumber (etag, data) } }
    return ⟨partNumber, etag⟩

def ascending : List PartTag → Bool
  | a :: b :: rest => a.partNumber < b.partNumber && ascending (b :: rest)
  | _ => true

def wrongPart? (u : Upload) (parts : List PartTag) : Option PartTag :=
  parts.find? fun p => (u.parts[p.partNumber]?).map (·.1) ≠ some p.etag

def joinParts (u : Upload) (parts : List PartTag) : Bytes :=
  parts.flatMap fun p => ((u.parts[p.partNumber]?).map (·.2)).getD []

def removeUpload (uploadId : Text) : Action Memory Unit :=
  .modify fun m => { m with uploads := m.uploads.erase uploadId }

def completeUpload (now : Timestamp) (bucket key uploadId : Text) (parts : List PartTag) :
    Action Memory CompletedUpload := do
  if parts.isEmpty then .fail (.invalidRequest "multipart upload requires at least one part".toList)
  else if !ascending parts then .fail (.invalidRequest "parts must be listed in ascending order".toList)
  else
    let u ← upload bucket key uploadId
    match wrongPart? u parts with
    | some p => .fail (.invalidPart uploadId p.partNumber)
    | none =>
      removeUpload uploadId
      let data := joinParts u parts
      let etag := Checksum.joinedTag data parts.length
      storeObject now bucket key data etag
      return ⟨bucket, key, etag⟩

def abortUpload (bucket key uploadId : Text) : Action Memory Unit := do
  let _ ← upload bucket key uploadId
  removeUpload uploadId

def uploadBefore (a b : PendingUpload) : Bool :=
  match compare a.key b.key with
  | .lt => true
  | .gt => false
  | .eq => compare a.uploadId b.uploadId != .gt

def pendingUploads (bucket under : Text) (m : Memory) : List PendingUpload :=
  let matching := m.uploads.toList.filter fun (_, u) => u.bucket = bucket && under.isPrefixOf u.key
  (matching.map fun (id, u) => ⟨u.key, id, u.initiated⟩).mergeSort uploadBefore

def listUploads (bucket : Text) (under : Option Text) : Action Memory UploadListing := do
  let _ ← objects bucket
  let m ← Action.get
  return ⟨bucket, under, pendingUploads bucket (under.getD []) m⟩

instance : ObjectStore Memory where
  put now b k data := put now b k data
  get _ b k := get b k
  delete _ b k := delete b k
  deleteBatch _ b ks := deleteBatch b ks
  list _ r := list r
  listTokens _ r := listTokens r
  initiateUpload now b k := initiateUpload now b k
  uploadPart _ b k u n data := uploadPart b k u n data
  completeUpload now b k u parts := completeUpload now b k u parts
  abortUpload _ b k u := abortUpload b k u
  listUploads _ b under := listUploads b under

end Memory
end StaleStore
