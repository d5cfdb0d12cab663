import StaleStore.Store.Action
import StaleStore.Store.Listing

namespace StaleStore

structure ObjectContent where
  summary : Summary
  data : Bytes
deriving DecidableEq, Repr

structure DeleteFailure where
  key : Text
  code : Text
  message : Text
deriving DecidableEq, Repr

structure BatchDeletion where
  deleted : List Text
  failures : List DeleteFailure
deriving DecidableEq, Repr

structure InitiatedUpload where
  bucket : Text
  key : Text
  uploadId : Text
deriving DecidableEq, Repr

structure PartTag where
  partNumber : UInt32
  etag : Text
deriving DecidableEq, Repr

structure CompletedUpload where
  bucket : Text
  key : Text
  etag : Text
deriving DecidableEq, Repr

structure PendingUpload where
  key : Text
  uploadId : Text
  initiated : Timestamp
deriving DecidableEq, Repr

structure UploadListing where
  bucket : Text
  under : Option Text
  uploads : List PendingUpload
deriving DecidableEq, Repr

class ObjectStore (σ : Type) where
  put : Timestamp → (bucket key : Text) → Bytes → Action σ Text
  get : Timestamp → (bucket key : Text) → Action σ ObjectContent
  delete : Timestamp → (bucket key : Text) → Action σ Unit
  deleteBatch : Timestamp → (bucket : Text) → (keys : List Text) → Action σ BatchDeletion
  list : Timestamp → ListRequest → Action σ Listing
  listTokens : Timestamp → TokenRequest → Action σ TokenListing
  initiateUpload : Timestamp → (bucket key : Text) → Action σ InitiatedUpload
  uploadPart : Timestamp → (bucket key uploadId : Text) → (partNumber : UInt32) → Bytes → Action σ PartTag
  completeUpload : Timestamp → (bucket key uploadId : Text) → List PartTag → Action σ CompletedUpload
  abortUpload : Timestamp → (bucket key uploadId : Text) → Action σ Unit
  listUploads : Timestamp → (bucket : Text) → (under : Option Text) → Action σ UploadListing

inductive Call where
  | put (bucket key : Text) (data : Bytes)
  | get (bucket key : Text)
  | delete (bucket key : Text)
  | deleteBatch (bucket : Text) (keys : List Text)
  | list (request : ListRequest)
  | listTokens (request : TokenRequest)
  | initiateUpload (bucket key : Text)
  | uploadPart (bucket key uploadId : Text) (partNumber : UInt32) (data : Bytes)
  | completeUpload (bucket key uploadId : Text) (parts : List PartTag)
  | abortUpload (bucket key uploadId : Text)
  | listUploads (bucket : Text) (under : Option Text)
deriving DecidableEq, Repr

inductive Reply where
  | stored (etag : Text)
  | content (object : ObjectContent)
  | deleted
  | batch (result : BatchDeletion)
  | listing (page : Listing)
  | tokenListing (page : TokenListing)
  | initiated (upload : InitiatedUpload)
  | part (tag : PartTag)
  | completed (upload : CompletedUpload)
  | aborted
  | uploads (listing : UploadListing)
deriving DecidableEq, Repr

namespace Action

def map {σ α β : Type} (f : α → β) (x : Action σ α) : Action σ β := fun s =>
  match x s with
  | (.ok a, s) => (.ok (f a), s)
  | (.error e, s) => (.error e, s)

end Action

variable {σ : Type} [ObjectStore σ]

def Call.perform (now : Timestamp) : Call → Action σ Reply
  | .put b k data => (ObjectStore.put now b k data).map .stored
  | .get b k => (ObjectStore.get now b k).map .content
  | .delete b k => (ObjectStore.delete now b k).map fun _ => .deleted
  | .deleteBatch b ks => (ObjectStore.deleteBatch now b ks).map .batch
  | .list r => (ObjectStore.list now r).map .listing
  | .listTokens r => (ObjectStore.listTokens now r).map .tokenListing
  | .initiateUpload b k => (ObjectStore.initiateUpload now b k).map .initiated
  | .uploadPart b k u n data => (ObjectStore.uploadPart now b k u n data).map .part
  | .completeUpload b k u parts => (ObjectStore.completeUpload now b k u parts).map .completed
  | .abortUpload b k u => (ObjectStore.abortUpload now b k u).map fun _ => .aborted
  | .listUploads b under => (ObjectStore.listUploads now b under).map .uploads

end StaleStore
