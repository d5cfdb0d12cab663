import StaleStore.Checksum
import StaleStore.Json.Fields
import StaleStore.Json.Reader
import StaleStore.Time

namespace StaleStore

structure Summary where
  bucket : Text
  key : Text
  size : UInt64
  etag : Text
  lastModified : Timestamp
  storageClass : Text
deriving DecidableEq, Repr

namespace Summary

def toJson (s : Summary) : Json :=
  .ofMembers
    [("bucket".toList, .text s.bucket),
      ("key".toList, .text s.key),
      ("size".toList, .nat s.size.toNat),
      ("etag".toList, .text s.etag),
      ("last_modified_ms".toList, .nat s.lastModified.ms.toNat),
      ("storage_class".toList, .text s.storageClass)]

def ofAttributes? (bucket key size etag lastModified storageClass : Json) : Option Summary := do
  some
    { bucket := ← bucket.text?
      key := ← key.text?
      size := ← size.uint64?
      etag := ← etag.text?
      lastModified := ⟨← lastModified.uint64?⟩
      storageClass := ← storageClass.text? }

def ofJson? : Json → Option Summary
  | .array [bucket, key, size, etag, lastModified, storageClass] =>
    ofAttributes? bucket key size etag lastModified storageClass
  | .object members => do
    let fields ← Json.fields? members
    ofAttributes? (← fields.one? "bucket".toList) (← fields.one? "key".toList)
      (← fields.one? "size".toList) (← fields.one? "etag".toList)
      (← fields.one? "last_modified_ms".toList) (← fields.one? "storage_class".toList)
  | _ => none

def read? (t : Text) : Option Summary := do ofJson? (← Json.read? t)

end Summary
end StaleStore
