import StaleStore.Store.Summary

namespace StaleStore

structure ListRequest where
  bucket : Text
  under : Text
  delimiter : Option Text
  marker : Option Text
  maxKeys : Nat
deriving DecidableEq, Repr

structure TokenRequest where
  bucket : Text
  under : Text
  delimiter : Option Text
  token : Option Text
  startAfter : Option Text
  maxKeys : Nat
deriving DecidableEq, Repr

def directoryDelimiter : Text := ['/']

def defaultMaxKeys : Nat := 1000

-- Every delimiter but the slash leaves a listing recursive.
def isRecursive (delimiter : Option Text) : Bool := delimiter ≠ some directoryDelimiter

namespace ListRequest

def recursive (bucket under : Text) : ListRequest := ⟨bucket, under, none, none, defaultMaxKeys⟩

def delimited (bucket under : Text) : ListRequest :=
  { recursive bucket under with delimiter := some directoryDelimiter }

def isRecursive (r : ListRequest) : Bool := StaleStore.isRecursive r.delimiter

end ListRequest

namespace TokenRequest

def isRecursive (r : TokenRequest) : Bool := StaleStore.isRecursive r.delimiter

-- A token takes precedence over the key to begin after.
def start (r : TokenRequest) : Option Text := r.token.or r.startAfter

end TokenRequest

structure Listing where
  request : ListRequest
  nextMarker : Option Text
  encodingType : Option Text
  truncated : Bool
  summaries : List Summary
  commonPrefixes : List Text
deriving DecidableEq, Repr

structure TokenListing where
  request : TokenRequest
  nextToken : Option Text
  keyCount : Nat
  encodingType : Option Text
  truncated : Bool
  summaries : List Summary
  commonPrefixes : List Text
deriving DecidableEq, Repr

end StaleStore
