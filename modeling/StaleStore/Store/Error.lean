import StaleStore.Text

namespace StaleStore

inductive StoreError where
  | throttled (failureCount : Nat)
  | noSuchBucket (bucket : Text)
  | noSuchKey (bucket key : Text)
  | noSuchUpload (uploadId : Text)
  | invalidPart (uploadId : Text) (partNumber : UInt32)
  | invalidRequest (reason : Text)
  | io (reason : Text)
deriving DecidableEq, Repr

namespace StoreError

def message : StoreError → Text
  | .throttled n => "throttled count = ".toList ++ Text.decimal n
  | .noSuchBucket b => "no such bucket: ".toList ++ b
  | .noSuchKey b k => "no such key: ".toList ++ b ++ '/' :: k
  | .noSuchUpload u => "no such upload: ".toList ++ u
  | .invalidPart u n => "invalid part ".toList ++ Text.decimal n.toNat ++ " for upload ".toList ++ u
  | .invalidRequest r => "invalid request: ".toList ++ r
  | .io r => "I/O error: ".toList ++ r

def status : StoreError → Nat
  | .throttled _ => 503
  | .noSuchBucket _ | .noSuchKey _ _ | .noSuchUpload _ => 404
  | .invalidPart _ _ | .invalidRequest _ => 400
  | .io _ => 500

def isRetryable : StoreError → Bool
  | .throttled _ | .io _ => true
  | _ => false

def isInjected : StoreError → Bool
  | .throttled _ => true
  | _ => false

end StoreError
end StaleStore
