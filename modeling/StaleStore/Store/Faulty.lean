import StaleStore.Store.Memory

namespace StaleStore

structure Faults where
  writes : List Text
  lists : List Text
  encodingType : Option Text
deriving DecidableEq, Repr

structure Faulty where
  memory : Memory
  faults : Faults
deriving DecidableEq

namespace Faulty

variable {α : Type}

def ofMemory (m : Memory) : Faulty := ⟨m, ⟨[], [], none⟩⟩

def reason : Text := "backend fault".toList

def onMemory (x : Action Memory α) : Action Faulty α := .onPart (·.memory) (fun m f => { f with memory := m }) x

def unlessFaulty (faulty : Faults → Bool) (x : Action Faulty α) : Action Faulty α := do
  let f ← Action.get
  if faulty f.faults then .fail (.io reason) else x

def deleteBatch (now : Timestamp) (bucket : Text) (keys : List Text) : Action Faulty BatchDeletion := do
  let f ← Action.get
  let (broken, sound) := keys.partition f.faults.writes.contains
  let failures := broken.map fun key => DeleteFailure.mk key "InternalError".toList reason
  if sound.isEmpty && !broken.isEmpty then return ⟨[], failures⟩
  else
    let result ← onMemory (ObjectStore.deleteBatch now bucket sound)
    return { result with failures := result.failures ++ failures }

def list (now : Timestamp) (r : ListRequest) : Action Faulty Listing :=
  unlessFaulty (·.lists.contains r.under) do
    let f ← Action.get
    let page ← onMemory (ObjectStore.list now r)
    return { page with encodingType := f.faults.encodingType }

def listTokens (now : Timestamp) (r : TokenRequest) : Action Faulty TokenListing :=
  unlessFaulty (·.lists.contains r.under) do
    let f ← Action.get
    let page ← onMemory (ObjectStore.listTokens now r)
    return { page with encodingType := f.faults.encodingType }

instance : ObjectStore Faulty where
  put now b k data := unlessFaulty (·.writes.contains k) (onMemory (ObjectStore.put now b k data))
  get now b k := onMemory (ObjectStore.get now b k)
  delete now b k := unlessFaulty (·.writes.contains k) (onMemory (ObjectStore.delete now b k))
  deleteBatch := deleteBatch
  list := list
  listTokens := listTokens
  initiateUpload now b k := onMemory (ObjectStore.initiateUpload now b k)
  uploadPart now b k u n data := onMemory (ObjectStore.uploadPart now b k u n data)
  completeUpload now b k u parts := onMemory (ObjectStore.completeUpload now b k u parts)
  abortUpload now b k u := onMemory (ObjectStore.abortUpload now b k u)
  listUploads now b under := onMemory (ObjectStore.listUploads now b under)

end Faulty
end StaleStore
