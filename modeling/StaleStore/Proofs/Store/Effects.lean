import StaleStore.Proofs.Store.Calls

namespace StaleStore

theorem Action.map_of_ok {σ α β : Type} {f : α → β} {x : Action σ α} {s t : σ} {a : α} (done : x s = (.ok a, t)) :
    x.map f s = (.ok (f a), t) := by rw [map, done]

def Call.IsRead : Call → Prop
  | .get .. | .list _ | .listTokens _ | .listUploads .. => True
  | _ => False

namespace Memory

variable {α β : Type} {m : Memory}

def Reads (x : Action Memory α) : Prop := ∀ m, (x m).2 = m

theorem Reads.bind {x : Action Memory α} {f : α → Action Memory β} (first : Reads x) (rest : ∀ a, Reads (f a)) :
    Reads (x >>= f) := by
  intro m
  have kept := first m
  rcases result : x m with ⟨e | a, m'⟩ <;> rw [result] at kept
  · rw [Action.bind_of_error result]
    exact kept
  · rw [Action.bind_of_ok result]
    exact (rest a m').trans kept

theorem Reads.objects (bucket : Text) : Reads (Memory.objects bucket) := by
  intro m
  unfold Memory.objects
  split <;> rfl

theorem Reads.upload (bucket key id : Text) : Reads (Memory.upload bucket key id) := by
  intro m
  unfold Memory.upload
  split
  · split <;> rfl
  · rfl

theorem Reads.get (bucket key : Text) : Reads (Memory.get bucket key) := by
  refine (Reads.objects bucket).bind fun o => ?_
  cases o[key]? <;> exact fun _ => rfl

theorem Reads.list (r : ListRequest) : Reads (Memory.list r) := (Reads.objects r.bucket).bind fun _ _ => rfl

theorem Reads.listTokens (r : TokenRequest) : Reads (Memory.listTokens r) :=
  (Reads.objects r.bucket).bind fun _ _ => rfl

theorem Reads.listUploads (bucket : Text) (under : Option Text) : Reads (Memory.listUploads bucket under) :=
  (Reads.objects bucket).bind fun _ _ => rfl

structure Keeps (m m' : Memory) : Prop where
  buckets : m'.buckets = m.buckets
  initiations : m'.initiations = m.initiations
  uploads : ∀ {id : Text} {u : Upload}, m'.uploads[id]? = some u → m.uploads[id]? = some u

theorem Keeps.refl (m : Memory) : m.Keeps m := ⟨rfl, rfl, id⟩

theorem Keeps.erase (m : Memory) (id : Text) : m.Keeps { m with uploads := m.uploads.erase id } where
  buckets := rfl
  initiations := rfl
  uploads found := by
    rw [Std.ExtTreeMap.getElem?_erase] at found
    split at found
    · cases found
    · exact found

def assembled (now : Timestamp) (u : Upload) (parts : List PartTag) : StoredObject :=
  let data := joinParts u parts
  ⟨data, Checksum.joinedTag data parts.length, now⟩

end Memory

namespace Call

-- What a call gives back, and the store that it leaves.
inductive Effect (now : Timestamp) (m : Memory) : Call → Except StoreError Reply × Memory → Prop where
  | failed {c e m'} : m.Keeps m' → Effect now m c (.error e, m')
  | read {c r} : c.IsRead → Effect now m c (.ok r, m)
  | put {b k data o} : m.buckets[b]? = some o → Effect now m (.put b k data) (.ok (.stored (Checksum.tag data)),
      { m with buckets := m.buckets.insert b (o.insert k ⟨data, Checksum.tag data, now⟩) })
  | delete {b k o} : m.buckets[b]? = some o → Effect now m (.delete b k) (.ok .deleted,
      { m with buckets := m.buckets.insert b (o.erase k) })
  | deleteBatch {b keys o} : m.buckets[b]? = some o → Effect now m (.deleteBatch b keys) (.ok (.batch ⟨keys, []⟩),
      { m with buckets := m.buckets.insert b (keys.foldl (·.erase ·) o) })
  | initiate {b k} : Effect now m (.initiateUpload b k)
      (.ok (.initiated ⟨b, k, Memory.uploadId (m.initiations + 1)⟩), { m with
        uploads := m.uploads.insert (Memory.uploadId (m.initiations + 1)) ⟨b, k, now, ∅⟩
        initiations := m.initiations + 1 })
  | part {id n data u} : m.uploads[id]? = some u → Effect now m (.uploadPart u.bucket u.key id n data)
      (.ok (.part ⟨n, Checksum.tag data⟩), { m with
        uploads := m.uploads.insert id { u with parts := u.parts.insert n (Checksum.tag data, data) } })
  | complete {id parts u o r} : m.uploads[id]? = some u → Memory.ascending parts = true →
      Memory.wrongPart? u parts = none → m.buckets[u.bucket]? = some o →
      Effect now m (.completeUpload u.bucket u.key id parts) (.ok (.completed r), { m with
        uploads := m.uploads.erase id
        buckets := m.buckets.insert u.bucket (o.insert u.key (Memory.assembled now u parts)) })
  | abort {b k id} : Effect now m (.abortUpload b k id) (.ok .aborted, { m with uploads := m.uploads.erase id })

variable {now : Timestamp} {m : Memory}

theorem effect_of_reads {α : Type} {c : Call} {x : Action Memory α} {f : α → Reply} (read : c.IsRead)
    (reads : Memory.Reads x) : Effect now m c (x.map f m) := by
  have kept := reads m
  rw [Action.map]
  rcases result : x m with ⟨e | a, m'⟩ <;> rw [result] at kept <;> cases kept
  · exact .failed (.refl _)
  · exact .read read

theorem effect_of_objects {α : Type} {c : Call} {b : Text} {x : Bucket → Action Memory α} {f : α → Reply}
    (stored : ∀ o, m.buckets[b]? = some o → Effect now m c ((x o).map f m)) :
    Effect now m c ((Memory.objects b >>= x).map f m) := by
  cases found : m.buckets[b]? with
  | none =>
    rw [Action.map, Action.bind_of_error (Memory.objects_of_missing found)]
    exact .failed (.refl _)
  | some o =>
    rw [Action.map, Action.bind_of_ok (Memory.objects_of_stored found)]
    exact stored o found

theorem effect_of_upload {α : Type} {c : Call} {b k id : Text} {x : Upload → Action Memory α} {f : α → Reply}
    (under : ∀ u, m.uploads[id]? = some u → u.bucket = b → u.key = k → Effect now m c ((x u).map f m)) :
    Effect now m c ((Memory.upload b k id >>= x).map f m) := by
  have kept := Memory.Reads.upload b k id m
  rcases found : Memory.upload b k id m with ⟨e | u, m'⟩ <;> rw [found] at kept <;> cases kept
  · rw [Action.map, Action.bind_of_error found]
    exact .failed (.refl _)
  · rw [Action.map, Action.bind_of_ok found]
    obtain ⟨found, own, -⟩ := Memory.upload_ok.mp found
    exact under u found own.1 own.2

theorem completeUpload_effect (b k id : Text) (parts : List PartTag) :
    Effect now m (.completeUpload b k id parts)
      ((Memory.completeUpload now b k id parts).map .completed m) := by
  unfold Memory.completeUpload
  split
  · exact .failed (.refl _)
  · split
    · exact .failed (.refl _)
    · rename_i ordered
      refine effect_of_upload ?_
      rintro u under rfl rfl
      cases right : Memory.wrongPart? u parts with
      | some p => exact .failed (.refl _)
      | none =>
        let data := Memory.joinParts u parts
        let etag := Checksum.joinedTag data parts.length
        let left : Memory := { m with uploads := m.uploads.erase id }
        show Effect now m _ (Action.map .completed (do
          Memory.storeObject now u.bucket u.key data etag
          return ⟨u.bucket, u.key, etag⟩) left)
        cases found : m.buckets[u.bucket]? with
        | none =>
          have lost := Memory.storeObject_of_missing now u.key data etag (m := left) found
          rw [Action.map, Action.bind_of_error lost]
          exact .failed (.erase m id)
        | some o =>
          have stored := Memory.storeObject_of_stored now u.key data etag (m := left) found
          rw [Action.map, Action.bind_of_ok stored]
          exact .complete under (by simpa using ordered) right found

theorem effect (now : Timestamp) (c : Call) (m : Memory) : Effect now m c (c.perform now m) := by
  cases c with
  | put b k data =>
    cases found : m.buckets[b]? with
    | none =>
      have failed := Memory.storeObject_of_missing now k data (Checksum.tag data) found
      rw [perform, Action.map, show ObjectStore.put now b k data m = _ from Action.bind_of_error failed]
      exact .failed (.refl _)
    | some o =>
      rw [perform, Action.map, show ObjectStore.put now b k data m = _ from Memory.put_of_stored now k data found]
      exact .put found
  | get b k => exact effect_of_reads trivial (.get b k)
  | delete b k => exact effect_of_objects fun o stored => .delete stored
  | deleteBatch b keys =>
    show Effect now m _ ((Memory.deleteBatch b keys).map .batch m)
    unfold Memory.deleteBatch
    split
    · exact .failed (.refl _)
    · exact effect_of_objects fun o stored => .deleteBatch stored
  | list r => exact effect_of_reads trivial (.list r)
  | listTokens r => exact effect_of_reads trivial (.listTokens r)
  | initiateUpload b k => exact effect_of_objects fun o stored => .initiate
  | uploadPart b k id n data =>
    show Effect now m _ ((Memory.uploadPart b k id n data).map .part m)
    unfold Memory.uploadPart
    split
    · exact .failed (.refl _)
    · refine effect_of_upload ?_
      rintro u under rfl rfl
      exact .part under
  | completeUpload b k id parts => exact completeUpload_effect b k id parts
  | abortUpload b k id => exact effect_of_upload fun u _ _ _ => .abort
  | listUploads b under => exact effect_of_reads trivial (.listUploads b under)

end Call
end StaleStore
