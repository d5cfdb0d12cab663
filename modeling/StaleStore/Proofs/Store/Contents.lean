import StaleStore.Proofs.Store.Effects

namespace StaleStore

namespace Call

def bucket : Call → Text
  | put b .. | get b _ | delete b _ | deleteBatch b _ | initiateUpload b _ | uploadPart b .. | completeUpload b ..
  | abortUpload b .. | listUploads b _ => b
  | list r => r.bucket
  | listTokens r => r.bucket

def keys : Call → List Text
  | put _ key _ | get _ key | delete _ key | initiateUpload _ key | uploadPart _ key .. | completeUpload _ key ..
  | abortUpload _ key _ => [key]
  | deleteBatch _ keys => keys
  | list _ | listTokens _ | listUploads .. => []

def writes? : Call → Option (Text × Text)
  | put b key _ | completeUpload b key .. => some (b, key)
  | _ => none

theorem mem_keys_of_writes? {c : Call} {bucket key : Text} (writes : c.writes? = some (bucket, key)) :
    key ∈ c.keys := by
  cases c <;> cases writes <;> exact List.mem_singleton_self key

end Call

namespace Memory

def object? (bucket key : Text) (m : Memory) : Option StoredObject := m.buckets[bucket]?.bind (·[key]?)

variable {m : Memory} {bucket key : Text} {o : Bucket}

theorem object?_of_stored (stored : m.buckets[bucket]? = some o) : m.object? bucket key = o[key]? := by
  rw [object?, stored, Option.bind_some]

theorem get_eq (bucket key : Text) (m : Memory) : (get bucket key m).1 =
    if bucket ∈ m.buckets then
      match m.object? bucket key with
      | some object => .ok ⟨object.summary bucket key, object.data⟩
      | none => .error (.noSuchKey bucket key)
    else .error (.noSuchBucket bucket) := by
  cases found : m.buckets[bucket]? with
  | none =>
    have missing : bucket ∉ m.buckets := by simpa using found
    rw [if_neg missing, get, Action.bind_of_error (objects_of_missing found)]
  | some o =>
    rw [if_pos (mem_buckets_of_stored found), get, Action.bind_of_ok (objects_of_stored found), object?_of_stored found]
    cases o[key]? <;> rfl

theorem object?_insert {uploads : Std.ExtTreeMap Text Upload} {initiations : Nat} (other : Text) (o : Bucket) :
    object? bucket key ⟨m.buckets.insert other o, uploads, initiations⟩
      = if other = bucket then o[key]? else m.object? bucket key := by
  simp only [object?, Std.ExtTreeMap.getElem?_insert, Std.LawfulEqOrd.compare_eq_iff_eq]
  split <;> rfl

theorem object?_createBucket (other : Text) : (m.createBucket other).object? bucket key = m.object? bucket key := by
  unfold createBucket
  split
  · rfl
  · rename_i missing
    rw [object?_insert]
    split
    · rename_i same
      subst same
      have none : m.buckets[other]? = none := Std.ExtTreeMap.getElem?_eq_none (by simpa using missing)
      simp [object?, none]
    · rfl

theorem createBucket_uploads (m : Memory) (other : Text) :
    (m.createBucket other).uploads = m.uploads ∧ (m.createBucket other).initiations = m.initiations := by
  unfold createBucket
  split <;> exact ⟨rfl, rfl⟩

theorem stored_of_erased {other : Text} {object : StoredObject} (stays : (o.erase key)[other]? = some object) :
    o[other]? = some object := by
  rw [Std.ExtTreeMap.getElem?_erase] at stays
  split at stays
  · cases stays
  · exact stays

theorem erased_getElem? (keys : List Text) (o : Bucket) :
    (keys.foldl (·.erase ·) o)[key]? = if key ∈ keys then none else o[key]? := by
  induction keys generalizing o with
  | nil => simp
  | cons first rest ih =>
    rw [List.foldl_cons, ih, Std.ExtTreeMap.getElem?_erase]
    simp only [Std.LawfulEqOrd.compare_eq_iff_eq]
    by_cases own : first = key
    · simp [own]
    · simp [own, Ne.symm own]

theorem mem_erased (keys : List Text) :
    key ∈ keys.foldl (·.erase ·) o ↔ key ∈ o ∧ key ∉ keys := by
  rw [← Std.ExtTreeMap.isSome_getElem?_iff_mem, ← Std.ExtTreeMap.isSome_getElem?_iff_mem, erased_getElem?]
  by_cases own : key ∈ keys <;> simp [own]

section
variable {b k : Text} {uploads : Std.ExtTreeMap Text Upload} {initiations : Nat} (stored : m.buckets[b]? = some o)
include stored

theorem object?_put (object : StoredObject) :
    object? bucket key ⟨m.buckets.insert b (o.insert k object), uploads, initiations⟩
      = if b = bucket ∧ k = key then some object else m.object? bucket key := by
  rw [object?_insert]
  by_cases same : b = bucket
  · subst same
    rw [if_pos rfl, object?_of_stored stored, Std.ExtTreeMap.getElem?_insert]
    simp
  · simp [same]

theorem object?_delete :
    object? bucket key ⟨m.buckets.insert b (o.erase k), uploads, initiations⟩
      = if b = bucket ∧ k = key then none else m.object? bucket key := by
  rw [object?_insert]
  by_cases same : b = bucket
  · subst same
    rw [if_pos rfl, object?_of_stored stored, Std.ExtTreeMap.getElem?_erase]
    simp
  · simp [same]

theorem object?_deleteBatch (keys : List Text) :
    object? bucket key ⟨m.buckets.insert b (keys.foldl (·.erase ·) o), uploads, initiations⟩
      = if b = bucket ∧ key ∈ keys then none else m.object? bucket key := by
  rw [object?_insert]
  by_cases same : b = bucket
  · subst same
    rw [if_pos rfl, object?_of_stored stored, erased_getElem?]
    simp
  · simp [same]

end
end Memory

theorem Call.object?_of_ok {now : Timestamp} {c : Call} {m m' : Memory} {bucket key : Text} {reply : Reply}
    (writes : c.writes? = some (bucket, key)) (done : c.perform now m = (.ok reply, m')) :
    ∃ object, m'.object? bucket key = some object := by
  have effect := done ▸ c.effect now m
  cases effect with
  | put stored =>
    cases writes
    exact ⟨_, (Memory.object?_put stored _).trans (if_pos ⟨rfl, rfl⟩)⟩
  | complete under ordered right stored =>
    cases writes
    exact ⟨_, (Memory.object?_put stored _).trans (if_pos ⟨rfl, rfl⟩)⟩
  | read read => cases c <;> first | exact False.elim read | cases writes
  | _ => cases writes

theorem Call.missing_of_deleted {now : Timestamp} {m m' : Memory} {bucket key : Text} {reply : Reply}
    (done : (delete bucket key).perform now m = (.ok reply, m')) :
    ∃ o, m'.buckets[bucket]? = some o ∧ o[key]? = none := by
  have effect := done ▸ (delete bucket key).effect now m
  cases effect with
  | delete => exact ⟨_, Std.ExtTreeMap.getElem?_insert_self, Std.ExtTreeMap.getElem?_erase_self⟩
  | read read => cases read

theorem Call.perform_adds (now : Timestamp) (c : Call) (m : Memory) {bucket key : Text}
    (there : ((c.perform now m).2.object? bucket key).isSome = true) :
    (m.object? bucket key).isSome = true ∨
      c.writes? = some (bucket, key) ∧ ∃ reply, (c.perform now m).1 = .ok reply := by
  have effect := c.effect now m
  generalize c.perform now m = p at effect there
  cases effect with
  | failed keeps =>
    rw [Memory.object?, keeps.buckets] at there
    exact Or.inl there
  | put stored =>
    rw [Memory.object?_put stored] at there
    split at there
    · rename_i own
      exact Or.inr ⟨by rw [writes?, own.1, own.2], _, rfl⟩
    · exact Or.inl there
  | complete under ordered right stored =>
    rw [Memory.object?_put stored] at there
    split at there
    · rename_i own
      exact Or.inr ⟨by rw [writes?, own.1, own.2], _, rfl⟩
    · exact Or.inl there
  | delete stored =>
    rw [Memory.object?_delete stored] at there
    split at there
    · cases there
    · exact Or.inl there
  | deleteBatch stored =>
    rw [Memory.object?_deleteBatch stored] at there
    split at there
    · cases there
    · exact Or.inl there
  | read => exact Or.inl there
  | initiate => exact Or.inl there
  | part => exact Or.inl there
  | abort => exact Or.inl there

end StaleStore
