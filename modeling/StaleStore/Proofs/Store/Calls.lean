import StaleStore.Store.Memory

namespace StaleStore

def ListRequest.answer (r : ListRequest) (page : Page) : Listing where
  request := r
  nextMarker := page.next
  encodingType := none
  truncated := page.truncated
  summaries := page.summaries
  commonPrefixes := page.commonPrefixes

def TokenRequest.answer (r : TokenRequest) (page : Page) : TokenListing where
  request := r
  nextToken := page.next
  keyCount := page.summaries.length + page.commonPrefixes.length
  encodingType := none
  truncated := page.truncated
  summaries := page.summaries
  commonPrefixes := page.commonPrefixes

namespace Memory

variable {m : Memory} {bucket : Text} {o : Bucket}

theorem mem_buckets_of_stored (stored : m.buckets[bucket]? = some o) : bucket ∈ m.buckets :=
  Std.ExtTreeMap.mem_iff_isSome_getElem?.mpr (by simp [stored])

theorem objects_of_stored (stored : m.buckets[bucket]? = some o) : objects bucket m = (.ok o, m) := by
  rw [objects, stored]

theorem objects_of_missing (missing : m.buckets[bucket]? = none) :
    objects bucket m = (.error (.noSuchBucket bucket), m) := by
  rw [objects, missing]

theorem upload_ok {key id : Text} {u : Upload} {m' : Memory} : upload bucket key id m = (.ok u, m') ↔
    m.uploads[id]? = some u ∧ (u.bucket = bucket ∧ u.key = key) ∧ m = m' := by
  unfold upload
  cases m.uploads[id]? with
  | none => simp
  | some u' =>
    dsimp only
    split
    · rename_i own
      rw [Bool.and_eq_true, decide_eq_true_iff, decide_eq_true_iff] at own
      simp only [Prod.mk.injEq, Except.ok.injEq, Option.some_inj]
      constructor
      · rintro ⟨rfl, same⟩
        exact ⟨rfl, own, same⟩
      · rintro ⟨rfl, -, same⟩
        exact ⟨rfl, same⟩
    · rename_i other
      simp only [Prod.mk.injEq, reduceCtorEq, false_and, Option.some_inj, false_iff]
      rintro ⟨rfl, own, -⟩
      exact other (by simp [own])

theorem storeObject_of_missing (now : Timestamp) (key : Text) (data : Bytes) (etag : Text)
    (missing : m.buckets[bucket]? = none) :
    storeObject now bucket key data etag m = (.error (.noSuchBucket bucket), m) :=
  Action.bind_of_error (objects_of_missing missing)

theorem storeObject_of_stored (now : Timestamp) (key : Text) (data : Bytes) (etag : Text)
    (stored : m.buckets[bucket]? = some o) : storeObject now bucket key data etag m
      = (.ok (), { m with buckets := m.buckets.insert bucket (o.insert key ⟨data, etag, now⟩) }) :=
  Action.bind_of_ok (objects_of_stored stored)

theorem put_of_stored (now : Timestamp) (key : Text) (data : Bytes) (stored : m.buckets[bucket]? = some o) :
    put now bucket key data m = (.ok (Checksum.tag data),
      { m with buckets := m.buckets.insert bucket (o.insert key ⟨data, Checksum.tag data, now⟩) }) :=
  Action.bind_of_ok (storeObject_of_stored now key data _ stored)

theorem delete_of_stored (key : Text) (stored : m.buckets[bucket]? = some o) :
    delete bucket key m = (.ok (), { m with buckets := m.buckets.insert bucket (o.erase key) }) := by
  simp only [delete, Action.bind_apply, objects_of_stored stored]
  rfl

theorem deleteBatch_of_stored {keys : List Text} (nonempty : keys ≠ []) (stored : m.buckets[bucket]? = some o) :
    deleteBatch bucket keys m
      = (.ok ⟨keys, []⟩, { m with buckets := m.buckets.insert bucket (keys.foldl (·.erase ·) o) }) := by
  simp only [deleteBatch, List.isEmpty_iff, if_neg nonempty, Action.bind_apply, objects_of_stored stored]
  rfl

theorem deleteBatch_of_missing {keys : List Text} (nonempty : keys ≠ []) (missing : m.buckets[bucket]? = none) :
    deleteBatch bucket keys m = (.error (.noSuchBucket bucket), m) := by
  simp only [deleteBatch, List.isEmpty_iff, if_neg nonempty, Action.bind_apply, objects_of_missing missing]

theorem list_of_stored (r : ListRequest) (stored : m.buckets[r.bucket]? = some o) :
    list r m = (.ok (r.answer (Page.ofBucket r.bucket o r.under r.delimiter r.marker r.maxKeys)), m) := by
  simp only [list, Action.bind_apply, objects_of_stored stored]
  rfl

theorem list_of_missing (r : ListRequest) (missing : m.buckets[r.bucket]? = none) :
    list r m = (.error (.noSuchBucket r.bucket), m) := by
  simp only [list, Action.bind_apply, objects_of_missing missing]

theorem listTokens_of_stored (r : TokenRequest) (stored : m.buckets[r.bucket]? = some o) :
    listTokens r m = (.ok (r.answer (Page.ofBucket r.bucket o r.under r.delimiter r.start r.maxKeys)), m) := by
  simp only [listTokens, Action.bind_apply, objects_of_stored stored]
  rfl

theorem listTokens_of_missing (r : TokenRequest) (missing : m.buckets[r.bucket]? = none) :
    listTokens r m = (.error (.noSuchBucket r.bucket), m) := by
  simp only [listTokens, Action.bind_apply, objects_of_missing missing]

end Memory
end StaleStore
