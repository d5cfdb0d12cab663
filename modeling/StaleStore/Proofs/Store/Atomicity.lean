import Mathlib.Control.Monad.Basic
import StaleStore.Proofs.Store.LastWrites

namespace StaleStore
namespace Memory

variable {α β : Type} {m m' : Memory}

def Undone (m : Memory) (x : Action Memory α) : Prop := ∀ e m', x m = (.error e, m') → m' = m

theorem Undone.of_reads {x : Action Memory α} (reads : Reads x) : Undone m x := by
  intro e m' failed
  have kept := reads m
  rw [failed] at kept
  exact kept

theorem Undone.of_ok {x : Action Memory α} {a : α} (done : x m = (.ok a, m')) : Undone m x := by
  intro e m'' failed
  rw [done] at failed
  cases failed

theorem Undone.map {x : Action Memory α} (f : α → β) (undone : Undone m x) : Undone m (x.map f) := by
  intro e m' failed
  apply undone e
  unfold Action.map at failed
  rcases result : x m with ⟨e' | a, m''⟩
  · rw [result] at failed
    cases failed
    rfl
  · rw [result] at failed
    cases failed

theorem Undone.bind {x : Action Memory α} {f : α → Action Memory β} (reads : Reads x)
    (rest : ∀ a, x m = (.ok a, m) → Undone m (f a)) : Undone m (x >>= f) := by
  have kept := reads m
  rcases result : x m with ⟨e | a, m''⟩
  · rw [result] at kept
    cases kept
    intro e' m' failed
    rw [Action.bind_of_error result] at failed
    cases failed
    rfl
  · rw [result] at kept
    cases kept
    intro e' m' failed
    rw [Action.bind_of_ok result] at failed
    exact rest a result e' m' failed

theorem Undone.objects {bucket : Text} {f : Bucket → Action Memory α}
    (rest : ∀ o, ∃ a m', f o m = (.ok a, m')) : Undone m (Memory.objects bucket >>= f) := by
  apply Undone.bind (Reads.objects bucket)
  intro o found
  obtain ⟨a, m', done⟩ := rest o
  exact .of_ok done

-- The end of an upload forgets the upload first and stores the object then, for which the bucket must be there.
def Housed (m : Memory) : Prop := ∀ {id : Text} {u : Upload}, m.uploads[id]? = some u → u.bucket ∈ m.buckets

theorem Housed.stored {id : Text} {u : Upload} (housed : m.Housed) (under : m.uploads[id]? = some u) :
    ∃ o, m.buckets[u.bucket]? = some o := by
  apply Option.isSome_iff_exists.mp
  exact Std.ExtTreeMap.mem_iff_isSome_getElem?.mp (housed under)

theorem Undone.completeUpload (housed : m.Housed) (now : Timestamp) (bucket key id : Text) (parts : List PartTag) :
    Undone m (Memory.completeUpload now bucket key id parts) := by
  unfold Memory.completeUpload
  split
  · exact .of_reads fun _ => rfl
  · split
    · exact .of_reads fun _ => rfl
    · apply Undone.bind (Reads.upload bucket key id)
      intro u found
      obtain ⟨under, own, -⟩ := upload_ok.mp found
      cases wrongPart? u parts with
      | some p => exact .of_reads fun _ => rfl
      | none =>
        -- The upload is gone by now, but the bucket that it was begun in is not.
        obtain ⟨o, stored⟩ := housed.stored under
        rw [own.1] at stored
        let data := joinParts u parts
        let etag := Checksum.joinedTag data parts.length
        let left : Memory := { m with uploads := m.uploads.erase id }
        have stores := storeObject_of_stored now key data etag (m := left) stored
        have finishes : (do storeObject now bucket key data etag; return CompletedUpload.mk bucket key etag) left
            = (.ok ⟨bucket, key, etag⟩, _) := Action.bind_of_ok stores
        exact .of_ok finishes

theorem Undone.perform (housed : m.Housed) (now : Timestamp) (c : Call) : Undone m (c.perform now) := by
  cases c with
  | put bucket key data =>
    apply Undone.map
    cases found : m.buckets[bucket]? with
    | none =>
      intro e m' failed
      have missing := storeObject_of_missing now key data (Checksum.tag data) found
      rw [show ObjectStore.put now bucket key data m = _ from Action.bind_of_error missing] at failed
      cases failed
      rfl
    | some o => exact .of_ok (put_of_stored now key data found)
  | get bucket key => exact .map _ (.of_reads (.get bucket key))
  | delete bucket key => exact .map _ (.objects fun o => ⟨(), _, rfl⟩)
  | deleteBatch bucket keys =>
    apply Undone.map
    show Undone m (Memory.deleteBatch bucket keys)
    unfold Memory.deleteBatch
    split
    · exact .of_reads fun _ => rfl
    · exact .objects fun o => ⟨⟨keys, []⟩, _, rfl⟩
  | list r => exact .map _ (.of_reads (.list r))
  | listTokens r => exact .map _ (.of_reads (.listTokens r))
  | initiateUpload bucket key =>
    exact .map _ (.objects fun o => ⟨⟨bucket, key, uploadId (m.initiations + 1)⟩, _, rfl⟩)
  | uploadPart bucket key id n data =>
    apply Undone.map
    show Undone m (Memory.uploadPart bucket key id n data)
    unfold Memory.uploadPart
    split
    · exact .of_reads fun _ => rfl
    · apply Undone.bind (Reads.upload bucket key id)
      intro u found
      exact .of_ok (a := ⟨n, Checksum.tag data⟩) rfl
  | completeUpload bucket key id parts => exact .map _ (.completeUpload housed now bucket key id parts)
  | abortUpload bucket key id =>
    apply Undone.map
    apply Undone.bind (Reads.upload bucket key id)
    intro u found
    exact .of_ok (a := ()) rfl
  | listUploads bucket under => exact .map _ (.of_reads (.listUploads bucket under))

theorem bucket_of_begun {now : Timestamp} {bucket key : Text} {r : Reply}
    (begun : (Call.initiateUpload bucket key).perform now m = (.ok r, m')) : bucket ∈ m.buckets := by
  cases found : m.buckets[bucket]? with
  | some o => exact mem_buckets_of_stored found
  | none =>
    have failed : Memory.initiateUpload now bucket key m = (.error (.noSuchBucket bucket), m) :=
      Action.bind_of_error (objects_of_missing found)
    simp only [Call.perform, Action.map, show ObjectStore.initiateUpload now bucket key m = _ from failed] at begun
    cases begun

theorem Housed.perform (housed : m.Housed) (now : Timestamp) (c : Call) : (c.perform now m).2.Housed := by
  intro id u found
  rw [mem_buckets_perform]
  rcases result : c.perform now m with ⟨reply, m'⟩
  rw [result] at found
  have effect := result ▸ c.effect now m
  cases effect with
  | failed keeps => exact housed (keeps.uploads found)
  | complete => exact housed ((Keeps.erase m _).uploads found)
  | abort => exact housed ((Keeps.erase m _).uploads found)
  | initiate =>
    rw [Std.ExtTreeMap.getElem?_insert] at found
    split at found
    · cases found
      exact bucket_of_begun result
    · exact housed found
  | part under =>
    rw [Std.ExtTreeMap.getElem?_insert] at found
    split at found
    · cases found
      have there := housed under
      exact there
    · exact housed found
  | read => exact housed found
  | put => exact housed found
  | delete => exact housed found
  | deleteBatch => exact housed found

theorem Housed.step (housed : m.Housed) (now : Timestamp) (step : Step) : (step.performPlain now m).2.Housed := by
  cases step with
  | call c => exact housed.perform now c
  | createBucket b =>
    intro id u found
    have before : m.uploads[id]? = some u := (m.createBucket_uploads b).1 ▸ found
    exact (mem_buckets_step now (.createBucket b)).mpr (Or.inl (housed before))
  | clear => exact housed
  | resetStats => exact housed
  | setFailureLimit limit => exact housed
  | setThrottleProbability p => exact housed
  | reorder order => exact housed

theorem Housed.run (housed : m.Housed) (timeline : Timeline) : (timeline.runPlain m).2.Housed := by
  induction timeline generalizing m with
  | nil => exact housed
  | cons entry rest ih => exact ih (housed.step entry.1 entry.2)

theorem Housed.empty : Housed .empty := by
  intro id u found
  simp [Memory.empty] at found

end Memory

namespace Timeline

-- Whatever the call is, and in whatever state a run from the empty store has come to.
theorem failed_call_changes_nothing (timeline : Timeline) {now : Timestamp} {c : Call} {e : StoreError} {m' : Memory}
    (failed : c.perform now (timeline.runPlain .empty).2 = (.error e, m')) :
    m' = (timeline.runPlain .empty).2 := by
  have housed : (timeline.runPlain .empty).2.Housed := Memory.Housed.empty.run timeline
  exact Memory.Undone.perform housed now c e m' failed

def partUploaded : Timeline :=
  [(.zero, .createBucket ['b']), (⟨1⟩, .call (.initiateUpload ['b'] ['k'])),
    (⟨2⟩, .call (.uploadPart ['b'] ['k'] (Memory.uploadId 1) 1 [2]))]

theorem rejected_completion_changes_nothing :
    let m := (partUploaded.runPlain .empty).2
    let id := Memory.uploadId 1
    ∃ m', Call.perform ⟨3⟩ (.completeUpload ['b'] ['k'] id [⟨1, "0".toList⟩]) m = (.error (.invalidPart id 1), m') ∧
      m' = m ∧ (m'.uploads[id]?.bind (·.parts[(1 : UInt32)]?)).isSome = true := by
  intro m id
  let completion : Call := .completeUpload ['b'] ['k'] id [⟨1, "0".toList⟩]
  have failed : completion.perform ⟨3⟩ m = (.error (.invalidPart id 1), (completion.perform ⟨3⟩ m).2) :=
    Prod.ext (by decide +kernel) rfl
  have same := failed_call_changes_nothing partUploaded failed
  refine ⟨_, failed, same, ?_⟩
  rw [same]
  decide +kernel

end Timeline
end StaleStore
