import StaleStore.Store.Memory

namespace StaleStore

structure Proper {α : Type} (x : Action Memory α) : Prop where
  neverThrottles : ∀ m n, (x m).1 ≠ .error (.throttled n)
  keepsBuckets : ∀ m b, b ∈ m.buckets → b ∈ (x m).2.buckets

namespace Proper

variable {α β : Type} {x : Action Memory α}

theorem pure (a : α) : Proper (Pure.pure a : Action Memory α) := ⟨fun _ _ => nofun, fun _ _ kept => kept⟩

theorem fail {e : StoreError} (other : ∀ n, e ≠ .throttled n) : Proper (Action.fail e : Action Memory α) :=
  ⟨fun _ n same => other n (Except.error.inj same), fun _ _ kept => kept⟩

theorem get : Proper (Action.get : Action Memory Memory) := ⟨fun _ _ => nofun, fun _ _ kept => kept⟩

theorem modify {f : Memory → Memory} (keeps : ∀ m b, b ∈ m.buckets → b ∈ (f m).buckets) :
    Proper (Action.modify f) :=
  ⟨fun _ _ => nofun, keeps⟩

theorem bind {f : α → Action Memory β} (first : Proper x) (rest : ∀ a, Proper (f a)) : Proper (x >>= f) := by
  refine ⟨fun m n => ?_, fun m b there => ?_⟩
  · have never := first.neverThrottles m n
    rw [Action.bind_apply]
    rcases result : x m with ⟨e | a, t⟩
    · rw [result] at never
      exact fun same => never (congrArg Except.error (Except.error.inj same))
    · exact (rest a).neverThrottles t n
  · have kept := first.keepsBuckets m b there
    rw [Action.bind_apply]
    rcases result : x m with ⟨e | a, t⟩
    · rw [result] at kept
      exact kept
    · rw [result] at kept
      exact (rest a).keepsBuckets t b kept

theorem map (f : α → β) (first : Proper x) : Proper (x.map f) := by
  refine ⟨fun m n => ?_, fun m b there => ?_⟩
  · have never := first.neverThrottles m n
    rw [Action.map]
    rcases result : x m with ⟨e | a, t⟩
    · rw [result] at never
      exact fun same => never (congrArg Except.error (Except.error.inj same))
    · exact nofun
  · have kept := first.keepsBuckets m b there
    rw [Action.map]
    rcases result : x m with ⟨e | a, t⟩ <;> rw [result] at kept <;> exact kept

theorem objects (bucket : Text) : Proper (Memory.objects bucket) := by
  refine ⟨fun m n => ?_, fun m b there => ?_⟩
  · unfold Memory.objects
    split <;> exact nofun
  · unfold Memory.objects
    split <;> exact there

theorem setObjects (bucket : Text) (o : Bucket) : Proper (Memory.setObjects bucket o) :=
  modify fun _ _ there => Std.ExtTreeMap.mem_insert.mpr (Or.inr there)

theorem upload (bucket key uploadId : Text) : Proper (Memory.upload bucket key uploadId) := by
  refine ⟨fun m n => ?_, fun m b there => ?_⟩
  · unfold Memory.upload
    split
    · split <;> exact nofun
    · exact nofun
  · unfold Memory.upload
    split
    · split <;> exact there
    · exact there

theorem storeObject (now : Timestamp) (bucket key : Text) (data : Bytes) (etag : Text) :
    Proper (Memory.storeObject now bucket key data etag) :=
  (objects bucket).bind fun _ => setObjects _ _

theorem removeUpload (uploadId : Text) : Proper (Memory.removeUpload uploadId) :=
  modify fun _ _ there => there

theorem deleteBatch (bucket : Text) (keys : List Text) : Proper (Memory.deleteBatch bucket keys) := by
  unfold Memory.deleteBatch
  split
  · exact fail fun _ => nofun
  · exact (objects _).bind fun _ => (setObjects _ _).bind fun _ => pure _

theorem uploadPart (bucket key uploadId : Text) (n : UInt32) (data : Bytes) :
    Proper (Memory.uploadPart bucket key uploadId n data) := by
  unfold Memory.uploadPart
  split
  · exact fail fun _ => nofun
  · refine (upload _ _ _).bind fun u => Proper.bind (modify ?_) fun _ => pure _
    exact fun _ _ there => there

theorem completeUpload (now : Timestamp) (bucket key uploadId : Text) (parts : List PartTag) :
    Proper (Memory.completeUpload now bucket key uploadId parts) := by
  unfold Memory.completeUpload
  split
  · exact fail fun _ => nofun
  · split
    · exact fail fun _ => nofun
    · refine (upload _ _ _).bind fun u => ?_
      split
      · exact fail fun _ => nofun
      · exact (removeUpload _).bind fun _ => (storeObject _ _ _ _ _).bind fun _ => pure _

theorem perform (now : Timestamp) (c : Call) : Proper (c.perform now : Action Memory Reply) := by
  cases c with
  | put bucket key data => exact map _ ((storeObject _ _ _ _ _).bind fun _ => pure _)
  | get bucket key =>
    refine map _ ((objects _).bind fun o => ?_)
    split
    · exact pure _
    · exact fail fun _ => nofun
  | delete bucket key => exact map _ ((objects _).bind fun _ => setObjects _ _)
  | deleteBatch bucket keys => exact map _ (deleteBatch bucket keys)
  | list r => exact map _ ((objects _).bind fun _ => pure _)
  | listTokens r => exact map _ ((objects _).bind fun _ => pure _)
  | initiateUpload bucket key =>
    refine map _ ((objects _).bind fun _ => get.bind fun _ => Proper.bind (modify ?_) fun _ => pure _)
    exact fun _ _ there => there
  | uploadPart bucket key uploadId n data => exact map _ (uploadPart _ _ _ _ _)
  | completeUpload bucket key uploadId parts => exact map _ (completeUpload _ _ _ _ _)
  | abortUpload bucket key uploadId => exact map _ ((upload _ _ _).bind fun _ => removeUpload _)
  | listUploads bucket under => exact map _ ((objects _).bind fun _ => get.bind fun _ => pure _)

end Proper

theorem Memory.createBucket_keeps {m : Memory} {b : Text} (bucket : Text) (there : b ∈ m.buckets) :
    b ∈ (m.createBucket bucket).buckets := by
  unfold Memory.createBucket
  split
  · exact there
  · exact Std.ExtTreeMap.mem_insert.mpr (Or.inr there)

end StaleStore
