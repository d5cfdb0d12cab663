import Mathlib.Data.List.Nodup
import StaleStore.Proofs.KeyOrder
import StaleStore.Proofs.Store.Atomicity

namespace StaleStore

inductive UploadEvent where
  | begun (upload : InitiatedUpload) (madeAt : Timestamp)
  | ended (uploadId : Text)
deriving DecidableEq

namespace UploadEvent

def ids (events : List UploadEvent) : List Text :=
  events.filterMap fun
    | begun u _ => some u.uploadId
    | ended _ => none

def UnderWay (events : List UploadEvent) (u : InitiatedUpload) (madeAt : Timestamp) : Prop :=
  .begun u madeAt ∈ events ∧ .ended u.uploadId ∉ events

inductive Unusable (events : List UploadEvent) (u : InitiatedUpload) : Prop where
  | finished : .ended u.uploadId ∈ events → Unusable events u
  | unknown : u.uploadId ∉ ids events → Unusable events u
  | foreign {v : InitiatedUpload} {madeAt : Timestamp} :
    .begun v madeAt ∈ events → v.uploadId = u.uploadId → v ≠ u → Unusable events u

variable {events : List UploadEvent} {u : InitiatedUpload} {madeAt : Timestamp}

theorem mem_ids (begun : .begun u madeAt ∈ events) : u.uploadId ∈ ids events :=
  List.mem_filterMap.mpr ⟨.begun u madeAt, begun, rfl⟩

theorem ids_append (earlier later : List UploadEvent) : ids (earlier ++ later) = ids earlier ++ ids later :=
  List.filterMap_append

end UploadEvent

namespace Call

def uploadEvent? (now : Timestamp) : Call → Except StoreError Reply → Option UploadEvent
  | initiateUpload b k, .ok (.initiated u) => some (.begun ⟨b, k, u.uploadId⟩ now)
  | completeUpload _ _ id _, .ok _ => some (.ended id)
  | abortUpload _ _ id, .ok _ => some (.ended id)
  | _, _ => none

def upload? : Call → Option InitiatedUpload
  | uploadPart b k id .. | completeUpload b k id _ | abortUpload b k id => some ⟨b, k, id⟩
  | _ => none

end Call

def Step.uploadEvent? (now : Timestamp) : Step → Outcome → Option UploadEvent
  | call c, .replied r => c.uploadEvent? now r
  | _, _ => none

def Timeline.uploadEvents : Timeline → List Outcome → List UploadEvent
  | (now, step) :: rest, outcome :: outcomes =>
    (step.uploadEvent? now outcome).toList ++ uploadEvents rest outcomes
  | _, _ => []

namespace Memory

def Holds (m : Memory) (u : InitiatedUpload) (madeAt : Timestamp) : Prop :=
  ∃ parts, m.uploads[u.uploadId]? = some ⟨u.bucket, u.key, madeAt, parts⟩

variable {m m' : Memory} {u : InitiatedUpload} {madeAt : Timestamp}

theorem Holds.of_upload {id : Text} {u : Upload} (found : m.uploads[id]? = some u) :
    m.Holds ⟨u.bucket, u.key, id⟩ u.initiated := ⟨u.parts, found⟩

theorem Holds.unique {v : InitiatedUpload} {at' : Timestamp} (first : m.Holds u madeAt) (second : m.Holds v at')
    (same : u.uploadId = v.uploadId) : u = v := by
  obtain ⟨parts, found⟩ := first
  obtain ⟨parts', found'⟩ := second
  rw [same, found'] at found
  cases u
  cases v
  cases found
  cases same
  rfl

theorem holds_of_uploads (same : m'.uploads = m.uploads) : m'.Holds u madeAt ↔ m.Holds u madeAt := by
  rw [Holds, Holds, same]

section
variable {buckets : Std.ExtTreeMap Text Bucket} {initiations : Nat} {id : Text}

theorem holds_erase :
    Holds ⟨buckets, m.uploads.erase id, initiations⟩ u madeAt ↔ m.Holds u madeAt ∧ u.uploadId ≠ id := by
  simp only [Holds, Std.ExtTreeMap.getElem?_erase, Std.LawfulEqOrd.compare_eq_iff_eq]
  by_cases own : id = u.uploadId
  · simp [own]
  · simp [own, Ne.symm own]

theorem holds_part {upload : Upload} {parts : Std.ExtTreeMap UInt32 (Text × Bytes)}
    (under : m.uploads[id]? = some upload) :
    Holds ⟨buckets, m.uploads.insert id { upload with parts := parts }, initiations⟩ u madeAt ↔ m.Holds u madeAt := by
  simp only [Holds, Std.ExtTreeMap.getElem?_insert, Std.LawfulEqOrd.compare_eq_iff_eq]
  by_cases own : id = u.uploadId
  · subst own
    cases upload
    simp [under]
  · simp [own]

theorem holds_begun {b k : Text} {now : Timestamp} (fresh : m.uploads[id]? = none) :
    Holds ⟨buckets, m.uploads.insert id ⟨b, k, now, ∅⟩, initiations⟩ u madeAt ↔
      m.Holds u madeAt ∨ u = ⟨b, k, id⟩ ∧ madeAt = now := by
  simp only [Holds, Std.ExtTreeMap.getElem?_insert, Std.LawfulEqOrd.compare_eq_iff_eq]
  obtain ⟨bucket, key, uploadId⟩ := u
  by_cases own : id = uploadId
  · subst own
    simp [fresh, eq_comm, and_assoc]
  · simp [own, Ne.symm own]

end

-- The store holds the uploads that are under way by the events, and the ids are given out by number.
structure Follows (events : List UploadEvent) (m : Memory) : Prop where
  ids : UploadEvent.ids events = (List.range' 1 m.initiations).map uploadId
  ended : ∀ {id}, .ended id ∈ events → id ∈ UploadEvent.ids events
  holds : ∀ {u madeAt}, m.Holds u madeAt ↔ UploadEvent.UnderWay events u madeAt

variable {events : List UploadEvent}

theorem Follows.empty : Follows [] .empty where
  ids := rfl
  ended := nofun
  holds := by
    intro u madeAt
    simp [Holds, Memory.empty, UploadEvent.UnderWay]

theorem Follows.given {id : Text} {u : Upload} (follows : m.Follows events) (found : m.uploads[id]? = some u) :
    id ∈ UploadEvent.ids events :=
  UploadEvent.mem_ids (follows.holds.mp (.of_upload found)).1

theorem Follows.fresh (follows : m.Follows events) : uploadId (m.initiations + 1) ∉ UploadEvent.ids events := by
  intro given
  rw [follows.ids] at given
  obtain ⟨count, within, same⟩ := List.mem_map.mp given
  have within := List.mem_range'_1.mp within
  have same := uploadId_inj same
  omega

theorem Follows.ids_once (follows : m.Follows events) : (UploadEvent.ids events).Nodup := by
  rw [follows.ids]
  apply List.Nodup.map
  · intro count other same
    exact uploadId_inj same
  · exact List.nodup_range'

theorem Follows.quiet (follows : m.Follows events) (initiations : m'.initiations = m.initiations)
    (same : ∀ {u madeAt}, m'.Holds u madeAt ↔ m.Holds u madeAt) : m'.Follows events where
  ids := initiations ▸ follows.ids
  ended := follows.ended
  holds := same.trans follows.holds

theorem Follows.begin (follows : m.Follows events) (b k : Text) (now : Timestamp) :
    let id := uploadId (m.initiations + 1)
    Follows (events ++ [.begun ⟨b, k, id⟩ now])
      { m with uploads := m.uploads.insert id ⟨b, k, now, ∅⟩, initiations := m.initiations + 1 } := by
  intro id
  have new : id ∉ UploadEvent.ids events := follows.fresh
  have fresh : m.uploads[id]? = none := by
    apply Option.eq_none_iff_forall_ne_some.mpr
    intro u found
    exact new (follows.given found)
  constructor
  · rw [UploadEvent.ids_append, follows.ids, List.range'_1_concat, List.map_append, Nat.add_comm 1]
    rfl
  · intro other ended
    rw [UploadEvent.ids_append]
    have before : .ended other ∈ events := by simpa using ended
    exact List.mem_append_left _ (follows.ended before)
  · intro u madeAt
    rw [holds_begun fresh, follows.holds]
    have lasts : .ended id ∉ events := fun ended => new (follows.ended ended)
    simp only [UploadEvent.UnderWay, List.mem_append, List.mem_singleton, UploadEvent.begun.injEq, reduceCtorEq,
      or_false, or_and_right]
    apply or_congr_right
    constructor
    · intro own
      exact ⟨own, own.1 ▸ lasts⟩
    · exact And.left

theorem Follows.finish {id : Text} {upload : Upload} {buckets : Std.ExtTreeMap Text Bucket} (follows : m.Follows events)
    (under : m.uploads[id]? = some upload) :
    Follows (events ++ [.ended id]) { m with uploads := m.uploads.erase id, buckets := buckets } where
  ids := by
    rw [UploadEvent.ids_append, follows.ids]
    exact List.append_nil _
  ended := by
    intro other ended
    rw [UploadEvent.ids_append]
    apply List.mem_append_left
    rcases List.mem_append.mp ended with before | now
    · exact follows.ended before
    · cases List.mem_singleton.mp now
      exact follows.given under
  holds := by
    intro u madeAt
    rw [holds_erase, follows.holds]
    simp [UploadEvent.UnderWay, and_assoc]

theorem abortUpload_finds {now : Timestamp} {b k id : Text} {r : Reply}
    (done : (Call.abortUpload b k id).perform now m = (.ok r, m')) :
    ∃ u, m.uploads[id]? = some u ∧ u.bucket = b ∧ u.key = k := by
  rcases found : Memory.upload b k id m with ⟨e | u, m''⟩
  · have lost : Memory.abortUpload b k id m = (.error e, m'') := Action.bind_of_error found
    simp only [Call.perform, Action.map, show ObjectStore.abortUpload now b k id m = _ from lost] at done
    cases done
  · obtain ⟨under, own, -⟩ := upload_ok.mp found
    exact ⟨u, under, own⟩

theorem holds_of_ok {now : Timestamp} {c : Call} {r : Reply} (names : c.upload? = some u)
    (done : c.perform now m = (.ok r, m')) : ∃ madeAt, m.Holds u madeAt := by
  have effect := done ▸ c.effect now m
  cases effect with
  | part under =>
    cases names
    exact ⟨_, .of_upload under⟩
  | complete under =>
    cases names
    exact ⟨_, .of_upload under⟩
  | abort =>
    cases names
    obtain ⟨u, under, rfl, rfl⟩ := Memory.abortUpload_finds done
    exact ⟨_, .of_upload under⟩
  | read read => cases c <;> first | exact False.elim read | cases names
  | _ => cases names

theorem Follows.perform (follows : m.Follows events) (housed : m.Housed) (now : Timestamp) (c : Call) :
    (c.perform now m).2.Follows (events ++ (c.uploadEvent? now (c.perform now m).1).toList) := by
  rcases result : c.perform now m with ⟨reply, m'⟩
  have effect := result ▸ c.effect now m
  have silent : c.uploadEvent? now reply = none → m'.initiations = m.initiations →
      (∀ {u madeAt}, m'.Holds u madeAt ↔ m.Holds u madeAt) →
      m'.Follows (events ++ (c.uploadEvent? now reply).toList) := by
    intro silent initiations same
    rw [silent, Option.toList_none, List.append_nil]
    exact follows.quiet initiations same
  cases effect with
  | failed =>
    have same := Undone.perform housed now c _ _ result
    subst same
    apply silent _ rfl Iff.rfl
    cases c <;> rfl
  | read read =>
    apply silent _ rfl Iff.rfl
    cases c <;> first | rfl | cases read
  | put => exact silent rfl rfl (holds_of_uploads rfl)
  | delete => exact silent rfl rfl (holds_of_uploads rfl)
  | deleteBatch => exact silent rfl rfl (holds_of_uploads rfl)
  | part under => exact silent rfl rfl (holds_part under)
  | initiate => exact follows.begin _ _ now
  | complete under => exact follows.finish under
  | abort =>
    obtain ⟨u, under, -⟩ := abortUpload_finds result
    exact follows.finish under

theorem Follows.step (follows : m.Follows events) (housed : m.Housed) (now : Timestamp) (step : Step) :
    (step.performPlain now m).2.Follows
      (events ++ (step.uploadEvent? now (step.performPlain now m).1).toList) := by
  cases step with
  | call c => exact follows.perform housed now c
  | createBucket b =>
    obtain ⟨uploads, initiations⟩ := m.createBucket_uploads b
    simp only [Step.uploadEvent?, Option.toList_none, List.append_nil]
    exact follows.quiet initiations (holds_of_uploads uploads)
  | _ => simpa [Step.performPlain, Step.uploadEvent?] using follows

theorem Follows.run (follows : m.Follows events) (housed : m.Housed) (timeline : Timeline) :
    (timeline.runPlain m).2.Follows (events ++ timeline.uploadEvents (timeline.runPlain m).1) := by
  induction timeline generalizing m events with
  | nil => simpa [Timeline.runPlain, Timeline.uploadEvents] using follows
  | cons entry rest ih =>
    have finished := ih (follows.step housed entry.1 entry.2) (housed.step entry.1 entry.2)
    rw [List.append_assoc] at finished
    exact finished

theorem Follows.unusable (follows : m.Follows events) (unusable : UploadEvent.Unusable events u) :
    ¬ m.Holds u madeAt := by
  intro held
  obtain ⟨begun, lasts⟩ := follows.holds.mp held
  cases unusable with
  | finished ended => exact lasts ended
  | unknown absent => exact absent (UploadEvent.mem_ids begun)
  | foreign begunToo same other =>
    have heldToo := follows.holds.mpr ⟨begunToo, same ▸ lasts⟩
    exact other (heldToo.unique held same)

theorem uploadBefore_iff (a b : PendingUpload) :
    uploadBefore a b = true ↔ a.key < b.key ∨ a.key = b.key ∧ a.uploadId ≤ b.uploadId := by
  have tie : (compare a.uploadId b.uploadId != .gt) = true ↔ a.uploadId ≤ b.uploadId := by
    rw [bne_iff_ne, ne_eq, Std.OrientedCmp.gt_iff_lt, Text.compare_lt_iff, not_lt]
  unfold uploadBefore
  split
  · rename_i less
    simp [(Text.compare_lt_iff _ _).mp less]
  · rename_i more
    have more := (Text.compare_lt_iff _ _).mp (Std.OrientedCmp.gt_iff_lt.mp more)
    simp [lt_asymm more, more.ne']
  · rename_i same
    have same := Std.LawfulEqOrd.compare_eq_iff_eq.mp same
    simp [same, tie]

theorem mem_pendingUploads {bucket under : Text} {p : PendingUpload} : p ∈ pendingUploads bucket under m ↔
    m.Holds ⟨bucket, p.key, p.uploadId⟩ p.initiated ∧ under <+: p.key := by
  obtain ⟨key, id, initiated⟩ := p
  simp only [pendingUploads, List.mem_mergeSort, List.mem_map, List.mem_filter, Prod.exists,
    Std.ExtTreeMap.mem_toList_iff_getElem?_eq_some, Bool.and_eq_true, decide_eq_true_eq, List.isPrefixOf_iff_prefix,
    PendingUpload.mk.injEq, Holds]
  constructor
  · rintro ⟨_, u, ⟨found, rfl, starts⟩, rfl, rfl, rfl⟩
    exact ⟨⟨u.parts, found⟩, starts⟩
  · rintro ⟨⟨parts, found⟩, starts⟩
    exact ⟨id, _, ⟨found, rfl, starts⟩, rfl, rfl, rfl⟩

theorem pendingUploads_ordered (bucket under : Text) (m : Memory) : (pendingUploads bucket under m).Pairwise fun p q =>
    p.key < q.key ∨ p.key = q.key ∧ p.uploadId < q.uploadId := by
  have sorted : (pendingUploads bucket under m).Pairwise fun p q => uploadBefore p q = true := by
    apply List.pairwise_mergeSort
    · intro p q r first second
      rw [uploadBefore_iff] at first second ⊢
      grind
    · intro p q
      rw [Bool.or_eq_true, uploadBefore_iff, uploadBefore_iff]
      grind
  have apart : (pendingUploads bucket under m).Pairwise fun p q => p.uploadId ≠ q.uploadId := by
    rw [pendingUploads, (List.mergeSort_perm _ _).pairwise_iff Ne.symm, List.pairwise_map]
    apply List.Pairwise.filter
    apply m.uploads.distinct_keys_toList.imp
    intro a b different same
    exact different (Std.LawfulEqOrd.compare_eq_iff_eq.mpr same)
  refine (sorted.and apart).imp ?_
  intro p q both
  rcases (uploadBefore_iff p q).mp both.1 with less | ⟨same, most⟩
  · exact Or.inl less
  · exact Or.inr ⟨same, lt_of_le_of_ne most both.2⟩

theorem listUploads_eq (bucket : Text) (under : Option Text) (m : Memory) : listUploads bucket under m =
    (if bucket ∈ m.buckets then .ok ⟨bucket, under, pendingUploads bucket (under.getD []) m⟩
      else .error (.noSuchBucket bucket), m) := by
  cases found : m.buckets[bucket]? with
  | none =>
    have missing : bucket ∉ m.buckets := by simpa using found
    rw [if_neg missing]
    exact Action.bind_of_error (objects_of_missing found)
  | some o =>
    rw [if_pos (mem_buckets_of_stored found)]
    exact Action.bind_of_ok (objects_of_stored found)

end Memory

namespace Timeline

open UploadEvent in
theorem uploads_under_way_until_ended (timeline : Timeline) :
    let ran := timeline.runPlain .empty
    let events := timeline.uploadEvents ran.1
    (ids events).Nodup ∧
    (∀ now bucket under, ∃ uploads,
      (Call.listUploads bucket under).perform now ran.2 =
        (if timeline.creates bucket then .ok (.uploads ⟨bucket, under, uploads⟩) else .error (.noSuchBucket bucket),
          ran.2) ∧
      (∀ p, p ∈ uploads ↔ UnderWay events ⟨bucket, p.key, p.uploadId⟩ p.initiated ∧ under.getD [] <+: p.key) ∧
      uploads.Pairwise fun p q => p.key < q.key ∨ p.key = q.key ∧ p.uploadId < q.uploadId) ∧
    ∀ {now c u}, Call.upload? c = some u → Unusable events u → ∃ e, c.perform now ran.2 = (.error e, ran.2) := by
  intro ran events
  have housed : ran.2.Housed := Memory.Housed.empty.run timeline
  have follows : ran.2.Follows events := Memory.Follows.empty.run Memory.Housed.empty timeline
  refine ⟨follows.ids_once, ?_, ?_⟩
  · intro now bucket under
    refine ⟨Memory.pendingUploads bucket (under.getD []) ran.2, ?_, ?_, ?_⟩
    · have made : bucket ∈ ran.2.buckets ↔ timeline.creates bucket = true := by
        rw [mem_buckets_runPlain]
        simp [Memory.empty]
      have answered : ObjectStore.listUploads now bucket under ran.2 = _ := Memory.listUploads_eq bucket under ran.2
      rw [Call.perform, Action.map, answered]
      by_cases there : timeline.creates bucket = true
      · simp [made, there]
      · simp [made, there]
    · intro p
      rw [Memory.mem_pendingUploads, follows.holds]
    · exact Memory.pendingUploads_ordered bucket _ ran.2
  · intro now c u names unusable
    rcases result : c.perform now ran.2 with ⟨e | r, m'⟩
    · have same := Memory.Undone.perform housed now c e m' result
      exact ⟨e, by rw [same]⟩
    · obtain ⟨madeAt, held⟩ := Memory.holds_of_ok names result
      exact absurd held (follows.unusable unusable)

def oneGivenUp : Timeline :=
  [(.zero, .createBucket ['b']), (⟨1⟩, .call (.initiateUpload ['b'] ['k'])),
    (⟨1⟩, .call (.initiateUpload ['b'] ['k'])), (⟨2⟩, .call (.initiateUpload ['b'] ['j'])),
    (⟨3⟩, .call (.uploadPart ['b'] ['k'] (Memory.uploadId 1) 1 [2])),
    (⟨4⟩, .call (.completeUpload ['b'] ['k'] (Memory.uploadId 1) [⟨1, "0".toList⟩])),
    (⟨5⟩, .call (.abortUpload ['b'] ['k'] (Memory.uploadId 2)))]

theorem two_of_three_under_way :
    let ran := oneGivenUp.runPlain .empty
    (∃ uploads, (Call.listUploads ['b'] none).perform ⟨6⟩ ran.2 = (.ok (.uploads ⟨['b'], none, uploads⟩), ran.2) ∧
      ⟨['k'], Memory.uploadId 1, ⟨1⟩⟩ ∈ uploads ∧ ⟨['k'], Memory.uploadId 2, ⟨1⟩⟩ ∉ uploads) ∧
    (∃ e, (Call.abortUpload ['b'] ['k'] (Memory.uploadId 2)).perform ⟨6⟩ ran.2 = (.error e, ran.2)) ∧
    ∃ e, (Call.uploadPart ['b'] ['j'] (Memory.uploadId 1) 2 [7]).perform ⟨6⟩ ran.2 = (.error e, ran.2) := by
  intro ran
  obtain ⟨-, lists, fails⟩ := uploads_under_way_until_ended oneGivenUp
  have told : oneGivenUp.uploadEvents (oneGivenUp.runPlain .empty).1
      = [.begun ⟨['b'], ['k'], Memory.uploadId 1⟩ ⟨1⟩, .begun ⟨['b'], ['k'], Memory.uploadId 2⟩ ⟨1⟩,
        .begun ⟨['b'], ['j'], Memory.uploadId 3⟩ ⟨2⟩, .ended (Memory.uploadId 2)] := by decide +kernel
  rw [told] at lists fails
  obtain ⟨uploads, answered, shown, -⟩ := lists ⟨6⟩ ['b'] none
  refine ⟨⟨uploads, answered, ?_, ?_⟩, ?_, ?_⟩
  · apply (shown _).mpr
    refine ⟨⟨List.mem_cons_self .., ?_⟩, List.nil_prefix⟩
    decide
  · intro listed
    have lasts := ((shown _).mp listed).1.2
    exact lasts (by simp)
  · exact fails rfl (.finished (by simp))
  · exact fails rfl (.foreign (List.mem_cons_self ..) rfl (by simp))

end Timeline
end StaleStore
