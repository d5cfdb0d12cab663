import StaleStore.Proofs.Runs
import StaleStore.Proofs.Store.Contents
import StaleStore.Proofs.Store.Effects

namespace StaleStore

theorem Text.value_padded (places n : Nat) : Nat.ofDigitChars 10 (Text.padded places n) 0 = n := by
  simp [Text.padded, Nat.ofDigitChars_append]

theorem Memory.uploadId_inj {count other : Nat} (same : uploadId count = uploadId other) : count = other := by
  have padded := congrArg (Nat.ofDigitChars 10 · 0) (List.append_cancel_left same)
  simpa only [Text.value_padded] using padded

inductive ObjectEvent where
  | put (data : Bytes) (madeAt : Timestamp)
  | deleted
  | part (uploadId : Text) (number : UInt32) (data : Bytes)
  | completed (uploadId : Text) (parts : List PartTag) (madeAt : Timestamp)
deriving DecidableEq

namespace ObjectEvent

def lastPart? (events : List ObjectEvent) (uploadId : Text) (number : UInt32) : Option Bytes :=
  events.findSome? fun
    | part id n data => if id = uploadId ∧ n = number then some data else none
    | _ => none

variable {events : List ObjectEvent} {id uploadId : Text} {n number : UInt32} {data : Bytes}

theorem lastPart?_mem (last : lastPart? events uploadId number = some data) : .part uploadId number data ∈ events := by
  obtain ⟨e, member, found⟩ := List.exists_of_findSome?_eq_some last
  cases e with
  | part id n other =>
    obtain ⟨⟨rfl, rfl⟩, rfl⟩ : (id = uploadId ∧ n = number) ∧ other = data := by simpa using found
    exact member
  | _ => cases found

theorem lastPart?_part : lastPart? (.part id n data :: events) uploadId number
    = if id = uploadId ∧ n = number then some data else lastPart? events uploadId number := by
  rw [lastPart?, List.findSome?_cons]
  by_cases own : id = uploadId ∧ n = number
  · simp [own]
  · simp [own, lastPart?]

def assembled (earlier : List ObjectEvent) (uploadId : Text) (parts : List PartTag) : Bytes :=
  parts.flatMap fun p => (lastPart? earlier uploadId p.partNumber).getD []

def written? : List ObjectEvent → Option StoredObject
  | [] | deleted :: _ => none
  | put data madeAt :: _ => some ⟨data, Checksum.tag data, madeAt⟩
  | part .. :: earlier => written? earlier
  | completed id parts madeAt :: earlier =>
    let data := assembled earlier id parts
    some ⟨data, Checksum.joinedTag data parts.length, madeAt⟩

end ObjectEvent

structure ObjectEvent.ListsParts (earlier : List ObjectEvent) (uploadId : Text) (parts : List PartTag) : Prop where
  ascending : parts.Pairwise fun p q => p.partNumber < q.partNumber
  uploaded : ∀ p ∈ parts, ∃ data, lastPart? earlier uploadId p.partNumber = some data ∧ p.etag = Checksum.tag data

-- Told from the call and its reply alone. Calls on other buckets and keys make no event.
def Call.objectEvent? (now : Timestamp) (bucket key : Text) : Call → Except StoreError Reply → Option ObjectEvent
  | put b k data, .ok _ => if b = bucket ∧ k = key then some (.put data now) else none
  | delete b k, .ok _ => if b = bucket ∧ k = key then some .deleted else none
  | deleteBatch b _, .ok (.batch result) => if b = bucket ∧ key ∈ result.deleted then some .deleted else none
  | uploadPart b k id n data, .ok _ => if b = bucket ∧ k = key then some (.part id n data) else none
  | completeUpload b k id parts, .ok _ => if b = bucket ∧ k = key then some (.completed id parts now) else none
  | _, _ => none

def Step.objectEvent? (now : Timestamp) (bucket key : Text) : Step → Outcome → Option ObjectEvent
  | call c, .replied r => c.objectEvent? now bucket key r
  | _, _ => none

def Step.createdBucket? : Step → Option Text
  | createBucket bucket => some bucket
  | _ => none

namespace Timeline

-- The latest event comes first.
def objectEvents (bucket key : Text) : Timeline → List Outcome → List ObjectEvent
  | (now, step) :: rest, outcome :: outcomes =>
    objectEvents bucket key rest outcomes ++ (step.objectEvent? now bucket key outcome).toList
  | _, _ => []

def creates (timeline : Timeline) (bucket : Text) : Bool := timeline.any (·.2.createdBucket? = some bucket)

end Timeline

-- The store is what the events of each key say, and the parts of an upload are the last ones with its id. The ids of
-- parts were given out before, and one that is given out next is none of them.
structure Memory.Tells (events : Text → Text → List ObjectEvent) (m : Memory) : Prop where
  objects : ∀ bucket key, m.object? bucket key = ObjectEvent.written? (events bucket key)
  parts : ∀ {id u}, m.uploads[id]? = some u → ∀ n : UInt32,
    u.parts[n]? = (ObjectEvent.lastPart? (events u.bucket u.key) id n).map fun data => (Checksum.tag data, data)
  given : ∀ {id u}, m.uploads[id]? = some u → ∃ count ≤ m.initiations, id = uploadId count
  known : ∀ {bucket key id n data}, .part id n data ∈ events bucket key → ∃ count ≤ m.initiations, id = uploadId count
  lists : ∀ {bucket key id parts madeAt earlier}, .completed id parts madeAt :: earlier <:+ events bucket key →
    ObjectEvent.ListsParts earlier id parts

namespace Memory

variable {events : Text → Text → List ObjectEvent} {m m' : Memory} {now : Timestamp}

theorem Tells.start : Tells (fun _ _ => []) .empty where
  objects _ _ := by simp [object?, empty, ObjectEvent.written?]
  parts found := by simp [empty] at found
  given found := by simp [empty] at found
  known := nofun
  lists suffix := by simp at suffix

theorem Tells.next {event : Text → Text → Option ObjectEvent} (tells : m.Tells events)
    (initiations : m'.initiations = m.initiations)
    (uploads : ∀ {id : Text} {u : Upload}, m'.uploads[id]? = some u → m.uploads[id]? = some u)
    (objects : ∀ bucket key,
      m'.object? bucket key = ObjectEvent.written? ((event bucket key).toList ++ events bucket key))
    (partless : ∀ {bucket key id n data}, event bucket key ≠ some (.part id n data))
    (lists : ∀ {bucket key id parts madeAt}, event bucket key = some (.completed id parts madeAt) →
      ObjectEvent.ListsParts (events bucket key) id parts) :
    m'.Tells fun bucket key => (event bucket key).toList ++ events bucket key where
  objects := objects
  parts := by
    intro id u found n
    rw [tells.parts (uploads found)]
    cases happened : event u.bucket u.key with
    | none => rfl
    | some e =>
      cases e with
      | part id n data => exact absurd happened partless
      | _ => rfl
  given found := initiations ▸ tells.given (uploads found)
  known := by
    intro bucket key id n data member
    rcases List.mem_append.mp member with here | before
    · exact absurd (Option.mem_toList.mp here) partless
    · exact initiations ▸ tells.known before
  lists := by
    intro bucket key id parts madeAt earlier suffix
    cases happened : event bucket key with
    | none => exact tells.lists (happened ▸ suffix)
    | some e =>
      rw [happened] at suffix
      rcases List.suffix_cons_iff.mp suffix with here | before
      · cases here
        exact lists happened
      · exact tells.lists before

theorem Tells.keeps {event : Text → Text → Option ObjectEvent} (tells : m.Tells events) (keeps : m.Keeps m')
    (quiet : ∀ bucket key, event bucket key = none) :
    m'.Tells fun bucket key => (event bucket key).toList ++ events bucket key := by
  refine tells.next keeps.initiations keeps.uploads (fun bucket key => ?_) (fun {bucket key _ _ _} happened => ?_)
    fun {bucket key _ _ _} happened => ?_
  · rw [quiet, object?, keeps.buckets]
    exact tells.objects bucket key
  · rw [quiet] at happened
    cases happened
  · rw [quiet] at happened
    cases happened

theorem Tells.happens {e : ObjectEvent} {on : Text → Text → Prop} [∀ bucket key, Decidable (on bucket key)]
    (tells : m.Tells events) (initiations : m'.initiations = m.initiations)
    (uploads : ∀ {id : Text} {u : Upload}, m'.uploads[id]? = some u → m.uploads[id]? = some u)
    (objects : ∀ bucket key, m'.object? bucket key
      = if on bucket key then ObjectEvent.written? (e :: events bucket key) else m.object? bucket key)
    (partless : ∀ id n data, e ≠ .part id n data)
    (lists : ∀ {bucket key id parts madeAt}, on bucket key → e = .completed id parts madeAt →
      ObjectEvent.ListsParts (events bucket key) id parts) :
    m'.Tells fun bucket key => (if on bucket key then some e else none).toList ++ events bucket key := by
  refine tells.next initiations uploads (fun bucket key => ?_) (fun {bucket key id n data} => ?_)
    fun {bucket key id parts madeAt} happened => ?_
  · rw [objects]
    split
    · rfl
    · exact tells.objects bucket key
  · split
    · exact fun same => partless id n data (Option.some.inj same)
    · exact nofun
  · split at happened
    · rename_i own
      exact lists own (Option.some.inj happened)
    · cases happened

theorem Tells.joined {id : Text} {u : Upload} (tells : m.Tells events) (under : m.uploads[id]? = some u)
    (parts : List PartTag) : joinParts u parts = ObjectEvent.assembled (events u.bucket u.key) id parts := by
  refine congrArg (parts.flatMap ·) (funext fun p => ?_)
  rw [tells.parts under, Option.map_map]
  exact congrArg (Option.getD · []) Option.map_id'

theorem ascending_pairwise {parts : List PartTag} (ordered : ascending parts = true) :
    parts.Pairwise fun p q => p.partNumber < q.partNumber := by
  induction parts with
  | nil => exact .nil
  | cons p rest ih =>
    cases rest with
    | nil => exact List.pairwise_singleton _ p
    | cons q rest =>
      rw [ascending, Bool.and_eq_true, decide_eq_true_iff] at ordered
      have later := ih ordered.2
      refine .cons (List.forall_mem_cons.mpr ⟨ordered.1, fun r member => ?_⟩) later
      exact UInt32.lt_trans ordered.1 ((List.pairwise_cons.mp later).1 r member)

theorem Tells.listsParts {id : Text} {u : Upload} {parts : List PartTag} (tells : m.Tells events)
    (under : m.uploads[id]? = some u) (ordered : ascending parts = true) (right : wrongPart? u parts = none) :
    ObjectEvent.ListsParts (events u.bucket u.key) id parts where
  ascending := ascending_pairwise ordered
  uploaded := by
    intro p listed
    have tagged := List.find?_eq_none.mp right p listed
    rw [tells.parts under] at tagged
    cases last : ObjectEvent.lastPart? (events u.bucket u.key) id p.partNumber with
    | none => simp [last] at tagged
    | some data =>
      have same : Checksum.tag data = p.etag := by simpa [last] using tagged
      exact ⟨data, rfl, same.symm⟩

theorem Tells.initiate (tells : m.Tells events) (b k : Text) : Tells events { m with
    uploads := m.uploads.insert (uploadId (m.initiations + 1)) ⟨b, k, now, ∅⟩
    initiations := m.initiations + 1 } where
  objects := tells.objects
  parts := by
    intro id u found n
    rw [Std.ExtTreeMap.getElem?_insert] at found
    split at found
    · rename_i same
      cases found
      rw [Std.LawfulEqOrd.compare_eq_iff_eq] at same
      rw [Std.ExtTreeMap.getElem?_empty]
      cases last : ObjectEvent.lastPart? (events b k) id n with
      | none => rfl
      | some data =>
        obtain ⟨count, below, again⟩ := tells.known (ObjectEvent.lastPart?_mem last)
        have same := uploadId_inj (same.trans again)
        omega
    · exact tells.parts found n
  given := by
    intro id u found
    rw [Std.ExtTreeMap.getElem?_insert] at found
    split at found
    · rename_i same
      rw [Std.LawfulEqOrd.compare_eq_iff_eq] at same
      exact ⟨_, Nat.le_refl _, same.symm⟩
    · obtain ⟨count, below, same⟩ := tells.given found
      exact ⟨count, Nat.le_succ_of_le below, same⟩
  known := by
    intro bucket key id n data member
    obtain ⟨count, below, same⟩ := tells.known member
    exact ⟨count, Nat.le_succ_of_le below, same⟩
  lists := tells.lists

theorem Tells.part {id : Text} {u : Upload} (tells : m.Tells events) (under : m.uploads[id]? = some u) (n : UInt32)
    (data : Bytes) : Tells (fun bucket key => (if u.bucket = bucket ∧ u.key = key then some (ObjectEvent.part id n data)
        else none).toList ++ events bucket key)
      { m with uploads := m.uploads.insert id { u with parts := u.parts.insert n (Checksum.tag data, data) } } where
  objects := by
    intro bucket key
    by_cases own : u.bucket = bucket ∧ u.key = key
    · rw [if_pos own]
      exact tells.objects bucket key
    · rw [if_neg own]
      exact tells.objects bucket key
  parts := by
    intro id' u' found n'
    rw [Std.ExtTreeMap.getElem?_insert] at found
    split at found
    · rename_i same
      cases found
      rw [Std.LawfulEqOrd.compare_eq_iff_eq] at same
      have before := tells.parts under n'
      rw [if_pos ⟨rfl, rfl⟩, Option.toList_some, List.singleton_append, ObjectEvent.lastPart?_part, ← same,
        Std.ExtTreeMap.getElem?_insert, before]
      by_cases own : n = n' <;> simp [own]
    · rename_i other
      rw [Std.LawfulEqOrd.compare_eq_iff_eq] at other
      rw [tells.parts found]
      by_cases own : u.bucket = u'.bucket ∧ u.key = u'.key
      · rw [if_pos own, Option.toList_some, List.singleton_append, ObjectEvent.lastPart?_part,
          if_neg fun same => other same.1]
      · rw [if_neg own]
        rfl
  given := by
    intro id' u' found
    rw [Std.ExtTreeMap.getElem?_insert] at found
    split at found
    · rename_i same
      rw [Std.LawfulEqOrd.compare_eq_iff_eq] at same
      exact same ▸ tells.given under
    · exact tells.given found
  known := by
    intro bucket key id' n' data' member
    rcases List.mem_append.mp member with here | before
    · split at here
      · cases List.mem_singleton.mp here
        exact tells.given under
      · cases here
    · exact tells.known before
  lists := by
    intro bucket key id' parts madeAt earlier suffix
    split at suffix
    · rcases List.suffix_cons_iff.mp suffix with here | before
      · cases here
      · exact tells.lists before
    · exact tells.lists suffix

theorem Tells.perform (tells : m.Tells events) (now : Timestamp) (c : Call) :
    (c.perform now m).2.Tells fun bucket key =>
      (c.objectEvent? now bucket key (c.perform now m).1).toList ++ events bucket key := by
  have effect := c.effect now m
  generalize c.perform now m = p at effect
  cases effect with
  | failed keeps => exact tells.keeps keeps fun bucket key => by cases c <;> rfl
  | read read => exact tells.keeps (.refl m) fun bucket key => by cases c <;> first | rfl | cases read
  | abort => exact tells.keeps (.erase m _) fun bucket key => rfl
  | initiate => exact tells.initiate _ _
  | part under => exact tells.part under _ _
  | put stored =>
    refine tells.happens rfl id (fun bucket key => ?_) nofun nofun
    rw [object?_put stored]
    rfl
  | delete stored =>
    refine tells.happens rfl id (fun bucket key => ?_) nofun nofun
    rw [object?_delete stored]
    rfl
  | deleteBatch stored =>
    refine tells.happens rfl id (fun bucket key => ?_) nofun nofun
    rw [object?_deleteBatch stored]
    rfl
  | @complete id parts u o r under ordered right stored =>
    refine tells.happens rfl (Keeps.erase m id).uploads (fun bucket key => ?_) nofun ?_
    · rw [object?_put stored]
      split
      · rename_i own
        rw [← own.1, ← own.2, ObjectEvent.written?, ← tells.joined under]
        rfl
      · rfl
    · rintro bucket key _ _ _ ⟨rfl, rfl⟩ same
      cases same
      exact tells.listsParts under ordered right

theorem Tells.step (tells : m.Tells events) (now : Timestamp) (step : Step) :
    (step.performPlain now m).2.Tells fun bucket key =>
      (step.objectEvent? now bucket key (step.performPlain now m).1).toList ++ events bucket key := by
  cases step with
  | call c => exact tells.perform now c
  | createBucket b =>
    obtain ⟨uploads, initiations⟩ := m.createBucket_uploads b
    refine tells.next initiations (fun found => uploads ▸ found) (fun bucket key => ?_) nofun nofun
    exact (object?_createBucket b).trans (tells.objects bucket key)
  | clear => exact tells
  | resetStats => exact tells
  | setFailureLimit limit => exact tells
  | setThrottleProbability p => exact tells
  | reorder order => exact tells

theorem Tells.run (tells : m.Tells events) (timeline : Timeline) :
    (timeline.runPlain m).2.Tells fun bucket key =>
      timeline.objectEvents bucket key (timeline.runPlain m).1 ++ events bucket key := by
  induction timeline generalizing m events with
  | nil => exact tells
  | cons entry rest ih =>
    have finished := ih (tells.step entry.1 entry.2)
    simp only [← List.append_assoc] at finished
    exact finished

theorem mem_buckets_perform {bucket : Text} (now : Timestamp) (c : Call) :
    bucket ∈ (c.perform now m).2.buckets ↔ bucket ∈ m.buckets := by
  have inserted : ∀ {b : Text} {o o' : Bucket}, m.buckets[b]? = some o →
      (bucket ∈ m.buckets.insert b o' ↔ bucket ∈ m.buckets) := by
    intro b o o' stored
    rw [Std.ExtTreeMap.mem_insert, Std.LawfulEqOrd.compare_eq_iff_eq, or_iff_right_iff_imp]
    rintro rfl
    exact mem_buckets_of_stored stored
  have effect := c.effect now m
  generalize c.perform now m = p at effect
  cases effect with
  | failed keeps => rw [keeps.buckets]
  | put stored => exact inserted stored
  | delete stored => exact inserted stored
  | deleteBatch stored => exact inserted stored
  | complete under ordered right stored => exact inserted stored
  | _ => rfl

theorem mem_buckets_step {bucket : Text} (now : Timestamp) (step : Step) :
    bucket ∈ (step.performPlain now m).2.buckets ↔ bucket ∈ m.buckets ∨ step.createdBucket? = some bucket := by
  cases step with
  | call c => exact (mem_buckets_perform now c).trans (by simp [Step.createdBucket?])
  | createBucket b =>
    rw [Step.performPlain, createBucket]
    split
    · rename_i there
      refine (or_iff_left_of_imp ?_).symm
      rintro ⟨⟩
      exact Std.ExtTreeMap.contains_iff_mem.mp there
    · rw [Std.ExtTreeMap.mem_insert, Std.LawfulEqOrd.compare_eq_iff_eq, Step.createdBucket?, Option.some_inj, or_comm]
  | _ => simp [Step.performPlain, Step.createdBucket?]

end Memory

namespace Timeline

theorem mem_buckets_runPlain {bucket : Text} (timeline : Timeline) (m : Memory) :
    bucket ∈ (timeline.runPlain m).2.buckets ↔ bucket ∈ m.buckets ∨ timeline.creates bucket = true := by
  induction timeline generalizing m with
  | nil => simp [runPlain, creates]
  | cons entry rest ih =>
    obtain ⟨now, step⟩ := entry
    rw [runPlain, ih, Memory.mem_buckets_step, or_assoc]
    simp [creates]

theorem reads_give_last_write (timeline : Timeline) (bucket key : Text) :
    let ran := timeline.runPlain .empty
    let events := timeline.objectEvents bucket key ran.1
    (Memory.get bucket key ran.2).1 =
        (if timeline.creates bucket then
          match ObjectEvent.written? events with
          | some object => .ok ⟨object.summary bucket key, object.data⟩
          | none => .error (.noSuchKey bucket key)
        else .error (.noSuchBucket bucket)) ∧
      ∀ {id parts madeAt earlier}, .completed id parts madeAt :: earlier <:+ events →
        ObjectEvent.ListsParts earlier id parts := by
  intro ran events
  have tells := Memory.Tells.start.run timeline
  simp only [List.append_nil] at tells
  have made : bucket ∈ ran.2.buckets ↔ timeline.creates bucket = true := by
    rw [mem_buckets_runPlain]
    simp [Memory.empty]
  refine ⟨?_, tells.lists⟩
  rw [Memory.get_eq, tells.objects]
  simp only [made]
  rfl

-- Two uploads for a key that is put meanwhile. Of the one that comes to its end a part is uploaded twice and another is
-- not listed; the other upload is given up afterwards.
def interleaved : Timeline :=
  let id := Memory.uploadId 1
  let other := Memory.uploadId 2
  [(.zero, .createBucket ['b']), (⟨1⟩, .call (.initiateUpload ['b'] ['k'])),
    (⟨1⟩, .call (.initiateUpload ['b'] ['k'])), (⟨2⟩, .call (.uploadPart ['b'] ['k'] id 2 [3])),
    (⟨3⟩, .call (.uploadPart ['b'] ['k'] id 1 [9])), (⟨3⟩, .call (.uploadPart ['b'] ['k'] other 1 [7])),
    (⟨4⟩, .call (.put ['b'] ['k'] [1])), (⟨5⟩, .call (.uploadPart ['b'] ['k'] id 1 [2])),
    (⟨5⟩, .call (.uploadPart ['b'] ['k'] id 3 [8])),
    (⟨6⟩, .call (.completeUpload ['b'] ['k'] id [⟨1, Checksum.tag [2]⟩, ⟨2, Checksum.tag [3]⟩])),
    (⟨7⟩, .call (.abortUpload ['b'] ['k'] other)), (⟨8⟩, .call (.put ['b'] ['j'] [5]))]

theorem interleaved_parts_read :
    let ran := interleaved.runPlain .empty
    let x : Summary := ⟨['b'], ['k'], 2, Checksum.joinedTag [2, 3] 2, ⟨6⟩, "STANDARD".toList⟩
    (Memory.get ['b'] ['k'] ran.2).1 = .ok ⟨x, [2, 3]⟩ ∧
      ∀ {id parts madeAt earlier},
        .completed id parts madeAt :: earlier <:+ interleaved.objectEvents ['b'] ['k'] ran.1 →
          ObjectEvent.ListsParts earlier id parts := by
  obtain ⟨read, lists⟩ := reads_give_last_write interleaved ['b'] ['k']
  have created : interleaved.creates ['b'] = true := by decide +kernel
  have written : ObjectEvent.written? (interleaved.objectEvents ['b'] ['k'] (interleaved.runPlain .empty).1)
      = some ⟨[2, 3], Checksum.joinedTag [2, 3] 2, ⟨6⟩⟩ := by decide +kernel
  refine ⟨?_, lists⟩
  rw [read, if_pos created, written]
  rfl

end Timeline
end StaleStore
