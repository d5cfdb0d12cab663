import StaleStore.Proofs.Stale.Pages
import StaleStore.Proofs.Store.Effects

namespace StaleStore
namespace Page

variable {room : Nat} {es : List Entry} {name : Text}

theorem ofEntries_next_isSome :
    (ofEntries room es).next.isSome = true ↔ (ofEntries room es).truncated = true ∧ 0 < room := by
  by_cases more : room < es.length
  · have some : es ≠ [] := List.ne_nil_of_length_pos (by omega)
    simp [next, ofEntries, more, some, Nat.pos_iff_ne_zero]
  · simp [next, ofEntries, more]

theorem last_of_next (ordered : es.Pairwise fun a b => a.name < b.name)
    (goesOn : (ofEntries room es).next = some name) :
    ∃ last ∈ es, last.name = name ∧ ∀ e ∈ es.take room, e.name ≤ name := by
  have cut : (ofEntries room es).truncated = true := by
    by_contra ended
    rw [next, if_neg ended] at goesOn
    cases goesOn
  rw [next, if_pos cut] at goesOn
  obtain ⟨last, found, rfl⟩ := Option.map_eq_some_iff.mp goesOn
  refine ⟨last, List.mem_of_mem_take (List.mem_of_getLast? found), rfl, ?_⟩
  obtain ⟨front, split⟩ := List.getLast?_eq_some_iff.mp found
  have taken := ordered.sublist (List.take_sublist room es)
  rw [split] at taken ⊢
  intro e member
  rcases List.mem_append.mp member with before | here
  · exact ((List.pairwise_append.mp taken).2.2 e before last List.mem_cons_self).le
  · rw [List.mem_singleton.mp here]

end Page

def View.names (v : View) : List Text := v.keys ++ v.commonPrefixes

namespace Query

variable {q later : Query} {now : Timestamp} {s : Stale Memory} {m : Memory} {o p : Bucket} {entry name : Text}

def plain : Query → Action Memory View
  | markers r => (Memory.list r).map View.ofListing
  | tokens r => (Memory.listTokens r).map View.ofTokens

theorem plain_of_stored (stored : m.buckets[q.bucket]? = some o) : q.plain m = (.ok (q.page o), m) := by
  cases q with
  | markers r => exact Action.map_of_ok (Memory.list_of_stored r stored)
  | tokens r => exact Action.map_of_ok (Memory.listTokens_of_stored r stored)

structure Resumes (q : Query) (entry : Text) (later : Query) : Prop where
  bucket : later.bucket = q.bucket
  under : later.under = q.under
  delimiter : later.delimiter = q.delimiter
  start : later.start = some entry

theorem after_resumes (q : Query) (entry : Text) : q.Resumes entry (q.after entry) :=
  ⟨after_bucket q entry, after_under q entry, after_delimiter q entry, after_start q entry⟩

def PutsBack (q : Query) (now : Timestamp) (s : Stale Memory) (x : Summary) : Prop :=
  ∃ key d, s.delays.deletes[key]? = some d ∧ now.hasElapsed d.deletedAt s.rules.window = false ∧
    d.summary = some x ∧ Path.isDescendant q.under key q.isRecursive = true

structure Onward (q : Query) (names : List Text) (now : Timestamp) (s : Stale Memory) (v : View) : Prop where
  summaries : ∀ x ∈ v.summaries, (∀ name ∈ names, name < x.key) ∨ q.PutsBack now s x
  commonPrefixes : ∀ p ∈ v.commonPrefixes, (∀ name ∈ names, name < p) ∨ q.RollsUp now s p

def Answers (q : Query) (now : Timestamp) (s : Stale Memory) (holds : View → Prop) : Prop :=
  (∃ n t, q.ask now s = (.error (.throttled n), t)) ∨ ∃ v t, q.ask now s = (.ok v, t) ∧ holds v

-- An answer for which the wrapped store had these names can be gone on from, at any time and in either store.
structure Resumable (q : Query) (v : View) (names : List Text) : Prop where
  told : v.next.isSome = true ↔ v.truncated = true ∧ 0 < q.maxKeys
  plain : ∀ {entry later m o}, v.next = some entry → q.Resumes entry later → m.buckets[q.bucket]? = some o →
    ∃ w, later.plain m = (.ok w, m) ∧ ∀ a ∈ names, ∀ b ∈ w.names, a < b
  stale : ∀ {entry later now s o}, v.next = some entry → q.Resumes entry later →
    s.backend.buckets[q.bucket]? = some o → later.Answers now s (later.Onward names now s)

theorem mem_page_names : name ∈ (q.page o).names ↔
    ∃ e ∈ (Page.wholeListing q.bucket o q.under q.delimiter q.start).take q.maxKeys, e.name = name := by
  simp only [View.names, View.keys, page, Page.ofBucket_eq, Page.ofEntries, List.mem_append, List.mem_map,
    List.mem_filterMap]
  constructor
  · intro named
    rcases named with ⟨x, ⟨e, member, shown⟩, rfl⟩ | ⟨e, member, shown⟩
    · cases e <;> cases shown
      exact ⟨_, member, rfl⟩
    · cases e <;> cases shown
      exact ⟨_, member, rfl⟩
  · intro named
    obtain ⟨e, member, rfl⟩ := named
    cases e with
    | object x => exact Or.inl ⟨x, ⟨_, member, rfl⟩, rfl⟩
    | group g => exact Or.inr ⟨_, member, rfl⟩

theorem page_next_isSome : (q.page o).next.isSome = true ↔ (q.page o).truncated = true ∧ 0 < q.maxKeys := by
  simp only [page, Page.ofBucket_eq]
  exact Page.ofEntries_next_isSome

theorem page_after (goesOn : (q.page o).next = some entry) (resumes : q.Resumes entry later) :
    ∀ a ∈ (q.page o).names, ∀ b ∈ (later.page p).names, a < b := by
  intro a shown b shownLater
  obtain ⟨e, member, rfl⟩ := mem_page_names.mp shown
  obtain ⟨e', memberLater, rfl⟩ := mem_page_names.mp shownLater
  simp only [page, Page.ofBucket_eq] at goesOn
  obtain ⟨last, listed, rfl, upTo⟩ := Page.last_of_next Page.wholeListing_ordered goesOn
  have listedLater := List.mem_of_mem_take memberLater
  rw [resumes.bucket, resumes.under, resumes.delimiter, resumes.start] at listedLater
  exact (upTo e member).trans_lt (Page.wholeListing_after listed listedLater)

theorem laid_onward {names : List Text} {v : View} (behind : ∀ a ∈ names, ∀ b ∈ v.names, a < b) :
    q.Onward names now s (q.laid now s v) where
  summaries := by
    intro x shown
    rcases overlay_summaries_from shown with ⟨listed, -⟩ | ⟨e, held, restored⟩
    · left
      intro a member
      exact behind a member x.key (List.mem_append_left _ (List.mem_map_of_mem listed))
    · right
      obtain ⟨d, recorded, pending, captured⟩ := DelayRecord.mem_held.mp (s.order.mem_arrange.mp held)
      obtain ⟨descends, summary⟩ := OverlaidListing.summaryOf?_eq_some.mp restored
      exact ⟨e.1, d, recorded, pending, captured.trans summary, descends⟩
  commonPrefixes := by
    intro r shown
    rcases overlay_prefixes_from shown with ⟨listed, -⟩ | restored
    · left
      intro a member
      exact behind a member r (List.mem_append_right _ listed)
    · simp only [TableOrder.mem_arrange] at restored
      exact Or.inr (prefixOf?_held.mp restored)

theorem answers_of_stored {holds : View → Prop} (stored : s.backend.buckets[q.bucket]? = some o)
    (shows : holds (q.laid now s (q.page o))) : q.Answers now s holds := by
  rcases ask_cases now stored with ⟨t, -, throttled⟩ | ⟨draws, stats, answered⟩
  · exact Or.inl ⟨_, t, throttled⟩
  · exact Or.inr ⟨_, _, answered, shows⟩

theorem page_resumable (raw : View) (same : raw.next = (q.page o).next) (cut : raw.truncated = (q.page o).truncated) :
    q.Resumable raw (q.page o).names where
  told := by
    rw [same, cut]
    exact page_next_isSome
  plain := by
    intro entry later m p goesOn resumes stored
    refine ⟨later.page p, plain_of_stored (resumes.bucket ▸ stored), ?_⟩
    exact page_after (same ▸ goesOn) resumes
  stale := by
    intro entry later now s p goesOn resumes stored
    exact answers_of_stored (resumes.bucket ▸ stored) (laid_onward (page_after (same ▸ goesOn) resumes))

theorem truncated_page_resumable {q : Query} :
    (∀ {m : Memory} {o : Bucket}, m.buckets[q.bucket]? = some o →
      ∃ v, q.plain m = (.ok v, m) ∧ q.Resumable v v.names) ∧
    (∀ {now : Timestamp} {s : Stale Memory} {o : Bucket}, s.backend.buckets[q.bucket]? = some o →
      q.Answers now s fun v => ∃ raw, q.plain s.backend = (.ok raw, s.backend) ∧ q.Resumable v raw.names) := by
  constructor
  · intro m o stored
    exact ⟨_, plain_of_stored stored, page_resumable _ rfl rfl⟩
  · intro now s o stored
    exact answers_of_stored stored ⟨_, plain_of_stored stored, page_resumable _ rfl rfl⟩

theorem deletions_page_resumable :
    let q : Query := .markers { ListRequest.delimited ['b'] "p/".toList with maxKeys := 1 }
    let t := (Timeline.deletions.run Timeline.lagging).2
    let later := q.after "p/b/".toList
    ∃ o v raw, t.backend.buckets[q.bucket]? = some o ∧ (∃ u, q.ask ⟨2000⟩ t = (.ok v, u)) ∧
      q.plain t.backend = (.ok raw, t.backend) ∧ raw.names = ["p/b/".toList] ∧ q.Resumable v raw.names ∧
      v.next = some "p/b/".toList ∧ later.Answers ⟨2000⟩ t (later.Onward raw.names ⟨2000⟩ t) := by
  intro q t later
  let z : Summary := ⟨['b'], "p/z".toList, 0, "00000000".toList, .zero, "STANDARD".toList⟩
  let v : View := ⟨[z], ["p/b/".toList, "p/d/".toList], true, some "p/b/".toList⟩
  have asked : q.ask ⟨2000⟩ t = (.ok v, (q.ask ⟨2000⟩ t).2) := Action.eq_of_toOption (by decide +kernel)
  have here : t.backend.buckets[q.bucket]?.isSome = true := by decide +kernel
  obtain ⟨o, stored⟩ := Option.isSome_iff_exists.mp here
  have named : (q.plain t.backend).1.toOption.map View.names = some ["p/b/".toList] := by decide +kernel
  have answers : q.Answers ⟨2000⟩ t _ := truncated_page_resumable.2 stored
  rcases answers with ⟨n, u, throttled⟩ | ⟨w, u, answered, raw, shown, goesOn⟩
  · rw [asked] at throttled
    cases throttled
  · rw [asked] at answered
    cases answered
    rw [shown] at named
    exact ⟨o, v, raw, stored, ⟨_, asked⟩, shown, Option.some.inj named, goesOn, rfl,
      goesOn.stale rfl (after_resumes q _) stored⟩

theorem no_room_not_told :
    let t := (Timeline.run [(.zero, .call (.put ['b'] ['k'] []))] Timeline.lagging).2
    let byMarker : Query := .markers { ListRequest.recursive ['b'] [] with maxKeys := 0 }
    let byToken : Query := .tokens ⟨['b'], [], none, none, none, 0⟩
    let cut : View := ⟨[], [], true, none⟩
    (∃ m, byMarker.plain t.backend = (.ok cut, m)) ∧ (∃ m, byToken.plain t.backend = (.ok cut, m)) ∧
      (∃ u, byMarker.ask ⟨2000⟩ t = (.ok cut, u)) ∧ (∃ u, byToken.ask ⟨2000⟩ t = (.ok cut, u)) := by
  intro t byMarker byToken cut
  exact ⟨⟨_, Action.eq_of_toOption (by decide +kernel)⟩, ⟨_, Action.eq_of_toOption (by decide +kernel)⟩,
    ⟨_, Action.eq_of_toOption (by decide +kernel)⟩, ⟨_, Action.eq_of_toOption (by decide +kernel)⟩⟩

end Query
end StaleStore
