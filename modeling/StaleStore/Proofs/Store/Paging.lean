import StaleStore.Proofs.Store.Calls
import StaleStore.Proofs.Store.WholePage

namespace StaleStore
namespace Paging

structure Form (ρ α : Type) where
  ask : ρ → Action Memory α
  truncated : α → Bool
  summaries : α → List Summary
  commonPrefixes : α → List Text
  resume : ρ → α → Option ρ

variable {ρ α : Type}

-- All pages from a request on. A truncated page that does not say where to go on has no continuation.
inductive Walk (form : Form ρ α) (m : Memory) : ρ → List α → Prop where
  | last : form.ask r m = (.ok page, m) → form.truncated page = false → Walk form m r [page]
  | more : form.ask r m = (.ok page, m) → form.truncated page = true → form.resume r page = some next →
      Walk form m next pages → Walk form m r (page :: pages)

def Form.size (form : Form ρ α) (page : α) : Nat :=
  (form.summaries page).length + (form.commonPrefixes page).length

structure Enumerates (form : Form ρ α) (room : Nat) (pages : List α) (whole : α) : Prop where
  full : ∀ page ∈ pages.dropLast, form.size page = room
  summaries : pages.flatMap form.summaries = form.summaries whole
  commonPrefixes : pages.flatMap form.commonPrefixes = form.commonPrefixes whole
  keysOnce : ((pages.flatMap form.summaries).map (·.key)).Nodup
  prefixesOnce : (pages.flatMap form.commonPrefixes).Nodup

def markers : Form ListRequest Listing where
  ask := Memory.list
  truncated := (·.truncated)
  summaries := (·.summaries)
  commonPrefixes := (·.commonPrefixes)
  resume r page := page.nextMarker.map fun marker => { r with marker := some marker }

-- The key to begin after may be kept in later requests or left out of them.
def tokens (keepStart : Bool) : Form TokenRequest TokenListing where
  ask := Memory.listTokens
  truncated := (·.truncated)
  summaries := (·.summaries)
  commonPrefixes := (·.commonPrefixes)
  resume r page := page.nextToken.map fun token =>
    { r with token := some token, startAfter := if keepStart then r.startAfter else none }

end Paging

namespace Page

theorem ofEntries_next {room : Nat} {front rest : List Entry} {last : Entry} (full : front.length + 1 = room)
    (more : rest ≠ []) : (ofEntries room (front ++ last :: rest)).next = some last.name := by
  have cutOff : room < (front ++ last :: rest).length := by
    have positive := List.length_pos_iff.mpr more
    simp only [List.length_append, List.length_cons]
    omega
  have taken : (front ++ last :: rest).take room = front ++ [last] := by
    rw [← full, List.append_cons, List.take_left' (by simp)]
  simp only [next, ofEntries, decide_eq_true cutOff, taken]
  simp

theorem ofEntries_full {room : Nat} {es : List Entry} (enough : room ≤ es.length) :
    (ofEntries room es).summaries.length + (ofEntries room es).commonPrefixes.length = room := by
  have counted : ∀ l : List Entry,
      (l.filterMap Entry.summary?).length + (l.filterMap Entry.group?).length = l.length := by
    intro l
    induction l with
    | nil => rfl
    | cons e l ih => cases e <;> simp [List.filterMap_cons, Entry.summary?, Entry.group?] <;> omega
  simp only [ofEntries, counted, List.length_take]
  omega

end Page

namespace Paging
open Page

variable {ρ α : Type} {form : Form ρ α} {m : Memory} {room : Nat}

-- What makes a form of requests walk through the whole listing: a page is its front, and a full page that
-- is not the last is resumed at what it leaves over.
structure Pages (form : Form ρ α) (m : Memory) (room : Nat) (fits : ρ → Prop) (whole : ρ → List Entry) : Prop where
  answers : ∀ {r}, fits r → ∃ page, form.ask r m = (.ok page, m) ∧
    form.truncated page = (ofEntries room (whole r)).truncated ∧
    form.summaries page = (ofEntries room (whole r)).summaries ∧
    form.commonPrefixes page = (ofEntries room (whole r)).commonPrefixes
  resumes : ∀ {r page front last rest}, fits r → form.ask r m = (.ok page, m) →
    whole r = front ++ last :: rest → front.length + 1 = room → rest ≠ [] →
    ∃ next, form.resume r page = some next ∧ fits next ∧ whole next = rest

theorem split_at_room {es : List Entry} (positive : 0 < room) (more : room < es.length) :
    ∃ front last rest, es = front ++ last :: rest ∧ front.length + 1 = room ∧ rest ≠ [] := by
  have inside : room - 1 < es.length := by omega
  refine ⟨es.take (room - 1), es[room - 1], es.drop (room - 1 + 1), ?_, ?_, ?_⟩
  · rw [← List.drop_eq_getElem_cons inside, List.take_append_drop]
  · rw [List.length_take]
    omega
  · rw [← List.length_pos_iff, List.length_drop]
    omega

variable {fits : ρ → Prop} {whole : ρ → List Entry}

theorem Pages.ends (paged : Pages form m room fits whole) (positive : 0 < room) {r : ρ} (fit : fits r) :
    ∃ pages, Walk form m r pages := by
  generalize left : (whole r).length = count
  induction count using Nat.strong_induction_on generalizing r with
  | _ count ih =>
    obtain ⟨page, asked, truncated, -, -⟩ := paged.answers fit
    by_cases more : room < (whole r).length
    · obtain ⟨front, last, rest, split, full, nonempty⟩ := split_at_room positive more
      obtain ⟨next, resumed, fitNext, wholeNext⟩ := paged.resumes fit asked split full nonempty
      have fewer : (whole next).length < count := by
        rw [wholeNext, ← left, split, List.length_append, List.length_cons]
        omega
      obtain ⟨pages, walk⟩ := ih _ fewer fitNext rfl
      exact ⟨page :: pages, .more asked (truncated.trans (decide_eq_true more)) resumed walk⟩
    · exact ⟨[page], .last asked (truncated.trans (decide_eq_false more))⟩

theorem Pages.enumerates (paged : Pages form m room fits whole) (positive : 0 < room) {r : ρ} {pages : List α}
    (walk : Walk form m r pages) (fit : fits r) :
    (∀ page ∈ pages.dropLast, form.size page = room) ∧
      pages.flatMap form.summaries = (whole r).filterMap Entry.summary? ∧
      pages.flatMap form.commonPrefixes = (whole r).filterMap Entry.group? := by
  induction walk with
  | @last r page asked ended =>
    obtain ⟨answer, askedToo, truncated, summaries, prefixes⟩ := paged.answers fit
    rw [asked] at askedToo
    cases askedToo
    have all : (whole r).take room = whole r := by
      have fewer := of_decide_eq_false (truncated.symm.trans ended)
      exact List.take_of_length_le (not_lt.mp fewer)
    simp only [ofEntries, all] at summaries prefixes
    exact ⟨by simp, by simp [summaries], by simp [prefixes]⟩
  | @more r page next pages asked cut resumed walk ih =>
    obtain ⟨answer, askedToo, truncated, summaries, prefixes⟩ := paged.answers fit
    rw [asked] at askedToo
    cases askedToo
    have more : room < (whole r).length := of_decide_eq_true (truncated.symm.trans cut)
    obtain ⟨front, last, rest, split, full, nonempty⟩ := split_at_room positive more
    obtain ⟨next', resumed', fitNext, wholeNext⟩ := paged.resumes fit asked split full nonempty
    rw [resumed] at resumed'
    cases resumed'
    obtain ⟨fullRest, summariesRest, prefixesRest⟩ := ih fitNext
    have taken : (whole r).take room = front ++ [last] := by
      rw [split, List.append_cons, List.take_left' (by simp [full])]
    have sized : form.size page = room := by
      rw [Form.size, summaries, prefixes, ofEntries_full more.le]
    have remaining : pages ≠ [] := by
      cases walk <;> simp
    refine ⟨?_, ?_, ?_⟩
    · intro p member
      rw [List.dropLast_cons_of_ne_nil remaining] at member
      rcases List.mem_cons.mp member with rfl | later
      · exact sized
      · exact fullRest p later
    · simp only [ofEntries, taken] at summaries
      rw [List.flatMap_cons, summaries, summariesRest, wholeNext, ← List.filterMap_append, split,
        List.append_cons front last rest]
    · simp only [ofEntries, taken] at prefixes
      rw [List.flatMap_cons, prefixes, prefixesRest, wholeNext, ← List.filterMap_append, split,
        List.append_cons front last rest]

theorem markers_paged {bucket : Text} {objects : Bucket} (under : Text) (delimiter : Option Text) (room : Nat)
    (stored : m.buckets[bucket]? = some objects) :
    Pages markers m room
      (fun r => r.bucket = bucket ∧ r.under = under ∧ r.delimiter = delimiter ∧ r.maxKeys = room)
      (fun r => wholeListing bucket objects under delimiter r.marker) where
  answers := by
    intro r form
    obtain ⟨rfl, rfl, rfl, rfl⟩ := form
    refine ⟨_, Memory.list_of_stored r stored, ?_⟩
    rw [ofBucket_eq]
    exact ⟨rfl, rfl, rfl⟩
  resumes := by
    intro r page front last rest form asked split full more
    obtain ⟨rfl, rfl, rfl, rfl⟩ := form
    have answered := (Memory.list_of_stored r stored).symm.trans asked
    rw [ofBucket_eq, split] at answered
    cases answered
    refine ⟨{ r with marker := some last.name }, ?_, ⟨rfl, rfl, rfl, rfl⟩, wholeListing_resume split⟩
    simp [markers, ListRequest.answer, ofEntries_next full more]

theorem tokens_paged (keepStart : Bool) {bucket : Text} {objects : Bucket} (under : Text)
    (delimiter : Option Text) (room : Nat) (stored : m.buckets[bucket]? = some objects) :
    Pages (tokens keepStart) m room
      (fun r => r.bucket = bucket ∧ r.under = under ∧ r.delimiter = delimiter ∧ r.maxKeys = room)
      (fun r => wholeListing bucket objects under delimiter r.start) where
  answers := by
    intro r form
    obtain ⟨rfl, rfl, rfl, rfl⟩ := form
    refine ⟨_, Memory.listTokens_of_stored r stored, ?_⟩
    rw [ofBucket_eq]
    exact ⟨rfl, rfl, rfl⟩
  resumes := by
    intro r page front last rest form asked split full more
    obtain ⟨rfl, rfl, rfl, rfl⟩ := form
    have answered := (Memory.listTokens_of_stored r stored).symm.trans asked
    rw [ofBucket_eq, split] at answered
    cases answered
    refine ⟨{ r with token := some last.name, startAfter := if keepStart then r.startAfter else none }, ?_,
      ⟨rfl, rfl, rfl, rfl⟩, wholeListing_resume split⟩
    simp [tokens, TokenRequest.answer, ofEntries_next full more]

theorem pages_enumerate_listing {m : Memory} {bucket : Text} {objects : Bucket} {bound : Nat}
    (stored : m.buckets[bucket]? = some objects) (unbounded : objects.size ≤ bound) :
    (∀ r : ListRequest, r.bucket = bucket → 0 < r.maxKeys →
      ∃ whole, Memory.list { r with maxKeys := bound } m = (.ok whole, m) ∧ whole.truncated = false ∧
        (∃ pages, Walk markers m r pages) ∧
        ∀ pages, Walk markers m r pages → Enumerates markers r.maxKeys pages whole) ∧
    (∀ (keepStart : Bool) (r : TokenRequest), r.bucket = bucket → 0 < r.maxKeys →
      ∃ whole, Memory.listTokens { r with maxKeys := bound } m = (.ok whole, m) ∧ whole.truncated = false ∧
        (∃ pages, Walk (tokens keepStart) m r pages) ∧
        ∀ pages, Walk (tokens keepStart) m r pages → Enumerates (tokens keepStart) r.maxKeys pages whole) := by
  constructor
  · intro r here positive
    subst here
    have paged := markers_paged r.under r.delimiter r.maxKeys stored
    obtain ⟨ended, summaries, prefixes⟩ :=
      ofBucket_of_room ((storedUnder_le_size r.under objects).trans unbounded) r.delimiter r.marker
    refine ⟨_, Memory.list_of_stored { r with maxKeys := bound } stored, ended,
      paged.ends positive ⟨rfl, rfl, rfl, rfl⟩, ?_⟩
    intro pages walk
    obtain ⟨full, shown, rolledUp⟩ := paged.enumerates positive walk ⟨rfl, rfl, rfl, rfl⟩
    exact ⟨full, shown.trans summaries.symm, rolledUp.trans prefixes.symm, shown ▸ keys_once,
      rolledUp ▸ prefixes_once⟩
  · intro keepStart r here positive
    subst here
    have paged := tokens_paged keepStart r.under r.delimiter r.maxKeys stored
    obtain ⟨ended, summaries, prefixes⟩ :=
      ofBucket_of_room ((storedUnder_le_size r.under objects).trans unbounded) r.delimiter r.start
    refine ⟨_, Memory.listTokens_of_stored { r with maxKeys := bound } stored, ended,
      paged.ends positive ⟨rfl, rfl, rfl, rfl⟩, ?_⟩
    intro pages walk
    obtain ⟨full, shown, rolledUp⟩ := paged.enumerates positive walk ⟨rfl, rfl, rfl, rfl⟩
    exact ⟨full, shown.trans summaries.symm, rolledUp.trans prefixes.symm, shown ▸ keys_once,
      rolledUp ▸ prefixes_once⟩

def overlappingKeys : Bucket :=
  .ofList (["baa", "baaa", "baab", "caa", "d"].map fun key => (key.toList, StoredObject.mk [] [] .zero))

theorem overlapping_keys_enumerated :
    let m : Memory := ⟨.ofList [(['b'], overlappingKeys)], ∅, 0⟩
    let r : ListRequest := ⟨['b'], [], some ['a', 'a'], some "baaa".toList, 1⟩
    m.buckets[r.bucket]? = some overlappingKeys ∧ overlappingKeys.size ≤ 5 ∧ 0 < r.maxKeys ∧
      ∃ whole, Memory.list { r with maxKeys := 5 } m = (.ok whole, m) ∧ whole.truncated = false ∧
        (∃ pages, Walk markers m r pages) ∧
        ∀ pages, Walk markers m r pages → Enumerates markers r.maxKeys pages whole := by
  intro m r
  have stored : m.buckets[r.bucket]? = some overlappingKeys := by decide
  have unbounded : overlappingKeys.size ≤ 5 := by decide
  exact ⟨stored, unbounded, Nat.one_pos, (pages_enumerate_listing stored unbounded).1 r rfl Nat.one_pos⟩

end Paging
end StaleStore
