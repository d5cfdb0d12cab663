import StaleStore.Proofs.Directories
import StaleStore.Proofs.Stale.Pages

namespace StaleStore

structure Query.IsOfDirectory (bucket : Text) (q : Query) : Prop where
  bucket : q.bucket = bucket
  directory : Path.IsDirectory q.under
  plain : Path.IsDelimiter q.delimiter
  start : q.start = none

section
variable {q : Query} {o : Bucket} {now : Timestamp} {s : Stale Memory} (ended : (q.page o).truncated = false)
include ended

theorem Query.laid_keys_nodup : (q.laid now s (q.page o)).keys.Nodup := by
  apply overlay_keys_nodup
  rw [show (q.page o).summaries = _ from (Page.ofBucket_of_ended ended).1]
  exact Page.keys_once

theorem Query.laid_prefixes_nodup : (q.laid now s (q.page o)).commonPrefixes.Nodup := by
  apply overlay_prefixes_nodup
  rw [show (q.page o).commonPrefixes = _ from (Page.ofBucket_of_ended ended).2]
  exact Page.prefixes_once

end

namespace Stale

section
variable (o : Bucket) (now : Timestamp) (s : Stale Memory) (key : Text)

def Lists : Prop :=
  ((∃ object, o[key]? = some object) ∧ s.delays.hides s.rules.window now key = false) ∨
    ∃ x, (key, some x) ∈ (s.delays.purge s.rules.window now).heldDeletes

-- The directories on the way to the key show, also where a put of it is hidden or nothing was captured for it.
def Occupies : Prop :=
  (∃ object, o[key]? = some object) ∨ ∃ summary, (key, summary) ∈ (s.delays.purge s.rules.window now).heldDeletes

end

variable {bucket key g : Text} {o : Bucket} {now : Timestamp} {s : Stale Memory} {q : Query}

theorem Lists.occupies (lists : s.Lists o now key) : s.Occupies o now key := by
  rcases lists with ⟨stored, -⟩ | ⟨x, held⟩
  · exact Or.inl stored
  · exact Or.inr ⟨_, held⟩

structure Keyed (bucket : Text) (o : Bucket) (now : Timestamp) (s : Stale Memory) : Prop where
  stored : s.backend.buckets[bucket]? = some o
  names : ∀ {key object}, o[key]? = some object → Path.IsKey key
  hidden : ∀ {key}, s.delays.hides s.rules.window now key = true → Path.IsKey key
  held : ∀ {key summary}, (key, summary) ∈ (s.delays.purge s.rules.window now).heldDeletes → Path.IsKey key
  well : HeldWell (s.delays.purge s.rules.window now).heldDeletes

namespace Keyed

variable (keyed : Keyed bucket o now s)
include keyed

theorem occupies (occupies : s.Occupies o now key) : Path.IsKey key := by
  rcases occupies with ⟨object, stored⟩ | ⟨summary, held⟩
  · exact keyed.names stored
  · exact keyed.held held

theorem shows (last : key.getLast? = some Path.separator) : s.delays.hides s.rules.window now key = false := by
  rw [Bool.eq_false_iff]
  exact fun hidden => (keyed.hidden hidden).last_ne last

section
variable (listed : q.IsOfDirectory bucket)
include listed

theorem prefixOf?_iff (occupies : s.Occupies o now key) :
    OverlaidListing.prefixOf? q.under q.isRecursive key = some g ↔
      q.under <+: key ∧ Page.group? q.under q.delimiter key = some g :=
  Path.prefixOf?_iff listed.directory (keyed.occupies occupies) listed.plain

theorem slashed (occupies : s.Occupies o now key) (lies : q.under <+: key)
    (rolled : Page.group? q.under q.delimiter key = some g) : Path.IsSlashed g ∧ g.getLast? = some Path.separator :=
  Path.group?_slashed listed.directory (keyed.occupies occupies) listed.plain lies rolled

theorem commonPrefix_from (shown : g ∈ (q.laid now s (q.page o)).commonPrefixes) :
    ∃ key, s.Occupies o now key ∧ q.under <+: key ∧ Page.group? q.under q.delimiter key = some g := by
  rcases overlay_prefixes_from shown with ⟨page, -⟩ | ⟨⟨key, summary⟩, held, rolled⟩
  · obtain ⟨key, object, stored, grouped⟩ := Page.key_of_group page
    exact ⟨key, Or.inl ⟨object, stored⟩, grouped⟩
  · have occupies : s.Occupies o now key := Or.inr ⟨summary, s.order.mem_arrange.mp held⟩
    exact ⟨key, occupies, (keyed.prefixOf?_iff listed occupies).mp rolled⟩

variable (ended : (q.page o).truncated = false)
include ended

theorem mem_commonPrefixes : g ∈ (q.laid now s (q.page o)).commonPrefixes ↔
    ∃ key, s.Occupies o now key ∧ q.under <+: key ∧ Page.group? q.under q.delimiter key = some g := by
  refine ⟨keyed.commonPrefix_from listed, ?_⟩
  rintro ⟨key, occupies, lies, rolled⟩
  have page : ∀ r, r ∈ (q.page o).commonPrefixes ↔
      ∃ key object, o[key]? = some object ∧ q.under <+: key ∧ Page.group? q.under q.delimiter key = some r := by
    intro r
    simp only [Query.page, listed.start] at ended ⊢
    exact Page.mem_commonPrefixes_of_ended ended
  refine (mem_overlay_commonPrefixes ?_ ?_).mpr ?_
  · intro r shown
    obtain ⟨key, object, stored, lies, rolled⟩ := (page r).mp shown
    exact (keyed.slashed listed (Or.inl ⟨object, stored⟩) lies rolled).1
  · rintro ⟨key, summary⟩ held r rolled
    have occupies : s.Occupies o now key := Or.inr ⟨summary, s.order.mem_arrange.mp held⟩
    obtain ⟨lies, grouped⟩ := (keyed.prefixOf?_iff listed occupies).mp rolled
    exact (keyed.slashed listed occupies lies grouped).1
  · rcases occupies with ⟨object, stored⟩ | ⟨summary, held⟩
    · refine Or.inl ⟨(page g).mpr ⟨key, object, stored, lies, rolled⟩, ?_⟩
      exact keyed.shows (keyed.slashed listed (Or.inl ⟨object, stored⟩) lies rolled).2
    · refine Or.inr ⟨_, s.order.mem_arrange.mpr held, ?_⟩
      exact (keyed.prefixOf?_iff listed (Or.inr ⟨summary, held⟩)).mpr ⟨lies, rolled⟩

theorem mem_keys : key ∈ (q.laid now s (q.page o)).keys ↔
    s.Lists o now key ∧ q.under <+: key ∧ Page.group? q.under q.delimiter key = none := by
  have page : key ∈ (q.page o).keys ↔
      (∃ object, o[key]? = some object) ∧ q.under <+: key ∧ Page.group? q.under q.delimiter key = none := by
    simp only [View.keys, List.mem_map, Query.page, listed.start] at ended ⊢
    simp only [Page.mem_summaries_of_ended ended]
    constructor
    · rintro ⟨x, ⟨key, object, stored, lies, alone, rfl⟩, rfl⟩
      exact ⟨⟨object, stored⟩, lies, alone⟩
    · rintro ⟨⟨object, stored⟩, lies, alone⟩
      exact ⟨_, ⟨key, object, stored, lies, alone, rfl⟩, rfl⟩
  have descends : ∀ {x}, (key, some x) ∈ (s.delays.purge s.rules.window now).heldDeletes →
      (Path.isDescendant q.under key q.isRecursive = true ↔
        q.under <+: key ∧ Page.group? q.under q.delimiter key = none) := fun held =>
    Path.isDescendant_iff listed.directory (keyed.held held) listed.plain
  refine (mem_overlay_keys (keyed.well.arrange s.order)).trans ?_
  simp only [TableOrder.mem_arrange]
  rw [show key ∈ (q.page o).summaries.map (·.key) ↔ _ from page, Lists, or_and_right, and_right_comm]
  refine or_congr_right ⟨?_, ?_⟩
  · rintro ⟨x, held, below⟩
    exact ⟨⟨x, held⟩, (descends held).mp below⟩
  · rintro ⟨⟨x, held⟩, below⟩
    exact ⟨x, held, (descends held).mpr below⟩

end
end Keyed
end Stale
end StaleStore
