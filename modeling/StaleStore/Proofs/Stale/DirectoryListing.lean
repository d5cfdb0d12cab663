import StaleStore.Proofs.Stale.FlatListing
import StaleStore.Proofs.Stale.PathListing

namespace StaleStore

namespace History

def held? (h : History) (window : UInt64) (now : Timestamp) (key : Text) : Option DelayedDelete :=
  (h.lastDelete? key).filter fun d => !Timestamp.isPast window now d.deletedAt

def Occupies (h : History) (o : Bucket) (window : UInt64) (now : Timestamp) (key : Text) : Prop :=
  (∃ object, o[key]? = some object) ∨ ∃ d, h.held? window now key = some d

variable {h : History} {o : Bucket} {bucket key : Text} {window : UInt64} {now : Timestamp}

theorem live?_of_missing (missing : o[key]? = none) : h.live? o bucket window now key = none := by
  simp [live?, missing]

theorem shown?_of_missing (missing : o[key]? = none) :
    h.shown? o bucket window now key = (h.held? window now key).bind (·.summary) := by
  rw [shown?, live?_of_missing missing, Option.none_or]
  rfl

theorem held?_mem {d : DelayedDelete} (held : h.held? window now key = some d) :
    .delete key d.deletedAt d.summary ∈ h :=
  lastDelete?_mem (Option.filter_eq_some_iff.mp held).1

end History

namespace Stale

-- A store with such keys in its bucket and in its history, whose delays are what the history says of them.
structure Orderly (bucket : Text) (o : Bucket) (window : UInt64) (h : History) (now : Timestamp) (s : Stale Memory) :
    Prop where
  stored : s.backend.buckets[bucket]? = some o
  names : ∀ {key object}, o[key]? = some object → Path.IsKey key
  window_eq : s.rules.window = .ofMillis window
  recounts : Recounts h (.ofMillis window) now s.delays
  told : ∀ e ∈ h, e.On Path.IsKey

namespace Orderly

variable {bucket key : Text} {o : Bucket} {window : UInt64} {h : History} {now next : Timestamp} {s : Stale Memory}
  {q : Query}

theorem later (orderly : Orderly bucket o window h now s) (order : now.ms ≤ next.ms) :
    Orderly bucket o window h next s :=
  { orderly with recounts := orderly.recounts.later order }

theorem held_key (orderly : Orderly bucket o window h now s) {d : DelayedDelete}
    (held : h.held? window now key = some d) : Path.IsKey key :=
  orderly.told _ (History.held?_mem held)

theorem mem_held (orderly : Orderly bucket o window h now s) {summary : Option Summary} :
    (key, summary) ∈ (s.delays.purge s.rules.window now).heldDeletes ↔
      ∃ d, h.held? window now key = some d ∧ d.summary = summary := by
  rw [DelayRecord.mem_heldDeletes, orderly.window_eq, orderly.recounts.held_eq, History.held?]
  simp only [Timestamp.hasElapsed_ofMillis]

theorem held_well (orderly : Orderly bucket o window h now s) :
    HeldWell (s.delays.purge s.rules.window now).heldDeletes := by
  rw [orderly.window_eq]
  exact orderly.recounts.held_well

theorem occupies_iff (orderly : Orderly bucket o window h now s) :
    s.Occupies o now key ↔ h.Occupies o window now key := by
  simp only [Occupies, orderly.mem_held]
  refine or_congr_right ⟨?_, ?_⟩
  · rintro ⟨summary, d, held, -⟩
    exact ⟨d, held⟩
  · rintro ⟨d, held⟩
    exact ⟨d.summary, d, held, rfl⟩

theorem keyed (orderly : Orderly bucket o window h now s) : Keyed bucket o now s where
  stored := orderly.stored
  names := orderly.names
  hidden := by
    intro key hidden
    rw [orderly.window_eq, orderly.recounts.hides_eq] at hidden
    obtain ⟨madeAt, recorded, -⟩ := (Option.any_eq_true _ _).mp hidden
    exact orderly.told _ (History.lastPut?_mem recorded)
  held := by
    intro key summary member
    obtain ⟨d, held, -⟩ := orderly.mem_held.mp member
    exact orderly.held_key held
  well := orderly.held_well

section
variable (orderly : Orderly bucket o window h now s) (listed : q.IsOfDirectory bucket)
  (ended : (q.page o).truncated = false)
include orderly listed ended

theorem mem_summaries {x : Summary} : x ∈ (q.laid now s (q.page o)).summaries ↔
    ∃ key, q.under <+: key ∧ Page.group? q.under q.delimiter key = none ∧
      h.shown? o bucket window now key = some x := by
  simp only [Query.page, listed.start, listed.bucket] at ended
  simp only [Query.laid, Query.page, Stale.overlaid, listed.start, listed.bucket, orderly.window_eq]
  apply orderly.recounts.mem_overlaid_of_ended bucket ended
  intro key x held
  rw [← orderly.window_eq, orderly.mem_held] at held
  obtain ⟨d, held, -⟩ := held
  exact Path.isDescendant_iff listed.directory (orderly.held_key held) listed.plain

theorem mem_commonPrefixes {g : Text} : g ∈ (q.laid now s (q.page o)).commonPrefixes ↔
    ∃ key, h.Occupies o window now key ∧ q.under <+: key ∧ Page.group? q.under q.delimiter key = some g := by
  simp only [orderly.keyed.mem_commonPrefixes listed ended, orderly.occupies_iff]

end

theorem captured_eq (orderly : Orderly bucket o window h now s) (isKey : Path.IsKey key) :
    s.captured now bucket key o = h.live? o bucket window now key :=
  orderly.recounts.captured_eq orderly.window_eq (Path.isBelow_self isKey.ne_nil isKey.last_ne)

end Orderly
end Stale
end StaleStore
