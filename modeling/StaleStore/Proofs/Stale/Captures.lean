import StaleStore.Proofs.Stale.Overlay
import StaleStore.Proofs.Stale.Parts
import StaleStore.Proofs.Store.WholePage

namespace StaleStore
namespace Stale

variable {now : Timestamp} {bucket key : Text} {s t : Stale Memory} {o p : Bucket} {x y : Summary}

def ShowsStored (now : Timestamp) (bucket key : Text) (o : Bucket) (s : Stale Memory) (x : Summary) : Prop :=
  (∃ object, o[key]? = some object ∧ object.summary bucket key = x) ∧ s.delays.hides s.rules.window now key = false

def PutsBack (now : Timestamp) (key : Text) (o : Bucket) (s : Stale Memory) (x : Summary) : Prop :=
  (key, some x) ∈ (s.delays.purge s.rules.window now).heldDeletes ∧ Path.isBelow key key = true ∧
    (o[key]? = none ∨ s.delays.hides s.rules.window now key = true)

theorem mem_listing_of_key (well : HeldWell (s.delays.purge s.rules.window now).heldDeletes) :
    x ∈ (s.listing now o (.recursive bucket x.key)).summaries ↔
      s.ShowsStored now bucket x.key o x ∨ s.PutsBack now x.key o x := by
  let page := Page.ofBucket bucket o x.key none none defaultMaxKeys
  have shown : x ∈ page.summaries ↔ ∃ object, o[x.key]? = some object ∧ object.summary bucket x.key = x := by
    constructor
    · exact Page.stored_of_shown
    · rintro ⟨object, stored, same⟩
      rw [← same]
      exact Page.summary_first stored (show 0 < defaultMaxKeys by decide)
  have hidden : (∀ y ∈ page.summaries, y.key = x.key → s.delays.hides s.rules.window now x.key = true) ↔
      o[x.key]? = none ∨ s.delays.hides s.rules.window now x.key = true := by
    cases found : o[x.key]? with
    | none =>
      simp only [true_or, iff_true]
      intro y listed same
      exact absurd same (Page.ne_of_missing found listed)
    | some object =>
      simp only [reduceCtorEq, false_or]
      constructor
      · intro all
        exact all _ (Page.summary_first found (show 0 < defaultMaxKeys by decide)) rfl
      · intro hides y _ _
        exact hides
  refine (mem_overlay_summaries (well.arrange s.order)).trans (or_congr ?_ ?_)
  · exact and_congr_left fun _ => shown
  · rw [TableOrder.mem_arrange]
    exact and_congr_right fun _ => and_congr_right fun _ => hidden

theorem shown_unique (one : s.ShowsStored now bucket key o x ∨ s.PutsBack now key o x)
    (other : s.ShowsStored now bucket key o y ∨ s.PutsBack now key o y) : x = y := by
  rcases one with ⟨⟨object, stored, rfl⟩, visible⟩ | ⟨held, -, gone⟩
  · rcases other with ⟨⟨object', stored', rfl⟩, -⟩ | ⟨-, -, gone⟩
    · rw [stored] at stored'
      cases stored'
      rfl
    · simp [stored, visible] at gone
  · rcases other with ⟨⟨object, stored, rfl⟩, visible⟩ | ⟨heldToo, -, -⟩
    · simp [stored, visible] at gone
    · exact Option.some.inj (DelayRecord.heldDeletes_unique held heldToo)

theorem captured_eq_some (well : HeldWell (s.delays.purge s.rules.window now).heldDeletes) :
    s.captured now bucket key o = some x ↔ s.ShowsStored now bucket key o x ∨ s.PutsBack now key o x := by
  have shown : ∀ {x}, s.captured now bucket key o = some x →
      s.ShowsStored now bucket key o x ∨ s.PutsBack now key o x := by
    intro x captures
    obtain rfl := captured_key now bucket key captures
    exact (mem_listing_of_key well).mp (List.mem_of_find?_eq_some captures)
  constructor
  · exact shown
  · intro shows
    have own : x.key = key := by
      rcases shows with ⟨⟨object, -, rfl⟩, -⟩ | ⟨held, -⟩
      · rfl
      · exact well.named held
    subst own
    have listed := (mem_listing_of_key well).mpr shows
    cases captures : s.captured now bucket x.key o with
    | none => exact absurd (decide_eq_true rfl) (List.find?_eq_none.mp captures x listed)
    | some y => rw [shown_unique (shown captures) shows]

theorem captured_alone (well : HeldWell (s.delays.purge s.rules.window now).heldDeletes)
    (wellToo : HeldWell (t.delays.purge t.rules.window now).heldDeletes) (stored : p[key]? = o[key]?)
    (hides : t.delays.hides t.rules.window now key = s.delays.hides s.rules.window now key)
    (held : (t.delays.purge t.rules.window now).deletes[key]? = (s.delays.purge s.rules.window now).deletes[key]?) :
    t.captured now bucket key p = s.captured now bucket key o := by
  apply Option.ext
  intro x
  rw [captured_eq_some well, captured_eq_some wellToo]
  simp only [ShowsStored, PutsBack, DelayRecord.mem_heldDeletes, stored, hides, held]

end Stale
end StaleStore
