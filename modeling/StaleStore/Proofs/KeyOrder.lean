import Mathlib.Data.Char
import Mathlib.Data.List.Lex
import Mathlib.Data.List.Sort
import Mathlib.Order.Compare
import StaleStore.Text

namespace StaleStore
namespace Text

theorem compare_lt_iff (a b : Text) : compare a b = .lt ↔ a < b := by
  rw [List.compare_eq_compareLex]
  induction a generalizing b with
  | nil =>
    cases b with
    | nil => simp [List.compareLex_nil_nil]
    | cons d b => simp [List.compareLex_nil_cons]
  | cons c a ih =>
    cases b with
    | nil => simp [List.compareLex_cons_nil]
    | cons d b =>
      rw [List.compareLex_cons_cons, Ordering.then_eq_lt, ih, List.cons_lt_cons_iff,
        compare_lt_iff_lt, compare_eq_iff_eq]

theorem before_iff (a b : Text) : a.before b = true ↔ a < b := by
  rw [before, beq_iff_eq, compare_lt_iff]

theorem le_of_starts {p a : Text} (starts : p <+: a) : p ≤ a := by
  obtain ⟨rest, rfl⟩ := starts
  rw [← not_lt]
  induction p with
  | nil => exact List.not_lt_nil _
  | cons c p ih =>
    rw [List.cons_append, List.cons_lt_cons_iff]
    intro before
    rcases before with less | ⟨-, less⟩
    · exact lt_irrefl c less
    · exact ih less

theorem starts_of_between {p a b : Text} (low : p ≤ a) (high : a ≤ b) (starts : p <+: b) : p <+: a := by
  induction p generalizing a b with
  | nil => exact List.nil_prefix
  | cons c p ih =>
    obtain ⟨rest, rfl⟩ := starts
    cases a with
    | nil => exact absurd (List.Lex.nil) (not_lt.mpr low)
    | cons d a =>
      rw [← not_lt, List.cons_lt_cons_iff, not_or] at low
      rw [← not_lt, List.cons_append, List.cons_lt_cons_iff, not_or] at high
      have same : c = d := le_antisymm (not_lt.mp low.1) (not_lt.mp high.1)
      subst same
      have low : p ≤ a := not_lt.mp fun less => low.2 ⟨rfl, less⟩
      have high : a ≤ p ++ rest := not_lt.mp fun less => high.2 ⟨rfl, less⟩
      exact List.prefix_cons_inj c |>.mpr (ih low high (List.prefix_append p rest))

end Text

-- A strictly ordered list is determined by its members, so two ways to compute it need not go alike.
theorem eq_of_ordered_by {α : Type} {name : α → Text} {l₁ l₂ : List α}
    (first : l₁.Pairwise fun a b => name a < name b) (second : l₂.Pairwise fun a b => name a < name b)
    (same : ∀ a, a ∈ l₁ ↔ a ∈ l₂) : l₁ = l₂ := by
  have : Std.Irrefl fun a b : α => name a < name b := ⟨fun a => lt_irrefl (name a)⟩
  have : Std.Antisymm fun a b : α => name a < name b := ⟨fun a b ab ba => absurd ba (lt_asymm ab)⟩
  exact first.eq_of_mem_iff second same

theorem eq_of_ordered {l₁ l₂ : List Text} (first : l₁.Pairwise (· < ·)) (second : l₂.Pairwise (· < ·))
    (same : ∀ t, t ∈ l₁ ↔ t ∈ l₂) : l₁ = l₂ :=
  @eq_of_ordered_by Text id l₁ l₂ first second same

end StaleStore
