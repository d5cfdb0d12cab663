import StaleStore.Proofs.Stale.DirectoryListing
import StaleStore.Simulation.Shadow

namespace StaleStore
namespace Simulation

structure Tells (h : History) (shadow : Shadow) : Prop where
  puts : ∀ key : Text, shadow.puts[key]? = h.lastPut? key
  deletes : ∀ key : Text,
    shadow.deletes[key]? = (h.lastDelete? key).map fun d => (d.deletedAt, d.summary.isSome)

namespace Tells

variable {h : History} {shadow : Shadow} {now : Timestamp} {key : Text}

theorem start (window : UInt64) : Tells [] (.start window) where
  puts _ := Std.ExtTreeMap.getElem?_empty
  deletes _ := Std.ExtTreeMap.getElem?_empty

theorem put (tells : Tells h shadow) (now : Timestamp) (key : Text) :
    Tells (h ++ if Shadow.isEligible key then [.put key now] else []) (shadow.put now key) := by
  unfold Shadow.put
  split
  · refine ⟨fun other => ?_, fun other => ?_⟩
    · simp only [Std.ExtTreeMap.getElem?_insert, Std.LawfulEqOrd.compare_eq_iff_eq, tells.puts, History.lastPut?_put]
    · rw [History.lastDelete?_put]
      exact tells.deletes other
  · rw [List.append_nil]
    exact ⟨tells.puts, tells.deletes⟩

theorem delete (tells : Tells h shadow) (now : Timestamp) (key : Text) (summary : Option Summary) :
    Tells (h ++ if Shadow.isEligible key then [.delete key now summary] else [])
      (shadow.delete now key summary.isSome) := by
  unfold Shadow.delete
  split
  · refine ⟨fun other => ?_, fun other => ?_⟩
    · rw [History.lastPut?_delete]
      exact tells.puts other
    · simp only [Std.ExtTreeMap.getElem?_insert, Std.LawfulEqOrd.compare_eq_iff_eq, History.lastDelete?_delete]
      split
      · rfl
      · exact tells.deletes other
  · rw [List.append_nil]
    exact ⟨tells.puts, tells.deletes⟩

-- What is captured for the keys of a batch is settled before the first of them is deleted.
theorem deletes_all (tells : Tells h shadow) (now : Timestamp) (keys : List Text)
    (summary : Text → Option Summary) :
    Tells (h ++ (keys.filter Shadow.isEligible).map fun k => .delete k now (summary k))
      (keys.foldl (fun s k => s.delete now k (summary k).isSome) shadow) := by
  induction keys generalizing h shadow with
  | nil =>
    rw [List.filter_nil, List.map_nil, List.append_nil]
    exact tells
  | cons key rest ih =>
    have all := ih (tells.delete now key (summary key))
    by_cases eligible : Shadow.isEligible key = true
    · rw [if_pos eligible, List.append_assoc] at all
      rw [List.filter_cons_of_pos eligible]
      exact all
    · rw [if_neg eligible, List.append_nil] at all
      rw [List.filter_cons_of_neg eligible]
      exact all

theorem clear (h : History) (shadow : Shadow) : Tells (h ++ [.cleared]) shadow.clear where
  puts key := by
    rw [History.lastPut?_cleared]
    exact Std.ExtTreeMap.getElem?_empty
  deletes key := by
    rw [History.lastDelete?_cleared]
    exact Std.ExtTreeMap.getElem?_empty

end Tells

theorem isOpen_eq (shadow : Shadow) (now since : Timestamp) :
    shadow.isOpen now since = !Timestamp.isPast shadow.window now since := by
  unfold Shadow.isOpen Timestamp.isPast
  rw [← decide_not, decide_eq_decide, UInt64.lt_iff_toNat_lt, Timestamp.millisSince_toNat, Nat.not_le]

section
variable {h : History} {shadow : Shadow} {now : Timestamp} {key : Text} {o : Bucket} {bucket : Text}
  (tells : Tells h shadow)
include tells

theorem hides_eq : shadow.hides now key = !(h.lastPut? key).all (Timestamp.isPast shadow.window now) := by
  rw [Shadow.hides, tells.puts]
  cases h.lastPut? key with
  | none => rfl
  | some madeAt => rw [Option.any_some, Option.all_some, isOpen_eq]

theorem activeDelete?_eq :
    shadow.activeDelete? now key = (h.held? shadow.window now key).map (·.summary.isSome) := by
  rw [Shadow.activeDelete?, tells.deletes, History.held?]
  cases h.lastDelete? key with
  | none => rfl
  | some d =>
    simp only [Option.map_some, Option.filter_some, isOpen_eq]
    cases Timestamp.isPast shadow.window now d.deletedAt <;> rfl

theorem left?_isSome :
    (h.left? shadow.window now key).isSome = true ↔ shadow.activeDelete? now key = some true := by
  rw [activeDelete?_eq tells, History.left?, ← History.held?]
  cases h.held? shadow.window now key with
  | none => simp
  | some d => simp

variable (stored : ∀ key : Text, key ∈ o ↔ key ∈ shadow.objects)
include stored

theorem live?_isSome : (h.live? o bucket shadow.window now key).isSome = shadow.captures now key := by
  have contains : shadow.objects.contains key = o[key]?.isSome := by
    rw [Bool.eq_iff_iff, Std.ExtTreeSet.contains_iff_mem, ← stored, Std.ExtTreeMap.isSome_getElem?_iff_mem]
  rw [Shadow.captures, hides_eq tells, Bool.not_not, contains, History.live?]
  cases (h.lastPut? key).all (Timestamp.isPast shadow.window now) <;> simp

theorem lists_eq : shadow.lists now key = (h.shown? o bucket shadow.window now key).isSome := by
  rw [Shadow.lists, History.shown?, Option.isSome_or, live?_isSome tells stored, Bool.eq_iff_iff]
  simp only [Bool.or_eq_true, decide_eq_true_iff, left?_isSome tells, Shadow.captures]

end

theorem mem_candidates {shadow : Shadow} {now : Timestamp} {key : Text} :
    key ∈ shadow.candidates now ↔ key ∈ shadow.objects ∨ (shadow.activeDelete? now key).isSome = true := by
  have walked : ∀ (l : List (Text × (Timestamp × Bool))) (keys : KeySet),
      key ∈ l.foldl (fun keys e => if shadow.isOpen now e.2.1 then keys.insert e.1 else keys) keys ↔
        key ∈ keys ∨ ∃ e ∈ l, e.1 = key ∧ shadow.isOpen now e.2.1 = true := by
    intro l
    induction l with
    | nil => simp
    | cons e rest ih =>
      intro keys
      rw [List.foldl_cons, ih]
      by_cases here : shadow.isOpen now e.2.1 = true
      · simp only [here, if_true, Std.ExtTreeSet.mem_insert, Std.LawfulEqOrd.compare_eq_iff_eq, List.mem_cons,
          exists_eq_or_imp, and_true]
        exact or_assoc.trans or_left_comm
      · simp [here]
  rw [Shadow.activeDelete?, Option.isSome_map]
  refine (walked shadow.deletes.toList shadow.objects).trans (or_congr_right ⟨?_, ?_⟩)
  · intro walks
    obtain ⟨⟨k, madeAt, captured⟩, held, same, isOpen⟩ := walks
    cases same
    rw [Std.ExtTreeMap.mem_toList_iff_getElem?_eq_some] at held
    rw [held, Option.filter_some, if_pos isOpen]
    rfl
  · intro active
    obtain ⟨⟨madeAt, captured⟩, found⟩ := Option.isSome_iff_exists.mp active
    obtain ⟨held, isOpen⟩ := Option.filter_eq_some_iff.mp found
    exact ⟨(key, madeAt, captured), Std.ExtTreeMap.mem_toList_iff_getElem?_eq_some.mpr held, rfl, isOpen⟩

theorem mem_candidates_iff {h : History} {shadow : Shadow} {now : Timestamp} {key : Text} {o : Bucket}
    (tells : Tells h shadow) (stored : ∀ key : Text, key ∈ o ↔ key ∈ shadow.objects) :
    key ∈ shadow.candidates now ↔ h.Occupies o shadow.window now key := by
  rw [mem_candidates, activeDelete?_eq tells, ← stored, Std.ExtTreeMap.mem_iff_isSome_getElem?, Option.isSome_map,
    Option.isSome_iff_exists, Option.isSome_iff_exists, History.Occupies]

theorem mem_candidates_of_lists {shadow : Shadow} {now : Timestamp} {key : Text}
    (lists : shadow.lists now key = true) : key ∈ shadow.candidates now := by
  rw [mem_candidates]
  rcases Bool.or_eq_true_iff.mp lists with stored | active
  · exact Or.inl (Std.ExtTreeSet.contains_iff_mem.mp (Bool.and_eq_true_iff.mp stored).1)
  · rw [of_decide_eq_true active]
    exact Or.inr rfl

end Simulation
end StaleStore
