import Mathlib.Data.List.ProdSigma
import StaleStore.Proofs.Directories
import StaleStore.Proofs.Draws
import StaleStore.Simulation.Choice

namespace StaleStore
namespace Simulation

namespace Plan

def directoryCount (p : Plan) : Nat := max 1 p.directories.toNat
def fileCount (p : Plan) : Nat := max 1 p.files.toNat

def IsDirectory (p : Plan) (under : Text) : Prop :=
  ∃ i : UInt64, i.toNat < p.directoryCount ∧ under = directoryName i

def IsKey (p : Plan) (key : Text) : Prop :=
  ∃ (i j : UInt64) (nested marked : Bool), i.toNat < p.directoryCount ∧ j.toNat < p.fileCount ∧
    key = directoryName i ++ fileName nested marked j

def Allows (p : Plan) : Operation → Prop
  | .put key => p.IsKey key
  | .delete key => p.IsKey key
  | .deleteBatch keys => keys ≠ [] ∧ ∀ key ∈ keys, p.IsKey key
  | .listRecursive under => under = [] ∨ p.IsDirectory under
  | .listDelimited under => p.IsDirectory under
  | .advance ms => ms ≤ p.maxAdvance
  | .clear => True

end Plan

section
variable {p : Plan}

def Plan.keys (p : Plan) : List Text :=
  (List.range p.directoryCount ×ˢ List.range p.fileCount ×ˢ [false, true] ×ˢ [false, true]).map
    fun (i, j, nested, marked) => directoryName (UInt64.ofNat i) ++ fileName nested marked (UInt64.ofNat j)

theorem Plan.keys_length (p : Plan) : p.keys.length = p.directoryCount * p.fileCount * 4 := by
  simp only [keys, List.length_map, List.length_product, List.length_range, List.length_cons, List.length_nil]
  rw [Nat.mul_assoc]

theorem Plan.IsKey.mem_keys {key : Text} (isKey : p.IsKey key) : key ∈ p.keys := by
  obtain ⟨i, j, nested, marked, below, belowToo, rfl⟩ := isKey
  refine List.mem_map.mpr ⟨(i.toNat, j.toNat, nested, marked), ?_, ?_⟩
  · have flags : (nested, marked) ∈ [false, true] ×ˢ [false, true] := by
      cases nested <;> cases marked <;> decide
    refine List.pair_mem_product.mpr ⟨List.mem_range.mpr below, ?_⟩
    exact List.pair_mem_product.mpr ⟨List.mem_range.mpr belowToo, flags⟩
  · simp only [UInt64.ofNat_toNat]

theorem plain_decimal (n : Nat) : Path.separator ∉ Text.decimal n := by
  intro member
  have digit := Nat.isDigit_of_mem_toDigits (by decide) (by decide) member
  exact absurd digit (by decide)

theorem directory_isName (i : UInt64) : Path.IsName ('d' :: Text.decimal i.toNat) where
  nonempty := List.cons_ne_nil _ _
  plain member := by
    rcases List.mem_cons.mp member with first | later
    · exact absurd first (by decide)
    · exact plain_decimal _ later

def lastName (marked : Bool) (number : UInt64) : Text :=
  (if marked then delayMark else []) ++ 'f' :: Text.decimal number.toNat

theorem lastName_isName (marked : Bool) (number : UInt64) : Path.IsName (lastName marked number) where
  nonempty := List.append_ne_nil_of_right_ne_nil _ (List.cons_ne_nil _ _)
  plain member := by
    rcases List.mem_append.mp member with mark | name
    · cases marked with
      | false => cases mark
      | true => exact absurd mark (by decide)
    · rcases List.mem_cons.mp name with first | later
      · exact absurd first (by decide)
      · exact plain_decimal _ later

theorem Plan.IsDirectory.path {under : Text} (isDirectory : p.IsDirectory under) : Path.IsDirectory under := by
  obtain ⟨i, -, rfl⟩ := isDirectory
  exact .of_key (.name (directory_isName i))

theorem Plan.IsKey.path {key : Text} (isKey : p.IsKey key) : Path.IsKey key := by
  obtain ⟨i, j, nested, marked, -, -, rfl⟩ := isKey
  have last : Path.IsKey (lastName marked j) := .name (lastName_isName marked j)
  apply Path.IsDirectory.append (.of_key (.name (directory_isName i)))
  cases nested with
  | false => exact last
  | true => exact .deeper (n := "sub".toList) ⟨by decide, by decide⟩ last

end

namespace Plan

variable (p : Plan) (d : DrawStream)

theorem drawDirectory_allowed : p.IsDirectory (p.drawDirectory d).1 :=
  ⟨_, DrawStream.between_zero_lt p.directories d, rfl⟩

theorem drawKey_allowed : p.IsKey (p.drawKey d).1 :=
  ⟨_, _, _, _, DrawStream.between_zero_lt p.directories d, DrawStream.between_zero_lt p.files _, rfl⟩

theorem drawKeys_allowed (count : Nat) {key : Text} (member : key ∈ (p.drawKeys count d).1) : p.IsKey key := by
  induction count generalizing d with
  | zero => exact absurd member Std.ExtTreeSet.not_mem_empty
  | succ count ih =>
    rcases Std.ExtTreeSet.mem_insert.mp member with first | later
    · rw [← Std.LawfulEqOrd.eq_of_compare first]
      exact p.drawKey_allowed d
    · exact ih _ later

theorem drawKeys_nonempty {count : Nat} (positive : 0 < count) : (p.drawKeys count d).1.toList ≠ [] := by
  cases count with
  | zero => cases positive
  | succ count =>
    have member : (p.drawKey d).1 ∈ (p.drawKeys (count + 1) d).1 := Std.ExtTreeSet.mem_insert_self
    exact List.ne_nil_of_mem (Std.ExtTreeSet.mem_toList.mpr member)

theorem drawOfKind?_allowed (kind : UInt64) (bounded : p.maxAdvance + 1 ≠ 0) :
    ∃ op later, p.drawOfKind? kind d = some (op, later) ∧ p.Allows op := by
  unfold drawOfKind?
  split
  · exact ⟨_, _, rfl, p.drawKey_allowed d⟩
  split
  · exact ⟨_, _, rfl, p.drawKey_allowed d⟩
  split
  · have positive := (DrawStream.between_bounds (by decide : (1 : UInt64) < 4) d).1
    generalize DrawStream.between 1 4 d = draw at positive ⊢
    obtain ⟨count, later⟩ := draw
    refine ⟨_, _, rfl, p.drawKeys_nonempty later positive, fun key member => ?_⟩
    exact p.drawKeys_allowed later _ (Std.ExtTreeSet.mem_toList.mp member)
  split
  · dsimp only
    split
    · exact ⟨_, _, rfl, Or.inl rfl⟩
    · exact ⟨_, _, rfl, Or.inr (p.drawDirectory_allowed _)⟩
  split
  · exact ⟨_, _, rfl, p.drawDirectory_allowed d⟩
  · have drawn := DrawStream.between_zero_lt (p.maxAdvance + 1) d
    rw [advanceBound?, if_neg bounded, Option.map_some]
    generalize DrawStream.between 0 (p.maxAdvance + 1) d = draw at drawn ⊢
    obtain ⟨ms, later⟩ := draw
    refine ⟨.advance ms, later, rfl, UInt64.le_iff_toNat_le.mpr ?_⟩
    have next : (p.maxAdvance + 1).toNat = (p.maxAdvance.toNat + 1) % 2 ^ 64 := UInt64.toNat_add ..
    have nonzero : (p.maxAdvance + 1).toNat ≠ 0 := fun zero => bounded (UInt64.toNat_inj.mp zero)
    have size := p.maxAdvance.toNat_lt
    dsimp only at drawn
    omega

theorem drawOperation?_allowed (clears : p.clearProbability.isNaN = false) (bounded : p.maxAdvance + 1 ≠ 0) :
    ∃ op later, p.drawOperation? d = some (op, later) ∧ p.Allows op := by
  unfold drawOperation?
  rcases DrawStream.between 0 100 d with ⟨kind, later⟩
  simp only [DrawStream.toss?, dif_pos clears, Option.bind_eq_bind, Option.bind_some]
  split
  · exact ⟨.clear, _, rfl, trivial⟩
  · exact p.drawOfKind?_allowed _ _ bounded

end Plan
end Simulation
end StaleStore
