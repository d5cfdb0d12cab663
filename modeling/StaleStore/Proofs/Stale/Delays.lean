import StaleStore.Delay.Record

namespace StaleStore
namespace DelayRecord

variable (window : Span) (now : Timestamp) (r : DelayRecord)

theorem ext_lookup {r q : DelayRecord} (puts : ∀ k : Text, r.puts[k]? = q.puts[k]?)
    (deletes : ∀ k : Text, r.deletes[k]? = q.deletes[k]?) : r = q := by
  cases r
  cases q
  rw [DelayRecord.mk.injEq]
  exact ⟨Std.ExtTreeMap.ext_getElem? fun {k} => puts k, Std.ExtTreeMap.ext_getElem? fun {k} => deletes k⟩

theorem purge_deletes (key : Text) : (r.purge window now).deletes[key]?
    = r.deletes[key]?.filter fun d => !now.hasElapsed d.deletedAt window :=
  Std.ExtTreeMap.getElem?_filter'

theorem purge_purge : (r.purge window now).purge window now = r.purge window now := by
  refine ext_lookup (fun _ => rfl) fun key => ?_
  rw [purge_deletes, purge_deletes, Option.filter_filter]
  simp only [Bool.and_self]

theorem hides_purge : (r.purge window now).hides window now = r.hides window now :=
  rfl

theorem recordDelete_deletes (key other : Text) (summary : Option Summary) :
    (r.recordDelete now key summary).deletes[other]?
      = if key = other then some ⟨now, summary⟩ else r.deletes[other]? := by
  simp only [recordDelete, Std.ExtTreeMap.getElem?_insert, Std.LawfulEqOrd.compare_eq_iff_eq]

theorem recordPut_puts (key other : Text) :
    (r.recordPut now key).puts[other]? = if key = other then some now else r.puts[other]? := by
  simp only [recordPut, Std.ExtTreeMap.getElem?_insert, Std.LawfulEqOrd.compare_eq_iff_eq]

-- Of several deletes recorded at once, the last of a key stands, and keys without one are left as they were.
theorem recordDelete_all (deletes : List (Text × Option Summary)) (key : Text) :
    let all := deletes.foldl (fun d e => d.recordDelete now e.1 e.2) r
    (∃ summary, (key, summary) ∈ deletes ∧ all.deletes[key]? = some ⟨now, summary⟩) ∨
      key ∉ deletes.map (·.1) ∧ all.deletes[key]? = r.deletes[key]? := by
  induction deletes generalizing r with
  | nil => simp
  | cons e rest ih =>
    obtain ⟨other, summary⟩ := e
    rcases ih (r.recordDelete now other summary) with ⟨later, member, found⟩ | ⟨absent, kept⟩
    · exact Or.inl ⟨later, List.mem_cons_of_mem _ member, found⟩
    · rw [recordDelete_deletes] at kept
      by_cases same : other = key
      · subst same
        exact Or.inl ⟨summary, List.mem_cons_self, kept.trans (if_pos rfl)⟩
      · refine Or.inr ⟨?_, kept.trans (if_neg same)⟩
        simp only [List.map_cons, List.mem_cons, not_or]
        exact ⟨Ne.symm same, absent⟩

theorem recordDelete_each (captured : Text → Option Summary) {keys : List Text} {key : Text} (member : key ∈ keys) :
    (keys.foldl (fun d k => d.recordDelete now k (captured k)) r).deletes[key]? = some ⟨now, captured key⟩ := by
  have all := recordDelete_all now r (keys.map fun k => (k, captured k)) key
  rw [List.foldl_map] at all
  rcases all with ⟨summary, recorded, found⟩ | ⟨absent, -⟩
  · obtain ⟨k, -, same⟩ := List.mem_map.mp recorded
    cases same
    exact found
  · exact absurd (by simpa using member) absent

theorem recordDelete_all_puts (deletes : List (Text × Option Summary)) :
    (deletes.foldl (fun d e => d.recordDelete now e.1 e.2) r).puts = r.puts := by
  induction deletes generalizing r with
  | nil => rfl
  | cons e rest ih => exact ih (r.recordDelete now e.1 e.2)

variable {window now r}

theorem mem_heldDeletes {key : Text} {summary : Option Summary} :
    (key, summary) ∈ r.heldDeletes ↔ ∃ d, r.deletes[key]? = some d ∧ d.summary = summary := by
  rw [heldDeletes, List.mem_map]
  constructor
  · intro held
    obtain ⟨⟨k, d⟩, held, same⟩ := held
    cases same
    exact ⟨d, Std.ExtTreeMap.mem_toList_iff_getElem?_eq_some.mp held, rfl⟩
  · intro held
    obtain ⟨d, found, rfl⟩ := held
    exact ⟨(key, d), Std.ExtTreeMap.mem_toList_iff_getElem?_eq_some.mpr found, rfl⟩

theorem mem_held {key : Text} {summary : Option Summary} : (key, summary) ∈ (r.purge window now).heldDeletes ↔
    ∃ d, r.deletes[key]? = some d ∧ now.hasElapsed d.deletedAt window = false ∧ d.summary = summary := by
  simp only [mem_heldDeletes, purge_deletes, Option.filter_eq_some_iff, Bool.not_eq_true', and_assoc]

theorem heldDeletes_unique {key : Text} {one other : Option Summary} (held : (key, one) ∈ r.heldDeletes)
    (heldToo : (key, other) ∈ r.heldDeletes) : one = other := by
  obtain ⟨d, found, same⟩ := mem_heldDeletes.mp held
  obtain ⟨d', foundToo, sameToo⟩ := mem_heldDeletes.mp heldToo
  rw [found, Option.some_inj] at foundToo
  rw [← same, ← sameToo, foundToo]

theorem heldDeletes_nodup : (r.heldDeletes.map (·.1)).Nodup := by
  rw [heldDeletes, List.map_map, List.nodup_iff_pairwise_ne, List.pairwise_map]
  refine r.deletes.ordered_keys_toList.imp ?_
  intro a b less same
  have same : a.1 = b.1 := same
  rw [same] at less
  exact Ordering.noConfusion (Std.ReflCmp.compare_self.symm.trans less)

end DelayRecord

namespace TableOrder

variable (order : TableOrder) {held : List (Text × Option Summary)} {e : Text × Option Summary}

@[simp] theorem mem_arrange : e ∈ order.arrange held ↔ e ∈ held := (order.perm held).mem_iff

@[simp] theorem arrange_nil : order.arrange [] = [] := (order.perm []).eq_nil

end TableOrder

end StaleStore
