import StaleStore.Proofs.Json.RoundTrip
import StaleStore.Store.Summary

namespace StaleStore

namespace Json

variable {members : List (Text × Json)} {fields others : Fields} {name : Text} {v : Json}

def fieldOf (member : Text × Json) : Text × Json := ((decode? member.1).getD [], member.2)

theorem fields?_eq (named : ∀ m ∈ members, (decode? m.1).isSome = true) :
    fields? members = some (members.map fieldOf) := by
  induction members with
  | nil => rfl
  | cons m rest ih =>
    obtain ⟨name, first⟩ := Option.isSome_iff_exists.mp (named m List.mem_cons_self)
    have later := ih fun n member => named n (List.mem_cons_of_mem _ member)
    simp [fields?, fieldOf, first, later]

theorem Fields.one?_perm (order : fields.Perm others) (alone : fields.named name = [v]) :
    others.one? name = some v := by
  have same : (fields.named name).Perm (others.named name) := (order.filter _).map _
  rw [alone] at same
  rw [one?, ← List.singleton_perm.mp same]

theorem Fields.named_append (fields : Fields) (absent : ∀ f ∈ others, f.1 ≠ name) :
    named name (fields ++ others) = fields.named name := by
  have none : others.filter (·.1 = name) = [] := by simpa using absent
  simp [named, none]

end Json

namespace Summary

variable (s : Summary)

def attributes : List Text :=
  ["bucket".toList, "key".toList, "size".toList, "etag".toList, "last_modified_ms".toList, "storage_class".toList]

def fields : Json.Fields :=
  [("bucket".toList, .text s.bucket), ("key".toList, .text s.key), ("size".toList, .nat s.size.toNat),
    ("etag".toList, .text s.etag), ("last_modified_ms".toList, .nat s.lastModified.ms.toNat),
    ("storage_class".toList, .text s.storageClass)]

def members : List (Text × Json) := s.fields.map fun (name, v) => (Json.encode name, v)

structure IsUnknown (member : Text × Json) : Prop where
  name : Json.IsSpelling member.1
  value : member.2.IsSpelled
  other : ∃ name, Json.decode? member.1 = some name ∧ name ∉ attributes

theorem members_fields : s.members.map Json.fieldOf = s.fields := by
  simp [members, Json.fieldOf, Json.decode?_encode, Function.comp_def]

theorem members_spelled : ∀ m ∈ s.members, Json.IsSpelling m.1 ∧ m.2.IsSpelled := by
  have text : ∀ t : Text, (Json.text t).IsSpelled := fun t => .string (Json.encode_isSpelling t)
  have number : ∀ n : Nat, (Json.nat n).IsSpelled := fun n => .number (Json.decimal_isNumber n)
  have values : ∀ f ∈ s.fields, f.2.IsSpelled := by
    simp [fields, text, number]
  intro m member
  obtain ⟨f, field, rfl⟩ := List.mem_map.mp member
  exact ⟨Json.encode_isSpelling f.1, values f field⟩

theorem ofAttributes?_fields : ofAttributes? (.text s.bucket) (.text s.key) (.nat s.size.toNat) (.text s.etag)
    (.nat s.lastModified.ms.toNat) (.text s.storageClass) = some s := by
  have text : ∀ t : Text, (Json.text t).text? = some t := Json.decode?_encode
  simp [ofAttributes?, text, Json.uint64?_nat]

variable {members others : List (Text × Json)}

theorem one?_members (unknown : ∀ m ∈ others, IsUnknown m) (order : members.Perm (s.members ++ others)) {name : Text}
    (known : name ∈ attributes) {v : Json} (alone : Json.Fields.named name s.fields = [v]) :
    Json.Fields.one? (members.map Json.fieldOf) name = some v := by
  have absent : ∀ f ∈ others.map Json.fieldOf, f.1 ≠ name := by
    intro f member
    obtain ⟨m, other, rfl⟩ := List.mem_map.mp member
    obtain ⟨text, spells, notOne⟩ := (unknown m other).other
    simp only [Json.fieldOf, spells, Option.getD_some]
    exact fun same => notOne (same ▸ known)
  have fields := order.map Json.fieldOf
  rw [List.map_append, members_fields] at fields
  exact Json.Fields.one?_perm fields.symm ((Json.Fields.named_append s.fields absent).trans alone)

theorem ofJson?_members (unknown : ∀ m ∈ others, IsUnknown m) (order : members.Perm (s.members ++ others)) :
    ofJson? (.object members) = some s := by
  have named : ∀ m ∈ members, (Json.decode? m.1).isSome = true := by
    intro m member
    rcases List.mem_append.mp (order.mem_iff.mp member) with mine | other
    · obtain ⟨f, -, rfl⟩ := List.mem_map.mp mine
      simp [Json.decode?_encode]
    · obtain ⟨name, known, -⟩ := (unknown m other).other
      simp [known]
  have found : ∀ name ∈ attributes, ∀ v, Json.Fields.named name s.fields = [v] →
      Json.Fields.one? (members.map Json.fieldOf) name = some v :=
    fun name known v alone => one?_members s unknown order known alone
  have bucket := found "bucket".toList (by decide) (.text s.bucket) rfl
  have key := found "key".toList (by decide) (.text s.key) rfl
  have size := found "size".toList (by decide) (.nat s.size.toNat) rfl
  have etag := found "etag".toList (by decide) (.text s.etag) rfl
  have lastModified := found "last_modified_ms".toList (by decide) (.nat s.lastModified.ms.toNat) rfl
  have storageClass := found "storage_class".toList (by decide) (.text s.storageClass) rfl
  rw [ofJson?, Json.fields?_eq named, Option.bind_eq_bind, Option.bind_some, bucket, key, size, etag, lastModified,
    storageClass]
  exact s.ofAttributes?_fields

theorem members_isSpelled (unknown : ∀ m ∈ others, IsUnknown m) (order : members.Perm (s.members ++ others)) :
    (Json.object members).IsSpelled := by
  have each : ∀ m ∈ members, Json.IsSpelling m.1 ∧ m.2.IsSpelled := by
    intro m member
    rcases List.mem_append.mp (order.mem_iff.mp member) with mine | other
    · exact s.members_spelled m mine
    · exact ⟨(unknown m other).name, (unknown m other).value⟩
  exact .object (fun m member => (each m member).1) fun m member => (each m member).2

theorem read?_of_members (unknown : ∀ m ∈ others, IsUnknown m) (order : members.Perm (s.members ++ others)) :
    read? (Json.object members).write = some s := by
  simp [read?, Json.read?_write (s.members_isSpelled unknown order), s.ofJson?_members unknown order]

-- A summary comes back from its text, and from the text of its members in any order, with any others between them.
theorem written_summary_read_back :
    read? s.toJson.write = some s ∧
      ∀ members others : List (Text × Json), (∀ m ∈ others, IsUnknown m) → members.Perm (s.members ++ others) →
        read? (Json.object members).write = some s := by
  have none : ∀ m ∈ ([] : List (Text × Json)), IsUnknown m := by simp
  have own : s.members.Perm (s.members ++ []) := by simp
  exact ⟨s.read?_of_members none own, fun members others => s.read?_of_members⟩

-- Every kind of escape, the greatest number, the members backwards, and before them one whose name is an escaped `x` and
-- whose value no reader can give a text.
theorem shuffled_summary_read_back :
    let s : Summary := ⟨['b', '"', '\\'], ['a', '/', '\n', '\x00', '😀', '\ud7ff'], 18446744073709551615, [], .zero,
      "STANDARD".toList⟩
    let extra : Text × Json := (['\\', 'u', '0', '0', '7', '8'],
      .array [.number ['-', '1', '.', '5', 'e', '+', '3'], .string ['\\', 'u', 'd', '8', '0', '0'], .object []])
    IsUnknown extra ∧ (extra :: s.members.reverse).Perm (s.members ++ [extra]) ∧ read? s.toJson.write = some s ∧
      read? (Json.object (extra :: s.members.reverse)).write = some s := by
  intro s extra
  have digit : ∀ d : Char, d.isDigit = true → Json.AreDigits [d] := by simp [Json.AreDigits]
  have number : Json.IsNumber (['-'] ++ ['1'] ++ ('.' :: ['5']) ++ ('e' :: (['+'] ++ ['3']))) :=
    .mk (by decide) (.positive (by decide) (digit '1' rfl)) (.point (digit '5' rfl))
      (.power (by decide) (by decide) (digit '3' rfl))
  have half : Json.IsSpelling ['\\', 'u', 'd', '8', '0', '0'] := .unit (by decide) .nothing
  have spelled : extra.2.IsSpelled := by
    refine .array fun v member => ?_
    simp only [List.mem_cons, List.not_mem_nil, or_false] at member
    rcases member with rfl | rfl | rfl
    · exact .number number
    · exact .string half
    · exact .object (by simp) (by simp)
  have unknown : IsUnknown extra := ⟨.unit (by decide) .nothing, spelled, ['x'], by decide, by decide⟩
  have order : (extra :: s.members.reverse).Perm (s.members ++ [extra]) :=
    (List.perm_append_singleton extra s.members.reverse).symm.trans (s.members.reverse_perm.append_right _)
  obtain ⟨own, shuffled⟩ := written_summary_read_back s
  exact ⟨unknown, order, own, shuffled _ [extra] (by simpa using unknown) order⟩

example : read? ("\x7b\"size\":7,\"x\":[1.5,null],\"key\":\"k\\u0001\",\"etag\":\"\",\"storage_class\":\"S\"," ++
    "\"last_modified_ms\":2,\"bucket\":\"b\"\x7d").toList = some ⟨['b'], ['k', '\x01'], 7, [], ⟨2⟩, ['S']⟩ := by
  decide +kernel

end Summary
end StaleStore
