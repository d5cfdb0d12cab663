import StaleStore.Json.Reader
import StaleStore.Proofs.Json.Numbers
import StaleStore.Proofs.Json.Strings

namespace StaleStore
namespace Json

inductive IsSpelled : Json → Prop where
  | null : IsSpelled .null
  | bool {b} : IsSpelled (.bool b)
  | number {t} : IsNumber t → IsSpelled (.number t)
  | string {t} : IsSpelling t → IsSpelled (.string t)
  | array {items} : (∀ v ∈ items, IsSpelled v) → IsSpelled (.array items)
  | object {members} : (∀ m ∈ members, IsSpelling m.1) → (∀ m ∈ members, IsSpelled m.2) → IsSpelled (.object members)

variable {v : Json} {run rest : Text} {c : Char} {tokens : List Token} {token : Token}

def EndsRun (rest : Text) : Prop := ∀ c ∈ rest.head?, isRunChar c = false

theorem endsRun_cons (other : isRunChar c = false) (rest : Text) : EndsRun (c :: rest) := by
  intro d member
  cases member
  exact other

theorem run_passed (all : ∀ c ∈ run, isRunChar c = true) (back rest : Text) (found : List Token) :
    tokensFrom? (.run back) found (run ++ rest) = tokensFrom? (.run (run.reverse ++ back)) found rest := by
  induction run generalizing back with
  | nil => rfl
  | cons c more ih =>
    have first : isRunChar c = true := all c List.mem_cons_self
    have step : tokensFrom? (.run back) found (c :: (more ++ rest))
        = tokensFrom? (.run (c :: back)) found (more ++ rest) := by
      simp [tokensFrom?, Cutting.advance?, first]
    rw [List.cons_append, step, ih (fun d member => all d (List.mem_cons_of_mem _ member))]
    simp

theorem run_ended (known : runToken? run = some token) (ends : EndsRun rest) (found : List Token) :
    tokensFrom? (.run run.reverse) found rest = tokensFrom? .between (token :: found) rest := by
  cases rest with
  | nil => simp [tokensFrom?, Cutting.finish?, known]
  | cons c more =>
    have other : isRunChar c = false := ends c rfl
    cases begins : beginWith? c with
    | none => simp [tokensFrom?, Cutting.advance?, other, known, begins]
    | some next => simp [tokensFrom?, Cutting.advance?, other, known, begins]

theorem run_cut (all : ∀ c ∈ run, isRunChar c = true) (nonempty : run ≠ []) (known : runToken? run = some token)
    (ends : EndsRun rest) (found : List Token) :
    tokensFrom? .between found (run ++ rest) = tokensFrom? .between (token :: found) rest := by
  obtain ⟨c, more, rfl⟩ := List.exists_cons_of_ne_nil nonempty
  have first : isRunChar c = true := all c List.mem_cons_self
  have plain : isSpace c = false ∧ c ≠ '"' := by
    constructor
    · rw [Bool.eq_false_iff]
      intro space
      have none : [' ', '\t', '\n', '\r'].all (fun c => !isRunChar c) = true := by decide
      have other := List.all_eq_true.mp none c (by simpa [isSpace, or_assoc] using space)
      rw [first] at other
      cases other
    · intro quotes
      rw [quotes] at first
      cases first
  have begins : tokensFrom? .between found (c :: (more ++ rest)) = tokensFrom? (.run [c]) found (more ++ rest) := by
    simp [tokensFrom?, Cutting.advance?, beginWith?, plain, first]
  rw [List.cons_append, begins, run_passed (fun d member => all d (List.mem_cons_of_mem _ member)),
    ← run_ended known ends]
  simp

theorem mark_cut (mark : beginWith? c = some (.between, [token])) (found : List Token) (rest : Text) :
    tokensFrom? .between found (c :: rest) = tokensFrom? .between (token :: found) rest := by
  simp [tokensFrom?, Cutting.advance?, mark]

-- Tokens that a text is cut into and that are read as a value.
structure Tells (t : Text) (v : Json) (tokens : List Token) : Prop where
  cut : ∀ found rest, EndsRun rest →
    tokensFrom? .between found (t ++ rest) = tokensFrom? .between (tokens.reverse ++ found) rest
  opens : ∃ token more, tokens = token :: more ∧ token ≠ .closeArray
  read : ∀ stack rest, (Reading.value stack).run? (tokens ++ rest) = (Reading.ended v stack).run? rest

structure TellsItems (items : List Json) (tokens : List Token) : Prop where
  cut : ∀ found rest, tokensFrom? .between found (writeItems items ++ ']' :: rest)
    = tokensFrom? .between (.closeArray :: (tokens.reverse ++ found)) rest
  opens : ∃ token more, tokens = token :: more ∧ token ≠ .closeArray
  read : ∀ done stack rest, (Reading.value (.array done :: stack)).run? (tokens ++ .closeArray :: rest)
    = (Reading.ended (.array (done.reverse ++ items)) stack).run? rest

structure TellsMembers (members : List (Text × Json)) (tokens : List Token) : Prop where
  cut : ∀ found rest, tokensFrom? .between found (writeMembers members ++ '\x7d' :: rest)
    = tokensFrom? .between (.closeObject :: (tokens.reverse ++ found)) rest
  opens : ∃ name more, tokens = .string name :: more
  read : ∀ done stack rest, (Reading.nextName done stack).run? (tokens ++ .closeObject :: rest)
    = (Reading.ended (.object (done.reverse ++ members)) stack).run? rest

theorem Tells.single {t : Text} (cut : ∀ found rest, EndsRun rest →
      tokensFrom? .between found (t ++ rest) = tokensFrom? .between (token :: found) rest)
    (known : ∀ stack, beginValue? stack token = some (.ended v stack)) : Tells t v [token] where
  cut := cut
  opens := by
    refine ⟨token, [], rfl, ?_⟩
    intro closes
    have none := known []
    rw [closes] at none
    cases none
  read := by
    intro stack rest
    simp [Reading.run?, Reading.advance?, known stack]

theorem tells_word {t : Text} (word : runToken? t = some token) (all : t.all isRunChar = true) (nonempty : t ≠ [])
    (known : ∀ stack, beginValue? stack token = some (.ended v stack)) : Tells t v [token] :=
  .single (fun found _ ends => run_cut (List.all_eq_true.mp all) nonempty word ends found) known

theorem tells_number {t : Text} (isNumber : IsNumber t) : Tells t (.number t) [.number t] := by
  have noWord : ∀ word ∈ ["null".toList, "true".toList, "false".toList], t ≠ word := by
    intro word member same
    have value : (Numeral.ofText? word).isSome = true := same ▸ isNumber.read
    have none : ∀ word ∈ ["null".toList, "true".toList, "false".toList], (Numeral.ofText? word).isSome = false := by
      decide
    rw [none word member] at value
    cases value
  have word : runToken? t = some (.number t) := by
    have notNull : t ≠ ['n', 'u', 'l', 'l'] := noWord _ (by simp)
    have notTrue : t ≠ ['t', 'r', 'u', 'e'] := noWord _ (by simp)
    have notFalse : t ≠ ['f', 'a', 'l', 's', 'e'] := noWord _ (by simp)
    simp [runToken?, notNull, notTrue, notFalse, isNumber.read]
  have nonempty : t ≠ [] := by
    intro empty
    have value := isNumber.read
    rw [empty] at value
    cases value
  exact tells_word word (List.all_eq_true.mpr isNumber.run) nonempty fun _ => rfl

theorem tells_string {t : Text} (isSpelling : IsSpelling t) : Tells (quote t) (.string t) [.string t] :=
  .single (fun found rest _ => isSpelling.cut rest found) fun _ => rfl

theorem TellsItems.last {tokens : List Token} (tells : Tells v.write v tokens) : TellsItems [v] tokens where
  cut := by
    intro found rest
    rw [writeItems, tells.cut found _ (endsRun_cons rfl rest), mark_cut (c := ']') rfl]
  opens := tells.opens
  read := by
    intro done stack rest
    rw [tells.read]
    simp [Reading.run?, Reading.advance?]

theorem TellsItems.cons {items : List Json} {first others : List Token} (tells : Tells v.write v first)
    (more : TellsItems items others) (nonempty : items ≠ []) : TellsItems (v :: items) (first ++ .comma :: others) where
  cut := by
    intro found rest
    have written : writeItems (v :: items) ++ ']' :: rest = v.write ++ ',' :: (writeItems items ++ ']' :: rest) := by
      rw [writeItems]
      · simp
      · exact nonempty
    rw [written, tells.cut found _ (endsRun_cons rfl _), mark_cut (c := ',') rfl, more.cut]
    simp
  opens := by
    obtain ⟨token, more, same, other⟩ := tells.opens
    exact ⟨token, more ++ .comma :: others, by rw [same, List.cons_append], other⟩
  read := by
    intro done stack rest
    have comma : ∀ rest, (Reading.ended v (.array done :: stack)).run? (.comma :: rest)
        = (Reading.value (.array (v :: done) :: stack)).run? rest := fun _ => rfl
    rw [List.append_assoc, List.cons_append, tells.read, comma, more.read]
    simp

theorem items_told {items : List Json} (each : ∀ v ∈ items, ∃ tokens, Tells v.write v tokens) (nonempty : items ≠ []) :
    ∃ tokens, TellsItems items tokens := by
  induction items with
  | nil => exact absurd rfl nonempty
  | cons v rest ih =>
    obtain ⟨first, tells⟩ := each v List.mem_cons_self
    by_cases last : rest = []
    · subst last
      exact ⟨first, .last tells⟩
    · obtain ⟨others, more⟩ := ih (fun w member => each w (List.mem_cons_of_mem _ member)) last
      exact ⟨_, .cons tells more last⟩

section
variable {name : Text} {first : List Token} (isName : IsSpelling name) (tells : Tells v.write v first)
include isName tells

theorem Tells.member_cut (found : List Token) (ends : EndsRun rest) :
    tokensFrom? .between found (quote name ++ ':' :: (v.write ++ rest))
      = tokensFrom? .between (first.reverse ++ .colon :: .string name :: found) rest := by
  rw [isName.cut, mark_cut (c := ':') rfl, tells.cut _ _ ends]

omit isName in
theorem Tells.member_read (name : Text) (done : List (Text × Json)) (stack : List Frame) (rest : List Token) :
    (Reading.nextName done stack).run? (.string name :: .colon :: (first ++ rest))
      = (Reading.ended v (.object done name :: stack)).run? rest := by
  have named : (Reading.nextName done stack).run? (.string name :: .colon :: (first ++ rest))
      = (Reading.value (.object done name :: stack)).run? (first ++ rest) := rfl
  rw [named, tells.read]

theorem TellsMembers.last : TellsMembers [(name, v)] (.string name :: .colon :: first) where
  cut := by
    intro found rest
    have written : writeMembers [(name, v)] ++ '\x7d' :: rest = quote name ++ ':' :: (v.write ++ '\x7d' :: rest) := by
      rw [writeMembers]
      simp
    rw [written, tells.member_cut isName found (endsRun_cons rfl rest), mark_cut (c := '\x7d') rfl]
    simp
  opens := ⟨name, _, rfl⟩
  read := by
    intro done stack rest
    rw [List.cons_append, List.cons_append, tells.member_read]
    simp [Reading.run?, Reading.advance?]

theorem TellsMembers.cons {members : List (Text × Json)} {others : List Token} (more : TellsMembers members others)
    (nonempty : members ≠ []) :
    TellsMembers ((name, v) :: members) (.string name :: .colon :: (first ++ .comma :: others)) where
  cut := by
    intro found rest
    have written : writeMembers ((name, v) :: members) ++ '\x7d' :: rest
        = quote name ++ ':' :: (v.write ++ ',' :: (writeMembers members ++ '\x7d' :: rest)) := by
      rw [writeMembers]
      · simp
      · exact nonempty
    rw [written, tells.member_cut isName found (endsRun_cons rfl _), mark_cut (c := ',') rfl, more.cut]
    simp
  opens := ⟨name, _, rfl⟩
  read := by
    intro done stack rest
    have comma : ∀ rest, (Reading.ended v (.object done name :: stack)).run? (.comma :: rest)
        = (Reading.nextName ((name, v) :: done) stack).run? rest := fun _ => rfl
    rw [List.cons_append, List.cons_append, List.append_assoc, List.cons_append, tells.member_read, comma, more.read]
    simp

end

theorem members_told {members : List (Text × Json)} (names : ∀ m ∈ members, IsSpelling m.1)
    (each : ∀ m ∈ members, ∃ tokens, Tells m.2.write m.2 tokens) (nonempty : members ≠ []) :
    ∃ tokens, TellsMembers members tokens := by
  induction members with
  | nil => exact absurd rfl nonempty
  | cons m rest ih =>
    obtain ⟨first, tells⟩ := each m List.mem_cons_self
    have isName := names m List.mem_cons_self
    by_cases last : rest = []
    · subst last
      exact ⟨_, .last isName tells⟩
    · obtain ⟨others, more⟩ := ih (fun n member => names n (List.mem_cons_of_mem _ member))
        (fun n member => each n (List.mem_cons_of_mem _ member)) last
      exact ⟨_, .cons isName tells more last⟩

theorem TellsItems.array {items : List Json} (told : TellsItems items tokens) :
    Tells (Json.array items).write (.array items) (.openArray :: (tokens ++ [.closeArray])) where
  cut := by
    intro found rest _
    rw [write, List.cons_append, mark_cut (c := '[') rfl, List.append_assoc, List.singleton_append, told.cut]
    simp
  opens := ⟨.openArray, _, rfl, nofun⟩
  read := by
    intro stack rest
    obtain ⟨token, more, same, other⟩ := told.opens
    -- The first token of the first item does not close the array, so it begins that item.
    have begins : (Reading.firstItem stack).run? (tokens ++ .closeArray :: rest)
        = (Reading.value (.array [] :: stack)).run? (tokens ++ .closeArray :: rest) := by
      rw [same]
      cases token with
      | closeArray => exact absurd rfl other
      | _ => rfl
    have opening : (Reading.value stack).run? (.openArray :: (tokens ++ .closeArray :: rest))
        = (Reading.firstItem stack).run? (tokens ++ .closeArray :: rest) := rfl
    rw [List.cons_append, List.append_assoc, List.singleton_append, opening, begins, told.read]
    rfl

theorem TellsMembers.object {members : List (Text × Json)} (told : TellsMembers members tokens) :
    Tells (Json.object members).write (.object members) (.openObject :: (tokens ++ [.closeObject])) where
  cut := by
    intro found rest _
    rw [write, List.cons_append, mark_cut (c := '\x7b') rfl, List.append_assoc, List.singleton_append, told.cut]
    simp
  opens := ⟨.openObject, _, rfl, nofun⟩
  read := by
    intro stack rest
    obtain ⟨name, more, same⟩ := told.opens
    have begins : (Reading.firstName stack).run? (tokens ++ .closeObject :: rest)
        = (Reading.nextName [] stack).run? (tokens ++ .closeObject :: rest) := by
      rw [same]
      rfl
    have opening : (Reading.value stack).run? (.openObject :: (tokens ++ .closeObject :: rest))
        = (Reading.firstName stack).run? (tokens ++ .closeObject :: rest) := rfl
    rw [List.cons_append, List.append_assoc, List.singleton_append, opening, begins, told.read]
    rfl

theorem tells_no_items : Tells (Json.array []).write (.array []) [.openArray, .closeArray] where
  cut := fun _ _ _ => rfl
  opens := ⟨.openArray, _, rfl, nofun⟩
  read := fun _ _ => rfl

theorem tells_no_members : Tells (Json.object []).write (.object []) [.openObject, .closeObject] where
  cut := fun _ _ _ => rfl
  opens := ⟨.openObject, _, rfl, nofun⟩
  read := fun _ _ => rfl

theorem IsSpelled.told (spelled : IsSpelled v) : ∃ tokens, Tells v.write v tokens := by
  induction spelled with
  | null => exact ⟨_, tells_word rfl (by decide) (by decide) fun _ => rfl⟩
  | @bool b => cases b <;> exact ⟨_, tells_word rfl (by decide) (by decide) fun _ => rfl⟩
  | number isNumber => exact ⟨_, tells_number isNumber⟩
  | string isSpelling => exact ⟨_, tells_string isSpelling⟩
  | @array items _ ih =>
    by_cases empty : items = []
    · subst empty
      exact ⟨_, tells_no_items⟩
    · obtain ⟨tokens, told⟩ := items_told ih empty
      exact ⟨_, told.array⟩
  | @object members names _ ih =>
    by_cases empty : members = []
    · subst empty
      exact ⟨_, tells_no_members⟩
    · obtain ⟨tokens, told⟩ := members_told names ih empty
      exact ⟨_, told.object⟩

theorem read?_write (spelled : IsSpelled v) : read? v.write = some v := by
  obtain ⟨tokens, tells⟩ := spelled.told
  have cut : tokens? v.write = some tokens := by
    have whole := tells.cut [] [] (fun c member => nomatch member)
    simpa [tokens?, tokensFrom?, Cutting.finish?] using whole
  have read := tells.read [] []
  rw [List.append_nil] at read
  simp [read?, cut, read, Reading.run?, Reading.result?]

end Json
end StaleStore
