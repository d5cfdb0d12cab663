import Mathlib.Data.List.Infix
import StaleStore.Proofs.Stale.RecordedKeys
import StaleStore.Proofs.Stale.Transparency

namespace StaleStore

theorem Text.hasInfix_iff {sub t : Text} : hasInfix sub t = true ↔ sub <:+: t := by
  induction t with
  | nil => simp [hasInfix]
  | cons c rest ih => rw [hasInfix, Bool.or_eq_true, List.isPrefixOf_iff_prefix, ih, List.infix_cons_iff]

def Summary.outside (substring : Text) (xs : List Summary) : List Summary :=
  xs.filter fun x => decide (¬ substring <:+: x.key)

theorem Summary.outside_append (substring : Text) (xs ys : List Summary) :
    outside substring (xs ++ ys) = outside substring xs ++ outside substring ys :=
  List.filter_append ..

theorem Summary.outside_eq_nil {substring : Text} {xs : List Summary} (inside : ∀ x ∈ xs, substring <:+: x.key) :
    outside substring xs = [] := by
  apply List.filter_eq_nil_iff.mpr
  intro x member
  simp [inside x member]

theorem Summary.outside_filter {substring : Text} {p : Summary → Bool} {xs : List Summary}
    (inside : ∀ x ∈ xs, p x = false → substring <:+: x.key) :
    outside substring (xs.filter p) = outside substring xs := by
  rw [outside, List.filter_filter]
  apply List.filter_congr
  intro x member
  cases kept : p x with
  | false => simp [inside x member kept]
  | true => simp

theorem overlay_outside {hides : Text → Bool} {held : List (Text × Option Summary)} {under substring : Text}
    {recursive : Bool} {summaries : List Summary} {commonPrefixes : List Text}
    (hidden : ∀ key, hides key = true → substring <:+: key)
    (captured : ∀ {key x}, (key, some x) ∈ held → substring <:+: x.key) :
    Summary.outside substring (overlay hides held under recursive summaries commonPrefixes).summaries
      = Summary.outside substring summaries := by
  rw [overlay_adds.summaries]
  obtain ⟨more, added, within, -, -⟩ := addAll_split (·.key)
    (OverlaidListing.ofRaw hides summaries commonPrefixes).summaries
    (held.filterMap (OverlaidListing.summaryOf? under recursive))
  have restored : ∀ x ∈ more, substring <:+: x.key := by
    intro x member
    obtain ⟨⟨key, summary⟩, inside, shown⟩ := List.mem_filterMap.mp (within.subset member)
    obtain ⟨-, same⟩ := OverlaidListing.summaryOf?_eq_some.mp shown
    cases same
    exact captured inside
  rw [added, Summary.outside_append, Summary.outside_eq_nil restored, List.append_nil]
  apply Summary.outside_filter
  intro x member hides
  exact hidden x.key (by simpa using hides)

namespace DelayRecord

structure Inside (substring : Text) (r : DelayRecord) : Prop where
  on : r.On (substring <:+: ·)
  named : r.Named

variable {substring : Text} {r : DelayRecord}

theorem Inside.captured (inside : r.Inside substring) {key : Text} {d : DelayedDelete} {x : Summary}
    (recorded : r.deletes[key]? = some d) (captured : d.summary = some x) : substring <:+: x.key := by
  rw [inside.named.own recorded captured]
  exact inside.on.deletes recorded

end DelayRecord

namespace Stale

variable {substring : Text} {now : Timestamp} {s : Stale Memory}

theorem overlaid_outside (inside : s.delays.Inside substring) (under : Text) (recursive : Bool)
    (summaries : List Summary) (commonPrefixes : List Text) :
    Summary.outside substring (s.overlaid now under recursive summaries commonPrefixes).summaries
      = Summary.outside substring summaries := by
  apply overlay_outside
  · intro key hidden
    exact inside.on.hidden hidden
  · intro key x held
    obtain ⟨d, recorded, -, captured⟩ := DelayRecord.mem_held.mp (s.order.mem_arrange.mp held)
    exact inside.captured recorded captured

end Stale

namespace Timeline

theorem run_inside {s : Stale Memory} (timeline : Timeline) (fresh : s.delays = .empty) :
    (timeline.run s).2.delays.Inside s.rules.substring where
  on := by
    apply timeline.run_holds (P := fun _ r => r.On (s.rules.substring <:+: ·)) (h := [])
    · intro now h r on
      exact on.purge
    · intro h r e entered on
      apply on.enter
      exact (timeline.history_on s e entered).imp fun own => Text.hasInfix_iff.mp own.2.eligible
    · exact .of_empty fresh
  named := timeline.run_named (.of_empty fresh)

theorem other_keys_listed_as_stored {m : Memory} {settings : Settings} {draws : DrawStream} {s : Stale Memory}
    (created : Stale.create m settings draws = .ok s) (timeline : Timeline) (now : Timestamp) :
    let t := (timeline.run s).2
    let substring := if settings.substring = Settings.matchAll then [] else settings.substring
    (∀ {key : Text} {madeAt}, t.delays.puts[key]? = some madeAt → substring <:+: key) ∧
    (∀ {key : Text} {d}, t.delays.deletes[key]? = some d →
      substring <:+: key ∧ ∀ x, d.summary = some x → substring <:+: x.key) ∧
    (∀ r, Stale.Transparent
      (fun shown raw => Summary.outside substring shown.summaries = Summary.outside substring raw.summaries)
      (Stale.list now r) (Memory.list r) t) ∧
    ∀ r, Stale.Transparent
      (fun shown raw => Summary.outside substring shown.summaries = Summary.outside substring raw.summaries)
      (Stale.listTokens now r) (Memory.listTokens r) t := by
  intro t substring
  have fresh := Stale.create_fresh created
  have inside : t.delays.Inside substring := by
    have same : s.rules.substring = substring := congrArg (·.substring) fresh.rules_eq
    exact same ▸ timeline.run_inside fresh.delays_eq
  refine ⟨inside.on.puts, ?_, ?_, ?_⟩
  · intro key d recorded
    exact ⟨inside.on.deletes recorded, fun x captured => inside.captured recorded captured⟩
  · intro r
    apply Stale.list_transparent_of
    intro o
    exact Stale.overlaid_outside inside _ _ _ _
  · intro r
    apply Stale.listTokens_transparent_of
    intro o
    exact Stale.overlaid_outside inside _ _ _ _

def choosy : Stale Memory where
  backend := Memory.withBucket ['b']
  throttle := lagging.throttle
  rules := ⟨['s'], .one, .ofMillis 1000⟩
  isProbability := Binary64.one_isProbability
  delays := .empty
  order := .byKey
  draws := .ofSeed 0
  stats := .zero

def oneOfEach : Timeline :=
  [(.zero, .call (.put ['b'] ['a'] [])), (.zero, .call (.put ['b'] ['s'] [])), (.zero, .call (.put ['b'] ['t'] [])),
    (⟨2000⟩, .call (.delete ['b'] ['s'])), (⟨2000⟩, .call (.put ['b'] "is".toList []))]

theorem hidden_and_restored_beside_others :
    let settings := { Settings.delayAll (.ofMillis 1000) with substring := ['s'] }
    let t := (oneOfEach.run choosy).2
    let r : ListRequest := .recursive ['b'] []
    Stale.create (Memory.withBucket ['b']) settings (.ofSeed 0) = .ok choosy ∧
      (∀ {key : Text} {madeAt}, t.delays.puts[key]? = some madeAt → ['s'] <:+: key) ∧
      ∃ shown raw u, Stale.list ⟨2000⟩ r t = (.ok shown, u) ∧ Memory.list r t.backend = (.ok raw, u.backend) ∧
        shown.summaries.map (·.key) = [['a'], ['t'], ['s']] ∧
        Summary.outside ['s'] shown.summaries = Summary.outside ['s'] raw.summaries := by
  intro settings t r
  have created : Stale.create (Memory.withBucket ['b']) settings (.ofSeed 0) = .ok choosy := rfl
  obtain ⟨puts, -, lists, -⟩ := other_keys_listed_as_stored created oneOfEach ⟨2000⟩
  let x (key : Text) : Summary := ⟨['b'], key, 0, "00000000".toList, .zero, "STANDARD".toList⟩
  let shown : Listing := ⟨r, none, none, false, [x ['a'], x ['t'], x ['s']], []⟩
  have listed : Stale.list ⟨2000⟩ r t = (.ok shown, (Stale.list ⟨2000⟩ r t).2) :=
    Action.eq_of_toOption (by decide +kernel)
  obtain ⟨raw, plain, same⟩ := (lists r).of_ok listed
  exact ⟨created, puts, shown, raw, _, listed, plain, rfl, same⟩

end Timeline
end StaleStore
