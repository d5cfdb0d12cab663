import StaleStore.Proofs.Runs
import StaleStore.Proofs.Stale.Parts

namespace StaleStore

inductive DelayEvent where
  | put (key : Text) (madeAt : Timestamp)
  | delete (key : Text) (madeAt : Timestamp) (captured : Option Summary)
  | cleared
deriving DecidableEq

def DelayEvent.On (isKey : Text → Prop) : DelayEvent → Prop
  | put key _ => isKey key
  | delete key _ _ => isKey key
  | cleared => True

theorem DelayEvent.On.imp {isKey isName : Text → Prop} {e : DelayEvent} (implies : ∀ {key}, isKey key → isName key)
    (on : e.On isKey) : e.On isName := by
  cases e with
  | put key madeAt => exact implies on
  | delete key madeAt captured => exact implies on
  | cleared => trivial

abbrev History := List DelayEvent

namespace History

-- What came after the last clear, newest first.
def sinceClear (h : History) : List DelayEvent := h.reverse.takeWhile (· ≠ .cleared)

def lastPut? (h : History) (key : Text) : Option Timestamp :=
  h.sinceClear.findSome? fun
    | .put k madeAt => if k = key then some madeAt else none
    | _ => none

def lastDelete? (h : History) (key : Text) : Option DelayedDelete :=
  h.sinceClear.findSome? fun
    | .delete k madeAt captured => if k = key then some ⟨madeAt, captured⟩ else none
    | _ => none

variable (h : History) (key other : Text) (madeAt : Timestamp) (captured : Option Summary)

theorem sinceClear_put : sinceClear (h ++ [.put other madeAt]) = .put other madeAt :: h.sinceClear := by
  simp [sinceClear]

theorem sinceClear_delete :
    sinceClear (h ++ [.delete other madeAt captured]) = .delete other madeAt captured :: h.sinceClear := by
  simp [sinceClear]

theorem sinceClear_cleared : sinceClear (h ++ [.cleared]) = [] := by
  simp [sinceClear]

theorem lastPut?_put :
    lastPut? (h ++ [.put other madeAt]) key = if other = key then some madeAt else h.lastPut? key := by
  rw [lastPut?, sinceClear_put, List.findSome?_cons]
  by_cases same : other = key <;> simp [same, lastPut?]

theorem lastPut?_delete : lastPut? (h ++ [.delete other madeAt captured]) key = h.lastPut? key := by
  rw [lastPut?, sinceClear_delete, List.findSome?_cons, lastPut?]

theorem lastDelete?_put : lastDelete? (h ++ [.put other madeAt]) key = h.lastDelete? key := by
  rw [lastDelete?, sinceClear_put, List.findSome?_cons, lastDelete?]

theorem lastDelete?_delete : lastDelete? (h ++ [.delete other madeAt captured]) key
    = if other = key then some ⟨madeAt, captured⟩ else h.lastDelete? key := by
  rw [lastDelete?, sinceClear_delete, List.findSome?_cons]
  by_cases same : other = key <;> simp [same, lastDelete?]

theorem lastPut?_cleared : lastPut? (h ++ [.cleared]) key = none := by
  rw [lastPut?, sinceClear_cleared, List.findSome?_nil]

theorem lastDelete?_cleared : lastDelete? (h ++ [.cleared]) key = none := by
  rw [lastDelete?, sinceClear_cleared, List.findSome?_nil]

variable {h key}

theorem mem_of_mem_sinceClear {e : DelayEvent} (member : e ∈ h.sinceClear) : e ∈ h :=
  List.mem_reverse.mp ((List.takeWhile_sublist _).mem member)

theorem lastPut?_mem {madeAt : Timestamp} (last : h.lastPut? key = some madeAt) : .put key madeAt ∈ h := by
  obtain ⟨e, member, found⟩ := List.exists_of_findSome?_eq_some last
  cases e with
  | put k made =>
    obtain ⟨rfl, rfl⟩ : k = key ∧ made = madeAt := by simpa using found
    exact mem_of_mem_sinceClear member
  | delete k made captured => cases found
  | cleared => cases found

theorem lastDelete?_mem {d : DelayedDelete} (last : h.lastDelete? key = some d) :
    .delete key d.deletedAt d.summary ∈ h := by
  obtain ⟨e, member, found⟩ := List.exists_of_findSome?_eq_some last
  cases e with
  | delete k made captured =>
    obtain ⟨rfl, rfl⟩ : k = key ∧ ⟨made, captured⟩ = d := by simpa using found
    exact mem_of_mem_sinceClear member
  | put k made => cases found
  | cleared => cases found

theorem lastDelete?_append {more : History} {d : DelayedDelete} (last : lastDelete? (h ++ more) key = some d) :
    h.lastDelete? key = some d ∨ .delete key d.deletedAt d.summary ∈ more := by
  induction more generalizing h with
  | nil => exact Or.inl (List.append_nil h ▸ last)
  | cons e rest ih =>
    rw [List.append_cons] at last
    rcases ih last with before | later
    · cases e with
      | put other madeAt =>
        rw [lastDelete?_put] at before
        exact Or.inl before
      | delete other madeAt captured =>
        rw [lastDelete?_delete] at before
        split at before
        · rename_i same
          cases before
          exact Or.inr (same ▸ List.mem_cons_self)
        · exact Or.inl before
      | cleared =>
        rw [lastDelete?_cleared] at before
        cases before
    · exact Or.inr (List.mem_cons_of_mem _ later)

theorem lastDelete?_append_of_quiet {more : History} (uncleared : .cleared ∉ more)
    (quiet : ∀ madeAt captured, .delete key madeAt captured ∉ more) :
    lastDelete? (h ++ more) key = h.lastDelete? key := by
  induction more generalizing h with
  | nil => rw [List.append_nil]
  | cons e rest ih =>
    have later := @ih (h ++ [e]) (List.not_mem_of_not_mem_cons uncleared)
      fun madeAt captured => List.not_mem_of_not_mem_cons (quiet madeAt captured)
    rw [List.append_cons, later]
    cases e with
    | put other madeAt => exact lastDelete?_put h key other madeAt
    | delete other madeAt captured =>
      rw [lastDelete?_delete, if_neg]
      intro same
      exact quiet madeAt captured (same ▸ List.mem_cons_self)
    | cleared => exact absurd List.mem_cons_self uncleared

end History

def DelayEvent.enter (r : DelayRecord) : DelayEvent → DelayRecord
  | put key madeAt => r.recordPut madeAt key
  | delete key madeAt captured => r.recordDelete madeAt key captured
  | cleared => .empty

namespace Stale

variable (now : Timestamp) (bucket key : Text)

-- The events of a call: what it would record, found out by the call's own steps up to the recording.
def putEvents (data : Bytes) : Action (Stale Memory) History := do
  checkThrottle
  let _ ← onBackend (ObjectStore.put now bucket key data)
  return if ← chooseDelay key then [.put key now] else []

def deleteEvents : Action (Stale Memory) History := do
  checkThrottle
  if ← chooseDelay key then
    let summary ← capture now bucket key
    onBackend (ObjectStore.delete now bucket key)
    return [.delete key now summary]
  else return []

def deleteBatchEvents (keys : List Text) : Action (Stale Memory) History := do
  checkThrottle
  let delayed ← captureAll now bucket keys
  let result ← onBackend (ObjectStore.deleteBatch now bucket keys)
  return (delayed.filter fun (key, _) => result.deleted.contains key).map fun (key, summary) =>
    .delete key now summary

def eventsOf (x : Action (Stale Memory) History) (s : Stale Memory) : History :=
  match (x s).1 with
  | .ok events => events
  | .error _ => []

end Stale

def Step.events (now : Timestamp) : Step → Stale Memory → History
  | call (.put b k data), s => Stale.eventsOf (Stale.putEvents now b k data) s
  | call (.delete b k), s => Stale.eventsOf (Stale.deleteEvents now b k) s
  | call (.deleteBatch b ks), s => Stale.eventsOf (Stale.deleteBatchEvents now b ks) s
  | clear, _ => [.cleared]
  | _, _ => []

def Timeline.history : Timeline → Stale Memory → History
  | [], _ => []
  | (now, step) :: rest, s => step.events now s ++ history rest (step.perform now s).2

theorem Timeline.history_append (earlier later : Timeline) (s : Stale Memory) :
    history (earlier ++ later) s = earlier.history s ++ later.history (earlier.run s).2 := by
  induction earlier generalizing s with
  | nil => rfl
  | cons entry rest ih =>
    rw [List.cons_append, history, history, ih, List.append_assoc]
    rfl

namespace Stale

structure Drops (now : Timestamp) (s t : Stale Memory) : Prop where
  rules : t.rules = s.rules
  delays : t.delays = s.delays ∨ t.delays = s.delays.purge s.rules.window now

structure Enters (now : Timestamp) (s t : Stale Memory) (events : History) : Prop where
  rules : t.rules = s.rules
  delays : ∃ base, (base = s.delays ∨ base = s.delays.purge s.rules.window now) ∧
    t.delays = events.foldl DelayEvent.enter base
  named : ∀ {key madeAt x}, .delete key madeAt (some x) ∈ events → x.key = key

variable {now : Timestamp} {bucket key : Text} {s t u : Stale Memory} {α β : Type}

theorem Drops.nothing (rules : t.rules = s.rules) (delays : t.delays = s.delays) : Drops now s t :=
  ⟨rules, .inl delays⟩

theorem Drops.enters (drops : Drops now s t) : Enters now s t [] :=
  ⟨drops.rules, ⟨t.delays, drops.delays, rfl⟩, nofun⟩

theorem Drops.then_drops {base : DelayRecord} (first : Drops now s t)
    (second : base = t.delays ∨ base = t.delays.purge t.rules.window now) :
    base = s.delays ∨ base = s.delays.purge s.rules.window now := by
  rw [first.rules] at second
  rcases first.delays with same | dropped
  · rw [same] at second
    exact second
  · rw [dropped, DelayRecord.purge_purge, or_self] at second
    exact Or.inr second

theorem Drops.trans (first : Drops now s t) (second : Drops now t u) : Drops now s u :=
  ⟨second.rules.trans first.rules, first.then_drops second.delays⟩

theorem Drops.then_enters {events : History} (first : Drops now s t) (second : Enters now t u events) :
    Enters now s u events := by
  obtain ⟨base, kept, entered⟩ := second.delays
  exact ⟨second.rules.trans first.rules, ⟨base, first.then_drops kept, entered⟩, second.named⟩

theorem checkThrottle_drops (s : Stale Memory) : Drops now s (checkThrottle s).2 := by
  rcases checkThrottle_cases s with ⟨draws, stats, passed⟩ | ⟨-, draws, stats, failed⟩
  · rw [passed]
    exact .nothing rfl rfl
  · rw [failed]
    exact .nothing rfl rfl

theorem onBackend_drops (y : Action Memory α) (s : Stale Memory) : Drops now s (onBackend y s).2 :=
  .nothing rfl rfl

theorem chooseDelay_drops (key : Text) (s : Stale Memory) : Drops now s (chooseDelay key s).2 :=
  .nothing rfl rfl

theorem capture_drops (bucket key : Text) (s : Stale Memory) : Drops now s (capture now bucket key s).2 := by
  cases found : s.backend.buckets[bucket]? with
  | none =>
    rw [capture_of_missing now bucket key found]
    exact .nothing rfl rfl
  | some o =>
    obtain ⟨stats, captures⟩ := capture_of_stored now bucket key found
    rw [captures]
    exact ⟨rfl, .inr rfl⟩

theorem capture_key {x : Summary} (captures : capture now bucket key s = (.ok (some x), t)) : x.key = key := by
  cases found : s.backend.buckets[bucket]? with
  | none =>
    rw [capture_of_missing now bucket key found] at captures
    cases captures
  | some o =>
    obtain ⟨stats, captured⟩ := capture_of_stored now bucket key found
    rw [captured, Prod.mk.injEq, Except.ok.injEq] at captures
    exact captured_key now bucket key captures.1

theorem captureAll_drops (bucket : Text) (keys : List Text) (s : Stale Memory) :
    Drops now s (captureAll now bucket keys s).2 := by
  cases found : s.backend.buckets[bucket]? with
  | none =>
    obtain ⟨draws, passed | ⟨-, failed⟩⟩ := captureAll_of_missing now bucket keys found
    · rw [passed]
      exact .nothing rfl rfl
    · rw [failed]
      exact .nothing rfl rfl
  | some o =>
    obtain ⟨delays, stats, kept, captures⟩ := captureAll_of_stored now bucket keys found
    rw [captures]
    exact ⟨rfl, kept⟩

theorem captureAll_key {keys : List Text} {delayed : List (Text × Option Summary)} {x : Summary}
    (captures : captureAll now bucket keys s = (.ok delayed, t)) (member : (key, some x) ∈ delayed) :
    x.key = key := by
  cases found : s.backend.buckets[bucket]? with
  | none =>
    obtain ⟨draws, passed | ⟨-, failed⟩⟩ := captureAll_of_missing now bucket keys found
    · rw [passed] at captures
      cases captures
      cases member
    · rw [failed] at captures
      cases captures
  | some o =>
    obtain ⟨delays, stats, -, captured⟩ := captureAll_of_stored now bucket keys found
    rw [captured] at captures
    cases captures
    obtain ⟨k, -, same⟩ := List.mem_map.mp member
    rw [Prod.mk.injEq] at same
    rw [← same.1]
    exact captured_key now bucket k same.2

-- A call and its events begin with the same steps, so they are followed side by side.
theorem Enters.bind {first : Action (Stale Memory) α} {rest : α → Action (Stale Memory) β}
    {told : α → Action (Stale Memory) History} (drops : Drops now s (first s).2)
    (goesOn : ∀ a t, first s = (.ok a, t) → Enters now t (rest a t).2 (eventsOf (told a) t)) :
    Enters now s ((first >>= rest) s).2 (eventsOf (first >>= told) s) := by
  rcases result : first s with ⟨e | a, t⟩
  · rw [result] at drops
    rw [eventsOf, Action.bind_of_error result, Action.bind_of_error result]
    exact drops.enters
  · rw [result] at drops
    rw [eventsOf, Action.bind_of_ok result, Action.bind_of_ok result]
    exact drops.then_enters (goesOn a t result)

theorem put_enters (data : Bytes) (s : Stale Memory) :
    Enters now s (put now bucket key data s).2 (eventsOf (putEvents now bucket key data) s) := by
  refine Enters.bind (checkThrottle_drops s) fun _ s _ => ?_
  refine Enters.bind (onBackend_drops _ s) fun etag s _ => ?_
  refine Enters.bind (chooseDelay_drops key s) fun delayed s _ => ?_
  cases delayed with
  | false => exact (Drops.nothing rfl rfl).enters
  | true => exact ⟨rfl, ⟨s.delays, .inl rfl, rfl⟩, by simp [eventsOf]⟩

theorem delete_enters (s : Stale Memory) :
    Enters now s (delete now bucket key s).2 (eventsOf (deleteEvents now bucket key) s) := by
  refine Enters.bind (checkThrottle_drops s) fun _ s _ => ?_
  refine Enters.bind (chooseDelay_drops key s) fun delayed s _ => ?_
  cases delayed with
  | false => exact (onBackend_drops _ s).enters
  | true =>
    refine Enters.bind (capture_drops bucket key s) fun summary t captures => ?_
    refine Enters.bind (onBackend_drops _ t) fun _ t _ => ?_
    refine ⟨rfl, ⟨t.delays, .inl rfl, rfl⟩, ?_⟩
    intro k madeAt x member
    cases List.mem_singleton.mp member
    exact capture_key captures

theorem deleteBatch_enters (keys : List Text) (s : Stale Memory) :
    Enters now s (deleteBatch now bucket keys s).2 (eventsOf (deleteBatchEvents now bucket keys) s) := by
  refine Enters.bind (checkThrottle_drops s) fun _ s _ => ?_
  refine Enters.bind (captureAll_drops bucket keys s) fun delayed t captures => ?_
  refine Enters.bind (onBackend_drops _ t) fun result t _ => ?_
  obtain ⟨stats, recorded⟩ :=
    recordDeletes_eq now (delayed.filter fun (key, _) => result.deleted.contains key) t
  rw [Action.bind_of_ok recorded]
  refine ⟨rfl, ⟨t.delays, .inl rfl, ?_⟩, ?_⟩
  · show List.foldl _ _ _ = List.foldl _ _ (List.map _ _)
    rw [List.foldl_map]
    rfl
  · intro k madeAt x member
    obtain ⟨⟨key, summary⟩, inside, same⟩ := List.mem_map.mp member
    cases same
    exact captureAll_key captures (List.mem_filter.mp inside).1

end Stale
end StaleStore
