import StaleStore.Proofs.Stale.TidyRuns

namespace StaleStore

abbrev Answers := List (Text × Bool)

def Answers.delayed (answers : Answers) : List Text := (answers.filter (·.2)).map (·.1)

theorem Answers.delayed_append (one two : Answers) : delayed (one ++ two) = one.delayed ++ two.delayed := by
  rw [delayed, List.filter_append, List.map_append, delayed, delayed]

namespace DelayRules

def answers (r : DelayRules) (h : r.probability.isNaN = false) : List Text → DrawStream → Answers × DrawStream
  | [], d => ([], d)
  | key :: rest, d =>
    let (delayed, d) := d.toss r.probability h
    let (others, d) := answers r h rest d
    ((key, delayed) :: others, d)

variable {r : DelayRules} (h : r.probability.isNaN = false) (one two keys : List Text) (d : DrawStream)

theorem answers_append : r.answers h (one ++ two) d
    = ((r.answers h one d).1 ++ (r.answers h two (r.answers h one d).2).1,
      (r.answers h two (r.answers h one d).2).2) := by
  induction one generalizing d with
  | nil => rfl
  | cons key rest ih => simp only [List.cons_append, answers, ih]

theorem answers_keys : (r.answers h keys d).1.map (·.1) = keys := by
  induction keys generalizing d with
  | nil => rfl
  | cons key rest ih => simp only [answers, List.map_cons, ih]

theorem answers_congr {q : DelayRules} (same : q = r) (g : q.probability.isNaN = false)
    (h : r.probability.isNaN = false) (keys : List Text) (d : DrawStream) :
    q.answers g keys d = r.answers h keys d := by
  subst same
  rfl

theorem choose_eq : r.choose h keys d = ((r.answers h (keys.filter r.isEligible) d).1.delayed,
    (r.answers h (keys.filter r.isEligible) d).2) := by
  induction keys generalizing d with
  | nil => rfl
  | cons key rest ih =>
    simp only [choose, ih]
    cases eligible : r.isEligible key with
    | false => simp [delays, eligible]
    | true =>
      simp only [delays, eligible, if_true, List.filter_cons_of_pos, answers, Answers.delayed]
      cases (d.toss r.probability h).1 <;> rfl

theorem answers_one (key : Text) : r.answers h ([key].filter r.isEligible) d
    = ([(key, (r.delays h key d).1)].filter (r.isEligible ·.1), (r.delays h key d).2) := by
  cases eligible : r.isEligible key <;> simp [answers, delays, eligible]

end DelayRules

namespace Stale

variable (now : Timestamp) (bucket key : Text)

def putAnswers (data : Bytes) : Action (Stale Memory) Answers := do
  checkThrottle
  let _ ← onBackend (ObjectStore.put now bucket key data)
  return [(key, ← chooseDelay key)]

def deleteAnswers : Action (Stale Memory) Answers := do
  checkThrottle
  return [(key, ← chooseDelay key)]

def captureAnswers : List Text → Action (Stale Memory) Answers
  | [] => pure []
  | key :: rest => do
    if ← chooseDelay key then
      let _ ← capture now bucket key
      return (key, true) :: (← captureAnswers rest)
    else return (key, false) :: (← captureAnswers rest)

def deleteBatchAnswers (keys : List Text) : Action (Stale Memory) Answers := do
  checkThrottle
  captureAnswers now bucket keys

def answersOf (x : Action (Stale Memory) Answers) (s : Stale Memory) : Answers :=
  match (x s).1 with
  | .ok answers => answers.filter (s.rules.isEligible ·.1)
  | .error _ => []

end Stale

namespace Step

def touched : Step → DelayRules → List Text
  | call (.put _ key _), r => [key].filter r.isEligible
  | call (.delete _ key), r => [key].filter r.isEligible
  | call (.deleteBatch _ keys), r => keys.filter r.isEligible
  | _, _ => []

def answers (now : Timestamp) : Step → Stale Memory → Answers
  | call (.put b k data), s => Stale.answersOf (Stale.putAnswers now b k data) s
  | call (.delete _ k), s => Stale.answersOf (Stale.deleteAnswers k) s
  | call (.deleteBatch b ks), s => Stale.answersOf (Stale.deleteBatchAnswers now b ks) s
  | _, _ => []

def findsBucket (m : Memory) : Step → Bool
  | call (.put b _ _) => m.buckets.contains b
  | call (.delete b _) => m.buckets.contains b
  | call (.deleteBatch b _) => m.buckets.contains b
  | _ => true

end Step

def History.keys (h : History) : List Text :=
  h.filterMap fun
    | .put key _ => some key
    | .delete key _ _ => some key
    | .cleared => none

theorem History.keys_deletes (madeAt : Timestamp) (deletes : List (Text × Option Summary)) :
    History.keys (deletes.map fun (key, captured) => .delete key madeAt captured) = deletes.map (·.1) := by
  rw [keys, List.filterMap_map]
  exact congrFun List.filterMap_eq_map deletes

namespace Stale

variable {α β : Type} {now : Timestamp} {bucket key : Text} {s t : Stale Memory} {o : Bucket}

theorem create_draws {σ : Type} {backend : σ} {settings : Settings} {draws : DrawStream} {s : Stale σ}
    (created : create backend settings draws = .ok s) : s.draws = draws := by
  unfold create Settings.validated at created
  split at created
  · split at created
    · cases created
      rfl
    · cases created
  · cases created

def SameDraws (s t : Stale Memory) : Prop := t.draws = s.draws

instance : Trans SameDraws SameDraws SameDraws where
  trans first second := Eq.trans second first

theorem onBackend_draws (x : Action Memory α) : Moves SameDraws (onBackend x) := fun _ => rfl

theorem listUnchecked_draws (r : ListRequest) : Moves SameDraws (listUnchecked now r) :=
  (onBackend_draws _).bind fun _ => Moves.bind (fun _ => rfl) fun _ _ => rfl

theorem listTokensUnchecked_draws (r : TokenRequest) : Moves SameDraws (listTokensUnchecked now r) :=
  (onBackend_draws _).bind fun _ => Moves.bind (fun _ => rfl) fun _ _ => rfl

theorem capture_draws : Moves SameDraws (capture now bucket key) :=
  (listUnchecked_draws _).bind fun _ _ => rfl

theorem recordDeletes_draws (deletes : List (Text × Option Summary)) : Moves SameDraws (recordDeletes now deletes) := by
  intro s
  obtain ⟨stats, recorded⟩ := recordDeletes_eq now deletes s
  rw [recorded]
  rfl

theorem check_of_never (never : s.throttle.probability.isNonPositive = true) :
    ∃ u, checkThrottle s = (.ok (), u) ∧ u.rules = s.rules ∧ SameDraws s u ∧ u.backend = s.backend :=
  ⟨_, checkThrottle_of_never never, rfl, rfl, rfl⟩

theorem capture_passes (key : Text) (stored : s.backend.buckets[bucket]? = some o) :
    ∃ summary u, capture now bucket key s = (.ok summary, u) ∧ u.rules = s.rules ∧ SameDraws s u ∧
      u.backend = s.backend := by
  obtain ⟨stats, captures⟩ := capture_of_stored now bucket key stored
  exact ⟨_, _, captures, rfl, rfl, rfl⟩

variable (now) in
theorem captureAll_passes (keys : List Text) (stored : s.backend.buckets[bucket]? = some o) :
    ∃ u, captureAll now bucket keys s = (.ok ((s.rules.choose s.delay_isNaN_eq_false keys s.draws).1.map fun k =>
        (k, s.captured now bucket k o)), u) ∧ u.backend = s.backend ∧
      u.draws = (s.rules.choose s.delay_isNaN_eq_false keys s.draws).2 := by
  obtain ⟨delays, stats, -, captures⟩ := captureAll_of_stored now bucket keys stored
  exact ⟨_, captures, rfl, rfl⟩

theorem afterThrottle_draws {rest : Action (Stale Memory) α} (moves : Moves SameDraws rest)
    (never : s.throttle.probability.isNonPositive = true) :
    SameDraws s ((do checkThrottle; rest : Action (Stale Memory) α) s).2 := by
  obtain ⟨u, passed, -, same, -⟩ := check_of_never never
  rw [Action.bind_of_ok passed]
  exact (moves u).trans same

-- The answers are those of the rules for the keys touched, and what is recorded is what they delay.
structure Asks (touched : DelayRules → List Text) (told : Answers) (events : History) (s t : Stale Memory) : Prop where
  answers : told = (s.rules.answers s.delay_isNaN_eq_false (touched s.rules) s.draws).1
  draws : t.draws = (s.rules.answers s.delay_isNaN_eq_false (touched s.rules) s.draws).2
  recorded : events.keys = told.delayed

variable {touched : DelayRules → List Text}

theorem Asks.nothing (draws : SameDraws s t) : Asks (fun _ => []) [] [] s t := ⟨rfl, draws, rfl⟩

theorem Asks.after {x : Action (Stale Memory) α} {rest : α → Action (Stale Memory) β}
    {told : α → Action (Stale Memory) Answers} {events : α → Action (Stale Memory) History} {a : α}
    (done : x s = (.ok a, t)) (rules : t.rules = s.rules) (draws : SameDraws s t)
    (asks : Asks touched (answersOf (told a) t) (eventsOf (events a) t) t (rest a t).2) :
    Asks touched (answersOf (x >>= told) s) (eventsOf (x >>= events) s) s ((x >>= rest) s).2 := by
  have answered := DelayRules.answers_congr rules t.delay_isNaN_eq_false s.delay_isNaN_eq_false
  obtain ⟨answers, left, recorded⟩ := asks
  rw [draws, answered, rules] at answers left
  rw [answersOf, rules] at answers recorded
  rw [eventsOf] at recorded
  rw [answersOf, eventsOf, Action.bind_of_ok done, Action.bind_of_ok done, Action.bind_of_ok done]
  exact ⟨answers, left, recorded⟩

theorem Asks.trans {u : Stale Memory} {later : DelayRules → List Text} {one two : Answers} {h k : History}
    (first : Asks touched one h s t) (rules : t.rules = s.rules) (second : Asks later two k t u) :
    Asks (fun r => touched r ++ later r) (one ++ two) (h ++ k) s u := by
  have answered := DelayRules.answers_congr rules t.delay_isNaN_eq_false s.delay_isNaN_eq_false
  obtain ⟨answers, left, recorded⟩ := second
  rw [first.draws, answered, rules] at answers left
  refine ⟨?_, ?_, ?_⟩
  · rw [DelayRules.answers_append, first.answers, answers]
  · rw [DelayRules.answers_append, left]
  · rw [History.keys, List.filterMap_append, Answers.delayed_append, ← first.recorded, ← recorded]
    rfl

theorem Asks.choose {rest : Bool → Action (Stale Memory) β} {events : Bool → Action (Stale Memory) History}
    (draws : ∀ delayed, Moves SameDraws (rest delayed))
    (recorded : ∀ delayed, (eventsOf (events delayed) (chooseDelay key s).2).keys = if delayed then [key] else []) :
    Asks (fun r => [key].filter r.isEligible) (answersOf (do return [(key, ← chooseDelay key)]) s)
      (eventsOf (chooseDelay key >>= events) s) s ((chooseDelay key >>= rest) s).2 := by
  have answered := DelayRules.answers_one s.delay_isNaN_eq_false s.draws key
  obtain ⟨delayed, drawn, chose, eligible⟩ := chooseDelay_eq key s
  have same : s.rules.delays s.delay_isNaN_eq_false key s.draws = (delayed, drawn) := by
    cases chose
    rfl
  rw [same] at answered
  have tells : answersOf (do return [(key, ← chooseDelay key)]) s
      = [(key, delayed)].filter (s.rules.isEligible ·.1) := by
    rw [answersOf, Action.bind_of_ok chose, Action.pure_apply]
  refine ⟨tells.trans (congrArg Prod.fst answered).symm, ?_, ?_⟩
  · rw [Action.bind_of_ok chose]
    exact (draws delayed _).trans (congrArg Prod.snd answered).symm
  · rw [tells, eventsOf, Action.bind_of_ok chose]
    have told := recorded delayed
    rw [eventsOf, chose] at told
    rw [told]
    cases delayed with
    | false => cases s.rules.isEligible key <;> simp [Answers.delayed]
    | true => simp [Answers.delayed, eligible rfl]

theorem put_asks (data : Bytes) (never : s.throttle.probability.isNonPositive = true)
    (stored : s.backend.buckets[bucket]? = some o) :
    Asks (fun r => [key].filter r.isEligible) (answersOf (putAnswers now bucket key data) s)
      (eventsOf (putEvents now bucket key data) s) s (put now bucket key data s).2 := by
  obtain ⟨u, passed, rules, draws, backend⟩ := check_of_never never
  rw [← backend] at stored
  refine .after passed rules draws ?_
  refine .after (onBackend_eq (Memory.put_of_stored now key data stored)) rfl rfl ?_
  refine .choose (fun delayed => ?_) fun delayed => ?_
  · cases delayed <;> exact fun _ => rfl
  · cases delayed <;> rfl

theorem delete_asks (never : s.throttle.probability.isNonPositive = true)
    (stored : s.backend.buckets[bucket]? = some o) :
    Asks (fun r => [key].filter r.isEligible) (answersOf (deleteAnswers key) s)
      (eventsOf (deleteEvents now bucket key) s) s (delete now bucket key s).2 := by
  obtain ⟨u, passed, rules, draws, backend⟩ := check_of_never never
  rw [← backend] at stored
  refine .after passed rules draws ?_
  refine .choose (fun delayed => ?_) fun delayed => ?_
  · cases delayed with
    | false => exact onBackend_draws _
    | true => exact capture_draws.bind fun _ => (onBackend_draws _).bind fun _ _ => rfl
  · cases delayed with
    | false => rfl
    | true =>
      have there : (chooseDelay key u).2.backend.buckets[bucket]? = some o := stored
      obtain ⟨summary, t, captures, -, -, same⟩ := capture_passes key there
      rw [← same] at there
      have deletes : onBackend (ObjectStore.delete now bucket key) t = (.ok (), _) :=
        onBackend_eq (Memory.delete_of_stored key there)
      rw [if_pos rfl, if_pos rfl, eventsOf, Action.bind_of_ok captures, Action.bind_of_ok deletes]
      rfl

variable (now) in
-- A batch asks for its keys in order, also where it captures one in between.
theorem captureAnswers_of_stored (keys : List Text) (stored : s.backend.buckets[bucket]? = some o) :
    ∃ told t, captureAnswers now bucket keys s = (.ok told, t) ∧ told.filter (s.rules.isEligible ·.1)
      = (s.rules.answers s.delay_isNaN_eq_false (keys.filter s.rules.isEligible) s.draws).1 := by
  induction keys generalizing s with
  | nil => exact ⟨[], s, rfl, rfl⟩
  | cons key rest ih =>
    obtain ⟨delayed, drawn, chose, -⟩ := chooseDelay_eq key s
    have answered := DelayRules.answers_one s.delay_isNaN_eq_false s.draws key
    have same : s.rules.delays s.delay_isNaN_eq_false key s.draws = (delayed, drawn) := by
      cases chose
      rfl
    rw [same] at answered
    -- The answers to the other keys, given in a state that may have captured this one.
    have others : ∀ u : Stale Memory, u.rules = s.rules → u.draws = drawn → u.backend = s.backend →
        ∃ told t, (do return (key, delayed) :: (← captureAnswers now bucket rest) : Action (Stale Memory) Answers) u
          = (.ok told, t) ∧ told.filter (s.rules.isEligible ·.1)
            = (s.rules.answers s.delay_isNaN_eq_false ((key :: rest).filter s.rules.isEligible) s.draws).1 := by
      intro u rules draws backend
      rw [← backend] at stored
      obtain ⟨told, t, asked, tells⟩ := ih stored
      refine ⟨_, t, Action.bind_of_ok asked, ?_⟩
      rw [draws, DelayRules.answers_congr rules _ s.delay_isNaN_eq_false, rules] at tells
      have split : (key :: rest).filter s.rules.isEligible
          = [key].filter s.rules.isEligible ++ rest.filter s.rules.isEligible := List.filter_append [key] rest
      rw [split, DelayRules.answers_append, answered, ← tells]
      exact List.filter_append [(key, delayed)] told
    rw [captureAnswers, Action.bind_of_ok chose]
    cases delayed with
    | false => exact others _ rfl rfl rfl
    | true =>
      obtain ⟨summary, u, captures, rules, draws, backend⟩ := capture_passes key (s := { s with draws := drawn }) stored
      rw [if_pos rfl, Action.bind_of_ok captures]
      exact others u rules draws backend

theorem deleteBatch_asks (keys : List Text) (never : s.throttle.probability.isNonPositive = true)
    (stored : s.backend.buckets[bucket]? = some o) :
    Asks (fun r => keys.filter r.isEligible) (answersOf (deleteBatchAnswers now bucket keys) s)
      (eventsOf (deleteBatchEvents now bucket keys) s) s (deleteBatch now bucket keys s).2 := by
  obtain ⟨u, passed, rules, draws, backend⟩ := check_of_never never
  rw [← backend] at stored
  refine .after passed rules draws ?_
  obtain ⟨told, t, asked, tells⟩ := captureAnswers_of_stored now keys stored
  have answered : answersOf (captureAnswers now bucket keys) u = told.filter (u.rules.isEligible ·.1) := by
    rw [answersOf, asked]
  have chosen := DelayRules.choose_eq u.delay_isNaN_eq_false keys u.draws
  obtain ⟨w, captures, same, left⟩ := captureAll_passes now keys stored
  rw [← same] at stored
  refine ⟨answered.trans tells, ?_, ?_⟩
  · have rest : ∀ delayed : List (Text × Option Summary), Moves SameDraws (do
        let result ← onBackend (ObjectStore.deleteBatch now bucket keys)
        recordDeletes now (delayed.filter fun (key, _) => result.deleted.contains key)
        return result) := fun _ => (onBackend_draws _).bind fun _ => (recordDeletes_draws _).bind fun _ _ => rfl
    rw [Action.bind_of_ok captures]
    exact (rest _ w).trans (left.trans (congrArg Prod.snd chosen))
  · rw [answered, tells]
    refine Eq.trans ?_ (congrArg Prod.fst chosen)
    by_cases empty : keys = []
    · subst empty
      rfl
    have deletes : onBackend (ObjectStore.deleteBatch now bucket keys) w = (.ok ⟨keys, []⟩, _) :=
      onBackend_eq (Memory.deleteBatch_of_stored empty stored)
    rw [eventsOf, Action.bind_of_ok captures, Action.bind_of_ok deletes, Action.pure_apply]
    dsimp only
    rw [List.filter_eq_self.mpr, History.keys_deletes, List.map_map]
    · exact List.map_id _
    · intro e member
      obtain ⟨k, chose, rfl⟩ := List.mem_map.mp member
      exact List.contains_iff_mem.mpr ((DelayRules.choose_sublist ..).subset chose)

end Stale

theorem Step.perform_asks {now : Timestamp} {s : Stale Memory} (step : Step)
    (never : s.throttle.probability.isNonPositive = true) (finds : step.findsBucket s.backend = true) :
    Stale.Asks step.touched (step.answers now s) (step.events now s) s (step.perform now s).2 := by
  have there : ∀ {b}, s.backend.buckets.contains b = true → ∃ o, s.backend.buckets[b]? = some o := by
    intro b found
    rw [← Option.isSome_iff_exists, Std.ExtTreeMap.isSome_getElem?_eq_contains]
    exact found
  cases step with
  | call c =>
    cases c with
    | put bucket key data =>
      obtain ⟨o, stored⟩ := there finds
      exact Stale.map_state Reply.stored _ s ▸ Stale.put_asks data never stored
    | delete bucket key =>
      obtain ⟨o, stored⟩ := there finds
      exact Stale.map_state (fun _ => Reply.deleted) _ s ▸ Stale.delete_asks never stored
    | deleteBatch bucket keys =>
      obtain ⟨o, stored⟩ := there finds
      exact Stale.map_state Reply.batch _ s ▸ Stale.deleteBatch_asks keys never stored
    | get bucket key => exact .nothing ((Stale.onBackend_draws _).map Reply.content s)
    | abortUpload bucket key id => exact .nothing ((Stale.onBackend_draws _).map (fun _ => Reply.aborted) s)
    | list r =>
      exact .nothing (Stale.map_state Reply.listing _ s ▸ Stale.afterThrottle_draws (Stale.listUnchecked_draws r) never)
    | listTokens r =>
      exact .nothing
        (Stale.map_state Reply.tokenListing _ s ▸ Stale.afterThrottle_draws (Stale.listTokensUnchecked_draws r) never)
    | initiateUpload bucket key =>
      exact .nothing (Stale.map_state Reply.initiated _ s ▸ Stale.afterThrottle_draws (Stale.onBackend_draws _) never)
    | uploadPart bucket key id n data =>
      exact .nothing (Stale.map_state Reply.part _ s ▸ Stale.afterThrottle_draws (Stale.onBackend_draws _) never)
    | completeUpload bucket key id parts =>
      exact .nothing (Stale.map_state Reply.completed _ s ▸ Stale.afterThrottle_draws (Stale.onBackend_draws _) never)
    | listUploads bucket under =>
      exact .nothing (Stale.map_state Reply.uploads _ s ▸ Stale.afterThrottle_draws (Stale.onBackend_draws _) never)
  | clear => exact ⟨rfl, rfl, rfl⟩
  | setThrottleProbability p =>
    refine .nothing ?_
    rw [perform, Stale.setThrottleProbability]
    cases s.throttle.setProbability p <;> rfl
  | createBucket bucket => exact .nothing rfl
  | resetStats => exact .nothing rfl
  | setFailureLimit limit => exact .nothing rfl
  | reorder order => exact .nothing rfl

namespace Timeline

def touched (timeline : Timeline) (r : DelayRules) : List Text := timeline.flatMap fun e => e.2.touched r

def answers : Timeline → Stale Memory → Answers
  | [], _ => []
  | (now, step) :: rest, s => step.answers now s ++ answers rest (step.perform now s).2

def findsBuckets : Timeline → Stale Memory → Bool
  | [], _ => true
  | (now, step) :: rest, s => step.findsBucket s.backend && findsBuckets rest (step.perform now s).2

theorem run_asks {s : Stale Memory} (timeline : Timeline) (never : s.throttle.probability.isNonPositive = true)
    (quiet : ∀ e ∈ timeline, e.2.NeverThrottles) (finds : timeline.findsBuckets s = true) :
    Stale.Asks timeline.touched (timeline.answers s) (timeline.history s) s (timeline.run s).2 := by
  induction timeline generalizing s with
  | nil => exact .nothing rfl
  | cons entry rest ih =>
    obtain ⟨now, step⟩ := entry
    obtain ⟨here, later⟩ := Bool.and_eq_true_iff.mp finds
    obtain ⟨own, others⟩ := List.forall_mem_cons.mp quiet
    exact (step.perform_asks never here).trans (step.perform_rules now s)
      (ih (step.perform_never never own) others later)

-- Two runs that begin with the same settings and draws, over stores that may differ, delay the same puts and deletes if
-- they put and delete the same keys of those that may be delayed. What they record is what they delay.
theorem delays_follow_touched_keys {m m' : Memory} {settings : Settings} {draws : DrawStream} {s t : Stale Memory}
    (created : Stale.create m settings draws = .ok s) (createdToo : Stale.create m' settings draws = .ok t)
    (never : settings.throttleProbability.isNonPositive = true) {one two : Timeline}
    (quiet : ∀ e ∈ one, e.2.NeverThrottles) (quietToo : ∀ e ∈ two, e.2.NeverThrottles)
    (finds : one.findsBuckets s = true) (findsToo : two.findsBuckets t = true)
    (same : one.touched s.rules = two.touched t.rules) :
    one.answers s = two.answers t ∧ (one.answers s).map (·.1) = one.touched s.rules ∧
      (one.history s).keys = (one.answers s).delayed ∧ (two.history t).keys = (two.answers t).delayed := by
  have fresh := Stale.create_fresh created
  have freshToo := Stale.create_fresh createdToo
  have asks := one.run_asks (fresh.probability_eq ▸ never) quiet finds
  have asksToo := two.run_asks (freshToo.probability_eq ▸ never) quietToo findsToo
  have rules : t.rules = s.rules := freshToo.rules_eq.trans fresh.rules_eq.symm
  have drawn : t.draws = s.draws := (Stale.create_draws createdToo).trans (Stale.create_draws created).symm
  have answered := DelayRules.answers_congr rules t.delay_isNaN_eq_false s.delay_isNaN_eq_false
  refine ⟨?_, ?_, asks.recorded, asksToo.recorded⟩
  · rw [asks.answers, asksToo.answers, ← same, drawn, answered]
  · rw [asks.answers, DelayRules.answers_keys]

def halfOfSome : Settings :=
  { Settings.delayAll (.ofMillis 1000) with substring := ['k'], delayProbability := ⟨0x3FE0000000000000⟩ }

theorem halfOfSome_delays : halfOfSome.delayProbability.IsProbability := by decide

theorem halfOfSome_throttles : halfOfSome.throttleProbability.IsProbability := by decide

def tossingForSome (m : Memory) : Stale Memory where
  backend := m
  throttle := ⟨halfOfSome.throttleProbability, halfOfSome.failureLimit, 0, halfOfSome_throttles⟩
  rules := .ofSettings halfOfSome
  isProbability := halfOfSome_delays
  delays := .empty
  order := .byKey
  draws := .ofSeed 0
  stats := .zero

-- The second run puts and deletes other keys as well, in another bucket too, and lists, clears, begins an upload and
-- sets its clock back in between.
theorem interleaved_traffic_delays_same :
    let one : Timeline := [(.zero, .call (.put ['b'] ['k'] [])), (.zero, .call (.put ['b'] "k2".toList [])),
      (⟨1⟩, .call (.deleteBatch ['b'] [['k'], "k2".toList]))]
    let two : Timeline := [(⟨9⟩, .call (.put ['c'] ['x'] [])), (⟨8⟩, .call (.put ['b'] ['k'] [1])), (⟨8⟩, .clear),
      (⟨5⟩, .call (.list (.recursive ['b'] []))), (⟨7⟩, .setFailureLimit 2),
      (⟨7⟩, .call (.initiateUpload ['b'] ['k'])), (⟨7⟩, .call (.put ['b'] "k2".toList [])),
      (⟨6⟩, .call (.deleteBatch ['b'] [['x'], ['k'], ['y'], "k2".toList]))]
    let m := Memory.withBucket ['b']
    let s := tossingForSome m
    let t := tossingForSome (m.createBucket ['c'])
    Stale.create m halfOfSome (.ofSeed 0) = .ok s ∧
      Stale.create (m.createBucket ['c']) halfOfSome (.ofSeed 0) = .ok t ∧
      halfOfSome.throttleProbability.isNonPositive = true ∧ (∀ e ∈ one, e.2.NeverThrottles) ∧
      (∀ e ∈ two, e.2.NeverThrottles) ∧ one.findsBuckets s = true ∧ two.findsBuckets t = true ∧
      one.touched s.rules = two.touched t.rules ∧
      (one.answers s = two.answers t ∧ (one.answers s).map (·.1) = one.touched s.rules ∧
        (one.history s).keys = (one.answers s).delayed ∧ (two.history t).keys = (two.answers t).delayed) ∧
      two.answers t = [(['k'], false), ("k2".toList, true), (['k'], false), ("k2".toList, true)] := by
  intro one two m s t
  have created : Stale.create m halfOfSome (.ofSeed 0) = .ok s := rfl
  have createdToo : Stale.create (m.createBucket ['c']) halfOfSome (.ofSeed 0) = .ok t := rfl
  have quiet : ∀ e ∈ one, e.2.NeverThrottles := by simp [one, Step.NeverThrottles]
  have quietToo : ∀ e ∈ two, e.2.NeverThrottles := by simp [two, Step.NeverThrottles]
  have finds : one.findsBuckets s = true := by decide +kernel
  have findsToo : two.findsBuckets t = true := by decide +kernel
  have same : one.touched s.rules = two.touched t.rules := by decide +kernel
  exact ⟨created, createdToo, rfl, quiet, quietToo, finds, findsToo, same,
    delays_follow_touched_keys created createdToo rfl quiet quietToo finds findsToo same, by decide +kernel⟩

end Timeline
end StaleStore
