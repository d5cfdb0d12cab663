import StaleStore.Proofs.Stale.Captures
import StaleStore.Proofs.Stale.RestoreOrder

namespace StaleStore

namespace Outcome

def summaries : Outcome → List Summary
  | .replied (.ok (.listing l)) => l.summaries
  | .replied (.ok (.tokenListing l)) => l.summaries
  | _ => []

def commonPrefixes : Outcome → List Text
  | .replied (.ok (.listing l)) => l.commonPrefixes
  | .replied (.ok (.tokenListing l)) => l.commonPrefixes
  | _ => []

-- All of an outcome but the entries that a listing shows.
def form : Outcome → Outcome
  | .replied (.ok (.listing l)) => .replied (.ok (.listing { l with summaries := [], commonPrefixes := [] }))
  | .replied (.ok (.tokenListing l)) => .replied (.ok (.tokenListing { l with summaries := [], commonPrefixes := [] }))
  | other => other

structure AlikeUpToSlashes (a b : Outcome) : Prop where
  form : a.form = b.form
  summaries : ∀ x, x ∈ a.summaries ↔ x ∈ b.summaries
  directories : ∀ d, d ∈ a.commonPrefixes.map Path.normalize ↔ d ∈ b.commonPrefixes.map Path.normalize

structure Alike (a b : Outcome) : Prop extends AlikeUpToSlashes a b where
  commonPrefixes : ∀ p, p ∈ a.commonPrefixes ↔ p ∈ b.commonPrefixes

theorem Alike.refl (a : Outcome) : Alike a a where
  form := rfl
  summaries _ := Iff.rfl
  directories _ := Iff.rfl
  commonPrefixes _ := Iff.rfl

end Outcome

def Step.query? : Step → Option Query
  | call (.list r) => some (.markers r)
  | call (.listTokens r) => some (.tokens r)
  | _ => none

def Query.Unrivalled (now : Timestamp) (q : Query) (s : Stale Memory) : Prop :=
  ∀ o, s.backend.buckets[q.bucket]? = some o → ¬ OverlaidListing.Rivals (s.delays.hides s.rules.window now)
    (s.delays.purge s.rules.window now).heldDeletes q.under q.isRecursive (q.page o).commonPrefixes

-- Only listings of one directory put directories back.
theorem Query.unrivalled_of_recursive {now : Timestamp} {q : Query} (recursive : q.isRecursive = true)
    (s : Stale Memory) : q.Unrivalled now s := by
  rintro o - ⟨e, -, -, -, p, -, rolled, -⟩
  rw [recursive] at rolled
  cases rolled

def Step.Unrivalled (now : Timestamp) (step : Step) (s : Stale Memory) : Prop :=
  ∀ q ∈ step.query?, q.Unrivalled now s

namespace Stale

variable {α β : Type} {now : Timestamp} {bucket key : Text} {s : Stale Memory} {o : Bucket}
  {x : Action (Stale Memory) α} {f : α → Action (Stale Memory) β}

section
variable (well : HeldWell (s.delays.purge s.rules.window now).heldDeletes) (order : TableOrder)
include well

theorem overlaid_reorder (under : Text) (recursive : Bool) (summaries : List Summary) (commonPrefixes : List Text) :
    (s.overlaid now under recursive summaries commonPrefixes).AlikeUpToSlashes
      ((s.reorder order).overlaid now under recursive summaries commonPrefixes) :=
  OverlaidListing.alikeUpToSlashes_of_perm (well.arrange s.order) ((s.order.perm _).trans (order.perm _).symm)

theorem overlaid_reorder_alike {under : Text} {recursive : Bool} (summaries : List Summary) {commonPrefixes : List Text}
    (alone : ¬ OverlaidListing.Rivals (s.delays.hides s.rules.window now)
      (s.delays.purge s.rules.window now).heldDeletes under recursive commonPrefixes) :
    (s.overlaid now under recursive summaries commonPrefixes).Alike
      ((s.reorder order).overlaid now under recursive summaries commonPrefixes) :=
  (OverlaidListing.alike_iff_not_rivals well).mpr alone _ _ (s.order.perm _) (order.perm _)

theorem overlayRaw_reorder (under : Text) (recursive : Bool) (summaries : List Summary) (commonPrefixes : List Text) :
    overlayRaw now under recursive summaries commonPrefixes (s.reorder order)
      = (.ok ((s.reorder order).overlaid now under recursive summaries commonPrefixes),
        (overlayRaw now under recursive summaries commonPrefixes s).2.reorder order) := by
  have alike := overlaid_reorder well order under recursive summaries commonPrefixes
  have hidden := alike.hidden
  have restoredSummaries := alike.restoredSummaries
  have restoredPrefixes := alike.restoredPrefixes
  simp only [overlaid, reorder] at hidden restoredSummaries restoredPrefixes
  simp only [overlayRaw, overlaid, reorder, hidden, restoredSummaries, restoredPrefixes]

theorem captured_reorder : (s.reorder order).captured now bucket key o = s.captured now bucket key o :=
  captured_alone well (t := s.reorder order) well rfl rfl rfl

end

-- Whatever order the deletes come in, the action gives back the same and changes nothing else because of it.
def IgnoresOrder (x : Action (Stale Memory) α) (s : Stale Memory) : Prop :=
  ∀ order, x (s.reorder order) = ((x s).1, (x s).2.reorder order)

theorem IgnoresOrder.of_error {e : StoreError} (fails : ∀ order, x (s.reorder order) = (.error e, s.reorder order)) :
    IgnoresOrder x s := by
  intro order
  have own : x s = (.error e, s) := fails s.order
  rw [own]
  exact fails order

theorem IgnoresOrder.bind (first : IgnoresOrder x s) (rest : ∀ a t, x s = (.ok a, t) → IgnoresOrder (f a) t) :
    IgnoresOrder (x >>= f) s := by
  intro order
  have same := first order
  rcases result : x s with ⟨e | a, t⟩ <;> rw [result] at same
  · rw [Action.bind_of_error result, Action.bind_of_error same]
  · rw [Action.bind_of_ok result, Action.bind_of_ok same]
    exact rest a t result order

theorem IgnoresOrder.map (g : α → β) (ignores : IgnoresOrder x s) : IgnoresOrder (x.map g) s :=
  IgnoresOrder.bind (f := fun a => pure (g a)) ignores fun _ _ _ _ => rfl

theorem checkThrottle_ignores (s : Stale Memory) : IgnoresOrder checkThrottle s := fun _ => rfl

theorem onBackend_ignores (y : Action Memory α) (s : Stale Memory) : IgnoresOrder (onBackend y) s := fun _ => rfl

theorem checked_ignores (y : Action Memory α) (s : Stale Memory) : IgnoresOrder (checked y) s :=
  (checkThrottle_ignores s).bind fun _ t _ => onBackend_ignores y t

theorem chooseDelay_ignores (key : Text) (s : Stale Memory) : IgnoresOrder (chooseDelay key) s := fun _ => rfl

theorem recordDeletes_ignores (deletes : List (Text × Option Summary)) (s : Stale Memory) :
    IgnoresOrder (recordDeletes now deletes) s := by
  intro order
  rw [recordDeletes_counted, recordDeletes_counted]
  rfl

-- The action goes through in every order, gives back what is shown in it, and leaves the same but for the order.
def ShowsOrder (shown : TableOrder → α) (x : Action (Stale Memory) α) (s : Stale Memory) : Prop :=
  ∃ t : Stale Memory, ∀ order, x (s.reorder order) = (.ok (shown order), t.reorder order)

theorem ShowsOrder.map {shown : TableOrder → α} (g : α → β) (shows : ShowsOrder shown x s) :
    ShowsOrder (fun order => g (shown order)) (x.map g) s := by
  obtain ⟨t, shows⟩ := shows
  exact ⟨t, fun order => (map_ok _ _).mpr ⟨_, shows order, rfl⟩⟩

theorem listUnchecked_shows (named : s.delays.Named) (r : ListRequest)
    (stored : s.backend.buckets[r.bucket]? = some o) :
    ShowsOrder (fun order => (s.reorder order).listing now o r) (listUnchecked now r) s := by
  let page := Page.ofBucket r.bucket o r.under r.delimiter r.marker r.maxKeys
  refine ⟨(overlayRaw now r.under r.isRecursive page.summaries page.commonPrefixes s).2, fun order => ?_⟩
  have asked : onBackend (ObjectStore.list now r) (s.reorder order)
      = (.ok (r.answer page), s.reorder order) :=
    onBackend_eq (Memory.list_of_stored r stored)
  rw [listUnchecked, Action.bind_of_ok asked]
  exact Action.bind_of_ok (overlayRaw_reorder named.purge.held_well order _ _ _ _)

theorem listTokensUnchecked_shows (named : s.delays.Named) (r : TokenRequest)
    (stored : s.backend.buckets[r.bucket]? = some o) :
    ShowsOrder (fun order => (s.reorder order).tokenListing now o r) (listTokensUnchecked now r) s := by
  let page := Page.ofBucket r.bucket o r.under r.delimiter r.start r.maxKeys
  refine ⟨(overlayRaw now r.under r.isRecursive page.summaries page.commonPrefixes s).2, fun order => ?_⟩
  have asked : onBackend (ObjectStore.listTokens now r) (s.reorder order)
      = (.ok (r.answer page), s.reorder order) :=
    onBackend_eq (Memory.listTokens_of_stored r stored)
  rw [listTokensUnchecked, Action.bind_of_ok asked]
  exact Action.bind_of_ok (overlayRaw_reorder named.purge.held_well order _ _ _ _)

theorem capture_ignores (named : s.delays.Named) : IgnoresOrder (capture now bucket key) s := by
  intro order
  cases found : s.backend.buckets[bucket]? with
  | none => rw [capture_of_missing now bucket key found, capture_of_missing now bucket key (s := s.reorder order) found]
  | some o =>
    have shows : ShowsOrder _ (listUnchecked now (.recursive bucket key)) s := listUnchecked_shows named _ found
    obtain ⟨t, listed⟩ := shows
    have captures : ∀ order, capture now bucket key (s.reorder order)
        = (.ok ((s.reorder order).captured now bucket key o), t.reorder order) :=
      fun order => Action.bind_of_ok (listed order)
    have own : capture now bucket key s = _ := captures s.order
    rw [own, captures order, captured_reorder named.purge.held_well, captured_reorder named.purge.held_well]
    rfl

theorem Drops.named {r : Except StoreError α} {t : Stale Memory} (drops : Drops now s (x s).2) (named : s.delays.Named)
    (result : x s = (r, t)) : t.delays.Named := by
  rw [result] at drops
  rcases drops.delays with same | dropped
  · exact same ▸ named
  · exact dropped ▸ named.purge

theorem checkThrottle_named {r : Except StoreError Unit} {t : Stale Memory} (named : s.delays.Named)
    (passed : checkThrottle s = (r, t)) : t.delays.Named := by
  have drops : Drops .zero s (checkThrottle s).2 := checkThrottle_drops s
  exact drops.named named passed

theorem chooseDelay_named {r : Except StoreError Bool} {t : Stale Memory} (named : s.delays.Named)
    (chose : chooseDelay key s = (r, t)) : t.delays.Named := by
  have drops : Drops .zero s (chooseDelay key s).2 := chooseDelay_drops key s
  exact drops.named named chose

theorem afterCheck_ignores {rest : Action (Stale Memory) β} (named : s.delays.Named)
    (ignores : ∀ t, t.delays.Named → IgnoresOrder rest t) : IgnoresOrder (do checkThrottle; rest) s :=
  (checkThrottle_ignores s).bind fun _ t passed => ignores t (checkThrottle_named named passed)

theorem afterChoice_ignores (named : s.delays.Named) {rest : Bool → Action (Stale Memory) β}
    (ignores : ∀ delayed t, t.delays.Named → IgnoresOrder (rest delayed) t) :
    IgnoresOrder (do checkThrottle; rest (← chooseDelay key)) s :=
  afterCheck_ignores named fun t named => (chooseDelay_ignores key t).bind fun delayed u chose =>
    ignores delayed u (chooseDelay_named named chose)

theorem captureAll_ignores (keys : List Text) (named : s.delays.Named) :
    IgnoresOrder (captureAll now bucket keys) s := by
  induction keys generalizing s with
  | nil => exact fun _ => rfl
  | cons key rest ih =>
    refine (chooseDelay_ignores key s).bind fun delayed t chose => ?_
    have named := chooseDelay_named named chose
    cases delayed with
    | false => exact ih named
    | true =>
      refine (capture_ignores named).bind fun summary u captures => ?_
      exact (ih ((capture_drops bucket key t).named named captures)).bind fun _ _ _ _ => rfl

theorem delete_ignores (named : s.delays.Named) : IgnoresOrder (delete now bucket key) s := by
  refine afterChoice_ignores named fun delayed u named => ?_
  cases delayed with
  | false => exact onBackend_ignores _ u
  | true => exact (capture_ignores named).bind fun _ v _ => (onBackend_ignores _ v).bind fun _ _ _ _ => rfl

theorem deleteBatch_ignores (keys : List Text) (named : s.delays.Named) :
    IgnoresOrder (deleteBatch now bucket keys) s := by
  refine afterCheck_ignores named fun t named => ?_
  refine (captureAll_ignores keys named).bind fun delayed u _ => (onBackend_ignores _ u).bind fun result v _ => ?_
  exact (recordDeletes_ignores _ v).bind fun _ _ _ _ => rfl

theorem put_ignores (data : Bytes) (s : Stale Memory) : IgnoresOrder (put now bucket key data) s := by
  refine (checkThrottle_ignores s).bind fun _ t _ => (onBackend_ignores _ t).bind fun etag u _ => ?_
  refine (chooseDelay_ignores key u).bind fun delayed v _ => ?_
  cases delayed <;> exact fun _ => rfl

theorem IgnoresOrder.eventsOf {x : Action (Stale Memory) History} (ignores : IgnoresOrder x s) (order : TableOrder) :
    eventsOf x (s.reorder order) = eventsOf x s := by
  rw [Stale.eventsOf, Stale.eventsOf, ignores order]

theorem putEvents_ignores (data : Bytes) (s : Stale Memory) : IgnoresOrder (putEvents now bucket key data) s :=
  (checkThrottle_ignores s).bind fun _ t _ => (onBackend_ignores _ t).bind fun _ u _ =>
    (chooseDelay_ignores key u).bind fun _ _ _ _ => rfl

theorem deleteEvents_ignores (named : s.delays.Named) : IgnoresOrder (deleteEvents now bucket key) s := by
  refine afterChoice_ignores named fun delayed u named => ?_
  cases delayed with
  | false => exact fun _ => rfl
  | true => exact (capture_ignores named).bind fun _ v _ => (onBackend_ignores _ v).bind fun _ _ _ _ => rfl

theorem deleteBatchEvents_ignores (keys : List Text) (named : s.delays.Named) :
    IgnoresOrder (deleteBatchEvents now bucket keys) s := by
  refine afterCheck_ignores named fun t named => ?_
  exact (captureAll_ignores keys named).bind fun _ u _ => (onBackend_ignores _ u).bind fun _ _ _ _ => rfl

theorem ShowsOrder.after {shown : TableOrder → β} (first : IgnoresOrder x s)
    (rest : ∀ a t, x s = (.ok a, t) → ShowsOrder shown (f a) t) :
    IgnoresOrder (x >>= f) s ∨ ShowsOrder shown (x >>= f) s := by
  rcases result : x s with ⟨e | a, t⟩
  · refine Or.inl (first.bind fun a t passed => ?_)
    rw [result] at passed
    cases passed
  · obtain ⟨u, shows⟩ := rest a t result
    refine Or.inr ⟨u, fun order => ?_⟩
    have same := first order
    rw [result] at same
    rw [Action.bind_of_ok same]
    exact shows order

theorem list_shows (named : s.delays.Named) (r : ListRequest) (stored : s.backend.buckets[r.bucket]? = some o) :
    IgnoresOrder (list now r) s ∨ ShowsOrder (fun order => (s.reorder order).listing now o r) (list now r) s := by
  refine ShowsOrder.after (checkThrottle_ignores s) fun _ t passed => ?_
  obtain ⟨draws, stats, rfl⟩ := of_checkThrottle passed
  exact listUnchecked_shows (s := { s with draws := draws, stats := stats }) named r stored

theorem listTokens_shows (named : s.delays.Named) (r : TokenRequest) (stored : s.backend.buckets[r.bucket]? = some o) :
    IgnoresOrder (listTokens now r) s ∨
      ShowsOrder (fun order => (s.reorder order).tokenListing now o r) (listTokens now r) s := by
  refine ShowsOrder.after (checkThrottle_ignores s) fun _ t passed => ?_
  obtain ⟨draws, stats, rfl⟩ := of_checkThrottle passed
  exact listTokensUnchecked_shows (s := { s with draws := draws, stats := stats }) named r stored

theorem list_ignores_of_missing (r : ListRequest) (missing : s.backend.buckets[r.bucket]? = none) :
    IgnoresOrder (list now r) s := by
  refine (checkThrottle_ignores s).bind fun _ t passed => ?_
  obtain ⟨draws, stats, rfl⟩ := of_checkThrottle passed
  exact .of_error fun order => listUnchecked_of_missing now r (s := reorder order _) missing

theorem listTokens_ignores_of_missing (r : TokenRequest) (missing : s.backend.buckets[r.bucket]? = none) :
    IgnoresOrder (listTokens now r) s := by
  refine (checkThrottle_ignores s).bind fun _ t passed => ?_
  obtain ⟨draws, stats, rfl⟩ := of_checkThrottle passed
  exact .of_error fun order => listTokensUnchecked_of_missing now r (s := reorder order _) missing

theorem perform_ignores (named : s.delays.Named) {c : Call} (other : (Step.call c).query? = none) :
    IgnoresOrder (c.perform now) s := by
  cases c with
  | put bucket key data => exact (put_ignores data s).map _
  | get bucket key => exact (onBackend_ignores _ s).map _
  | delete bucket key => exact (delete_ignores named).map _
  | deleteBatch bucket keys => exact (deleteBatch_ignores keys named).map _
  | list r => cases other
  | listTokens r => cases other
  | initiateUpload bucket key => exact (checked_ignores _ s).map _
  | uploadPart bucket key uploadId n data => exact (checked_ignores _ s).map _
  | completeUpload bucket key uploadId parts => exact (checked_ignores _ s).map _
  | abortUpload bucket key uploadId => exact (onBackend_ignores _ s).map _
  | listUploads bucket under => exact (checked_ignores _ s).map _

end Stale

namespace Step

variable {now : Timestamp} {s : Stale Memory} {step : Step} {order : TableOrder}

-- What a step does in another order: it shows the same up to slashes, and the state it leaves hides the order again.
structure Reorders (now : Timestamp) (step : Step) (s : Stale Memory) (order : TableOrder) : Prop where
  outcome : (step.perform now s).1.AlikeUpToSlashes (step.perform now (s.reorder order)).1
  exact : step.Unrivalled now s → (step.perform now s).1.Alike (step.perform now (s.reorder order)).1
  left : ∃ next, (step.perform now (s.reorder order)).2 = (step.perform now s).2.reorder next

theorem Reorders.of_same (same : (step.perform now s).1 = (step.perform now (s.reorder order)).1)
    (left : ∃ next, (step.perform now (s.reorder order)).2 = (step.perform now s).2.reorder next) :
    Reorders now step s order :=
  ⟨same ▸ (Outcome.Alike.refl _).toAlikeUpToSlashes, fun _ => same ▸ .refl _, left⟩

theorem Reorders.of_ignores {c : Call} (ignores : Stale.IgnoresOrder (c.perform now) s) :
    Reorders now (.call c) s order := by
  have same := ignores order
  refine .of_same ?_ ⟨order, ?_⟩ <;> simp only [perform, same]

-- A call that shows the page with the delays laid over it, and for which the order matters in nothing else.
theorem Reorders.of_shows {c : Call} {q : Query} {o : Bucket} {reply : TableOrder → Reply} (named : s.delays.Named)
    (asked : (call c).query? = some q) (stored : s.backend.buckets[q.bucket]? = some o)
    (shows : Stale.ShowsOrder reply (c.perform now) s) :
    let answer := fun order => Outcome.replied (.ok (reply order))
    let laid := fun order : TableOrder => q.laid now (s.reorder order) (q.page o)
    (∀ order, (answer s.order).form = (answer order).form) →
    (∀ order, (answer order).summaries = (laid order).summaries) →
    (∀ order, (answer order).commonPrefixes = (laid order).commonPrefixes) → Reorders now (.call c) s order := by
  intro answer laid form summaries commonPrefixes
  obtain ⟨t, shows⟩ := shows
  have performs : ∀ order, perform now (.call c) (s.reorder order) = (answer order, t.reorder order) := by
    intro order
    simp only [perform, shows order, answer]
  have own : perform now (.call c) s = (answer s.order, t.reorder s.order) := performs s.order
  have well : HeldWell (s.delays.purge s.rules.window now).heldDeletes := named.purge.held_well
  have alike : (answer s.order).AlikeUpToSlashes (answer order) := by
    have same := Stale.overlaid_reorder well order q.under q.isRecursive (q.page o).summaries (q.page o).commonPrefixes
    refine ⟨form order, ?_, ?_⟩
    · rw [summaries, summaries]
      exact same.summaries
    · rw [commonPrefixes, commonPrefixes]
      exact same.directories
  refine ⟨?_, fun unrivalled => ?_, order, ?_⟩
  · rw [own, performs order]
    exact alike
  · rw [own, performs order]
    refine ⟨alike, ?_⟩
    rw [commonPrefixes, commonPrefixes]
    exact (Stale.overlaid_reorder_alike well order _ (unrivalled q asked o stored)).commonPrefixes
  · rw [own, performs order]
    rfl

theorem list_reorder (named : s.delays.Named) (r : ListRequest) (order : TableOrder) :
    Reorders now (.call (.list r)) s order := by
  cases stored : s.backend.buckets[r.bucket]? with
  | none =>
    refine .of_ignores ?_
    exact (Stale.list_ignores_of_missing r stored).map _
  | some o =>
    have either : _ ∨ Stale.ShowsOrder _ (Stale.list now r) s := Stale.list_shows named r stored
    rcases either with ignores | shows
    · refine .of_ignores ?_
      exact ignores.map _
    · exact .of_shows (q := .markers r) named rfl stored (shows.map _) (fun _ => rfl) (fun _ => rfl) fun _ => rfl

theorem listTokens_reorder (named : s.delays.Named) (r : TokenRequest) (order : TableOrder) :
    Reorders now (.call (.listTokens r)) s order := by
  cases stored : s.backend.buckets[r.bucket]? with
  | none =>
    refine .of_ignores ?_
    exact (Stale.listTokens_ignores_of_missing r stored).map _
  | some o =>
    have either : _ ∨ Stale.ShowsOrder _ (Stale.listTokens now r) s := Stale.listTokens_shows named r stored
    rcases either with ignores | shows
    · refine .of_ignores ?_
      exact ignores.map _
    · exact .of_shows (q := .tokens r) named rfl stored (shows.map _) (fun _ => rfl) (fun _ => rfl) fun _ => rfl

theorem call_reorder (named : s.delays.Named) (c : Call) (order : TableOrder) : Reorders now (.call c) s order := by
  cases c with
  | list r => exact list_reorder named r order
  | listTokens r => exact listTokens_reorder named r order
  | _ => exact .of_ignores (Stale.perform_ignores named rfl)

theorem perform_reorder (named : s.delays.Named) (step : Step) (order : TableOrder) : step.Reorders now s order := by
  cases step with
  | call c => exact call_reorder named c order
  | setThrottleProbability p =>
    let change := perform now (.setThrottleProbability p)
    have changes : change (s.reorder order) = ((change s).1, (change s).2.reorder order) := by
      simp only [change, perform, Stale.setThrottleProbability, show (s.reorder order).throttle = s.throttle from rfl]
      cases s.throttle.setProbability p <;> rfl
    exact .of_same (congrArg Prod.fst changes).symm ⟨order, congrArg Prod.snd changes⟩
  | createBucket bucket => exact .of_same rfl ⟨order, rfl⟩
  | clear => exact .of_same rfl ⟨order, rfl⟩
  | resetStats => exact .of_same rfl ⟨order, rfl⟩
  | setFailureLimit limit => exact .of_same rfl ⟨order, rfl⟩
  | reorder next => exact .of_same rfl ⟨next, rfl⟩

theorem events_reorder (named : s.delays.Named) (step : Step) (order : TableOrder) :
    step.events now (s.reorder order) = step.events now s := by
  cases step with
  | call c =>
    cases c with
    | put bucket key data => exact (Stale.putEvents_ignores data s).eventsOf order
    | delete bucket key => exact (Stale.deleteEvents_ignores named).eventsOf order
    | deleteBatch bucket keys => exact (Stale.deleteBatchEvents_ignores keys named).eventsOf order
    | _ => rfl
  | _ => rfl

end Step
end StaleStore
