import StaleStore.Proofs.Stale.Checks

namespace StaleStore

structure View where
  summaries : List Summary
  commonPrefixes : List Text
  truncated : Bool
  next : Option Text
deriving DecidableEq, Repr

namespace View

def ofListing (l : Listing) : View := ⟨l.summaries, l.commonPrefixes, l.truncated, l.nextMarker⟩

def ofTokens (l : TokenListing) : View := ⟨l.summaries, l.commonPrefixes, l.truncated, l.nextToken⟩

def keys (v : View) : List Text := v.summaries.map (·.key)

def directories (v : View) : List Text := v.commonPrefixes.map Path.normalize

end View

inductive Query where
  | markers (request : ListRequest)
  | tokens (request : TokenRequest)
deriving DecidableEq, Repr

namespace Query

def bucket : Query → Text
  | markers r => r.bucket
  | tokens r => r.bucket

def under : Query → Text
  | markers r => r.under
  | tokens r => r.under

def delimiter : Query → Option Text
  | markers r => r.delimiter
  | tokens r => r.delimiter

def start : Query → Option Text
  | markers r => r.marker
  | tokens r => r.start

def maxKeys : Query → Nat
  | markers r => r.maxKeys
  | tokens r => r.maxKeys

def isRecursive (q : Query) : Bool := StaleStore.isRecursive q.delimiter

def after (entry : Text) : Query → Query
  | markers r => markers { r with marker := some entry }
  | tokens r => tokens { r with token := some entry }

def withRoom (room : Nat) : Query → Query
  | markers r => markers { r with maxKeys := room }
  | tokens r => tokens { r with maxKeys := room }

section
variable (q : Query) (entry : Text) (room : Nat)

@[simp] theorem after_bucket : (q.after entry).bucket = q.bucket := by cases q <;> rfl
@[simp] theorem after_under : (q.after entry).under = q.under := by cases q <;> rfl
@[simp] theorem after_delimiter : (q.after entry).delimiter = q.delimiter := by cases q <;> rfl
@[simp] theorem after_maxKeys : (q.after entry).maxKeys = q.maxKeys := by cases q <;> rfl
@[simp] theorem after_start : (q.after entry).start = some entry := by cases q <;> rfl
@[simp] theorem withRoom_bucket : (q.withRoom room).bucket = q.bucket := by cases q <;> rfl
@[simp] theorem withRoom_under : (q.withRoom room).under = q.under := by cases q <;> rfl
@[simp] theorem withRoom_delimiter : (q.withRoom room).delimiter = q.delimiter := by cases q <;> rfl
@[simp] theorem withRoom_start : (q.withRoom room).start = q.start := by cases q <;> rfl
@[simp] theorem withRoom_maxKeys : (q.withRoom room).maxKeys = room := by cases q <;> rfl

end

def ask (now : Timestamp) : Query → Action (Stale Memory) View
  | markers r => (Stale.list now r).map View.ofListing
  | tokens r => (Stale.listTokens now r).map View.ofTokens

def page (q : Query) (o : Bucket) : View :=
  let page := Page.ofBucket q.bucket o q.under q.delimiter q.start q.maxKeys
  ⟨page.summaries, page.commonPrefixes, page.truncated, page.next⟩

def laid (q : Query) (now : Timestamp) (s : Stale Memory) (v : View) : View :=
  let out := s.overlaid now q.under q.isRecursive v.summaries v.commonPrefixes
  { v with summaries := out.summaries, commonPrefixes := out.commonPrefixes }

variable {q : Query} {now : Timestamp} {s t : Stale Memory} {o : Bucket}

def askUnchecked (now : Timestamp) : Query → Action (Stale Memory) View
  | markers r => (Stale.listUnchecked now r).map View.ofListing
  | tokens r => (Stale.listTokensUnchecked now r).map View.ofTokens

theorem ask_eq (now : Timestamp) (q : Query) :
    q.ask now = (do Stale.checkThrottle; q.askUnchecked now : Action (Stale Memory) View) := by
  cases q with
  | markers r => exact Stale.map_bind View.ofListing _ _
  | tokens r => exact Stale.map_bind View.ofTokens _ _

theorem askUnchecked_of_stored (now : Timestamp) (stored : s.backend.buckets[q.bucket]? = some o) :
    ∃ stats, q.askUnchecked now s = (.ok (q.laid now s (q.page o)),
      { s with delays := s.delays.purge s.rules.window now, stats := stats }) := by
  cases q with
  | markers r =>
    obtain ⟨stats, listed⟩ := Stale.listUnchecked_of_stored now r stored
    exact ⟨stats, (Stale.map_ok _ _).mpr ⟨_, listed, rfl⟩⟩
  | tokens r =>
    obtain ⟨stats, listed⟩ := Stale.listTokensUnchecked_of_stored now r stored
    exact ⟨stats, (Stale.map_ok _ _).mpr ⟨_, listed, rfl⟩⟩

theorem askUnchecked_of_missing (now : Timestamp) (missing : s.backend.buckets[q.bucket]? = none) :
    q.askUnchecked now s = (.error (.noSuchBucket q.bucket), s) := by
  cases q with
  | markers r => exact (Stale.map_error _ _).mpr (Stale.listUnchecked_of_missing now r missing)
  | tokens r => exact (Stale.map_error _ _).mpr (Stale.listTokensUnchecked_of_missing now r missing)

theorem ask_of_stored (now : Timestamp) (never : s.throttle.probability.isNonPositive = true)
    (stored : s.backend.buckets[q.bucket]? = some o) :
    ∃ stats, q.ask now s = (.ok (q.laid now s (q.page o)),
      { s with delays := s.delays.purge s.rules.window now, stats := stats }) := by
  rw [ask_eq, Action.bind_of_ok (Stale.checkThrottle_of_never never)]
  exact askUnchecked_of_stored now stored

theorem ask_cases (now : Timestamp) (stored : s.backend.buckets[q.bucket]? = some o) :
    (∃ t, s.Throttled t ∧ q.ask now s = (.error (.throttled (s.throttle.count + 1)), t)) ∨
    ∃ draws stats, q.ask now s = (.ok (q.laid now s (q.page o)),
      { s with delays := s.delays.purge s.rules.window now, draws := draws, stats := stats }) := by
  rw [ask_eq]
  refine (Stale.afterThrottle_cases (q.askUnchecked now) s).imp_right fun passes => ?_
  obtain ⟨draws, stats, passed⟩ := passes
  obtain ⟨stats', answered⟩ := askUnchecked_of_stored now (s := { s with draws := draws, stats := stats }) stored
  exact ⟨draws, stats', passed.trans answered⟩

theorem ask_ok {v : View} (answered : q.ask now s = (.ok v, t)) : ∃ o draws stats,
    s.backend.buckets[q.bucket]? = some o ∧ v = q.laid now s (q.page o) ∧
      t = { s with delays := s.delays.purge s.rules.window now, draws := draws, stats := stats } := by
  rw [ask_eq] at answered
  obtain ⟨_, u, passed, answered⟩ := Action.bind_eq_ok.mp answered
  obtain ⟨draws, stats, rfl⟩ := Stale.of_checkThrottle passed
  cases stored : s.backend.buckets[q.bucket]? with
  | none =>
    rw [askUnchecked_of_missing now (s := { s with draws := draws, stats := stats }) stored] at answered
    cases answered
  | some o =>
    obtain ⟨stats', answers⟩ := askUnchecked_of_stored now (s := { s with draws := draws, stats := stats }) stored
    rw [answers] at answered
    cases answered
    exact ⟨o, draws, stats', rfl, rfl, rfl⟩

theorem laid_congr (rules : t.rules = s.rules) (order : t.order = s.order)
    (same : t.delays.purge s.rules.window now = s.delays.purge s.rules.window now) :
    q.laid now t = q.laid now s := by
  funext v
  simp only [laid, Stale.overlaid_congr now rules order same]

theorem laid_purged (stats : Stats) :
    q.laid now { s with delays := s.delays.purge s.rules.window now, stats := stats } = q.laid now s :=
  laid_congr rfl rfl (DelayRecord.purge_purge _ _ _)

theorem laid_withRoom (room : Nat) : (q.withRoom room).laid now s = q.laid now s := by
  funext v
  simp only [laid, isRecursive, withRoom_under, withRoom_delimiter]

theorem laid_after (entry : Text) : (q.after entry).laid now s = q.laid now s := by
  funext v
  simp only [laid, isRecursive, after_under, after_delimiter]

end Query
end StaleStore
