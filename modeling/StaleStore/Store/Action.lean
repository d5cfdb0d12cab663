import StaleStore.Store.Error

namespace StaleStore

-- A failed call has a state too: what it changed before it failed stays changed.
def Action (σ α : Type) : Type := σ → Except StoreError α × σ

namespace Action

variable {σ τ α β : Type}

def done (a : α) : Action σ α := fun s => (.ok a, s)

def fail (e : StoreError) : Action σ α := fun s => (.error e, s)

def andThen (x : Action σ α) (f : α → Action σ β) : Action σ β := fun s =>
  match x s with
  | (.ok a, s) => f a s
  | (.error e, s) => (.error e, s)

instance : Monad (Action σ) where
  pure := done
  bind := andThen

def get : Action σ σ := fun s => (.ok s, s)
def modify (f : σ → σ) : Action σ Unit := fun s => (.ok (), f s)

def onPart (part : τ → σ) (put : σ → τ → τ) (x : Action σ α) : Action τ α := fun t =>
  let (r, s) := x (part t)
  (r, put s t)

@[simp] theorem pure_apply (a : α) (s : σ) : (pure a : Action σ α) s = (.ok a, s) := rfl

theorem bind_apply (x : Action σ α) (f : α → Action σ β) (s : σ) :
    (x >>= f) s = match x s with
      | (.ok a, s) => f a s
      | (.error e, s) => (.error e, s) := rfl

theorem bind_of_ok {x : Action σ α} {f : α → Action σ β} {s t : σ} {a : α} (h : x s = (.ok a, t)) :
    (x >>= f) s = f a t := by rw [bind_apply, h]

theorem bind_of_error {x : Action σ α} {f : α → Action σ β} {s t : σ} {e : StoreError}
    (h : x s = (.error e, t)) : (x >>= f) s = (.error e, t) := by rw [bind_apply, h]

theorem bind_eq_ok {x : Action σ α} {f : α → Action σ β} {s t : σ} {b : β} :
    (x >>= f) s = (.ok b, t) ↔ ∃ a u, x s = (.ok a, u) ∧ f a u = (.ok b, t) := by
  rw [bind_apply]
  rcases x s with ⟨e | a, u⟩
  · exact ⟨nofun, fun ⟨_, _, impossible, _⟩ => nomatch impossible⟩
  · exact ⟨fun later => ⟨a, u, rfl, later⟩, fun ⟨_, _, rfl, later⟩ => later⟩

theorem eq_of_toOption {p : Except StoreError α × σ} {a : α} (worked : p.1.toOption = some a) :
    p = (.ok a, p.2) := by
  rcases p with ⟨e | b, s⟩
  · cases worked
  · cases worked
    rfl

end Action
end StaleStore
