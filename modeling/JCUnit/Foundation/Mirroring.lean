import JCUnit.Foundation.Projection

/-!
# Programs with a memory beside programs without one

A program on a state with a memory is compared with a program on the state alone. Both fail with
the same error, or they end in the same state with related values, and the memory then meets a
condition on these values. A step that concerns the memory alone has no counterpart.
-/

namespace Mirroring

open StateError Projection

variable {ε σ μ α β γ δ : Type}

/-- A step on the state alone. -/
def onState (y : EStateM ε σ α) : EStateM ε (σ × μ) α :=
  lifted Prod.fst (fun s p => (s, p.2)) y

/-- A step on the memory alone, which does not fail. -/
def onMemory (step : μ → α × μ) : EStateM ε (σ × μ) α := fun p =>
  .ok (step p.2).1 (p.1, (step p.2).2)

/-- The results fail with the same error, or they have the same state, and the values and the
memory are as they should be. -/
inductive Ends (N : α → β → μ → Prop) : EStateM.Result ε (σ × μ) α → EStateM.Result ε σ β → Prop
  | ok {a : α} {b : β} {s : σ} {m : μ} (h : N a b m) : Ends N (.ok a (s, m)) (.ok b s)
  | error (e : ε) (p : σ × μ) (s : σ) : Ends N (.error e p) (.error e s)

/-- From every state and every memory with `M`, the programs end alike. -/
def Mirrors (M : μ → Prop) (x : EStateM ε (σ × μ) α) (y : EStateM ε σ β) (N : α → β → μ → Prop) :
    Prop :=
  ∀ s m, M m → Ends N (x (s, m)) (y s)

variable {M : μ → Prop} {N : α → β → μ → Prop} {K : γ → δ → μ → Prop}
  {x : EStateM ε (σ × μ) α} {y : EStateM ε σ β}

theorem Mirrors.pure {a : α} {b : β} (h : ∀ m, M m → N a b m) :
    Mirrors M (Pure.pure a : EStateM ε (σ × μ) α) (Pure.pure b : EStateM ε σ β) N :=
  fun _ m hm => .ok (h m hm)

theorem Mirrors.throw (e : ε) :
    Mirrors M (MonadExcept.throw e : EStateM ε (σ × μ) α)
      (MonadExcept.throw e : EStateM ε σ β) N :=
  fun _ _ _ => .error e _ _

theorem Mirrors.bind {f : α → EStateM ε (σ × μ) γ} {g : β → EStateM ε σ δ} (hx : Mirrors M x y N)
    (hf : ∀ a b, Mirrors (N a b) (f a) (g b) K) : Mirrors M (x >>= f) (y >>= g) K := by
  intro s m hm
  have hfirst := hx s m hm
  cases hrun : y s with
  | ok b s' =>
      rw [hrun] at hfirst
      generalize hleft : x (s, m) = result at hfirst
      cases hfirst with
      | @ok a _ _ m' h =>
          rw [bind_of_ok hleft, bind_of_ok hrun]
          exact hf a b s' m' h
  | error e s' =>
      rw [hrun] at hfirst
      generalize hleft : x (s, m) = result at hfirst
      cases hfirst with
      | error _ p _ =>
          rw [bind_of_error hleft, bind_of_error hrun]
          exact .error e _ _

/-- A step on the state alone leaves the memory. -/
theorem Mirrors.onState_bind {z : EStateM ε σ γ} {f : γ → EStateM ε (σ × μ) α}
    {g : γ → EStateM ε σ β} (hf : ∀ c, Mirrors M (f c) (g c) N) :
    Mirrors M (onState z >>= f) (z >>= g) N := by
  intro s m hm
  cases hrun : z s with
  | ok c s' =>
      have hleft : (onState z : EStateM ε (σ × μ) γ) (s, m) = .ok c (s', m) := by
        unfold onState lifted
        rw [hrun]
      rw [bind_of_ok hleft, bind_of_ok hrun]
      exact hf c s' m hm
  | error e s' =>
      have hleft : (onState z : EStateM ε (σ × μ) γ) (s, m) = .error e (s', m) := by
        unfold onState lifted
        rw [hrun]
      rw [bind_of_error hleft, bind_of_error hrun]
      exact .error e _ _

/-- A last step on the memory alone, where the other program returns a value. -/
theorem Mirrors.onMemory {step : μ → α × μ} {b : β}
    (hstep : ∀ m, M m → N (step m).1 b (step m).2) :
    Mirrors M (onMemory step : EStateM ε (σ × μ) α) (Pure.pure b : EStateM ε σ β) N :=
  fun _ m hm => .ok (hstep m hm)

/-- The program with a memory goes on to a value of its own. -/
theorem Mirrors.bind_value {f : α → γ} {K : γ → β → μ → Prop} (hx : Mirrors M x y N)
    (hf : ∀ a b m, N a b m → K (f a) b m) :
    Mirrors M (x >>= fun a => Pure.pure (f a)) y K := by
  rw [← bind_pure y]
  exact hx.bind fun a b => .pure fun m h => hf a b m h

/-- Every memory with `M` may be taken for itself. -/
theorem Mirrors.of_each (h : ∀ m, M m → Mirrors (m = ·) x y N) : Mirrors M x y N :=
  fun s m hm => h m hm s m rfl

theorem Mirrors.started (h : Mirrors M x y N) {m : μ} (hm : M m) : Mirrors (m = ·) x y N := by
  rintro s _ rfl
  exact h s m hm

/-- From a memory that is known, a step on it leads to another one. -/
theorem Mirrors.onMemory_bind_of_eq {step : μ → γ × μ} {f : γ → EStateM ε (σ × μ) α} {m : μ}
    (hf : Mirrors ((step m).2 = ·) (f (step m).1) y N) :
    Mirrors (m = ·) (Mirroring.onMemory step >>= f) y N := by
  rintro s _ rfl
  exact hf s _ rfl

end Mirroring
