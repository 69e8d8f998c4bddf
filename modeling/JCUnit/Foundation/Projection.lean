import JCUnit.Foundation.StateError

/-!
# Programs that a projection of the state does not tell apart

A program on a larger state behaves as one on a smaller state when it ends the same way,
with the same value, in a state that is projected to the other's. The larger state then
carries nothing that the smaller program could not have seen.
-/

namespace Projection

open StateError

variable {ε σ τ α β : Type}

/-- A result with its state projected. -/
def projected (π : σ → τ) : EStateM.Result ε σ α → EStateM.Result ε τ α
  | .ok a s => .ok a (π s)
  | .error e s => .error e (π s)

/-- From every state, `x` ends as `y` does from the projected one. -/
def Projects (π : σ → τ) (x : EStateM ε σ α) (y : EStateM ε τ α) : Prop :=
  ∀ s, projected π (x s) = y (π s)

variable {π : σ → τ}

theorem Projects.pure (a : α) : Projects π (Pure.pure a : EStateM ε σ α) (Pure.pure a) :=
  fun _ => rfl

theorem Projects.throw (e : ε) :
    Projects π (MonadExcept.throw e : EStateM ε σ α) (MonadExcept.throw e) :=
  fun _ => rfl

theorem Projects.eq_ok {x : EStateM ε σ α} {y : EStateM ε τ α} (h : Projects π x y) {s s' : σ}
    {a : α} (hx : x s = .ok a s') : y (π s) = .ok a (π s') := by
  rw [← h s, hx]
  rfl

theorem Projects.eq_error {x : EStateM ε σ α} {y : EStateM ε τ α} (h : Projects π x y) {s s' : σ}
    {e : ε} (hx : x s = .error e s') : y (π s) = .error e (π s') := by
  rw [← h s, hx]
  rfl

/-- The second programs need only agree on the values that the first one gives. -/
theorem Projects.bind_of {x : EStateM ε σ α} {y : EStateM ε τ α} {f : α → EStateM ε σ β}
    {g : α → EStateM ε τ β} (hx : Projects π x y)
    (hf : ∀ a t t', y t = .ok a t' → Projects π (f a) (g a)) : Projects π (x >>= f) (y >>= g) := by
  intro s
  have hs := hx s
  cases hrun : x s with
  | ok a s' =>
      rw [hrun] at hs
      rw [bind_of_ok hrun, bind_of_ok hs.symm]
      exact hf a _ _ hs.symm s'
  | error e s' =>
      rw [hrun] at hs
      rw [bind_of_error hrun, bind_of_error hs.symm]
      rfl

theorem Projects.bind {x : EStateM ε σ α} {y : EStateM ε τ α} {f : α → EStateM ε σ β}
    {g : α → EStateM ε τ β} (hx : Projects π x y) (hf : ∀ a, Projects π (f a) (g a)) :
    Projects π (x >>= f) (y >>= g) :=
  hx.bind_of fun a _ _ _ => hf a

/-- A program whose second part only gives back what the first one gave. -/
theorem Projects.through {x : EStateM ε σ α} {y : EStateM ε τ α} {f : α → EStateM ε σ α}
    (hx : Projects π x y) (hf : ∀ a t t', y t = .ok a t' → Projects π (f a) (Pure.pure a)) :
    Projects π (x >>= f) y := by
  have hbind := hx.bind_of (g := Pure.pure) hf
  rw [bind_pure] at hbind
  exact hbind

/-- A first part that shows in nothing but its value. -/
theorem Projects.skip {x : EStateM ε σ α} {a : α} {f : α → EStateM ε σ β} {z : EStateM ε τ β}
    (hx : Projects π x (Pure.pure a)) (hf : Projects π (f a) z) : Projects π (x >>= f) z := by
  have hbind : Projects π (x >>= f) (Pure.pure a >>= fun _ => z) := by
    apply hx.bind_of
    intro b t t' hpure
    obtain ⟨rfl, -⟩ := pure_eq_ok.mp hpure
    exact hf
  rw [pure_bind] at hbind
  exact hbind

/-- A program that runs on the smaller state and puts its end back into the larger one. -/
def lifted (π : σ → τ) (put : τ → σ → σ) (y : EStateM ε τ α) : EStateM ε σ α := fun s =>
  match y (π s) with
  | .ok a t => .ok a (put t s)
  | .error e t => .error e (put t s)

theorem Projects.lifted {put : τ → σ → σ} (hput : ∀ t s, π (put t s) = t) (y : EStateM ε τ α) :
    Projects π (lifted π put y) y := by
  intro s
  unfold Projection.lifted
  cases y (π s) with
  | ok a t => exact congrArg (EStateM.Result.ok a) (hput t s)
  | error e t => exact congrArg (EStateM.Result.error e) (hput t s)

end Projection
