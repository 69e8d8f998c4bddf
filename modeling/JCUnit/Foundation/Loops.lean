import JCUnit.Foundation.StateError

/-!
# Loops that are left by a break

A loop carries a local value through its rounds. A round gives the value for the
next one, or breaks; then the loop is left with the value it had. The number of
rounds is bounded, and a loop that wants to go on behind the bound diverges.
-/

namespace Loops

open StateError

variable {ε σ β : Type}

/-- At most this many rounds. -/
def loop (diverged : ε) (body : β → EStateM ε σ (Option β)) : Nat → β → EStateM ε σ β
  | 0, _ => throw diverged
  | rounds + 1, b => do
      match ← body b with
      | some b => loop diverged body rounds b
      | none => return b

/-- This many rounds, none of which breaks, lead from one value and state to the other. -/
inductive Rounds (body : β → EStateM ε σ (Option β)) (b : β) (s : σ) : Nat → β → σ → Prop
  | zero : Rounds body b s 0 b s
  | succ {k : Nat} {b₁ b₂ : β} {s₁ s₂ : σ} : Rounds body b s k b₁ s₁ →
      body b₁ s₁ = .ok (some b₂) s₂ → Rounds body b s (k + 1) b₂ s₂

variable {diverged : ε} {body : β → EStateM ε σ (Option β)} {b b' : β} {s s' : σ} {n : Nat}

theorem Rounds.head {b₁ : β} {s₁ : σ} {k : Nat} (hfirst : body b s = .ok (some b₁) s₁)
    (h : Rounds body b₁ s₁ k b' s') : Rounds body b s (k + 1) b' s' := by
  induction h with
  | zero => exact Rounds.zero.succ hfirst
  | succ _ hlast ih => exact ih.succ hlast

/-- A loop that ends has gone through rounds and then broken. -/
theorem loop_eq_ok (h : loop diverged body n b s = .ok b' s') :
    ∃ k t, Rounds body b s k b' t ∧ body b' t = .ok none s' := by
  induction n generalizing b s with
  | zero => cases h
  | succ n ih =>
      obtain ⟨next, s₁, hround, h⟩ := bind_eq_ok h
      cases next with
      | none =>
          obtain ⟨rfl, rfl⟩ := pure_eq_ok.mp h
          exact ⟨0, s, Rounds.zero, hround⟩
      | some b₁ =>
          obtain ⟨k, t, hrounds, hbreak⟩ := ih h
          exact ⟨k + 1, t, hrounds.head hround, hbreak⟩

/-- A loop that fails has gone through rounds, and then a round has failed or the bound was reached. -/
theorem loop_eq_error {e : ε} (h : loop diverged body n b s = .error e s') :
    ∃ k b₁ t, Rounds body b s k b₁ t ∧ (body b₁ t = .error e s' ∨ k = n) := by
  induction n generalizing b s with
  | zero => exact ⟨0, b, s, Rounds.zero, Or.inr rfl⟩
  | succ n ih =>
      rcases bind_eq_error h with hround | ⟨next, s₁, hround, h⟩
      · exact ⟨0, b, s, Rounds.zero, Or.inl hround⟩
      · cases next with
        | none => cases h
        | some b₁ =>
            obtain ⟨k, b₂, t, hrounds, hend⟩ := ih h
            exact ⟨k + 1, b₂, t, hrounds.head hround, hend.imp_right (congrArg (· + 1))⟩

/-- What holds at the start and is carried on by each round holds after every number of rounds. -/
theorem Rounds.invariant {I : Nat → β → σ → Prop} {k : Nat} (hstart : I 0 b s)
    (hround : ∀ k b s b' s', I k b s → body b s = .ok (some b') s' → I (k + 1) b' s')
    (h : Rounds body b s k b' s') : I k b' s' := by
  induction h with
  | zero => exact hstart
  | succ _ hlast ih => exact hround _ _ _ _ _ ih hlast

/-- Where the rounds lower a measure, the loop ends within it: a larger bound makes no difference,
nor does what is thrown at the bound. -/
theorem loop_bound_irrelevant {other : ε} {m : Nat} (μ : σ → Nat)
    (hμ : ∀ b s b' s', body b s = .ok (some b') s' → μ s' < μ s) (hn : μ s < n) (hm : μ s < m) :
    loop diverged body n b s = loop other body m b s := by
  induction n generalizing b s m with
  | zero => exact absurd hn (Nat.not_lt_zero _)
  | succ n ih =>
      obtain ⟨m, rfl⟩ : ∃ k, m = k + 1 := Nat.exists_eq_add_one_of_ne_zero (Nat.ne_zero_of_lt hm)
      rw [loop, loop]
      cases hround : body b s with
      | error e s₁ => rw [bind_of_error hround, bind_of_error hround]
      | ok next s₁ =>
          rw [bind_of_ok hround, bind_of_ok hround]
          cases next with
          | none => rfl
          | some b₁ =>
              have hlower := hμ b s b₁ s₁ hround
              apply ih <;> omega

end Loops
