import JCUnit.Foundation.StateError

/-!
# Loops that end with a value

A round either goes on with new values of the local variables or ends the loop. The number
of rounds is bounded; a loop whose rounds lower a measure ends before any bound above it.
-/

namespace Iteration

open StateError

variable {ε σ β γ : Type}

/-- At most this many rounds. -/
def iterate (diverged : ε) (round : β → EStateM ε σ (β ⊕ γ)) : Nat → β → EStateM ε σ γ
  | 0, _ => throw diverged
  | rounds + 1, b => do
      match ← round b with
      | .inl b => iterate diverged round rounds b
      | .inr c => return c

variable {diverged : ε} {round : β → EStateM ε σ (β ⊕ γ)} {E : ε → σ → Prop}

/-- The rounds hand on less and less; what a round may leave at its end does not depend on
where it started. The loop then ends, without reaching its bound. -/
theorem iterate_yields {P : Nat → β → σ → Prop} {Q : Nat → γ → σ → Prop}
    (hQ : ∀ {m n c s}, m ≤ n → Q m c s → Q n c s)
    (hround : ∀ b n, Yields E (P n b) (round b) fun next s =>
      Sum.elim (fun b' => ∃ m, m < n ∧ P m b' s) (fun c => Q n c s) next)
    {rounds n : Nat} (h : n < rounds) (b : β) :
    Yields E (P n b) (iterate diverged round rounds b) (Q n) := by
  induction rounds generalizing n b with
  | zero => exact absurd h (Nat.not_lt_zero _)
  | succ rounds ih =>
      apply (hround b n).bind
      intro next
      cases next with
      | inl b' =>
          rintro s ⟨m, hlt, hs⟩
          exact (ih (by omega) b').post (fun _ _ => hQ (Nat.le_of_lt hlt)) s hs
      | inr c => exact Yields.pure fun _ hs => hs

end Iteration
