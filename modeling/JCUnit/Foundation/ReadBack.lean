import JCUnit.Foundation.StateError

/-!
# Reading back what was written

A reader reads a value back from a piece of input when it returns the value and
leaves exactly what stands behind the piece. The notion is relative to how a
reader's state presents its remaining input, so that it serves readers of a file
and readers of a buffer alike.
-/

namespace StateError

variable {ε σ α γ β : Type} {remaining : σ → List β → Prop}

/-- On any input that starts with `piece`, `read` returns `a` and leaves the rest. -/
def ReadsBack (remaining : σ → List β → Prop) (read : EStateM ε σ α) (piece : List β)
    (a : α) : Prop :=
  ∀ s rest, remaining s (piece ++ rest) → ∃ s', read s = .ok a s' ∧ remaining s' rest

theorem ReadsBack.pure (a : α) : ReadsBack remaining (Pure.pure a : EStateM ε σ α) [] a := by
  intro s rest h
  exact ⟨s, rfl, h⟩

theorem ReadsBack.bind {read : EStateM ε σ α} {next : α → EStateM ε σ γ} {first second : List β}
    {a : α} {c : γ} (hread : ReadsBack remaining read first a)
    (hnext : ReadsBack remaining (next a) second c) :
    ReadsBack remaining (read >>= next) (first ++ second) c := by
  intro s rest h
  rw [List.append_assoc] at h
  obtain ⟨s₁, hfirst, h₁⟩ := hread s (second ++ rest) h
  obtain ⟨s₂, hsecond, h₂⟩ := hnext s₁ rest h₁
  refine ⟨s₂, ?_, h₂⟩
  rw [bind_of_ok hfirst]
  exact hsecond

/-- The last step of a reader that assembles its result. -/
theorem ReadsBack.map {read : EStateM ε σ α} {piece : List β} {a : α}
    (hread : ReadsBack remaining read piece a) (f : α → γ) :
    ReadsBack remaining (read >>= fun value => Pure.pure (f value)) piece (f a) := by
  intro s rest h
  obtain ⟨s', hrun, h'⟩ := hread s rest h
  refine ⟨s', ?_, h'⟩
  rw [bind_of_ok hrun]
  rfl

end StateError
