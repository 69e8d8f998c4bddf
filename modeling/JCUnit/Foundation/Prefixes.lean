import Mathlib.Data.List.Basic
import Mathlib.Data.List.Infix

/-!
# Prefixes of what a loop has appended

A trace is cut off anywhere. Where the trace is built by a loop whose rounds append,
the cut lies before the loop or in one of its rounds.
-/

namespace Prefixes

variable {α β : Type}

/-- A prefix ends in the first part, or has it and a prefix of the second. -/
theorem prefix_append_cases {p first second : List α} (h : p <+: first ++ second) :
    p <+: first ∨ ∃ q, q <+: second ∧ p = first ++ q := by
  rcases List.prefix_or_prefix_of_prefix h (List.prefix_append first second) with
    hinside | ⟨q, rfl⟩
  · exact Or.inl hinside
  · exact Or.inr ⟨q, (List.prefix_append_right_inj first).mp h, rfl⟩

/-- A prefix of a loop's trace ends before the loop, or in the round of one item. -/
theorem prefix_foldl_cases {write : List α → β → List α}
    (hwrite : ∀ trace item, trace <+: write trace item) {items : List β} {trace p : List α}
    (h : p <+: items.foldl write trace) :
    p <+: trace ∨ ∃ before item after, items = before ++ item :: after ∧
      before.foldl write trace <+: p ∧ p <+: write (before.foldl write trace) item := by
  induction items generalizing trace with
  | nil => exact Or.inl h
  | cons item items ih =>
      rcases ih h with hround | ⟨before, other, after, rfl, hstart, hend⟩
      · rcases List.prefix_or_prefix_of_prefix hround (hwrite trace item) with hbefore | hin
        · exact Or.inl hbefore
        · exact Or.inr ⟨[], item, items, rfl, hin, hround⟩
      · exact Or.inr ⟨item :: before, other, after, rfl, hstart, hend⟩

end Prefixes
