import Mathlib.Data.List.Basic

/-!
# Loops that stop at a clash

A loop goes through a list with a summary of the elements it has passed, and ends in an error
at the first element that clashes with those before it. It fails for the lists in which there
is such an element, and else ends with the summary of the whole list.
-/

namespace StoppedScan

variable {α σ ε : Type}

/-- There is an element that clashes with those before it. -/
def Stopped (clash : List α → α → Prop) (xs : List α) : Prop :=
  ∃ earlier a later, xs = earlier ++ a :: later ∧ clash earlier a

/-- One round of the loop: an element that clashes ends it, any other goes into the summary. -/
structure Scans (clash : List α → α → Prop) (summary : List α → σ)
    (loop : List α → σ → Except ε σ) : Prop where
  ends : ∀ s, loop [] s = .ok s
  stops : ∀ before a rest, clash before a → ∃ e, loop (a :: rest) (summary before) = .error e
  goes : ∀ before a rest, ¬clash before a →
    loop (a :: rest) (summary before) = loop rest (summary (before ++ [a]))

variable {clash : List α → α → Prop} {summary : List α → σ} {loop : List α → σ → Except ε σ}
  {xs : List α} {a : α} {s : σ}

theorem not_stopped_nil : ¬Stopped clash [] := by
  rintro ⟨earlier, a, later, hsplit, -⟩
  cases earlier <;> cases hsplit

theorem stopped_cons :
    Stopped clash (a :: xs) ↔ clash [] a ∨ Stopped (fun earlier => clash (a :: earlier)) xs := by
  constructor
  · rintro ⟨earlier, b, later, hsplit, hclash⟩
    cases earlier with
    | nil =>
        cases hsplit
        exact .inl hclash
    | cons c earlier =>
        cases hsplit
        exact .inr ⟨earlier, b, later, rfl, hclash⟩
  · rintro (hclash | ⟨earlier, b, later, rfl, hclash⟩)
    · exact ⟨[], a, xs, rfl, hclash⟩
    · exact ⟨a :: earlier, b, later, rfl, hclash⟩

/-- The loop from the middle of a list on. -/
theorem Scans.run (h : Scans clash summary loop) (before rest : List α) :
    (Stopped (fun earlier => clash (before ++ earlier)) rest ∧
        ∃ e, loop rest (summary before) = .error e) ∨
      (¬Stopped (fun earlier => clash (before ++ earlier)) rest ∧
        loop rest (summary before) = .ok (summary (before ++ rest))) := by
  induction rest generalizing before with
  | nil =>
      refine .inr ⟨not_stopped_nil, ?_⟩
      rw [h.ends, List.append_nil]
  | cons a rest ih =>
      rw [stopped_cons, List.append_nil]
      by_cases hclash : clash before a
      · exact .inl ⟨.inl hclash, h.stops before a rest hclash⟩
      · rw [h.goes before a rest hclash]
        have hnext := ih (before ++ [a])
        simp only [List.append_assoc, List.singleton_append] at hnext
        apply hnext.imp
        · rintro ⟨hstopped, herror⟩
          exact ⟨.inr hstopped, herror⟩
        · rintro ⟨hpassed, hok⟩
          exact ⟨fun hstopped => hstopped.elim hclash hpassed, hok⟩

/-- The loop passes a list in which nothing clashes, and no other. -/
theorem Scans.eq_ok_iff (h : Scans clash summary loop) :
    loop xs (summary []) = .ok s ↔ ¬Stopped clash xs ∧ summary xs = s := by
  obtain ⟨hstopped, e, herror⟩ | ⟨hpassed, hok⟩ := h.run [] xs
  · constructor
    · intro hrun
      rw [herror] at hrun
      cases hrun
    · rintro ⟨hpassed, -⟩
      exact absurd hstopped hpassed
  · rw [hok]
    constructor
    · intro hrun
      exact ⟨hpassed, Except.ok.inj hrun⟩
    · rintro ⟨-, rfl⟩
      rfl

end StoppedScan
