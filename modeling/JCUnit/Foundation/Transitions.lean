import Mathlib.Order.Basic
import Mathlib.Tactic.Push

/-!
# Runs of a step function

A system is a step function on its states, which has no result where an action
cannot be taken. A run takes the actions of a list in order; a run under a
condition takes only steps that meet it. Where every step lowers a measure, each
run can be carried on until no action can be taken.
-/

namespace Transitions

variable {σ α : Type} {step : σ → α → Option σ} {allowed : σ → α → Bool}

/-- The state after these actions, if each can be taken in a step that is allowed. -/
def run (step : σ → α → Option σ) (allowed : σ → α → Bool) (s : σ) : List α → Option σ
  | [] => some s
  | a :: actions =>
      if allowed s a then
        match step s a with
        | some s' => run step allowed s' actions
        | none => none
      else none

theorem run_cons {s s'' : σ} {a : α} {actions : List α}
    (h : run step allowed s (a :: actions) = some s'') :
    ∃ s', allowed s a = true ∧ step s a = some s' ∧ run step allowed s' actions = some s'' := by
  rw [run] at h
  split at h
  · rename_i hallowed
    cases hs : step s a with
    | none =>
        rw [hs] at h
        cases h
    | some s' =>
        rw [hs] at h
        exact ⟨s', hallowed, rfl, h⟩
  · cases h

/-- What every allowed step of the run preserves holds at its end. -/
theorem run_invariant {I : σ → Prop} {actions : List α} {s s' : σ}
    (hstep : ∀ s a s', a ∈ actions → I s → allowed s a = true → step s a = some s' → I s')
    (hs : I s) (h : run step allowed s actions = some s') : I s' := by
  induction actions generalizing s with
  | nil =>
      cases h
      exact hs
  | cons a actions ih =>
      obtain ⟨t, hallowed, ht, hrest⟩ := run_cons h
      apply ih
      · intro u b u' hb
        exact hstep u b u' (List.mem_cons_of_mem a hb)
      · exact hstep s a t List.mem_cons_self hs hallowed ht
      · exact hrest

/-- Some run leads from one state to the other. -/
def Reaches (step : σ → α → Option σ) (s t : σ) : Prop :=
  ∃ actions, run step (fun _ _ => true) s actions = some t

theorem Reaches.refl (s : σ) : Reaches step s s :=
  ⟨[], rfl⟩

theorem Reaches.head {s t u : σ} {a : α} (hstep : step s a = some t) (h : Reaches step t u) :
    Reaches step s u := by
  obtain ⟨actions, hrun⟩ := h
  refine ⟨a :: actions, ?_⟩
  rw [run, if_pos rfl, hstep]
  exact hrun

/-- What every step preserves holds in every state that is reached. -/
theorem Reaches.invariant {I : σ → Prop} (hstep : ∀ s a s', I s → step s a = some s' → I s')
    {s t : σ} (hs : I s) (h : Reaches step s t) : I t := by
  obtain ⟨actions, hrun⟩ := h
  apply run_invariant (I := I) ?_ hs hrun
  intro u a u' _ hu _ hu'
  exact hstep u a u' hu hu'

/-- If every step lowers a measure, every state reaches one without a step. -/
theorem exists_reaches_stuck (μ : σ → Nat) (hμ : ∀ s a s', step s a = some s' → μ s' < μ s)
    (s : σ) : ∃ t, Reaches step s t ∧ ∀ a, step t a = none := by
  induction hn : μ s using Nat.strongRecOn generalizing s with
  | ind n ih =>
      by_cases hstuck : ∀ a, step s a = none
      · exact ⟨s, Reaches.refl s, hstuck⟩
      · push Not at hstuck
        obtain ⟨a, ha⟩ := hstuck
        obtain ⟨s', hs'⟩ := Option.ne_none_iff_exists'.mp ha
        have hlower := hμ s a s' hs'
        rw [hn] at hlower
        obtain ⟨t, hreach, ht⟩ := ih (μ s') hlower s' rfl
        exact ⟨t, hreach.head hs', ht⟩

section Trails

variable {R : σ → α → σ → Prop}

/-- One recorded step: the state before it, what was done, and the state behind it. -/
structure Record (σ α : Type) where
  before : σ
  action : α
  after : σ
deriving DecidableEq

/-- The records of a run from `start`: each one is a step, taken where the last one ended. -/
inductive Trail (R : σ → α → σ → Prop) (start : σ) : List (Record σ α) → σ → Prop
  | start : Trail R start [] start
  | next {records : List (Record σ α)} {s t : σ} {a : α} (trail : Trail R start records s)
      (hstep : R s a t) : Trail R start (records ++ [⟨s, a, t⟩]) t

theorem Trail.step_of_mem {start s : σ} {records : List (Record σ α)} {record : Record σ α}
    (trail : Trail R start records s) (hmem : record ∈ records) :
    R record.before record.action record.after := by
  induction trail with
  | start => cases hmem
  | next trail hstep ih =>
      rcases List.mem_append.mp hmem with hearlier | hlast
      · exact ih hearlier
      · obtain rfl := List.mem_singleton.mp hlast
        exact hstep

/-- If `P` and `Q` say the same of every step from a state with the invariant, and a step
with `Q` keeps the invariant, then they say the same of a whole trail. -/
theorem Trail.forall_iff {I : σ → Prop} {P Q : Record σ α → Prop}
    (hiff : ∀ s a t, I s → R s a t → (P ⟨s, a, t⟩ ↔ Q ⟨s, a, t⟩))
    (hkeeps : ∀ s a t, I s → R s a t → Q ⟨s, a, t⟩ → I t) {start s : σ}
    {records : List (Record σ α)} (hstart : I start) (trail : Trail R start records s) :
    (∀ record ∈ records, P record) ↔ ∀ record ∈ records, Q record := by
  suffices h : ((∀ record ∈ records, P record) ↔ ∀ record ∈ records, Q record) ∧
      ((∀ record ∈ records, Q record) → I s) from h.1
  induction trail with
  | start => exact ⟨by simp, fun _ => hstart⟩
  | @next records s t a trail hstep ih =>
      obtain ⟨hall, hs⟩ := ih
      simp only [List.forall_mem_append, List.forall_mem_singleton]
      constructor
      · rw [hall]
        exact and_congr_right fun hQ => hiff s a t (hs hQ) hstep
      · rintro ⟨hQ, hlast⟩
        exact hkeeps s a t (hs hQ) hstep hlast

end Trails

end Transitions
