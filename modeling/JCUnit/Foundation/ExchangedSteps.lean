import JCUnit.Foundation.StateError
import Mathlib.Data.List.Pairwise
import Mathlib.Data.List.Perm.Basic

/-!
# Loops whose steps can be exchanged

Two runs are compared up to the error they end in. If any two steps of a loop can be exchanged
in this sense, the loop may go through its items in any order.
-/

namespace StateError

variable {ε α β σ : Type}

/-- Both fail, or both end in the same value. -/
inductive SameValue : Except ε α → Except ε α → Prop
  | ok (a : α) : SameValue (.ok a) (.ok a)
  | error (e e' : ε) : SameValue (.error e) (.error e')

theorem SameValue.refl (x : Except ε α) : SameValue x x := by
  cases x with
  | ok a => exact .ok a
  | error e => exact .error e e

theorem SameValue.trans {x y z : Except ε α} (h : SameValue x y) (h' : SameValue y z) :
    SameValue x z := by
  cases h with
  | ok a => exact h'
  | error e e' =>
      cases h' with
      | error _ e'' => exact .error e e''

theorem SameValue.bind {x y : Except ε α} {f g : α → Except ε β} (h : SameValue x y)
    (hf : ∀ a, SameValue (f a) (g a)) : SameValue (x >>= f) (y >>= g) := by
  cases h with
  | ok a => exact hf a
  | error e e' => exact .error e e'

variable {step : σ → α → Except ε σ} {C : α → α → Prop}

/-- Items of which any two can be exchanged may be taken in any order. -/
theorem foldlM_perm (hsymm : ∀ {a b}, C a b → C b a)
    (hexchange : ∀ a b s, C a b →
      SameValue (step s a >>= fun s' => step s' b) (step s b >>= fun s' => step s' a))
    {items items' : List α} (hperm : items.Perm items') (hC : items.Pairwise C) (s : σ) :
    SameValue (items.foldlM step s) (items'.foldlM step s) := by
  induction hperm generalizing s with
  | nil => exact .refl _
  | cons a _ ih =>
      rw [List.foldlM_cons, List.foldlM_cons]
      exact (SameValue.refl _).bind fun s' => ih (List.pairwise_cons.mp hC).2 s'
  | swap a b items =>
      rw [List.foldlM_cons, List.foldlM_cons]
      simp only [List.foldlM_cons]
      rw [← bind_assoc, ← bind_assoc]
      have hba : C b a := (List.pairwise_cons.mp hC).1 a List.mem_cons_self
      exact (hexchange b a s hba).bind fun s' => .refl _
  | trans hfirst _ ih ih' =>
      exact (ih hC s).trans (ih' ((hfirst.pairwise_iff hsymm).mp hC) s)

end StateError
