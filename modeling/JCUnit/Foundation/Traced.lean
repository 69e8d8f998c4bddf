import Mathlib.Logic.Basic

/-!
# Programs that list what they do

A value together with the events on the way to it, in order. What holds of every event is
proved along the program.
-/

structure Traced (ε α : Type) where
  value : α
  trace : List ε

namespace Traced

variable {ε α β : Type}

instance : Monad (Traced ε) where
  pure a := ⟨a, []⟩
  bind x f := ⟨(f x.value).value, x.trace ++ (f x.value).trace⟩

def tell (e : ε) : Traced ε Unit := ⟨(), [e]⟩

@[simp] theorem value_pure (a : α) : (pure a : Traced ε α).value = a := rfl

@[simp] theorem value_bind (x : Traced ε α) (f : α → Traced ε β) :
    (x >>= f).value = (f x.value).value := rfl

/-- Every event of the program has the property. -/
def Emits (P : ε → Prop) (x : Traced ε α) : Prop :=
  ∀ e ∈ x.trace, P e

variable {P : ε → Prop}

theorem Emits.pure (a : α) : Emits P (Pure.pure a : Traced ε α) := by
  intro e he
  cases he

theorem Emits.bind {x : Traced ε α} {f : α → Traced ε β} (hx : Emits P x)
    (hf : Emits P (f x.value)) : Emits P (x >>= f) := by
  intro e he
  rcases List.mem_append.mp he with he | he
  · exact hx e he
  · exact hf e he

/-- An event, and then the rest of the program. -/
theorem Emits.tell {e : ε} {x : Traced ε α} (he : P e) (hx : Emits P x) :
    Emits P (Traced.tell e >>= fun _ => x) := by
  intro e' he'
  rcases List.mem_cons.mp he' with rfl | he'
  · exact he
  · exact hx e' he'

end Traced
