import JCUnit.Foundation.StateError

/-!
# Two programs side by side

A program is compared with a second one that starts from a related state, until the first
one has gone past a boundary from which no run comes back. A run that ends before the boundary
is one that the second program makes too, with the same value and to a related state.
-/

namespace StateError

variable {ε σ α β : Type} {Past : σ → Prop} {P : σ → σ → Prop} {R : α → σ → σ → Prop}

/-- Successful runs of `x` that end before the boundary are runs of `y` as well. -/
structure Tracks (Past : σ → Prop) (P : σ → σ → Prop) (x y : EStateM ε σ α)
    (R : α → σ → σ → Prop) : Prop where
  past : ∀ s a s', Past s → x s = .ok a s' → Past s'
  run : ∀ s t a s', P s t → x s = .ok a s' → ¬Past s' → ∃ t', y t = .ok a t' ∧ R a s' t'

theorem Tracks.pure {a : α} (h : ∀ s t, P s t → R a s t) :
    Tracks Past P (Pure.pure a : EStateM ε σ α) (Pure.pure a) R := by
  constructor
  · intro s b s' hpast hrun
    obtain ⟨rfl, rfl⟩ := pure_eq_ok.mp hrun
    exact hpast
  · intro s t b s' hst hrun _
    obtain ⟨rfl, rfl⟩ := pure_eq_ok.mp hrun
    exact ⟨t, rfl, h s t hst⟩

/-- A program that fails has no successful run to be compared. -/
theorem Tracks.throw (e : ε) (y : EStateM ε σ α) :
    Tracks Past P (MonadExcept.throw e : EStateM ε σ α) y R := by
  constructor
  · intro s a s' _ hrun
    cases hrun
  · intro s t a s' _ hrun _
    cases hrun

theorem Tracks.bind {x y : EStateM ε σ α} {f g : α → EStateM ε σ β} {T : β → σ → σ → Prop}
    (hx : Tracks Past P x y R) (hf : ∀ a, Tracks Past (R a) (f a) (g a) T) :
    Tracks Past P (x >>= f) (y >>= g) T := by
  constructor
  · intro s b s'' hpast hrun
    obtain ⟨a, s', ha, hb⟩ := bind_eq_ok hrun
    exact (hf a).past s' b s'' (hx.past s a s' hpast ha) hb
  · intro s t b s'' hst hrun hbefore
    obtain ⟨a, s', ha, hb⟩ := bind_eq_ok hrun
    have hbetween : ¬Past s' := fun hpast => hbefore ((hf a).past s' b s'' hpast hb)
    obtain ⟨t', ha', hR⟩ := hx.run s t a s' hst ha hbetween
    obtain ⟨t'', hb', hT⟩ := (hf a).run s' t' b s'' hR hb hbefore
    refine ⟨t'', ?_, hT⟩
    rw [bind_of_ok ha']
    exact hb'

/-- A program that looks at its state only up to `Q` may look at related states. -/
theorem Tracks.get_bind {f g : σ → EStateM ε σ β} {Q : σ → σ → Prop} {T : β → σ → σ → Prop}
    (hrefl : ∀ s, Q s s) (hPQ : ∀ s t, P s t → Q s t)
    (hf : ∀ s t, Q s t → Tracks Past P (f s) (g t) T) :
    Tracks Past P (MonadState.get >>= f) (MonadState.get >>= g) T := by
  constructor
  · intro s b s' hpast hrun
    exact (hf s s (hrefl s)).past s b s' hpast hrun
  · intro s t b s' hst hrun hbefore
    exact (hf s t (hPQ s t hst)).run s t b s' hst hrun hbefore

theorem Tracks.mono {x y : EStateM ε σ α} {P' : σ → σ → Prop} {R' : α → σ → σ → Prop}
    (h : Tracks Past P x y R) (hP : ∀ s t, P' s t → P s t) (hR : ∀ a s t, R a s t → R' a s t) :
    Tracks Past P' x y R' := by
  constructor
  · exact h.past
  · intro s t a s' hst hrun hbefore
    obtain ⟨t', hrun', hst'⟩ := h.run s t a s' (hP s t hst) hrun hbefore
    exact ⟨t', hrun', hR a s' t' hst'⟩

end StateError
