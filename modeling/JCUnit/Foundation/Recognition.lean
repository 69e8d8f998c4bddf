import JCUnit.Foundation.StateError

/-!
# Programs that recognize a grammar

A reader consumes a front of what is left of its input. It recognizes a relation between what
is left before it, its value and what is left behind it when it succeeds exactly in this
relation, and it rejects exactly where it stops with one chosen error. The rules put the
relations of a program's steps together.
-/

namespace Recognition

open StateError

variable {ε σ ρ α β : Type}

/-- What a reader comes to: a value and a rest that alone have `R`, or an error, which is `stop`
exactly if `N` holds. -/
def ComesTo (Left : σ → ρ → Prop) (stop : ε) (R : α → ρ → Prop) (N : Prop) :
    EStateM.Result ε σ α → Prop
  | .ok a s => ¬ N ∧ ∃ r, Left s r ∧ ∀ b t, R b t ↔ b = a ∧ t = r
  | .error e _ => (∀ b t, ¬ R b t) ∧ (N ↔ e = stop)

/-- From a state with `r` left, the reader has a value and leaves something behind exactly as `R`
says, and stops with `stop` exactly where `N` says so. -/
def Recognizes (Left : σ → ρ → Prop) (stop : ε) (x : EStateM ε σ α) (R : ρ → α → ρ → Prop)
    (N : ρ → Prop) : Prop :=
  ∀ s r, Left s r → ComesTo Left stop (R r) (N r) (x s)

variable {Left : σ → ρ → Prop} {stop : ε} {x : EStateM ε σ α} {R R' : ρ → α → ρ → Prop}
  {N N' : ρ → Prop}

theorem ComesTo.congr {R R' : α → ρ → Prop} {N N' : Prop} {result : EStateM.Result ε σ α}
    (h : ComesTo Left stop R N result) (hR : ∀ a t, R' a t ↔ R a t) (hN : N' ↔ N) :
    ComesTo Left stop R' N' result := by
  cases result with
  | ok a s =>
      obtain ⟨hstop, r, hs, hiff⟩ := h
      refine ⟨mt hN.mp hstop, r, hs, ?_⟩
      intro b t
      rw [hR, hiff]
  | error e s =>
      refine ⟨?_, hN.trans h.2⟩
      intro b t hread
      exact h.1 b t ((hR b t).mp hread)

theorem Recognizes.congr (h : Recognizes Left stop x R N) (hR : ∀ r a t, R' r a t ↔ R r a t)
    (hN : ∀ r, N' r ↔ N r) : Recognizes Left stop x R' N' :=
  fun s r hs => (h s r hs).congr (hR r) (hN r)

theorem Recognizes.pure (a : α) :
    Recognizes Left stop (Pure.pure a) (fun r b t => b = a ∧ t = r) fun _ => False :=
  fun _ r hs => ⟨not_false, r, hs, fun _ _ => Iff.rfl⟩

theorem Recognizes.throw :
    Recognizes Left stop (MonadExcept.throw stop : EStateM ε σ α) (fun _ _ _ => False)
      fun _ => True :=
  fun _ _ _ => ⟨fun _ _ => not_false, iff_of_true trivial rfl⟩

theorem Recognizes.bind {f : α → EStateM ε σ β} {S : α → ρ → β → ρ → Prop} {M : α → ρ → Prop}
    (hx : Recognizes Left stop x R N) (hf : ∀ a, Recognizes Left stop (f a) (S a) (M a)) :
    Recognizes Left stop (x >>= f) (fun r b t => ∃ a r', R r a r' ∧ S a r' b t)
      fun r => N r ∨ ∃ a r', R r a r' ∧ M a r' := by
  intro s r hs
  have hfirst := hx s r hs
  cases hrun : x s with
  | error e s' =>
      rw [hrun] at hfirst
      rw [bind_of_error hrun]
      refine ⟨?_, ?_⟩
      · rintro b t ⟨a, r', hread, -⟩
        exact hfirst.1 a r' hread
      · rw [← hfirst.2]
        refine ⟨?_, .inl⟩
        rintro (hstop | ⟨a, r', hread, -⟩)
        · exact hstop
        · exact absurd hread (hfirst.1 a r')
  | ok a s' =>
      rw [hrun] at hfirst
      obtain ⟨hstop, r', hs', hiff⟩ := hfirst
      have hread : R r a r' := (hiff a r').mpr ⟨rfl, rfl⟩
      have hsecond := hf a s' r' hs'
      rw [bind_of_ok hrun]
      cases hnext : f a s' with
      | ok b s'' =>
          rw [hnext] at hsecond
          obtain ⟨hstop', t', hs'', hiff'⟩ := hsecond
          refine ⟨?_, t', hs'', ?_⟩
          · rintro (hN | ⟨a', r'', hread', hM⟩)
            · exact hstop hN
            · obtain ⟨rfl, rfl⟩ := (hiff a' r'').mp hread'
              exact hstop' hM
          · intro c t
            rw [← hiff' c t]
            constructor
            · rintro ⟨a', r'', hread', hS⟩
              obtain ⟨rfl, rfl⟩ := (hiff a' r'').mp hread'
              exact hS
            · intro hS
              exact ⟨a, r', hread, hS⟩
      | error e s'' =>
          rw [hnext] at hsecond
          refine ⟨?_, ?_⟩
          · rintro c t ⟨a', r'', hread', hS⟩
            obtain ⟨rfl, rfl⟩ := (hiff a' r'').mp hread'
            exact hsecond.1 c t hS
          · rw [← hsecond.2]
            constructor
            · rintro (hN | ⟨a', r'', hread', hM⟩)
              · exact absurd hN hstop
              · obtain ⟨rfl, rfl⟩ := (hiff a' r'').mp hread'
                exact hM
            · intro hM
              exact .inr ⟨a, r', hread, hM⟩

/-- A first step that never stops with the chosen error. -/
theorem Recognizes.then {f : α → EStateM ε σ β} {S : α → ρ → β → ρ → Prop} {M : α → ρ → Prop}
    (hx : Recognizes Left stop x R fun _ => False)
    (hf : ∀ a, Recognizes Left stop (f a) (S a) (M a)) :
    Recognizes Left stop (x >>= f) (fun r b t => ∃ a r', R r a r' ∧ S a r' b t)
      fun r => ∃ a r', R r a r' ∧ M a r' :=
  (hx.bind hf).congr (fun _ _ _ => Iff.rfl) fun _ => (or_iff_right not_false).symm

theorem Recognizes.ok (h : Recognizes Left stop x R N) {s : σ} {r : ρ} (hs : Left s r)
    {a : α} {s' : σ} (hx : x s = .ok a s') : ∃ r', R r a r' := by
  have hrun := h s r hs
  rw [hx] at hrun
  obtain ⟨-, r', -, hiff⟩ := hrun
  exact ⟨r', (hiff a r').mpr ⟨rfl, rfl⟩⟩

end Recognition
