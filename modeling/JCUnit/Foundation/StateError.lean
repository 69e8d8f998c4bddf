import Mathlib.Data.List.Basic

/-!
# Rules for programs with errors

A program of `EStateM ε σ` ends in a value or in an error, and keeps the state
it has reached in both cases. The rules run a bind forward from a known first
step and take a successful bind apart. The same rules hold without a state, for
`Except ε`, with the rules of the two loops over a list.
-/

namespace StateError

section WithState

variable {ε σ α β : Type}

theorem bind_of_ok {x : EStateM ε σ α} {s s' : σ} {a : α} (h : x s = .ok a s')
    (f : α → EStateM ε σ β) : (x >>= f) s = f a s' := by
  change EStateM.bind x f s = _
  simp only [EStateM.bind, h]

theorem bind_of_error {x : EStateM ε σ α} {s s' : σ} {e : ε} (h : x s = .error e s')
    (f : α → EStateM ε σ β) : (x >>= f) s = .error e s' := by
  change EStateM.bind x f s = _
  simp only [EStateM.bind, h]

theorem bind_eq_ok {x : EStateM ε σ α} {f : α → EStateM ε σ β} {s s'' : σ} {b : β}
    (h : (x >>= f) s = .ok b s'') : ∃ a s', x s = .ok a s' ∧ f a s' = .ok b s'' := by
  cases hx : x s with
  | ok a s' => exact ⟨a, s', rfl, by rwa [bind_of_ok hx] at h⟩
  | error e s' =>
      rw [bind_of_error hx] at h
      cases h

theorem bind_eq_error {x : EStateM ε σ α} {f : α → EStateM ε σ β} {s s'' : σ} {e : ε}
    (h : (x >>= f) s = .error e s'') :
    x s = .error e s'' ∨ ∃ a s', x s = .ok a s' ∧ f a s' = .error e s'' := by
  cases hx : x s with
  | ok a s' => exact Or.inr ⟨a, s', rfl, by rwa [bind_of_ok hx] at h⟩
  | error e' s' =>
      rw [bind_of_error hx] at h
      cases h
      exact Or.inl rfl

theorem pure_eq_ok {s s' : σ} {a b : α} :
    (pure a : EStateM ε σ α) s = .ok b s' ↔ a = b ∧ s = s' := by
  change EStateM.Result.ok a s = .ok b s' ↔ _
  simp

theorem run'_eq_some {x : EStateM ε σ α} {s : σ} {a : α} (h : x.run' s = some a) :
    ∃ s', x s = .ok a s' := by
  unfold EStateM.run' EStateM.run at h
  cases hx : x s with
  | ok b s' =>
      rw [hx] at h
      exact ⟨s', congrArg (EStateM.Result.ok · s') (Option.some.inj h)⟩
  | error e s' =>
      rw [hx] at h
      cases h

/-- Every successful run from a state with the invariant ends in one, with a value that
meets `Q`. -/
def Keeps (I : σ → Prop) (x : EStateM ε σ α) (Q : α → Prop) : Prop :=
  ∀ s a s', I s → x s = .ok a s' → I s' ∧ Q a

variable {I : σ → Prop} {Q : α → Prop}

theorem Keeps.pure {a : α} (h : Q a) : Keeps I (Pure.pure a : EStateM ε σ α) Q := by
  intro s b s' hs hrun
  obtain ⟨rfl, rfl⟩ := pure_eq_ok.mp hrun
  exact ⟨hs, h⟩

theorem Keeps.throw (e : ε) : Keeps I (MonadExcept.throw e : EStateM ε σ α) Q := by
  intro s b s' _ hrun
  cases hrun

theorem Keeps.get : Keeps I (MonadState.get : EStateM ε σ σ) I := by
  intro s b s' hs hrun
  cases hrun
  exact ⟨hs, hs⟩

theorem Keeps.bind {x : EStateM ε σ α} {f : α → EStateM ε σ β} {P : α → Prop} {Q : β → Prop}
    (hx : Keeps I x P) (hf : ∀ a, P a → Keeps I (f a) Q) : Keeps I (x >>= f) Q := by
  intro s b s'' hs hrun
  obtain ⟨a, s', ha, hb⟩ := bind_eq_ok hrun
  obtain ⟨hs', hP⟩ := hx s a s' hs ha
  exact hf a hP s' b s'' hs' hb

section EndsAs

variable {γ δ : Type}

/-- From `s`, the program fails where `y` does and with the same error, or ends with a value and
in a state that are related to the value of `y`. -/
def EndsAs (x : EStateM ε σ α) (s : σ) (y : Except ε γ) (Q : γ → α → σ → Prop) : Prop :=
  (∀ e, y = .error e → ∃ s', x s = .error e s') ∧
    ∀ c, y = .ok c → ∃ a s', x s = .ok a s' ∧ Q c a s'

variable {x : EStateM ε σ α} {s s' : σ}

theorem EndsAs.ok {c : γ} {a : α} {Q : γ → α → σ → Prop} (hx : x s = .ok a s') (h : Q c a s') :
    EndsAs x s (.ok c) Q := by
  constructor
  · intro e he
    cases he
  · intro d hd
    cases hd
    exact ⟨a, s', hx, h⟩

theorem EndsAs.error {e : ε} {Q : γ → α → σ → Prop} (hx : x s = .error e s') :
    EndsAs x s (.error e) Q := by
  constructor
  · intro e' he
    cases he
    exact ⟨s', hx⟩
  · intro d hd
    cases hd

theorem EndsAs.after {a : α} {f : α → EStateM ε σ β} {y : Except ε γ} {Q : γ → β → σ → Prop}
    (hx : x s = .ok a s') (h : EndsAs (f a) s' y Q) : EndsAs (x >>= f) s y Q := by
  unfold EndsAs
  rw [bind_of_ok hx]
  exact h

theorem EndsAs.bind {f : α → EStateM ε σ β} {y : Except ε γ} {g : γ → Except ε δ}
    {P : γ → α → σ → Prop} {Q : δ → β → σ → Prop} (hx : EndsAs x s y P)
    (hf : ∀ c a s', y = .ok c → P c a s' → EndsAs (f a) s' (g c) Q) :
    EndsAs (x >>= f) s (y >>= g) Q := by
  cases hy : y with
  | error e =>
      obtain ⟨s', hrun⟩ := hx.1 e hy
      exact .error (bind_of_error hrun f)
  | ok c =>
      obtain ⟨a, s', hrun, hP⟩ := hx.2 c hy
      exact .after hrun (hf c a s' hy hP)

end EndsAs

section Yields

variable {E : ε → σ → Prop} {P P' : σ → Prop} {Q : α → σ → Prop}

/-- From every state with `P`, the program ends with a value and in a state with `Q`, or fails
with an error and in a state with `E`. -/
def Yields (E : ε → σ → Prop) (P : σ → Prop) (x : EStateM ε σ α) (Q : α → σ → Prop) : Prop :=
  ∀ s, P s → match x s with
    | .ok a s' => Q a s'
    | .error e s' => E e s'

theorem Yields.pure {a : α} (h : ∀ s, P s → Q a s) :
    Yields E P (Pure.pure a : EStateM ε σ α) Q :=
  fun s hs => h s hs

theorem Yields.throw {e : ε} (h : ∀ s, P s → E e s) :
    Yields E P (MonadExcept.throw e : EStateM ε σ α) Q :=
  fun s hs => h s hs

theorem Yields.bind {x : EStateM ε σ α} {f : α → EStateM ε σ β} {R : β → σ → Prop}
    (hx : Yields E P x Q) (hf : ∀ a, Yields E (Q a) (f a) R) : Yields E P (x >>= f) R := by
  intro s hs
  have hfirst := hx s hs
  cases hrun : x s with
  | ok a s' =>
      rw [hrun] at hfirst
      rw [bind_of_ok hrun]
      exact hf a s' hfirst
  | error e s' =>
      rw [hrun] at hfirst
      rw [bind_of_error hrun]
      exact hfirst

/-- Reading the state: the rest of the program runs from the state that was read. -/
theorem Yields.get_bind {f : σ → EStateM ε σ α} (hf : ∀ s, P s → Yields E (· = s) (f s) Q) :
    Yields E P (get >>= f) Q :=
  fun s hs => hf s hs s rfl

/-- From fewer states the program ends and fails in the same ones. -/
theorem Yields.mono {x : EStateM ε σ α} (h : Yields E P x Q) (hP : ∀ s, P' s → P s) :
    Yields E P' x Q :=
  fun s hs => h s (hP s hs)

theorem Yields.post {x : EStateM ε σ α} {R : α → σ → Prop} (h : Yields E P x Q)
    (hQ : ∀ a s, Q a s → R a s) : Yields E P x R := by
  intro s hs
  have hrun := h s hs
  cases hx : x s with
  | ok a s' =>
      rw [hx] at hrun
      exact hQ a s' hrun
  | error e s' =>
      rw [hx] at hrun
      exact hrun

theorem Yields.ok {x : EStateM ε σ α} {s s' : σ} {a : α} (h : Yields E P x Q) (hs : P s)
    (hx : x s = .ok a s') : Q a s' := by
  have hrun := h s hs
  rwa [hx] at hrun

theorem Yields.error {x : EStateM ε σ α} {s s' : σ} {e : ε} (h : Yields E P x Q) (hs : P s)
    (hx : x s = .error e s') : E e s' := by
  have hrun := h s hs
  rwa [hx] at hrun

end Yields

end WithState

section WithoutState

variable {ε α β : Type}

theorem except_ok_bind (a : α) (f : α → Except ε β) : (Except.ok a >>= f) = f a := rfl

theorem except_bind_eq_ok {x : Except ε α} {f : α → Except ε β} {b : β}
    (h : (x >>= f) = .ok b) : ∃ a, x = .ok a ∧ f a = .ok b := by
  cases x with
  | error e => cases h
  | ok a => exact ⟨a, rfl, h⟩

/-- What one round of a loop preserves, the loop preserves. -/
theorem foldlM_invariant {P : β → Prop} {step : β → α → Except ε β}
    (hstep : ∀ b a b', P b → step b a = .ok b' → P b') {items : List α} {b b' : β} (hb : P b)
    (h : items.foldlM step b = .ok b') : P b' := by
  induction items generalizing b with
  | nil =>
      cases h
      exact hb
  | cons a items ih =>
      rw [List.foldlM_cons] at h
      obtain ⟨c, hc, h⟩ := except_bind_eq_ok h
      exact ih (hstep b a c hb hc) h

/-- An invariant of a loop that speaks of the items it has been through. -/
theorem foldlM_prefix {P : List α → β → Prop} {step : β → α → Except ε β}
    (hstep : ∀ done b a b', P done b → step b a = .ok b' → P (done ++ [a]) b') {items done : List α}
    {b b' : β} (hb : P done b) (h : items.foldlM step b = .ok b') : P (done ++ items) b' := by
  induction items generalizing done b with
  | nil =>
      cases h
      rwa [List.append_nil]
  | cons a items ih =>
      rw [List.foldlM_cons] at h
      obtain ⟨c, hc, h⟩ := except_bind_eq_ok h
      have hrest := ih (hstep done b a c hb hc) h
      rwa [List.append_assoc] at hrest

/-- A loop that fails does so in the round for one of its items. -/
theorem foldlM_eq_error {step : β → α → Except ε β} {items : List α} {b : β} {e : ε}
    (h : items.foldlM step b = .error e) :
    ∃ front a back b', items = front ++ a :: back ∧ front.foldlM step b = .ok b' ∧
      step b' a = .error e := by
  induction items generalizing b with
  | nil => cases h
  | cons a items ih =>
      rw [List.foldlM_cons] at h
      cases hfirst : step b a with
      | error e' =>
          rw [hfirst] at h
          cases h
          exact ⟨[], a, items, b, rfl, rfl, hfirst⟩
      | ok c =>
          rw [hfirst] at h
          obtain ⟨front, last, back, b', rfl, hfront, hlast⟩ := ih h
          refine ⟨a :: front, last, back, b', rfl, ?_, hlast⟩
          rw [List.foldlM_cons, hfirst]
          exact hfront

/-- A loop inside a loop goes through the items of all lists in order. -/
theorem foldlM_flatMap {σ : Type} (items : α → List β) (step : σ → β → Except ε σ) (outer : List α)
    (s : σ) : outer.foldlM (fun s a => (items a).foldlM step s) s =
      (outer.flatMap items).foldlM step s := by
  induction outer generalizing s with
  | nil => rfl
  | cons a outer ih =>
      rw [List.foldlM_cons, List.flatMap_cons, List.foldlM_append]
      congr 1
      funext s'
      exact ih s'

/-- What every result of a loop's body has, every collected result has. -/
theorem mapM_results {P : β → Prop} {f : α → Except ε β} (hf : ∀ a b, f a = .ok b → P b)
    {items : List α} {results : List β} (h : items.mapM f = .ok results) : ∀ b ∈ results, P b := by
  induction items generalizing results with
  | nil =>
      cases h
      intro b hb
      cases hb
  | cons a items ih =>
      rw [List.mapM_cons] at h
      obtain ⟨b, hb, h⟩ := except_bind_eq_ok h
      obtain ⟨rest, hrest, h⟩ := except_bind_eq_ok h
      cases h
      exact List.forall_mem_cons.mpr ⟨hf a b hb, ih hrest⟩

theorem length_mapM {f : α → Except ε β} {items : List α} {results : List β}
    (h : items.mapM f = .ok results) : results.length = items.length := by
  induction items generalizing results with
  | nil =>
      cases h
      rfl
  | cons a items ih =>
      rw [List.mapM_cons] at h
      obtain ⟨b, -, h⟩ := except_bind_eq_ok h
      obtain ⟨rest, hrest, h⟩ := except_bind_eq_ok h
      cases h
      exact congrArg (· + 1) (ih hrest)

/-- The result at an index is that of the item at this index. -/
theorem mapM_getElem? {f : α → Except ε β} {items : List α} {results : List β} {a : α} {b : β}
    {k : Nat} (h : items.mapM f = .ok results) (ha : items[k]? = some a)
    (hb : results[k]? = some b) : f a = .ok b := by
  induction items generalizing results k with
  | nil => cases ha
  | cons head items ih =>
      rw [List.mapM_cons] at h
      obtain ⟨first, hfirst, h⟩ := except_bind_eq_ok h
      obtain ⟨rest, hrest, h⟩ := except_bind_eq_ok h
      cases h
      cases k with
      | zero =>
          obtain rfl := Option.some.inj ha
          obtain rfl := Option.some.inj hb
          exact hfirst
      | succ k => exact ih hrest ha hb

/-- One item exchanged for another exchanges one result. -/
theorem mapM_set {f : α → Except ε β} {items : List α} {results : List β} {a : α} {b : β}
    (k : Nat) (h : items.mapM f = .ok results) (hf : f a = .ok b) :
    (items.set k a).mapM f = .ok (results.set k b) := by
  induction items generalizing results k with
  | nil =>
      cases h
      rfl
  | cons head items ih =>
      rw [List.mapM_cons] at h
      obtain ⟨first, hfirst, h⟩ := except_bind_eq_ok h
      obtain ⟨rest, hrest, h⟩ := except_bind_eq_ok h
      cases h
      cases k with
      | zero =>
          rw [List.set_cons_zero, List.mapM_cons, hf, hrest]
          rfl
      | succ k =>
          rw [List.set_cons_succ, List.mapM_cons, hfirst, ih k hrest]
          rfl

section Corresponds

variable {γ γ' α' β' : Type}

/-- Both programs fail with the same error, or they end with related values. -/
inductive Corresponds (R : α → α' → Prop) : Except ε α → Except ε α' → Prop
  | error (e : ε) : Corresponds R (.error e) (.error e)
  | ok {a : α} {a' : α'} (h : R a a') : Corresponds R (.ok a) (.ok a')

variable {R : α → α' → Prop} {x : Except ε α} {x' : Except ε α'}

theorem Corresponds.bind {S : β → β' → Prop} {f : α → Except ε β} {f' : α' → Except ε β'}
    (hx : Corresponds R x x') (hf : ∀ a a', R a a' → Corresponds S (f a) (f' a')) :
    Corresponds S (x >>= f) (x' >>= f') := by
  cases hx with
  | error e => exact .error e
  | ok h => exact hf _ _ h

/-- The first program goes on to a value of its own. -/
theorem Corresponds.bind_value {S : β → α' → Prop} {f : α → β} (hx : Corresponds R x x')
    (hf : ∀ a a', R a a' → S (f a) a') :
    Corresponds S (x >>= fun a => .ok (f a)) x' := by
  cases hx with
  | error e => exact .error e
  | ok h => exact .ok (hf _ _ h)

/-- Two programs that begin in the same way. -/
theorem Corresponds.bind_self {S : β → β' → Prop} (x : Except ε α) {f : α → Except ε β}
    {f' : α → Except ε β'} (hf : ∀ a, Corresponds S (f a) (f' a)) :
    Corresponds S (x >>= f) (x >>= f') := by
  cases x with
  | error e => exact .error e
  | ok a => exact hf a

/-- Loops correspond whose rounds do. -/
theorem Corresponds.foldlM {step : α → γ → Except ε α} {step' : α' → γ → Except ε α'}
    (hstep : ∀ a a' c, R a a' → Corresponds R (step a c) (step' a' c)) (items : List γ) {a : α}
    {a' : α'} (h : R a a') : Corresponds R (items.foldlM step a) (items.foldlM step' a') := by
  induction items generalizing a a' with
  | nil => exact .ok h
  | cons c items ih =>
      rw [List.foldlM_cons, List.foldlM_cons]
      exact (hstep a a' c h).bind fun b b' hb => ih hb

/-- Loops are the same over items that are taken alike. -/
theorem foldlM_eq_of_forall₂ {items : List γ} {items' : List γ'} {S : γ → γ' → Prop}
    {step : α → γ → Except ε α} {step' : α → γ' → Except ε α} (h : List.Forall₂ S items items')
    (hstep : ∀ a c c', S c c' → step a c = step' a c') (a : α) :
    items.foldlM step a = items'.foldlM step' a := by
  induction h generalizing a with
  | nil => rfl
  | cons hitem _ ih =>
      rw [List.foldlM_cons, List.foldlM_cons, hstep a _ _ hitem]
      exact congrArg (step' a _ >>= ·) (funext ih)

theorem Corresponds.eq_ok (h : Corresponds R x x') {a' : α'} (hx' : x' = .ok a') :
    ∃ a, x = .ok a ∧ R a a' := by
  cases h with
  | error e => cases hx'
  | ok h =>
      cases hx'
      exact ⟨_, rfl, h⟩

end Corresponds

end WithoutState

end StateError
