import JCUnit.Frontend.LoopRounds

/-!
# The front end always ends

Every file, whatever its bytes are, is read to a list of tests or to a fatal error. What is
left of the input is counted in bytes and buffered tokens, and what a loop has read but not
yet dealt with counts as well: then a round of a loop that goes on leaves less.
-/

namespace JCUnit

open StateError Iteration

/-- What is left to be delivered: the bytes of the file and the buffered bytes and tokens. -/
def TokenizerContext.unspent (context : TokenizerContext) : Nat :=
  context.tokenBuffer.length + context.charBuffer.length + context.source.length

/-- The end of the file is not consumed, and can be read again. -/
def heldChar : Option Byte → Nat
  | some _ => 1
  | none => 0

def heldToken (token : Token) : Nat := if token = .eof then 0 else 1

theorem heldChar_le (ch : Option Byte) : heldChar ch ≤ 1 := by
  cases ch with
  | none => exact Nat.zero_le _
  | some b => exact Nat.le_refl _

theorem heldToken_le (token : Token) : heldToken token ≤ 1 := by
  unfold heldToken
  split <;> omega

theorem TokenizerContext.unspent_le_unread (context : TokenizerContext) :
    context.unspent ≤ context.unread := by
  have htokens : ∀ tokens : List Token,
      tokens.length ≤ (tokens.map fun token => token.text.length + 2).sum := by
    intro tokens
    induction tokens with
    | nil => exact Nat.le_refl _
    | cons token tokens ih =>
        rw [List.length_cons, List.map_cons, List.sum_cons]
        omega
  have hbuffered := htokens context.tokenBuffer
  unfold unspent unread
  omega

/-- The only errors are those that end jcunit with a message. -/
def FailsFatally (halt : Halt) (_ : TokenizerContext) : Prop :=
  ∃ message, halt = fatalError message

/-- With `held` in hand, the program makes no more of the input than it was given: at its end
the rest of it and what the value holds are within the same bound. -/
abbrev Spends {α : Type} (n held : Nat) (x : TokM α) (heldAfter : α → Nat) : Prop :=
  Yields FailsFatally (fun s => s.unspent + held ≤ n) x fun a s => s.unspent + heldAfter a ≤ n

section Rules

variable {α β γ : Type} {n held : Nat} {heldAfter : α → Nat}

theorem Spends.pure {a : α} (h : heldAfter a ≤ held) :
    Spends n held (Pure.pure a : TokM α) heldAfter :=
  Yields.pure fun _ hs => Nat.le_trans (Nat.add_le_add_left h _) hs

theorem Spends.fatal (message : Bytes) : Spends n held (JCUnit.fatal message : TokM α) heldAfter :=
  Yields.throw fun _ _ => ⟨message, rfl⟩

theorem Spends.setMode (mode : TokenizerMode) :
    Spends n held (JCUnit.setMode mode) fun _ => held :=
  fun _ hs => hs

theorem Spends.mono {heldMore : Nat} {x : TokM α} (h : Spends n held x heldAfter)
    (hheld : held ≤ heldMore) : Spends n heldMore x heldAfter :=
  Yields.mono h fun _ hs => Nat.le_trans (Nat.add_le_add_left hheld _) hs

theorem Spends.post {x : TokM α} {heldLess : α → Nat} (h : Spends n held x heldAfter)
    (hheld : ∀ a, heldLess a ≤ heldAfter a) : Spends n held x heldLess :=
  Yields.post h fun a _ hs => Nat.le_trans (Nat.add_le_add_left (hheld a) _) hs

/-- What else is in hand stays in hand. -/
theorem Spends.frame {x : TokM α} (h : ∀ n, Spends n held x heldAfter) (more : Nat) :
    Spends n (held + more) x fun a => heldAfter a + more := by
  intro s hs
  have hrun := h (n - more) s (by omega)
  cases hx : x s with
  | ok a s' =>
      rw [hx] at hrun
      dsimp only at hrun ⊢
      omega
  | error halt s' =>
      rw [hx] at hrun
      exact hrun

/-- A program that looks at the state is judged from the state it has looked at. -/
theorem Spends.get_bind {f : TokenizerContext → TokM α}
    (hf : ∀ s : TokenizerContext, Spends (s.unspent + held) held (f s) heldAfter) :
    Spends n held (get >>= f) heldAfter := by
  apply Yields.get_bind
  rintro s hs t rfl
  exact Yields.post (hf t) (fun _ _ h => Nat.le_trans h hs) t (Nat.le_refl _)

/-- A round that goes on leaves less than it was given. -/
def Advances (heldBefore : β → Nat) (heldEnd : γ → Nat) (round : β → TokM (β ⊕ γ)) : Prop :=
  ∀ n b, Spends n (heldBefore b) (round b) (Sum.elim (fun b' => heldBefore b' + 1) heldEnd)

/-- A round that goes on comes nearer to the limit. -/
def Limited (left : β → Nat) (round : β → TokM (β ⊕ γ)) : Prop :=
  ∀ b s b' s', round b s = .ok (.inl b') s' → left b' < left b

variable {heldBefore : β → Nat} {heldEnd : γ → Nat} {round : β → TokM (β ⊕ γ)}

theorem Advances.consumes (h : Advances heldBefore heldEnd round) {b b' : β}
    {s s' : TokenizerContext} (hrun : round b s = .ok (.inl b') s') :
    s'.unspent + heldBefore b' < s.unspent + heldBefore b :=
  (h _ b).ok (Nat.le_refl _) hrun

/-- With more rounds than there is input, the loop ends. -/
theorem Advances.spends (h : Advances heldBefore heldEnd round) {rounds : Nat} (hn : n < rounds)
    (b : β) : Spends n (heldBefore b) (iterate .diverged round rounds b) heldEnd := by
  refine iterate_yields (P := fun n b (s : TokenizerContext) => s.unspent + heldBefore b ≤ n)
    (Q := fun n c s => s.unspent + heldEnd c ≤ n) ?_ ?_ hn b
  · intro m n c s hmn hs
    exact Nat.le_trans hs hmn
  · intro b n
    apply Yields.post (h n b)
    intro next s hs
    cases next with
    | inl b' => exact ⟨s.unspent + heldBefore b', hs, Nat.le_refl _⟩
    | inr c => exact hs

/-- With more rounds than the limit allows, the loop ends. -/
theorem Advances.spends_limited (h : Advances heldBefore heldEnd round) {left : β → Nat}
    (hleft : Limited left round) {rounds : Nat} {b : β} (hb : left b < rounds) :
    Spends n (heldBefore b) (iterate .diverged round rounds b) heldEnd := by
  have hround : ∀ b m, Yields FailsFatally
      (fun s : TokenizerContext => left b ≤ m ∧ s.unspent + heldBefore b ≤ n) (round b)
      fun next s => Sum.elim (fun b' => ∃ k, k < m ∧ left b' ≤ k ∧ s.unspent + heldBefore b' ≤ n)
        (fun c => s.unspent + heldEnd c ≤ n) next := by
    rintro b m s ⟨hm, hs⟩
    have hspent := h n b s hs
    cases hrun : round b s with
    | error halt s' =>
        rw [hrun] at hspent
        exact hspent
    | ok next s' =>
        rw [hrun] at hspent
        cases next with
        | inl b' =>
            exact ⟨left b', Nat.lt_of_lt_of_le (hleft b s b' s' hrun) hm, Nat.le_refl _,
              Nat.le_of_succ_le hspent⟩
        | inr c => exact hspent
  have hloop : Yields FailsFatally
      (fun s : TokenizerContext => left b ≤ left b ∧ s.unspent + heldBefore b ≤ n)
      (iterate .diverged round rounds b) fun c s => s.unspent + heldEnd c ≤ n :=
    iterate_yields (Q := fun _ c (s : TokenizerContext) => s.unspent + heldEnd c ≤ n)
      (fun _ hs => hs) hround hb b
  exact hloop.mono fun _ hs => ⟨Nat.le_refl _, hs⟩

end Rules

section Tokenizer

variable {n : Nat}

theorem spends_getOneChar : Spends n 0 getOneChar heldChar := by
  rintro ⟨source, tokens, chars, mode⟩ hs
  cases chars with
  | cons b rest =>
      have hheld := heldChar_le (ofCharBuffer b)
      change tokens.length + (rest.length + 1) + source.length ≤ n at hs
      change tokens.length + rest.length + source.length + heldChar (ofCharBuffer b) ≤ n
      omega
  | nil =>
      cases source with
      | nil => exact hs
      | cons b rest => exact hs

theorem spends_ungetOneChar (ch : Option Byte) :
    Spends n (heldChar ch) (ungetOneChar ch) fun _ => 0 := by
  intro s hs
  by_cases hfull : s.charBuffer.length ≥ maxCharBufferSize
  · rw [show ungetOneChar ch s = _ from if_pos hfull]
    exact ⟨_, rfl⟩
  · rw [show ungetOneChar ch s = _ from if_neg hfull]
    cases ch with
    | none => exact hs
    | some b =>
        simp only [TokenizerContext.unspent, List.length_cons, heldChar] at hs ⊢
        omega

theorem spends_peekOneChar : Spends n 0 peekOneChar fun _ => 0 := by
  apply spends_getOneChar.bind
  intro ch
  apply (spends_ungetOneChar ch).bind
  intro _
  exact Spends.pure (Nat.le_refl _)

/-- The next character, with one already in hand. -/
theorem spends_nextChar : Spends n 1 getOneChar fun ch => heldChar ch + 1 :=
  (Spends.frame (fun _ => spends_getOneChar) 1).mono (Nat.le_refl _)

theorem advances_nameRound :
    Advances (fun _ => 1) (fun last : Bytes × Option Byte => heldChar last.2 + 1) nameRound := by
  intro n loop
  unfold nameRound
  dsimp only
  split
  · exact Spends.fatal _
  · apply spends_nextChar.bind
    intro next
    cases next with
    | none => exact Spends.pure (Nat.le_refl _)
    | some b =>
        dsimp only
        split
        · exact Spends.pure (Nat.le_refl _)
        · exact Spends.pure (Nat.le_refl _)

theorem limited_nameRound : Limited (fun loop => maxNameLen - (loop.1.length + 1)) nameRound := by
  rintro ⟨buffer, ch⟩ s b' s' hrun
  unfold nameRound at hrun
  dsimp only at hrun
  split at hrun
  · cases hrun
  · rename_i hroom
    obtain ⟨next, s₁, -, hrun⟩ := bind_eq_ok hrun
    have hnext : b'.1 = buffer ++ [ch] := by
      split at hrun
      · split at hrun
        · cases (pure_eq_ok.mp hrun).1
          rfl
        · cases (pure_eq_ok.mp hrun).1
      · cases (pure_eq_ok.mp hrun).1
    dsimp only
    rw [hnext]
    rw [List.length_append, List.length_singleton] at hroom ⊢
    omega

theorem spends_getOneName (ch : Byte) (kind : Bytes → Token) :
    Spends n 1 (getOneName ch kind) heldToken := by
  have hloop : Spends n 1 (getOneNameLoop (maxNameLen - 1) [] ch)
      fun last => heldChar last.2 + 1 := by
    have hroom : ([] : Bytes).length + (maxNameLen - 1) + 1 = maxNameLen := rfl
    rw [getOneNameLoop_eq hroom]
    exact advances_nameRound.spends_limited limited_nameRound (Nat.lt_succ_self _)
  apply hloop.bind
  rintro ⟨buffer, next⟩
  apply (Spends.frame (fun _ => spends_ungetOneChar next) 1).bind
  intro _
  exact Spends.pure (heldToken_le _)

theorem advances_stringRound :
    Advances (fun loop => heldChar loop.2) (fun _ : Bytes => 0) stringRound := by
  rintro n ⟨buffer, ch⟩
  unfold stringRound
  dsimp only
  split
  · exact Spends.fatal _
  · cases ch with
    | none => exact Spends.fatal _
    | some ch =>
        dsimp only
        split
        · exact Spends.pure (Nat.zero_le _)
        split
        · exact Spends.fatal _
        · apply spends_nextChar.bind
          intro next
          exact Spends.pure (Nat.le_refl _)

theorem limited_stringRound : Limited (fun loop => maxStringLen - loop.1.length) stringRound := by
  rintro ⟨buffer, ch⟩ s b' s' hrun
  unfold stringRound at hrun
  dsimp only at hrun
  split at hrun
  · cases hrun
  · rename_i hroom
    cases ch with
    | none => cases hrun
    | some ch =>
        dsimp only at hrun
        split at hrun
        · cases (pure_eq_ok.mp hrun).1
        split at hrun
        · cases hrun
        · obtain ⟨next, s₁, -, hrun⟩ := bind_eq_ok hrun
          cases (pure_eq_ok.mp hrun).1
          dsimp only
          rw [List.length_append, List.length_singleton]
          omega

theorem spends_getOneString : Spends n 1 getOneString heldToken := by
  have hloop : ∀ ch n, Spends n (heldChar ch) (getOneStringLoop maxStringLen [] ch) fun _ => 0 := by
    intro ch n
    have hroom : ([] : Bytes).length + maxStringLen = maxStringLen := Nat.zero_add _
    rw [getOneStringLoop_eq hroom]
    exact advances_stringRound.spends_limited (b := ([], ch)) limited_stringRound
      (Nat.lt_succ_self _)
  apply spends_nextChar.bind
  intro ch
  apply (Spends.frame (hloop ch) 1).bind
  intro text
  exact Spends.pure (heldToken_le _)

theorem spends_afterAt : Spends n 1 afterAt heldToken := by
  apply spends_nextChar.bind
  intro next
  cases next with
  | none =>
      apply (Spends.frame (fun _ => spends_ungetOneChar none) 1).bind
      intro _
      exact Spends.pure (heldToken_le _)
  | some b =>
      dsimp only
      split
      · exact (spends_getOneName b .directive).mono (Nat.le_add_left _ _)
      split
      · exact (Spends.pure (heldToken_le _)).mono (Nat.le_add_left _ _)
      · apply (Spends.frame (fun _ => spends_ungetOneChar (some b)) 1).bind
        intro _
        exact Spends.pure (heldToken_le _)

theorem spends_otherToken (ch : Byte) : Spends n 1 (otherToken ch) heldToken := by
  have htoken : ∀ token, Spends n 1 (pure token : TokM Token) heldToken := fun token =>
    Spends.pure (heldToken_le token)
  unfold otherToken
  split
  · exact htoken _
  split
  · exact htoken _
  split
  · exact htoken _
  split
  · exact htoken _
  split
  · exact htoken _
  split
  · exact spends_getOneString
  split
  · exact spends_getOneName ch .name
  · exact htoken _

theorem spends_lexToken : Spends n 0 lexToken heldToken := by
  apply spends_getOneChar.bind
  intro ch
  cases ch with
  | none => exact Spends.pure (Nat.le_refl _)
  | some b =>
      dsimp only
      split
      · exact spends_afterAt
      · apply Spends.get_bind
        intro s
        split
        · exact Spends.pure (heldToken_le _)
        · exact spends_otherToken b

/-- Any token but the end of the file is consumed. -/
theorem spends_getOneToken : Spends n 0 getOneToken heldToken := by
  rintro ⟨source, tokens, chars, mode⟩ hs
  cases tokens with
  | cons token rest =>
      have hheld := heldToken_le token
      change rest.length + 1 + chars.length + source.length ≤ n at hs
      change rest.length + chars.length + source.length + heldToken token ≤ n
      omega
  | nil => exact spends_lexToken _ hs

theorem spends_ungetOneToken (token : Token) :
    Spends n (heldToken token) (ungetOneToken token) fun _ => 0 := by
  intro s hs
  by_cases hfull : s.tokenBuffer.length ≥ maxTokenBufferSize
  · rw [show ungetOneToken token s = _ from if_pos hfull]
    exact ⟨_, rfl⟩
  · rw [show ungetOneToken token s = _ from if_neg hfull]
    by_cases heof : token = .eof
    · rw [if_pos heof]
      exact Nat.le_trans (Nat.le_add_right _ _) hs
    · rw [heldToken, if_neg heof] at hs
      rw [if_neg heof]
      simp only [TokenizerContext.unspent, List.length_cons] at hs ⊢
      omega

theorem spends_peekOneToken : Spends n 0 peekOneToken fun _ => 0 := by
  apply spends_getOneToken.bind
  intro token
  apply (spends_ungetOneToken token).bind
  intro _
  exact Spends.pure (Nat.le_refl _)

/-- The next token, with something already in hand. -/
theorem spends_nextToken : Spends n 1 getOneToken fun token => heldToken token + 1 :=
  (Spends.frame (fun _ => spends_getOneToken) 1).mono (Nat.le_refl _)

end Tokenizer

section Parser

variable {n : Nat}

theorem advances_whitespaceRound : Advances heldChar heldChar whitespaceRound := by
  intro n ch
  cases ch with
  | none => exact Spends.pure (Nat.le_refl _)
  | some ch =>
      rw [whitespaceRound]
      split
      · apply spends_nextChar.bind
        intro next
        exact Spends.pure (Nat.le_refl _)
      · exact Spends.pure (Nat.le_refl _)

/-- Where the bound on the rounds is not below the input, the loop is its rounds. -/
theorem skipWhitespacesLoop_eq {rounds : Nat} {ch : Option Byte} {s : TokenizerContext}
    (h : s.unspent + heldChar ch ≤ rounds) :
    skipWhitespacesLoop rounds ch s = iterate .diverged whitespaceRound (rounds + 1) ch s := by
  induction rounds generalizing ch s with
  | zero =>
      cases ch with
      | none => rfl
      | some b => exact absurd h (Nat.not_succ_le_zero _)
  | succ rounds ih =>
      cases ch with
      | none => rfl
      | some b =>
          rw [skipWhitespacesLoop, iterate, whitespaceRound]
          split
          · rw [bind_assoc]
            cases hnext : getOneChar s with
            | error halt t => rw [bind_of_error hnext, bind_of_error hnext]
            | ok next t =>
                have hspent := (spends_nextChar (n := rounds + 1)).ok h hnext
                rw [bind_of_ok hnext, bind_of_ok hnext]
                exact ih (Nat.le_of_succ_le_succ hspent)
          · rfl

theorem spends_skipWhitespaces : Spends n 0 skipWhitespaces fun _ => 0 := by
  apply spends_getOneChar.bind
  intro ch
  apply Spends.get_bind
  intro s
  have hloop : Spends (s.unspent + heldChar ch) (heldChar ch)
      (skipWhitespacesLoop (s.unread + 1) ch) heldChar := by
    intro t ht
    have hheld := heldChar_le ch
    have hunread := s.unspent_le_unread
    rw [skipWhitespacesLoop_eq (by omega)]
    exact advances_whitespaceRound.spends (by omega) ch t ht
  apply hloop.bind
  intro ch'
  exact spends_ungetOneChar ch'

theorem spends_parseNamedDirectiveArgument (directive : DirectiveParseContext) :
    Spends n 0 (parseNamedDirectiveArgument directive) fun _ => 0 := by
  have hnext : Spends n 0 getOneToken fun _ => 0 :=
    spends_getOneToken.post fun _ => Nat.zero_le _
  apply hnext.bind
  intro name
  apply hnext.bind
  intro equals
  dsimp only
  split
  · exact Spends.fatal _
  · apply hnext.bind
    intro value
    split
    · exact Spends.pure (Nat.le_refl _)
    · exact Spends.fatal _

theorem spends_parseDirectiveArgument (directive : DirectiveParseContext) :
    Spends n 0 (parseDirectiveArgument directive) fun _ => 0 := by
  apply spends_getOneToken.bind
  intro token
  split
  · apply (spends_ungetOneToken _).bind
    intro _
    exact spends_parseNamedDirectiveArgument directive
  · split
    · exact Spends.fatal _
    · exact Spends.pure (Nat.zero_le _)
  · exact Spends.fatal _

theorem advances_argumentRound : Advances (fun _ => 0) (fun _ => 0) argumentRound := by
  intro n directive
  apply spends_skipWhitespaces.bind
  intro _
  apply spends_peekOneToken.bind
  intro token
  split
  · exact Spends.pure (Nat.le_refl _)
  · apply (spends_parseDirectiveArgument directive).bind
    intro directive'
    apply spends_getOneToken.bind
    intro token'
    split
    · rename_i hcomma
      rw [hcomma]
      exact Spends.pure (Nat.le_refl _)
    · apply (spends_ungetOneToken token').bind
      intro _
      exact Spends.pure (Nat.le_refl _)

theorem spends_parseDirectiveArguments (directive : DirectiveParseContext) :
    Spends n 0 (parseDirectiveArguments directive) fun _ => 0 := by
  apply Spends.get_bind
  intro s
  have hloop : Spends (s.unspent + 0) 0
      (parseDirectiveArgumentsLoop (s.unread + 1) directive) fun _ => 0 := by
    rw [parseDirectiveArgumentsLoop_eq]
    exact advances_argumentRound.spends (Nat.lt_succ_of_le s.unspent_le_unread) directive
  apply hloop.bind
  intro directive'
  apply spends_getOneToken.bind
  intro token
  split
  · exact Spends.fatal _
  · exact Spends.pure (Nat.zero_le _)

theorem spends_parseOptionalArguments (directive : DirectiveParseContext) :
    Spends n 0 (parseOptionalArguments directive) fun _ => 0 := by
  apply spends_peekOneChar.bind
  intro ch
  split
  · apply (spends_getOneToken.post fun _ => Nat.zero_le _).bind
    intro _
    exact spends_parseDirectiveArguments directive
  · exact Spends.pure (Nat.le_refl _)

/-- A directive is consumed. -/
theorem spends_parseDirective : Spends n 0 parseDirective fun _ => 1 := by
  apply spends_getOneToken.bind
  intro token
  split
  · rename_i name
    apply Spends.get_bind
    intro s
    apply (Spends.setMode .none).bind
    intro _
    apply (Spends.frame (fun _ => spends_parseOptionalArguments _) 1).bind
    intro directive
    apply spends_nextToken.bind
    intro token'
    split
    · exact Spends.fatal _
    · apply (Spends.setMode s.mode).bind
      intro _
      exact Spends.pure (Nat.le_add_left _ _)
  · exact Spends.fatal _

theorem advances_contentRound : Advances (fun _ => 0) (fun _ => 0) contentRound := by
  rintro n ⟨buffer, lastCh⟩
  unfold contentRound
  dsimp only
  split
  · exact Spends.fatal _
  · apply spends_getOneToken.bind
    intro token
    split
    · exact Spends.fatal _
    · rename_i hmore
      split
      · apply (spends_ungetOneToken token).bind
        intro _
        exact Spends.pure (Nat.le_refl _)
      · rw [heldToken, if_neg hmore]
        exact Spends.pure (Nat.le_refl _)

theorem limited_contentRound :
    Limited (fun loop => maxRequirementContentSize - loop.1.length) contentRound := by
  rintro ⟨buffer, lastCh⟩ s b' s' hrun
  unfold contentRound at hrun
  dsimp only at hrun
  split at hrun
  · cases hrun
  · rename_i hroom
    obtain ⟨token, s₁, -, hrun⟩ := bind_eq_ok hrun
    split at hrun
    · cases hrun
    split at hrun
    · obtain ⟨_, s₂, -, hrun⟩ := bind_eq_ok hrun
      cases (pure_eq_ok.mp hrun).1
    · cases (pure_eq_ok.mp hrun).1
      dsimp only
      rw [List.length_append, List.length_singleton]
      omega

theorem spends_parseContentLoop (lastCh : Byte) :
    Spends n 0 (parseContentLoop maxRequirementContentSize [] lastCh) fun _ => 0 := by
  have hroom : ([] : Bytes).length + maxRequirementContentSize = maxRequirementContentSize :=
    Nat.zero_add _
  rw [parseContentLoop_eq hroom]
  exact advances_contentRound.spends_limited limited_contentRound (Nat.lt_succ_self _)

theorem spends_parseRequirement : Spends n 0 parseRequirement fun _ => 1 := by
  apply spends_parseDirective.bind
  intro directive
  apply (Spends.frame (fun _ => spends_peekOneToken) 1).bind
  intro token
  split
  · exact Spends.pure (Nat.le_refl _)
  · apply Spends.get_bind
    intro s
    apply (Spends.setMode .directiveAndText).bind
    intro _
    apply (Spends.frame (fun _ => spends_parseContentLoop token.ch) 1).bind
    rintro ⟨buffer, lastCh⟩
    dsimp only
    apply (Spends.setMode s.mode).bind
    intro _
    exact Spends.pure (Nat.le_refl _)

theorem advances_requirementRound : Advances (fun _ => 0) (fun _ => 0) requirementRound := by
  intro n requirements
  apply spends_peekOneToken.bind
  intro token
  split
  · exact Spends.pure (Nat.le_refl _)
  split
  · exact Spends.fatal _
  · apply spends_parseRequirement.bind
    intro requirement
    exact Spends.pure (Nat.le_refl _)

theorem limited_requirementRound :
    Limited (fun requirements => maxRequirementCount - requirements.length) requirementRound := by
  intro requirements s b' s' hrun
  obtain ⟨token, s₁, -, hrun⟩ := bind_eq_ok hrun
  split at hrun
  · cases (pure_eq_ok.mp hrun).1
  split at hrun
  · cases hrun
  · obtain ⟨requirement, s₂, -, hrun⟩ := bind_eq_ok hrun
    cases (pure_eq_ok.mp hrun).1
    dsimp only
    rw [List.length_append, List.length_singleton]
    omega

theorem spends_parseRequirementList : Spends n 0 parseRequirementList fun _ => 0 := by
  apply spends_getOneToken.bind
  intro token
  split
  · exact Spends.fatal _
  · apply (spends_ungetOneToken token).bind
    intro _
    have hroom : ([] : List AstRequirement).length + maxRequirementCount = maxRequirementCount :=
      Nat.zero_add _
    rw [parseRequirementListLoop_eq hroom]
    exact advances_requirementRound.spends_limited limited_requirementRound (Nat.lt_succ_self _)

theorem spends_parseTestProlog : Spends n 0 parseTestProlog fun _ => 1 := by
  apply spends_parseDirective.bind
  intro directive
  split
  · exact Spends.fatal _
  · exact Spends.pure (Nat.le_refl _)

theorem spends_parseTestEpilog : Spends n 0 parseTestEpilog fun _ => 0 := by
  apply spends_parseDirective.bind
  intro directive
  split
  · exact Spends.fatal _
  split
  · exact Spends.fatal _
  · exact Spends.pure (Nat.zero_le _)

/-- A test is consumed with its first directive. -/
theorem spends_parseTest : Spends n 0 parseTest fun _ => 1 := by
  apply spends_parseTestProlog.bind
  intro arguments
  apply (Spends.setMode .directiveAndText).bind
  intro _
  apply (Spends.frame (fun _ => spends_parseRequirementList) 1).bind
  intro requirements
  apply (Spends.setMode .none).bind
  intro _
  apply (Spends.frame (fun _ => spends_parseTestEpilog) 1).bind
  intro _
  exact Spends.pure (Nat.le_refl _)

theorem advances_newlineRound : Advances (fun _ => 0) (fun _ => 0) newlineRound := by
  intro n _
  apply spends_getOneToken.bind
  intro token
  split
  · rename_i hnewline
    rw [hnewline]
    exact Spends.pure (Nat.le_refl _)
  · apply (spends_ungetOneToken token).bind
    intro _
    exact Spends.pure (Nat.le_refl _)

end Parser

section Suites

variable {n : Nat}

/-- The token has been read and put back, or it is the end of the file. -/
def Peeked (token : Token) (s : TokenizerContext) : Prop :=
  token = .eof ∨ s.tokenBuffer.head? = some token

theorem ungetOneToken_peeked (token : Token) : Yields FailsFatally
    (fun s => s.unspent + heldToken token ≤ n) (ungetOneToken token)
    fun _ s => Peeked token s ∧ s.unspent ≤ n := by
  intro s hs
  have hspent := spends_ungetOneToken token s hs
  by_cases hfull : s.tokenBuffer.length ≥ maxTokenBufferSize
  · rw [show ungetOneToken token s = _ from if_pos hfull]
    exact ⟨_, rfl⟩
  · rw [show ungetOneToken token s = _ from if_neg hfull] at hspent ⊢
    by_cases heof : token = .eof
    · rw [if_pos heof] at hspent ⊢
      exact ⟨Or.inl heof, hspent⟩
    · rw [if_neg heof] at hspent ⊢
      exact ⟨Or.inr rfl, hspent⟩

theorem peekOneToken_peeked : Yields FailsFatally (fun s => s.unspent ≤ n) peekOneToken
    fun token s => Peeked token s ∧ s.unspent ≤ n := by
  apply spends_getOneToken.bind
  intro token
  apply (ungetOneToken_peeked token).bind
  intro _
  exact Yields.pure fun _ hs => hs

/-- Skipping leaves a token that is none of the newlines, put back. -/
theorem skipNewlinesLoop_peeked {rounds : Nat} (h : n < rounds) : Yields FailsFatally
    (fun s => s.unspent ≤ n) (skipNewlinesLoop rounds)
    fun token s => Peeked token s ∧ s.unspent ≤ n := by
  rw [skipNewlinesLoop_eq]
  refine iterate_yields (P := fun n _ (s : TokenizerContext) => s.unspent ≤ n)
    (Q := fun n token s => Peeked token s ∧ s.unspent ≤ n) ?_ ?_ h ()
  · rintro m n token s hmn ⟨hpeeked, hs⟩
    exact ⟨hpeeked, Nat.le_trans hs hmn⟩
  · intro _ n
    apply spends_getOneToken.bind
    intro token
    split
    · rename_i hnewline
      rw [hnewline]
      exact Yields.pure fun s hs => ⟨s.unspent, hs, Nat.le_refl _⟩
    · apply (ungetOneToken_peeked token).bind
      intro _
      exact Yields.pure fun _ hs => hs

/-- The newline that is waiting to be read is consumed. -/
theorem skipNewlinesLoop_consumes {rounds : Nat} (h : n < rounds) : Yields FailsFatally
    (fun s => Peeked .newline s ∧ s.unspent ≤ n) (skipNewlinesLoop rounds)
    fun token s => Peeked token s ∧ s.unspent < n := by
  rintro ⟨source, tokens, chars, mode⟩ ⟨hpeeked | hpeeked, hs⟩
  · cases hpeeked
  · cases tokens with
    | nil => cases hpeeked
    | cons token rest =>
        obtain rfl := Option.some.inj hpeeked
        obtain ⟨rounds, rfl⟩ := Nat.exists_eq_succ_of_ne_zero (Nat.ne_zero_of_lt h)
        have hnext : TokenizerContext.unspent ⟨source, rest, chars, mode⟩ + 1 ≤ n := by
          change rest.length + 1 + chars.length + source.length ≤ n at hs
          change rest.length + chars.length + source.length + 1 ≤ n
          omega
        have hskip : Yields FailsFatally (fun s => s.unspent ≤ n - 1) (skipNewlinesLoop rounds)
            fun token s => Peeked token s ∧ s.unspent ≤ n - 1 := skipNewlinesLoop_peeked (by omega)
        apply hskip.post ?_ _ (Nat.le_sub_of_add_le hnext)
        rintro token' s ⟨hpeeked', hs'⟩
        exact ⟨hpeeked', by omega⟩

/-- Every round consumes the newline or the test that is waiting. -/
theorem testRound_consumes (loop : Token × List AstTest) : Yields FailsFatally
    (fun s => Peeked loop.1 s ∧ s.unspent ≤ n) (testRound loop) fun next s =>
      Sum.elim (fun loop' => ∃ m, m < n ∧ Peeked loop'.1 s ∧ s.unspent ≤ m)
        (fun _ => s.unspent ≤ n) next := by
  obtain ⟨token, tests⟩ := loop
  unfold testRound
  dsimp only
  split
  · exact Yields.pure fun _ hs => hs.2
  split
  · rename_i hnewline
    rw [hnewline]
    apply Yields.get_bind
    rintro s ⟨hpeeked, hs⟩
    have hskip : Yields FailsFatally (· = s) (skipNewlinesLoop (s.unread + 1))
        fun token t => Peeked token t ∧ t.unspent < s.unspent := by
      apply (skipNewlinesLoop_consumes (Nat.lt_succ_of_le s.unspent_le_unread)).mono
      rintro t rfl
      exact ⟨hpeeked, Nat.le_refl _⟩
    apply hskip.bind
    intro token'
    exact Yields.pure fun t ht => ⟨t.unspent, Nat.lt_of_lt_of_le ht.2 hs, ht.1, Nat.le_refl _⟩
  · apply (Yields.mono spends_parseTest fun _ hs => hs.2).bind
    intro test
    have hpeek : Yields FailsFatally (fun s => s.unspent + 1 ≤ n) peekOneToken
        fun token s => Peeked token s ∧ s.unspent < n := by
      intro s hs
      apply peekOneToken_peeked.post ?_ s (Nat.le_sub_of_add_le hs)
      rintro token' t ⟨hpeeked, ht⟩
      exact ⟨hpeeked, by omega⟩
    apply hpeek.bind
    intro token'
    exact Yields.pure fun t ht => ⟨t.unspent, ht.2, ht.1, Nat.le_refl _⟩

theorem parseTestSuiteM_fails_fatally : Yields FailsFatally (fun s => s.unspent ≤ n) parseTestSuiteM
    fun _ s => s.unspent ≤ n := by
  apply peekOneToken_peeked.bind
  intro token
  apply Yields.get_bind
  rintro s ⟨hpeeked, hs⟩
  rw [parseTestSuiteLoop_eq]
  have hloop : Yields FailsFatally (fun t => Peeked token t ∧ t.unspent ≤ s.unspent)
      (iterate .diverged testRound (s.unread + 1) (token, [])) fun _ t => t.unspent ≤ s.unspent :=
    iterate_yields (Q := fun m _ (t : TokenizerContext) => t.unspent ≤ m)
      (fun hmn ht => Nat.le_trans ht hmn) (fun loop m => testRound_consumes loop)
      (Nat.lt_succ_of_le s.unspent_le_unread) (token, [])
  intro t ht
  exact (hloop.post fun _ _ h => Nat.le_trans h hs) t (by rw [ht]; exact ⟨hpeeked, Nat.le_refl _⟩)

end Suites

/-- A round that goes on has consumed input, with what it holds in hand counted as input. -/
def Consumes {β γ : Type} (round : β → TokM (β ⊕ γ)) (held : β → Nat) : Prop :=
  ∀ b s b' s', round b s = .ok (.inl b') s' → s'.unspent + held b' < s.unspent + held b

/-- The loops as they are entered are their rounds, over and over, and no round goes on without
consuming input; where there is a limit, it also comes nearer. -/
structure LoopsConsume : Prop where
  newlines : (∀ rounds, skipNewlinesLoop rounds = iterate .diverged newlineRound rounds ()) ∧
    Consumes newlineRound fun _ => 0
  requirementList : parseRequirementListLoop maxRequirementCount [] =
      iterate .diverged requirementRound (maxRequirementCount + 1) [] ∧
    Consumes requirementRound (fun _ => 0) ∧
    Limited (fun requirements => maxRequirementCount - requirements.length) requirementRound
  content : (∀ lastCh, parseContentLoop maxRequirementContentSize [] lastCh =
      iterate .diverged contentRound (maxRequirementContentSize + 1) ([], lastCh)) ∧
    Consumes contentRound (fun _ => 0) ∧
    Limited (fun loop => maxRequirementContentSize - loop.1.length) contentRound
  arguments : (∀ rounds directive, parseDirectiveArgumentsLoop rounds directive =
      iterate .diverged argumentRound rounds directive) ∧
    Consumes argumentRound fun _ => 0
  whitespaces : (∀ rounds ch (s : TokenizerContext), s.unspent + heldChar ch ≤ rounds →
      skipWhitespacesLoop rounds ch s = iterate .diverged whitespaceRound (rounds + 1) ch s) ∧
    Consumes whitespaceRound heldChar
  string : (∀ ch, getOneStringLoop maxStringLen [] ch =
      iterate .diverged stringRound (maxStringLen + 1) ([], ch)) ∧
    Consumes stringRound (fun loop => heldChar loop.2) ∧
    Limited (fun loop => maxStringLen - loop.1.length) stringRound
  name : (∀ ch, getOneNameLoop (maxNameLen - 1) [] ch =
      iterate .diverged nameRound maxNameLen ([], ch)) ∧
    Consumes nameRound (fun _ => 1) ∧
    Limited (fun loop => maxNameLen - (loop.1.length + 1)) nameRound
  tests : (∀ rounds token tests, parseTestSuiteLoop rounds token tests =
      iterate .diverged testRound rounds (token, tests)) ∧
    ∀ loop s loop' s', Peeked loop.1 s → testRound loop s = .ok (.inl loop') s' →
      Peeked loop'.1 s' ∧ s'.unspent < s.unspent

theorem loopsConsume : LoopsConsume where
  newlines := ⟨skipNewlinesLoop_eq, fun _ _ _ _ => advances_newlineRound.consumes⟩
  requirementList := ⟨parseRequirementListLoop_eq rfl,
    fun _ _ _ _ => advances_requirementRound.consumes, limited_requirementRound⟩
  content := ⟨parseContentLoop_eq rfl, fun _ _ _ _ => advances_contentRound.consumes,
    limited_contentRound⟩
  arguments := ⟨parseDirectiveArgumentsLoop_eq, fun _ _ _ _ => advances_argumentRound.consumes⟩
  whitespaces := ⟨fun _ _ _ => skipWhitespacesLoop_eq,
    fun _ _ _ _ => advances_whitespaceRound.consumes⟩
  string := ⟨getOneStringLoop_eq rfl, fun _ _ _ _ => advances_stringRound.consumes,
    limited_stringRound⟩
  name := ⟨getOneNameLoop_eq rfl, fun _ _ _ _ => advances_nameRound.consumes, limited_nameRound⟩
  tests := by
    refine ⟨parseTestSuiteLoop_eq, ?_⟩
    intro loop s loop' s' hpeeked hrun
    obtain ⟨m, hlt, hpeeked', hs'⟩ :=
      (testRound_consumes (n := s.unspent) loop).ok ⟨hpeeked, Nat.le_refl _⟩ hrun
    exact ⟨hpeeked', Nat.lt_of_le_of_lt hs' hlt⟩

/-- Whatever bytes a file has, the front end ends with a list of tests or a fatal error. -/
theorem front_end_ends :
    (∀ source, (∃ tests, parseTestSuite source = .ok tests) ∨
      ∃ message, parseTestSuite source = .error (fatalError message)) ∧ LoopsConsume := by
  refine ⟨?_, loopsConsume⟩
  intro source
  have hends := parseTestSuiteM_fails_fatally (initTokenizerContext source) (Nat.le_refl _)
  unfold parseTestSuite
  cases hrun : parseTestSuiteM (initTokenizerContext source) with
  | ok tests s => exact Or.inl ⟨tests, rfl⟩
  | error halt s =>
      rw [hrun] at hends
      obtain ⟨message, rfl⟩ := hends
      exact Or.inr ⟨message, rfl⟩

end JCUnit
