import JCUnit.Foundation.SideBySide
import JCUnit.Frontend.ParserCalls

/-!
# What a directive does not read

Two files agree up to a point and go on differently behind it. A program that has not read
past that point in one of them does the same in the other one. This is proved for everything a
directive is parsed with, together with bounds on what is left pushed back.
-/

namespace JCUnit

open StateError

/-- Some of the bytes from a point on have been read. -/
def Beyond (r : Bytes) (s : TokenizerContext) : Prop := ¬r <:+ s.source

/-- The two contexts differ only in what is behind the bytes they have in common. -/
def Beside (r r' : Bytes) (tokens chars : Nat) (s t : TokenizerContext) : Prop :=
  Buffered tokens chars s ∧ ∃ front, s.source = front ++ r ∧ t = { s with source := front ++ r' }

/-- From such contexts both programs run to such contexts, unless the first one reads on. -/
abbrev Local {α : Type} (r r' : Bytes) (tokens chars : Nat) (x y : TokM α)
    (tokens' chars' : Nat) : Prop :=
  Tracks (Beyond r) (Beside r r' tokens chars) x y fun _ => Beside r r' tokens' chars'

section Contexts

variable {r r' : Bytes} {tokens chars tokens' chars' : Nat} {s t : TokenizerContext}

/-- Contexts that differ behind a point still do if more may be pushed back. -/
theorem Beside.mono (h : Beside r r' tokens chars s t) (htokens : tokens ≤ tokens')
    (hchars : chars ≤ chars') : Beside r r' tokens' chars' s t :=
  ⟨h.1.mono htokens hchars, h.2⟩

theorem Beside.mode_eq (h : Beside r r' tokens chars s t) : t.mode = s.mode := by
  obtain ⟨-, front, -, rfl⟩ := h
  rfl

/-- The bound of the loops over what is unread does not get smaller in the longer file. -/
theorem Beside.unread_le (h : Beside r r' tokens chars s t) (hlength : r.length ≤ r'.length) :
    s.unread ≤ t.unread := by
  obtain ⟨-, front, hsource, rfl⟩ := h
  simp only [TokenizerContext.unread, hsource, List.length_append]
  omega

/-- What has been read stays read. -/
theorem Beyond.of_source (h : Beyond r s) (hsource : t.source <:+ s.source) : Beyond r t :=
  fun hr => h (hr.trans hsource)

end Contexts

section Rules

variable {r r' : Bytes} {tokens chars tokens' chars' : Nat} {α : Type}

theorem local_pure (a : α) (htokens : tokens ≤ tokens') (hchars : chars ≤ chars') :
    Local r r' tokens chars (pure a) (pure a) tokens' chars' :=
  Tracks.pure fun _ _ h => h.mono htokens hchars

theorem local_throw (halt : Halt) (y : TokM α) :
    Local r r' tokens chars (throw halt) y tokens' chars' :=
  Tracks.throw halt y

/-- The mode is set in both contexts, and nothing is read. -/
theorem local_setMode (mode : TokenizerMode) :
    Local r r' tokens chars (setMode mode) (setMode mode) tokens chars := by
  constructor
  · intro s _ s' hpast hrun
    cases hrun
    exact hpast
  · rintro s t _ s' ⟨hbuffered, front, hsource, rfl⟩ hrun _
    cases hrun
    exact ⟨_, rfl, hbuffered, front, hsource, rfl⟩

end Rules

section Characters

variable {r r' : Bytes} {tokens chars : Nat}

/-- The next character is the same, unless it is the first one behind the point. Where nothing is
behind the point in the first file, nothing may be there in the second one either. -/
theorem local_getOneChar (hempty : r = [] → r' = []) (hchars : chars ≤ 1) :
    Local r r' tokens chars getOneChar getOneChar tokens 0 := by
  constructor
  · intro s ch s' hpast hrun
    apply hpast.of_source
    obtain ⟨source, tokenBuffer, charBuffer, mode⟩ := s
    cases charBuffer with
    | nil =>
        cases source with
        | nil =>
            cases hrun
            exact List.suffix_rfl
        | cons b source =>
            cases hrun
            exact List.suffix_cons b source
    | cons b others =>
        cases hrun
        exact List.suffix_rfl
  · rintro s t ch s' ⟨hbuffered, front, hsource, rfl⟩ hrun hbefore
    have hbuffered' := (hbuffered.mono (Nat.le_refl tokens) hchars).getOneChar hrun
    obtain ⟨source, tokenBuffer, charBuffer, mode⟩ := s
    obtain rfl : source = front ++ r := hsource
    cases charBuffer with
    | cons b others =>
        cases hrun
        exact ⟨_, rfl, hbuffered', front, rfl, rfl⟩
    | nil =>
        cases front with
        | cons b front =>
            cases hrun
            exact ⟨_, rfl, hbuffered', front, rfl, rfl⟩
        | nil =>
            cases r with
            | nil =>
                rw [hempty rfl]
                cases hrun
                exact ⟨_, rfl, hbuffered', [], rfl, rfl⟩
            | cons b r =>
                -- the first byte behind the point has been read
                cases hrun
                apply absurd _ hbefore
                intro hr
                exact absurd hr.length_le (Nat.not_succ_le_self r.length)

/-- A character that is pushed back is there again in both contexts. -/
theorem local_ungetOneChar (ch : Option Byte) :
    Local r r' tokens 0 (ungetOneChar ch) (ungetOneChar ch) tokens 1 := by
  constructor
  · intro s _ s' hpast hrun
    rw [ungetOneChar_eq_ok hrun]
    exact hpast
  · rintro s t _ s' ⟨hbuffered, front, hsource, rfl⟩ hrun _
    have hbuffered' := hbuffered.ungetOneChar hrun
    have hchars := hbuffered.charBuffer_eq
    obtain ⟨source, tokenBuffer, charBuffer, mode⟩ := s
    obtain rfl : charBuffer = [] := hchars
    cases ch with
    | none =>
        cases hrun
        exact ⟨_, rfl, hbuffered', front, hsource, rfl⟩
    | some b =>
        cases hrun
        exact ⟨_, rfl, hbuffered', front, hsource, rfl⟩

theorem local_peekOneChar (hempty : r = [] → r' = []) :
    Local r r' tokens 1 peekOneChar peekOneChar tokens 1 := by
  apply (local_getOneChar hempty (Nat.le_refl 1)).bind
  intro ch
  exact (local_ungetOneChar ch).bind fun _ => local_pure ch (Nat.le_refl _) (Nat.le_refl 1)

end Characters

section Tokens

variable {r r' : Bytes} {tokens : Nat}

/-- The loop reads one character behind the name and gives it back to its caller. -/
theorem local_getOneNameLoop (hempty : r = [] → r' = []) (room : Nat) (buffer : Bytes)
    (ch : Byte) :
    Local r r' tokens 0 (getOneNameLoop room buffer ch) (getOneNameLoop room buffer ch)
      tokens 0 := by
  induction room generalizing buffer ch with
  | zero => exact local_throw _ _
  | succ room ih =>
      apply (local_getOneChar hempty (Nat.zero_le 1)).bind
      intro next
      cases next with
      | none => exact local_pure _ (Nat.le_refl _) (Nat.le_refl 0)
      | some b =>
          dsimp only
          split
          · exact ih _ b
          · exact local_pure _ (Nat.le_refl _) (Nat.le_refl 0)

theorem local_getOneName (hempty : r = [] → r' = []) (ch : Byte) (kind : Bytes → Token) :
    Local r r' tokens 0 (getOneName ch kind) (getOneName ch kind) tokens 1 := by
  apply (local_getOneNameLoop hempty _ _ ch).bind
  intro name
  exact (local_ungetOneChar name.2).bind fun _ => local_pure _ (Nat.le_refl _) (Nat.le_refl 1)

/-- The loop ends at the closing quote, and reads nothing behind it. -/
theorem local_getOneStringLoop (hempty : r = [] → r' = []) (room : Nat) (buffer : Bytes)
    (ch : Option Byte) :
    Local r r' tokens 0 (getOneStringLoop room buffer ch) (getOneStringLoop room buffer ch)
      tokens 0 := by
  induction room generalizing buffer ch with
  | zero => exact local_throw _ _
  | succ room ih =>
      cases ch with
      | none => exact local_throw _ _
      | some b =>
          rw [getOneStringLoop]
          split
          · exact local_pure _ (Nat.le_refl _) (Nat.le_refl 0)
          split
          · exact local_throw _ _
          · exact (local_getOneChar hempty (Nat.zero_le 1)).bind fun next => ih _ next

theorem local_getOneString (hempty : r = [] → r' = []) :
    Local r r' tokens 0 getOneString getOneString tokens 0 := by
  apply (local_getOneChar hempty (Nat.zero_le 1)).bind
  intro ch
  apply (local_getOneStringLoop hempty _ _ ch).bind
  intro text
  exact local_pure _ (Nat.le_refl _) (Nat.le_refl 0)

/-- Behind an at sign, a name is read up to the character that ends it. -/
theorem local_afterAt (hempty : r = [] → r' = []) :
    Local r r' tokens 0 afterAt afterAt tokens 1 := by
  apply (local_getOneChar hempty (Nat.zero_le 1)).bind
  intro next
  cases next with
  | none =>
      exact (local_ungetOneChar none).bind fun _ => local_pure _ (Nat.le_refl _) (Nat.le_refl 1)
  | some b =>
      dsimp only
      split
      · exact local_getOneName hempty b _
      split
      · exact local_pure _ (Nat.le_refl _) (Nat.zero_le 1)
      · exact (local_ungetOneChar _).bind fun _ => local_pure _ (Nat.le_refl _) (Nat.le_refl 1)

theorem local_otherToken (hempty : r = [] → r' = []) (ch : Byte) :
    Local r r' tokens 0 (otherToken ch) (otherToken ch) tokens 1 := by
  have hdone (token : Token) : Local r r' tokens 0 (pure token) (pure token) tokens 1 :=
    local_pure token (Nat.le_refl _) (Nat.zero_le 1)
  unfold otherToken
  split
  · exact hdone _
  split
  · exact hdone _
  split
  · exact hdone _
  split
  · exact hdone _
  split
  · exact hdone _
  split
  · exact (local_getOneString hempty).mono (fun _ _ h => h) fun _ _ _ h =>
      h.mono (Nat.le_refl _) (Nat.zero_le 1)
  split
  · exact local_getOneName hempty ch _
  · exact hdone _

/-- A token is the same in both files, as the mode of the tokenizer is. -/
theorem local_lexToken (hempty : r = [] → r' = []) :
    Local r r' tokens 1 lexToken lexToken tokens 1 := by
  apply (local_getOneChar hempty (Nat.le_refl 1)).bind
  intro ch
  cases ch with
  | none => exact local_pure _ (Nat.le_refl _) (Nat.zero_le 1)
  | some b =>
      dsimp only
      split
      · exact local_afterAt hempty
      · apply Tracks.get_bind (Q := fun s t => t.mode = s.mode) (fun _ => rfl)
          fun _ _ h => h.mode_eq
        intro s t hmode
        rw [hmode]
        split
        · exact local_pure _ (Nat.le_refl _) (Nat.zero_le 1)
        · exact local_otherToken hempty b

/-- A token comes from the buffer, which both contexts share, or is read from their files. -/
theorem local_getOneToken (hempty : r = [] → r' = []) (htokens : tokens ≤ 1) :
    Local r r' tokens 1 getOneToken getOneToken 0 1 := by
  constructor
  · intro s token s' hpast hrun
    cases hbuffer : s.tokenBuffer with
    | nil =>
        rw [getOneToken_nil hbuffer] at hrun
        have hlocal : Local r r' 0 1 lexToken lexToken 0 1 := local_lexToken hempty
        exact hlocal.past s token s' hpast hrun
    | cons first others =>
        rw [getOneToken_cons hbuffer] at hrun
        cases hrun
        exact hpast
  · rintro s t token s' hst hrun hbefore
    have hbuffered := (hst.1.mono htokens (Nat.le_refl 1)).getOneToken hrun
    obtain ⟨hbuffers, front, hsource, rfl⟩ := hst
    cases hbuffer : s.tokenBuffer with
    | nil =>
        rw [getOneToken_nil hbuffer] at hrun
        have hbeside : Beside r r' 0 1 s { s with source := front ++ r' } :=
          ⟨⟨Nat.le_of_eq (congrArg List.length hbuffer), hbuffers.2⟩, front, hsource, rfl⟩
        obtain ⟨t', hrun', hst'⟩ := (local_lexToken hempty).run _ _ token s' hbeside hrun hbefore
        rw [hbuffer] at hrun'
        exact ⟨t', hrun', hst'⟩
    | cons first others =>
        rw [getOneToken_cons hbuffer] at hrun
        cases hrun
        exact ⟨{ s with source := front ++ r', tokenBuffer := others }, rfl, hbuffered, front,
          hsource, rfl⟩

/-- A token that is pushed back is there again in both contexts; the end of the file is not kept. -/
theorem local_ungetOneToken (token : Token) :
    Local r r' 0 1 (ungetOneToken token) (ungetOneToken token) 1 1 := by
  constructor
  · intro s _ s' hpast hrun
    rw [ungetOneToken_eq_ok hrun]
    split
    · exact hpast
    · exact hpast
  · rintro s t _ s' ⟨hbuffered, front, hsource, rfl⟩ hrun _
    have hbuffered' := hbuffered.ungetOneToken hrun
    have htokens := hbuffered.tokenBuffer_eq
    obtain ⟨source, tokenBuffer, charBuffer, mode⟩ := s
    obtain rfl : tokenBuffer = [] := htokens
    by_cases heof : token = .eof
    · rw [heof] at hrun ⊢
      cases hrun
      exact ⟨_, rfl, hbuffered', front, hsource, rfl⟩
    · have hunget (source : Bytes) : ungetOneToken token ⟨source, [], charBuffer, mode⟩ =
          .ok () ⟨source, [token], charBuffer, mode⟩ := if_neg heof
      rw [hunget] at hrun
      cases hrun
      exact ⟨_, hunget _, hbuffered', front, hsource, rfl⟩

theorem local_peekOneToken (hempty : r = [] → r' = []) (htokens : tokens ≤ 1) :
    Local r r' tokens 1 peekOneToken peekOneToken 1 1 := by
  apply (local_getOneToken hempty htokens).bind
  intro token
  apply (local_ungetOneToken token).bind
  intro _
  exact local_pure token (Nat.le_refl 1) (Nat.le_refl 1)

end Tokens

section Directives

variable {r r' : Bytes}

/-- By induction on the rounds of the shorter loop; the other one has rounds to spare. -/
theorem local_skipWhitespacesLoop (hempty : r = [] → r' = []) {rounds rounds' : Nat}
    (hrounds : rounds ≤ rounds') (ch : Option Byte) :
    Local r r' 0 0 (skipWhitespacesLoop rounds ch) (skipWhitespacesLoop rounds' ch) 0 0 := by
  induction rounds generalizing rounds' ch with
  | zero =>
      cases ch with
      | none =>
          unfold skipWhitespacesLoop
          exact local_pure _ (Nat.le_refl 0) (Nat.le_refl 0)
      | some b =>
          unfold skipWhitespacesLoop
          split
          · exact local_throw _ _
          · exact local_pure _ (Nat.le_refl 0) (Nat.le_refl 0)
  | succ rounds ih =>
      obtain ⟨later, rfl⟩ := Nat.exists_eq_add_of_lt hrounds
      cases ch with
      | none =>
          unfold skipWhitespacesLoop
          exact local_pure _ (Nat.le_refl 0) (Nat.le_refl 0)
      | some b =>
          unfold skipWhitespacesLoop
          split
          · apply (local_getOneChar hempty (Nat.zero_le 1)).bind
            intro next
            exact ih (Nat.le_add_right rounds later) next
          · exact local_pure _ (Nat.le_refl 0) (Nat.le_refl 0)

/-- The character behind the blanks is pushed back. -/
theorem local_skipWhitespaces (hempty : r = [] → r' = []) (hlength : r.length ≤ r'.length) :
    Local r r' 0 1 skipWhitespaces skipWhitespaces 0 1 := by
  apply (local_getOneChar hempty (Nat.le_refl 1)).bind
  intro ch
  apply Tracks.get_bind (Q := fun s t => s.unread ≤ t.unread) (fun _ => Nat.le_refl _)
    fun _ _ h => h.unread_le hlength
  intro s t hunread
  apply (local_skipWhitespacesLoop hempty (Nat.succ_le_succ hunread) ch).bind
  intro ch
  exact local_ungetOneChar ch

theorem local_parseNamedDirectiveArgument (hempty : r = [] → r' = [])
    (directive : DirectiveParseContext) :
    Local r r' 1 1 (parseNamedDirectiveArgument directive) (parseNamedDirectiveArgument directive)
      0 1 := by
  apply (local_getOneToken hempty (Nat.le_refl 1)).bind
  intro token
  apply (local_getOneToken hempty (Nat.zero_le 1)).bind
  intro equals
  split
  · exact local_throw _ _
  · apply (local_getOneToken hempty (Nat.zero_le 1)).bind
    intro value
    cases value with
    | string value => exact local_pure _ (Nat.le_refl 0) (Nat.le_refl 1)
    | _ => exact local_throw _ _

theorem local_parseDirectiveArgument (hempty : r = [] → r' = [])
    (directive : DirectiveParseContext) :
    Local r r' 1 1 (parseDirectiveArgument directive) (parseDirectiveArgument directive) 0 1 := by
  apply (local_getOneToken hempty (Nat.le_refl 1)).bind
  intro token
  cases token with
  | name text =>
      apply (local_ungetOneToken _).bind
      intro _
      exact local_parseNamedDirectiveArgument hempty directive
  | string value =>
      dsimp only
      split
      · exact local_throw _ _
      · exact local_pure _ (Nat.le_refl 0) (Nat.le_refl 1)
  | _ => exact local_throw _ _

/-- By induction on the rounds, as for blanks. The parenthesis that ends the arguments is pushed
back. -/
theorem local_parseDirectiveArgumentsLoop (hempty : r = [] → r' = [])
    (hlength : r.length ≤ r'.length) {rounds rounds' : Nat} (hrounds : rounds ≤ rounds')
    (directive : DirectiveParseContext) :
    Local r r' 0 1 (parseDirectiveArgumentsLoop rounds directive)
      (parseDirectiveArgumentsLoop rounds' directive) 1 1 := by
  induction rounds generalizing rounds' directive with
  | zero => exact local_throw _ _
  | succ rounds ih =>
      obtain ⟨later, rfl⟩ := Nat.exists_eq_add_of_lt hrounds
      apply (local_skipWhitespaces hempty hlength).bind
      intro _
      apply (local_peekOneToken hempty (Nat.zero_le 1)).bind
      intro token
      split
      · exact local_pure _ (Nat.le_refl 1) (Nat.le_refl 1)
      · apply (local_parseDirectiveArgument hempty directive).bind
        intro directive
        apply (local_getOneToken hempty (Nat.zero_le 1)).bind
        intro token
        split
        · exact ih (Nat.le_add_right rounds later) directive
        · apply (local_ungetOneToken token).bind
          intro _
          exact local_pure _ (Nat.le_refl 1) (Nat.le_refl 1)

theorem local_parseDirectiveArguments (hempty : r = [] → r' = [])
    (hlength : r.length ≤ r'.length) (directive : DirectiveParseContext) :
    Local r r' 0 1 (parseDirectiveArguments directive) (parseDirectiveArguments directive) 0 1 := by
  apply Tracks.get_bind (Q := fun s t => s.unread ≤ t.unread) (fun _ => Nat.le_refl _)
    fun _ _ h => h.unread_le hlength
  intro s t hunread
  apply (local_parseDirectiveArgumentsLoop hempty hlength (Nat.succ_le_succ hunread) directive).bind
  intro directive
  apply (local_getOneToken hempty (Nat.le_refl 1)).bind
  intro token
  split
  · exact local_throw _ _
  · exact local_pure _ (Nat.le_refl 0) (Nat.le_refl 1)

/-- Whether there are arguments is told by the character behind the name of the directive. -/
theorem local_parseOptionalArguments (hempty : r = [] → r' = []) (hlength : r.length ≤ r'.length)
    (directive : DirectiveParseContext) :
    Local r r' 0 1 (parseOptionalArguments directive) (parseOptionalArguments directive) 0 1 := by
  apply (local_peekOneChar hempty).bind
  intro ch
  split
  · apply (local_getOneToken hempty (Nat.zero_le 1)).bind
    intro _
    exact local_parseDirectiveArguments hempty hlength directive
  · exact local_pure _ (Nat.le_refl 0) (Nat.le_refl 1)

/-- A directive is read up to the end of its line and nothing behind it. -/
theorem local_parseDirective (hempty : r = [] → r' = []) (hlength : r.length ≤ r'.length) :
    Local r r' 1 1 parseDirective parseDirective 0 1 := by
  apply (local_getOneToken hempty (Nat.le_refl 1)).bind
  intro token
  cases token with
  | directive name =>
      apply Tracks.get_bind (Q := fun s t => t.mode = s.mode) (fun _ => rfl) fun _ _ h => h.mode_eq
      intro s t hmode
      rw [hmode]
      apply (local_setMode _).bind
      intro _
      apply (local_parseOptionalArguments hempty hlength _).bind
      intro directive
      apply (local_getOneToken hempty (Nat.zero_le 1)).bind
      intro token
      split
      · exact local_throw _ _
      · exact (local_setMode _).bind fun _ => local_pure _ (Nat.le_refl 0) (Nat.le_refl 1)
  | _ => exact local_throw _ _

end Directives

end JCUnit
