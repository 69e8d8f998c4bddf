import JCUnit.Frontend.TracedParser

/-!
# The tokenizer with a record of its character calls

`get_one_token` over a context that also lists its own calls of `get_one_char` and
`unget_one_char`. Inside of it no more than one character is ever pushed back, whatever the
file holds, so that it does not fail for a full buffer.
-/

namespace JCUnit

open StateError Projection

namespace Traced

def getOneNameLoop : Nat → Bytes → Byte → TracedM (Bytes × Option Byte)
  | 0, buffer, ch =>
      fatal (ascii "Too long name '" ++ (buffer ++ [ch]) ++ ascii "' exceed 256 characters!")
  | room + 1, buffer, ch => do
      let next ← getOneChar
      match next with
      | some b =>
          if isNameChar b then getOneNameLoop room (buffer ++ [ch]) b
          else return (buffer ++ [ch], next)
      | none => return (buffer ++ [ch], next)

def getOneName (ch : Byte) (kind : Bytes → Token) : TracedM Token := do
  let (buffer, next) ← getOneNameLoop (maxNameLen - 1) [] ch
  ungetOneChar next
  return kind buffer

def getOneStringLoop : Nat → Bytes → Option Byte → TracedM Bytes
  | 0, _, _ => fatal (ascii "Too long string!")
  | _ + 1, _, none => fatal (ascii "Unterminated string!")
  | room + 1, buffer, some ch =>
      if ch = chQuote then return buffer
      else if ch = chNewline then fatal (ascii "Newline inside the string!")
      else do
        let next ← getOneChar
        getOneStringLoop room (buffer ++ [ch]) next

def getOneString : TracedM Token := do
  let ch ← getOneChar
  let text ← getOneStringLoop maxStringLen [] ch
  return .string text

def afterAt : TracedM Token := do
  let next ← getOneChar
  match next with
  | some b =>
      if isStartNameChar b then getOneName b .directive
      else if b = chAt then return .character chAt
      else
        ungetOneChar next
        return .character chAt
  | none =>
      ungetOneChar next
      return .character chAt

def otherToken (ch : Byte) : TracedM Token :=
  if ch = chNewline then return .newline
  else if ch = chComma then return .punctuator ch
  else if ch = chLeftParen then return .punctuator ch
  else if ch = chRightParen then return .punctuator ch
  else if ch = chEquals then return .punctuator ch
  else if ch = chQuote then getOneString
  else if isStartNameChar ch then getOneName ch .name
  else return .character ch

def lexToken : TracedM Token := do
  let ch ← getOneChar
  match ch with
  | none => return .eof
  | some b =>
      if b = chAt then afterAt
      else do
        let context ← getContext
        if context.mode = .directiveAndText then return .character b
        else otherToken b

section Projections

theorem follows_getOneNameLoop (room : Nat) (buffer : Bytes) (ch : Byte) :
    Follows (getOneNameLoop room buffer ch) (JCUnit.getOneNameLoop room buffer ch) := by
  induction room generalizing buffer ch with
  | zero => exact follows_fatal _
  | succ room ih =>
      apply (follows_record _ _).bind
      intro next
      cases next with
      | none => exact Projects.pure _
      | some b =>
          dsimp only
          split
          · exact ih _ b
          · exact Projects.pure _

theorem follows_getOneName (ch : Byte) (kind : Bytes → Token) :
    Follows (getOneName ch kind) (JCUnit.getOneName ch kind) := by
  apply (follows_getOneNameLoop _ _ ch).bind
  rintro ⟨buffer, next⟩
  exact (follows_record _ _).bind fun _ => Projects.pure _

theorem follows_getOneStringLoop (room : Nat) (buffer : Bytes) (ch : Option Byte) :
    Follows (getOneStringLoop room buffer ch) (JCUnit.getOneStringLoop room buffer ch) := by
  induction room generalizing buffer ch with
  | zero => exact follows_fatal _
  | succ room ih =>
      cases ch with
      | none => exact follows_fatal _
      | some b =>
          rw [getOneStringLoop, JCUnit.getOneStringLoop]
          split
          · exact Projects.pure _
          split
          · exact follows_fatal _
          · exact (follows_record _ _).bind fun next => ih _ next

theorem follows_getOneString : Follows getOneString JCUnit.getOneString := by
  apply (follows_record _ _).bind
  intro ch
  exact (follows_getOneStringLoop _ _ ch).bind fun text => Projects.pure _

theorem follows_afterAt : Follows afterAt JCUnit.afterAt := by
  apply (follows_record _ _).bind
  intro next
  cases next with
  | none => exact (follows_record _ _).bind fun _ => Projects.pure _
  | some b =>
      dsimp only
      split
      · exact follows_getOneName b _
      split
      · exact Projects.pure _
      · exact (follows_record _ _).bind fun _ => Projects.pure _

theorem follows_otherToken (ch : Byte) : Follows (otherToken ch) (JCUnit.otherToken ch) := by
  have hdone : ∀ token : Token, Follows (pure token) (pure token) := Projects.pure
  unfold otherToken JCUnit.otherToken
  split
  · exact hdone _
  split
  · exact hdone _
  split
  · exact hdone _
  split
  · exact hdone _
  split
  · exact hdone _
  split
  · exact follows_getOneString
  split
  · exact follows_getOneName ch _
  · exact hdone _

theorem follows_lexToken : Follows lexToken JCUnit.lexToken := by
  apply (follows_record _ _).bind
  intro ch
  cases ch with
  | none => exact Projects.pure _
  | some b =>
      dsimp only
      split
      · exact follows_afterAt
      · apply follows_getContext.bind
        intro context
        split
        · exact Projects.pure _
        · exact follows_otherToken b

end Projections

end Traced

/-- The character calls that `get_one_token` makes from this context and that return. -/
def characterCalls (context : TokenizerContext) : List CallRecord :=
  match context.tokenBuffer with
  | _ :: _ => []
  | [] =>
      match Traced.lexToken ⟨context, []⟩ with
      | .ok _ s => s.calls
      | .error _ s => s.calls

/-- The errors for a push-back buffer without room. -/
def IsOverflow (halt : Halt) : Prop :=
  halt = fatalError (ascii "The char buffer is overflow!") ∨
    halt = fatalError (ascii "The token buffer is overflow!")

/-- How the errors for a full buffer begin, and no other error. -/
def BeginsAsOverflow (message : Bytes) : Prop :=
  message.take 5 = ascii "The c" ∨ message.take 5 = ascii "The t"

instance (message : Bytes) : Decidable (BeginsAsOverflow message) :=
  inferInstanceAs (Decidable (_ ∨ _))

theorem not_isOverflow {message : Bytes} (h : ¬ BeginsAsOverflow message) :
    ¬ IsOverflow (fatalError message) := by
  have hfront : ∀ other : Bytes, fatalError message = fatalError other →
      message.take 5 = other.take 5 := by
    intro other heq
    have htaken := congrArg (List.take 5) (Halt.fatal.inj heq)
    rwa [List.take_take, List.take_take] at htaken
  rintro (hchars | htokens)
  · exact h (.inl (hfront _ hchars))
  · exact h (.inr (hfront _ htokens))

section Buffers

variable {s t : TokenizerContext} {mode : TokenizerMode} {tokens chars : Nat} {ch : Option Byte}

/-- A bound on the tokens and the characters that have been pushed back. -/
def Buffered (tokens chars : Nat) (s : TokenizerContext) : Prop :=
  s.tokenBuffer.length ≤ tokens ∧ s.charBuffer.length ≤ chars

theorem Buffered.mono {tokens' chars' : Nat} (h : Buffered tokens chars s)
    (htokens : tokens ≤ tokens') (hchars : chars ≤ chars') : Buffered tokens' chars' s :=
  ⟨h.1.trans htokens, h.2.trans hchars⟩

theorem Buffered.tokenBuffer_eq (h : Buffered 0 chars s) : s.tokenBuffer = [] :=
  List.length_eq_zero_iff.mp (Nat.le_zero.mp h.1)

theorem Buffered.charBuffer_eq (h : Buffered tokens 0 s) : s.charBuffer = [] :=
  List.length_eq_zero_iff.mp (Nat.le_zero.mp h.2)

/-- A context in this mode with no more than these tokens and characters pushed back. -/
def Within (tokens chars : Nat) (mode : TokenizerMode) (s : TokenizerContext) : Prop :=
  Buffered tokens chars s ∧ s.mode = mode

theorem Within.mono {tokens' chars' : Nat} (h : Within tokens chars mode s)
    (htokens : tokens ≤ tokens') (hchars : chars ≤ chars') : Within tokens' chars' mode s :=
  ⟨h.1.mono htokens hchars, h.2⟩

/-- One token and one character are the most that is pushed back around each of the calls. -/
def BufferedCalls (calls : List CallRecord) : Prop :=
  ∀ call ∈ calls, Buffered 1 1 call.before ∧ Buffered 1 1 call.after

theorem getOneChar_within :
    Yields (fun halt _ => ¬ IsOverflow halt) (Within tokens 1 mode) getOneChar
      fun _ => Within tokens 0 mode := by
  rintro ⟨source, tokenBuffer, charBuffer, mode⟩ ⟨hs, hmode⟩
  cases charBuffer with
  | nil => cases source <;> exact ⟨⟨hs.1, Nat.le_refl 0⟩, hmode⟩
  | cons b others => exact ⟨⟨hs.1, Nat.le_of_succ_le_succ hs.2⟩, hmode⟩

theorem ungetOneChar_within (ch : Option Byte) :
    Yields (fun halt _ => ¬ IsOverflow halt) (Within tokens 0 mode) (ungetOneChar ch)
      fun _ => Within tokens 1 mode := by
  rintro ⟨source, tokenBuffer, charBuffer, mode⟩ ⟨hs, hmode⟩
  obtain rfl : charBuffer = [] := hs.charBuffer_eq
  cases ch with
  | none => exact ⟨⟨hs.1, Nat.zero_le 1⟩, hmode⟩
  | some b => exact ⟨⟨hs.1, Nat.le_refl 1⟩, hmode⟩

theorem peekOneChar_within :
    Yields (fun halt _ => ¬ IsOverflow halt) (Within tokens 1 mode) peekOneChar
      fun _ => Within tokens 1 mode :=
  getOneChar_within.bind fun ch => (ungetOneChar_within ch).bind fun _ =>
    Yields.pure fun _ hs => hs

theorem Buffered.getOneChar (h : Buffered tokens 1 s) (hrun : JCUnit.getOneChar s = .ok ch t) :
    Buffered tokens 0 t :=
  (getOneChar_within.ok ⟨h, rfl⟩ hrun).1

theorem Buffered.ungetOneChar (h : Buffered tokens 0 s)
    (hrun : JCUnit.ungetOneChar ch s = .ok () t) : Buffered tokens 1 t :=
  ((ungetOneChar_within ch).ok ⟨h, rfl⟩ hrun).1

end Buffers

namespace Traced

section Bounds

variable {α : Type} {mode : TokenizerMode} {chars chars' : Nat}

/-- The part of the tokenizer keeps the mode and goes from the first bound on the characters to
the second one, with no token buffered. On its way it keeps to one character, and it does not
fail for a full buffer. -/
abbrev Stays (mode : TokenizerMode) (chars : Nat) (x : TracedM α) (chars' : Nat) : Prop :=
  Yields (fun halt s => BufferedCalls s.calls ∧ ¬ IsOverflow halt)
    (fun s => BufferedCalls s.calls ∧ Within 0 chars mode s.context) x
    fun _ s => BufferedCalls s.calls ∧ Within 0 chars' mode s.context

theorem stays_pure (a : α) (h : chars ≤ chars') : Stays mode chars (pure a) chars' :=
  Yields.pure fun _ hs => ⟨hs.1, hs.2.mono (Nat.le_refl 0) h⟩

theorem stays_fatal {message : Bytes} (h : ¬ BeginsAsOverflow message) :
    Stays mode chars (fatal message : TracedM α) chars' :=
  Yields.throw fun _ hs => ⟨hs.1, not_isOverflow h⟩

theorem stays_record {x : TokM α} (call : α → Call) (hchars : chars ≤ 1) (hchars' : chars' ≤ 1)
    (h : Yields (fun halt _ => ¬ IsOverflow halt) (Within 0 chars mode) x
      fun _ => Within 0 chars' mode) : Stays mode chars (record call x) chars' := by
  rintro ⟨context, calls⟩ ⟨hcalls, hwithin⟩
  unfold record
  cases hx : x context with
  | ok a t =>
      have ht := h.ok hwithin hx
      refine ⟨List.forall_mem_append.mpr ⟨hcalls, List.forall_mem_singleton.mpr ⟨?_, ?_⟩⟩, ht⟩
      · exact hwithin.1.mono (Nat.zero_le 1) hchars
      · exact ht.1.mono (Nat.zero_le 1) hchars'
  | error halt t => exact ⟨hcalls, h.error hwithin hx⟩

theorem stays_getOneChar (h : chars ≤ 1) : Stays mode chars getOneChar 0 :=
  stays_record _ h (Nat.zero_le 1) (getOneChar_within.mono fun _ hs => hs.mono (Nat.le_refl 0) h)

theorem stays_ungetOneChar (ch : Option Byte) : Stays mode 0 (ungetOneChar ch) 1 :=
  stays_record _ (Nat.zero_le 1) (Nat.le_refl 1) (ungetOneChar_within ch)

theorem stays_getOneNameLoop (room : Nat) (buffer : Bytes) (ch : Byte) :
    Stays mode 0 (getOneNameLoop room buffer ch) 0 := by
  induction room generalizing buffer ch with
  | zero =>
      apply stays_fatal
      rintro (h | h) <;> cases h
  | succ room ih =>
      apply (stays_getOneChar (Nat.zero_le 1)).bind
      intro next
      cases next with
      | none => exact stays_pure _ (Nat.le_refl 0)
      | some b =>
          dsimp only
          split
          · exact ih _ b
          · exact stays_pure _ (Nat.le_refl 0)

theorem stays_getOneName (ch : Byte) (kind : Bytes → Token) :
    Stays mode 0 (getOneName ch kind) 1 := by
  apply (stays_getOneNameLoop _ _ ch).bind
  rintro ⟨buffer, next⟩
  apply (stays_ungetOneChar next).bind
  intro _
  exact stays_pure _ (Nat.le_refl 1)

theorem stays_getOneStringLoop (room : Nat) (buffer : Bytes) (ch : Option Byte) :
    Stays mode 0 (getOneStringLoop room buffer ch) 0 := by
  induction room generalizing buffer ch with
  | zero => exact stays_fatal (by decide)
  | succ room ih =>
      cases ch with
      | none => exact stays_fatal (by decide)
      | some b =>
          rw [getOneStringLoop]
          split
          · exact stays_pure _ (Nat.le_refl 0)
          split
          · exact stays_fatal (by decide)
          · exact (stays_getOneChar (Nat.zero_le 1)).bind fun next => ih _ next

theorem stays_getOneString : Stays mode 0 getOneString 1 := by
  apply (stays_getOneChar (Nat.zero_le 1)).bind
  intro ch
  apply (stays_getOneStringLoop _ _ ch).bind
  intro text
  exact stays_pure _ (Nat.zero_le 1)

theorem stays_afterAt : Stays mode 0 afterAt 1 := by
  apply (stays_getOneChar (Nat.zero_le 1)).bind
  intro next
  cases next with
  | none => exact (stays_ungetOneChar none).bind fun _ => stays_pure _ (Nat.le_refl 1)
  | some b =>
      dsimp only
      split
      · exact stays_getOneName b _
      split
      · exact stays_pure _ (Nat.zero_le 1)
      · exact (stays_ungetOneChar (some b)).bind fun _ => stays_pure _ (Nat.le_refl 1)

theorem stays_otherToken (ch : Byte) : Stays mode 0 (otherToken ch) 1 := by
  have hdone : ∀ token : Token, Stays mode 0 (pure token) 1 := fun token =>
    stays_pure token (Nat.zero_le 1)
  unfold otherToken
  split
  · exact hdone _
  split
  · exact hdone _
  split
  · exact hdone _
  split
  · exact hdone _
  split
  · exact hdone _
  split
  · exact stays_getOneString
  split
  · exact stays_getOneName ch _
  · exact hdone _

theorem stays_getContext :
    Yields (fun halt s => BufferedCalls s.calls ∧ ¬ IsOverflow halt)
      (fun s => BufferedCalls s.calls ∧ Within 0 chars mode s.context) getContext
      fun _ s => BufferedCalls s.calls ∧ Within 0 chars mode s.context :=
  fun _ hs => hs

theorem stays_lexToken : Stays mode 1 lexToken 1 := by
  apply (stays_getOneChar (Nat.le_refl 1)).bind
  intro ch
  cases ch with
  | none => exact stays_pure _ (Nat.zero_le 1)
  | some b =>
      dsimp only
      split
      · exact stays_afterAt
      · apply stays_getContext.bind
        intro context
        split
        · exact stays_pure _ (Nat.zero_le 1)
        · exact stays_otherToken b

end Bounds

end Traced

section Tokens

variable {s t : TokenizerContext} {token : Token} {mode : TokenizerMode}

theorem getOneToken_nil (htokens : s.tokenBuffer = []) : getOneToken s = lexToken s := by
  unfold getOneToken
  rw [htokens]

theorem getOneToken_cons {others : List Token} (htokens : s.tokenBuffer = token :: others) :
    getOneToken s = .ok token { s with tokenBuffer := others } := by
  unfold getOneToken
  rw [htokens]

theorem lexToken_within :
    Yields (fun halt _ => ¬ IsOverflow halt) (Within 0 1 mode) lexToken
      fun _ => Within 0 1 mode := by
  intro s hs
  have hfollows := Traced.follows_lexToken ⟨s, []⟩
  have hrun := Traced.stays_lexToken ⟨s, []⟩ ⟨List.forall_mem_nil _, hs⟩
  rw [← hfollows]
  cases hx : Traced.lexToken ⟨s, []⟩ with
  | ok token s' =>
      rw [hx] at hrun
      exact hrun.2
  | error halt s' =>
      rw [hx] at hrun
      exact hrun.2

/-- The buffered token is delivered, or one is read where there is none. -/
theorem getOneToken_within :
    Yields (fun halt _ => ¬ IsOverflow halt) (Within 1 1 mode) getOneToken
      fun _ => Within 0 1 mode := by
  rintro s ⟨hs, hmode⟩
  cases htokens : s.tokenBuffer with
  | nil =>
      rw [getOneToken_nil htokens]
      exact lexToken_within s ⟨⟨Nat.le_of_eq (congrArg List.length htokens), hs.2⟩, hmode⟩
  | cons token others =>
      rw [getOneToken_cons htokens]
      have hlength := hs.1
      rw [htokens] at hlength
      exact ⟨⟨Nat.le_of_succ_le_succ hlength, hs.2⟩, hmode⟩

theorem ungetOneToken_within (token : Token) :
    Yields (fun halt _ => ¬ IsOverflow halt) (Within 0 1 mode) (ungetOneToken token)
      fun _ => Within 1 1 mode := by
  rintro ⟨source, tokenBuffer, charBuffer, mode⟩ ⟨hs, hmode⟩
  obtain rfl : tokenBuffer = [] := hs.tokenBuffer_eq
  by_cases htoken : token = .eof
  · rw [htoken]
    exact ⟨⟨Nat.zero_le 1, hs.2⟩, hmode⟩
  · have hrun : ungetOneToken token ⟨source, [], charBuffer, mode⟩ =
        .ok () ⟨source, [token], charBuffer, mode⟩ := if_neg htoken
    rw [hrun]
    exact ⟨⟨Nat.le_refl 1, hs.2⟩, hmode⟩

theorem peekOneToken_within :
    Yields (fun halt _ => ¬ IsOverflow halt) (Within 1 1 mode) peekOneToken
      fun _ => Within 1 1 mode :=
  getOneToken_within.bind fun token => (ungetOneToken_within token).bind fun _ =>
    Yields.pure fun _ hs => hs

theorem Buffered.getOneToken (h : Buffered 1 1 s) (hrun : JCUnit.getOneToken s = .ok token t) :
    Buffered 0 1 t :=
  (getOneToken_within.ok ⟨h, rfl⟩ hrun).1

theorem Buffered.ungetOneToken (h : Buffered 0 1 s)
    (hrun : JCUnit.ungetOneToken token s = .ok () t) : Buffered 1 1 t :=
  ((ungetOneToken_within token).ok ⟨h, rfl⟩ hrun).1

/-- Every character call of `get_one_token` finds and leaves the buffers with room. -/
theorem characterCalls_buffered (h : Buffered 1 1 s) : BufferedCalls (characterCalls s) := by
  unfold characterCalls
  cases htokens : s.tokenBuffer with
  | cons token others => exact List.forall_mem_nil _
  | nil =>
      have hs : Within 0 1 s.mode s := ⟨⟨Nat.le_of_eq (congrArg List.length htokens), h.2⟩, rfl⟩
      have hrun := Traced.stays_lexToken ⟨s, []⟩ ⟨List.forall_mem_nil _, hs⟩
      dsimp only
      cases hx : Traced.lexToken ⟨s, []⟩ with
      | ok token s' =>
          rw [hx] at hrun
          exact hrun.1
      | error halt s' =>
          rw [hx] at hrun
          exact hrun.1

end Tokens

end JCUnit
