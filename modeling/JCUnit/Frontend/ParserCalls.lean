import JCUnit.Frontend.Lexing
import JCUnit.Frontend.TracedTokenizer

/-!
# How the parser calls the tokenizer

The recorded calls of a run are one trail of the tokenizer, and an orderly one: never more than
one token and one character are pushed back, and the parser looks at characters only while
there is no token to be read first. A token that is pushed back is the last one delivered, and
the mode changes over it only if it is a directive.
-/

namespace JCUnit

open StateError Transitions

/-- The call goes from the first context to the second one and gives what its record says. -/
def Call.Runs (s : TokenizerContext) : Call → TokenizerContext → Prop
  | .getOneChar ch, t => JCUnit.getOneChar s = .ok ch t
  | .ungetOneChar ch, t => JCUnit.ungetOneChar ch s = .ok () t
  | .peekOneChar ch, t => JCUnit.peekOneChar s = .ok ch t
  | .getOneToken token, t => JCUnit.getOneToken s = .ok token t
  | .ungetOneToken token, t => JCUnit.ungetOneToken token s = .ok () t
  | .peekOneToken token, t => JCUnit.peekOneToken s = .ok token t
  | .setMode mode, t => JCUnit.setMode mode s = .ok () t

/-- Characters are read, and a token is pushed back, only while no token is buffered; a
character is pushed back only where the last one came from the file. -/
def Call.Orderly (s : TokenizerContext) : Call → Prop
  | .getOneChar _ | .peekOneChar _ | .ungetOneToken _ => s.tokenBuffer = []
  | .ungetOneChar _ => s.tokenBuffer = [] ∧ s.charBuffer = []
  | .getOneToken _ | .peekOneToken _ | .setMode _ => True

/-- A call as the parser makes it. -/
def Call.Takes (s : TokenizerContext) (call : Call) (t : TokenizerContext) : Prop :=
  call.Runs s t ∧ call.Orderly s

section Calls

variable {s t : TokenizerContext} {token : Token} {ch : Option Byte}

/-- A token that is pushed back is the next one to be delivered; `EOF` is not pushed back. -/
theorem ungetOneToken_eq_ok (hrun : ungetOneToken token s = .ok () t) :
    t = if token = .eof then s else { s with tokenBuffer := token :: s.tokenBuffer } := by
  unfold ungetOneToken at hrun
  split at hrun
  · cases hrun
  · split at hrun
    · rename_i heof
      cases hrun
      rw [if_pos heof]
    · rename_i heof
      cases hrun
      rw [if_neg heof]

theorem ungetOneChar_eq_ok (hrun : ungetOneChar ch s = .ok () t) :
    t = { s with charBuffer := ch.toList ++ s.charBuffer } := by
  unfold ungetOneChar at hrun
  split at hrun
  · cases hrun
  · cases ch <;> (cases hrun; rfl)

theorem peekOneToken_eq_ok (hrun : peekOneToken s = .ok token t) :
    ∃ next, getOneToken s = .ok token next ∧ ungetOneToken token next = .ok () t := by
  unfold peekOneToken at hrun
  obtain ⟨token', next, hget, hrun⟩ := bind_eq_ok hrun
  obtain ⟨_, t', hunget, hrun⟩ := bind_eq_ok hrun
  obtain ⟨rfl, rfl⟩ := pure_eq_ok.mp hrun
  exact ⟨next, hget, hunget⟩

theorem peekOneChar_eq_ok (hrun : peekOneChar s = .ok ch t) :
    ∃ next, getOneChar s = .ok ch next ∧ ungetOneChar ch next = .ok () t := by
  unfold peekOneChar at hrun
  obtain ⟨ch', next, hget, hrun⟩ := bind_eq_ok hrun
  obtain ⟨_, t', hunget, hrun⟩ := bind_eq_ok hrun
  obtain ⟨rfl, rfl⟩ := pure_eq_ok.mp hrun
  exact ⟨next, hget, hunget⟩

end Calls

/-- A token with the mode that it was read in. -/
abbrev ReadToken := Token × TokenizerMode

/-- The tokens in the push-back buffer and the one that was delivered last. -/
structure ReadTokens where
  buffered : List ReadToken
  last : Option ReadToken

/-- A token is delivered from the buffer, or read in the present mode. -/
def ReadTokens.deliver (m : ReadTokens) (mode : TokenizerMode) (token : Token) : ReadTokens :=
  match m.buffered with
  | [] => ⟨[], some (token, mode)⟩
  | read :: others => ⟨others, some read⟩

/-- The token that was delivered last is pushed back, unless it is `EOF`. -/
def ReadTokens.pushBack (m : ReadTokens) (token : Token) : ReadTokens :=
  if token = .eof then m else ⟨m.last.toList ++ m.buffered, m.last⟩

def ReadTokens.after (m : ReadTokens) (call : CallRecord) : ReadTokens :=
  match call.action with
  | .getOneToken token => m.deliver call.before.mode token
  | .ungetOneToken token => m.pushBack token
  | .peekOneToken token => (m.deliver call.before.mode token).pushBack token
  | .getOneChar _ | .ungetOneChar _ | .peekOneChar _ | .setMode _ => m

/-- The tokens behind these calls, which begin with empty buffers. -/
def readTokens (calls : List CallRecord) : ReadTokens :=
  calls.foldl ReadTokens.after ⟨[], none⟩

theorem readTokens_concat (calls : List CallRecord) (call : CallRecord) :
    readTokens (calls ++ [call]) = (readTokens calls).after call := by
  rw [readTokens, List.foldl_append]
  rfl

/-- A token that was read in this mode, or that is the same in every mode. -/
def ReadToken.Suits (read : ReadToken) (mode : TokenizerMode) : Prop :=
  read.2 = mode ∨ read.1.isDirective = true

/-- The token that the call delivers from the push-back buffer, if it does. -/
def consumed (m : ReadTokens) : Call → Option ReadToken
  | .getOneToken _ | .peekOneToken _ => m.buffered.head?
  | .getOneChar _ | .ungetOneChar _ | .peekOneChar _ | .ungetOneToken _ | .setMode _ => none

/-- A recorded call with at most one token and one character pushed back before and behind it.
The token that it consumes, if it takes one from the buffer, suits the mode. -/
structure Disciplined (m : ReadTokens) (call : CallRecord) : Prop where
  before : Buffered 1 1 call.before
  after : Buffered 1 1 call.after
  tokens_eq : m.buffered.map Prod.fst = call.before.tokenBuffer
  suits : ∀ read ∈ consumed m call.action, read.Suits call.before.mode

/-- Every one of the calls is disciplined, given those in front of it. -/
def AllDisciplined (calls : List CallRecord) : Prop :=
  ∀ earlier call later, calls = earlier ++ call :: later → Disciplined (readTokens earlier) call

theorem AllDisciplined.concat {calls : List CallRecord} {call : CallRecord}
    (h : AllDisciplined calls) (hcall : Disciplined (readTokens calls) call) :
    AllDisciplined (calls ++ [call]) := by
  intro earlier other later hsplit
  rcases List.eq_nil_or_concat' later with rfl | ⟨later, last, rfl⟩
  · obtain ⟨rfl, hlast⟩ := List.append_inj' hsplit rfl
    obtain rfl := List.singleton_inj.mp hlast
    exact hcall
  · rw [← List.cons_append, ← List.append_assoc] at hsplit
    exact h earlier other later (List.append_inj' hsplit rfl).1

/-- What is known of the tokenizer between two calls. -/
abbrev Place := TokenizerContext → ReadTokens → Prop

/-- No more than these tokens and characters are pushed back, and the buffered tokens suit the
mode. -/
structure At (tokens chars : Nat) (mode : TokenizerMode) (s : TokenizerContext)
    (m : ReadTokens) : Prop where
  within : Within tokens chars mode s
  tokens_eq : m.buffered.map Prod.fst = s.tokenBuffer
  suits : ∀ read ∈ m.buffered, read.Suits mode

/-- This token has just been delivered. -/
structure AtDelivered (mode : TokenizerMode) (token : Token) (s : TokenizerContext)
    (m : ReadTokens) : Prop extends At 0 1 mode s m where
  delivered : ∃ read, m.last = some read ∧ read.1 = token ∧ read.Suits mode

/-- No other token than this one is pushed back. -/
structure AtPushedBack (mode : TokenizerMode) (token : Token) (s : TokenizerContext)
    (m : ReadTokens) : Prop extends At 1 1 mode s m where
  pushedBack : ∀ read ∈ m.buffered, read.1 = token

section Places

variable {tokens chars : Nat} {mode : TokenizerMode} {s t : TokenizerContext} {m : ReadTokens}
  {token : Token} {ch : Option Byte} {call : Call}

theorem At.mono {tokens' chars' : Nat} (h : At tokens chars mode s m) (htokens : tokens ≤ tokens')
    (hchars : chars ≤ chars') : At tokens' chars' mode s m :=
  ⟨h.within.mono htokens hchars, h.tokens_eq, h.suits⟩

/-- Without a buffered token there is none to be kept track of. -/
theorem At.buffered_eq (h : At 0 chars mode s m) : m.buffered = [] := by
  have htokens := h.tokens_eq
  rw [h.within.1.tokenBuffer_eq] at htokens
  exact List.map_eq_nil_iff.mp htokens

theorem At.of_empty {chars' : Nat} {mode' : TokenizerMode} (h : At 0 chars mode s m)
    (ht : Within 0 chars' mode' t) : At 0 chars' mode' t m := by
  refine ⟨ht, ?_, ?_⟩
  · rw [h.buffered_eq, ht.1.tokenBuffer_eq]
    rfl
  · rw [h.buffered_eq]
    exact List.forall_mem_nil _

theorem At.disciplined (h : At tokens chars mode s m) (call : Call) (htokens : tokens ≤ 1)
    (hchars : chars ≤ 1) (ht : Buffered 1 1 t) : Disciplined m ⟨s, call, t⟩ := by
  refine ⟨h.within.1.mono htokens hchars, ht, h.tokens_eq, ?_⟩
  intro read hread
  change read.Suits s.mode
  rw [h.within.2]
  cases call with
  | getOneToken | peekOneToken => exact h.suits read (List.mem_of_mem_head? hread)
  | getOneChar | ungetOneChar | peekOneChar | ungetOneToken | setMode => cases hread

/-- A token is delivered from the buffer if there is one, and read in the mode otherwise. -/
theorem At.getOneToken (h : At 1 1 mode s m) (hrun : JCUnit.getOneToken s = .ok token t) :
    AtDelivered mode token t (m.deliver s.mode token) := by
  have hwithin := getOneToken_within.ok h.within hrun
  have htokens := h.tokens_eq
  have hsuits := h.suits
  unfold ReadTokens.deliver
  cases hm : m.buffered with
  | nil =>
      refine ⟨⟨hwithin, hwithin.1.tokenBuffer_eq.symm, List.forall_mem_nil _⟩, ?_⟩
      exact ⟨(token, s.mode), rfl, rfl, .inl h.within.2⟩
  | cons read others =>
      rw [hm, List.map_cons] at htokens
      rw [getOneToken_cons htokens.symm] at hrun
      cases hrun
      rw [hm] at hsuits
      obtain ⟨hread, hothers⟩ := List.forall_mem_cons.mp hsuits
      exact ⟨⟨hwithin, rfl, hothers⟩, read, rfl, rfl, hread⟩

/-- The token that has just been delivered is the only one behind it. -/
theorem AtDelivered.ungetOneToken (h : AtDelivered mode token s m)
    (hrun : JCUnit.ungetOneToken token s = .ok () t) :
    AtPushedBack mode token t (m.pushBack token) := by
  have hempty := h.toAt.buffered_eq
  obtain rfl := ungetOneToken_eq_ok hrun
  unfold ReadTokens.pushBack
  split
  · refine ⟨h.toAt.mono (Nat.zero_le 1) (Nat.le_refl 1), ?_⟩
    rw [hempty]
    exact List.forall_mem_nil _
  · obtain ⟨read, hlast, rfl, hsuits⟩ := h.delivered
    rw [hlast, hempty, h.within.1.tokenBuffer_eq]
    refine ⟨⟨⟨⟨Nat.le_refl 1, h.within.1.2⟩, h.within.2⟩, rfl, ?_⟩, ?_⟩
    · exact List.forall_mem_singleton.mpr hsuits
    · exact List.forall_mem_singleton.mpr rfl

/-- A directive suits the other mode as well. -/
theorem AtPushedBack.setMode {mode' : TokenizerMode} (h : AtPushedBack mode token s m)
    (htoken : token.isDirective = true) : At 1 1 mode' { s with mode := mode' } m := by
  refine ⟨⟨h.within.1, rfl⟩, h.tokens_eq, ?_⟩
  intro read hread
  refine .inr ?_
  rw [h.pushedBack read hread]
  exact htoken

end Places

/-- The recorded calls are a disciplined trail from the start of the file to a context. -/
def Recorded (source : Bytes) (calls : List CallRecord) (context : TokenizerContext) : Prop :=
  Trail Call.Takes (initTokenizerContext source) calls context ∧ AllDisciplined calls

/-- The program makes disciplined calls from the first place to the second one, and does not
fail for a full buffer. -/
abbrev Moves {α : Type} (source : Bytes) (P : Place) (x : TracedM α) (Q : α → Place) : Prop :=
  Yields (fun halt s => (∃ context, Recorded source s.calls context) ∧ ¬ IsOverflow halt)
    (fun s => Recorded source s.calls s.context ∧ P s.context (readTokens s.calls)) x
    fun a s => Recorded source s.calls s.context ∧ Q a s.context (readTokens s.calls)

/-- A program that copes with more places copes with fewer. -/
theorem Moves.pre {α : Type} {source : Bytes} {P P' : Place} {x : TracedM α} {Q : α → Place}
    (h : Moves source P x Q) (hP : ∀ s m, P' s m → P s m) : Moves source P' x Q :=
  Yields.mono h fun _ hs => ⟨hs.1, hP _ _ hs.2⟩

/-- A fact that does not speak of the place may be assumed. -/
theorem Moves.given {α : Type} {source : Bytes} {P : Place} {p : Prop} {x : TracedM α}
    {Q : α → Place} (h : p → Moves source P x Q) : Moves source (fun s m => P s m ∧ p) x Q :=
  fun s hs => h hs.2.2 s ⟨hs.1, hs.2.1⟩

namespace Traced

section Moves

variable {source : Bytes} {tokens chars : Nat} {mode : TokenizerMode} {α : Type} {P P' : Place}

theorem moves_record {x : TokM α} {call : α → Call} {Q : α → Place}
    (hok : ∀ s m a t, P s m → x s = .ok a t →
      (call a).Takes s t ∧ Disciplined m ⟨s, call a, t⟩ ∧ Q a t (m.after ⟨s, call a, t⟩))
    (herror : ∀ s m halt t, P s m → x s = .error halt t → ¬ IsOverflow halt) :
    Moves source P (record call x) Q := by
  rintro ⟨context, calls⟩ ⟨⟨htrail, hall⟩, hs⟩
  unfold record
  cases hx : x context with
  | ok a t =>
      obtain ⟨htakes, hcall, ht⟩ := hok context _ a t hs hx
      refine ⟨⟨htrail.next htakes, hall.concat hcall⟩, ?_⟩
      dsimp only
      rw [readTokens_concat]
      exact ht
  | error halt t => exact ⟨⟨context, htrail, hall⟩, herror context _ halt t hs hx⟩

theorem moves_pure {Q : α → Place} {a : α} (h : ∀ s m, P s m → Q a s m) :
    Moves source P (pure a) Q :=
  Yields.pure fun _ hs => ⟨hs.1, h _ _ hs.2⟩

theorem moves_throw {Q : α → Place} {halt : Halt} (h : ¬ IsOverflow halt) :
    Moves source P (throw halt : TracedM α) Q :=
  Yields.throw fun s hs => ⟨⟨s.context, hs.1⟩, h⟩

theorem moves_diverged {Q : α → Place} : Moves source P (throw .diverged : TracedM α) Q := by
  apply moves_throw
  rintro (h | h) <;> cases h

theorem moves_fatal {Q : α → Place} {message : Bytes} (h : ¬ BeginsAsOverflow message) :
    Moves source P (fatal message : TracedM α) Q :=
  moves_throw (not_isOverflow h)

theorem moves_getOneChar (h : chars ≤ 1) :
    Moves source (At 0 chars mode) getOneChar fun _ => At 0 0 mode := by
  have hwithin : ∀ s m, At 0 chars mode s m → Within 0 1 mode s := fun s m hs =>
    hs.within.mono (Nat.le_refl 0) h
  apply moves_record
  · intro s m ch t hs hrun
    have ht := getOneChar_within.ok (hwithin s m hs) hrun
    have hdisciplined := hs.disciplined (.getOneChar ch) (Nat.zero_le 1) h
      (ht.1.mono (Nat.zero_le 1) (Nat.zero_le 1))
    exact ⟨⟨hrun, hs.within.1.tokenBuffer_eq⟩, hdisciplined, hs.of_empty ht⟩
  · intro s m halt t hs hrun
    exact getOneChar_within.error (hwithin s m hs) hrun

theorem moves_ungetOneChar (ch : Option Byte) :
    Moves source (At 0 0 mode) (ungetOneChar ch) fun _ => At 0 1 mode := by
  apply moves_record
  · intro s m _ t hs hrun
    have ht := (ungetOneChar_within ch).ok hs.within hrun
    have hdisciplined := hs.disciplined (.ungetOneChar ch) (Nat.zero_le 1) (Nat.zero_le 1)
      (ht.1.mono (Nat.zero_le 1) (Nat.le_refl 1))
    have horderly := And.intro hs.within.1.tokenBuffer_eq hs.within.1.charBuffer_eq
    exact ⟨⟨hrun, horderly⟩, hdisciplined, hs.of_empty ht⟩
  · intro s m halt t hs hrun
    exact (ungetOneChar_within ch).error hs.within hrun

theorem moves_peekOneChar : Moves source (At 0 1 mode) peekOneChar fun _ => At 0 1 mode := by
  apply moves_record
  · intro s m ch t hs hrun
    have ht := peekOneChar_within.ok hs.within hrun
    have hdisciplined := hs.disciplined (.peekOneChar ch) (Nat.zero_le 1) (Nat.le_refl 1)
      (ht.1.mono (Nat.zero_le 1) (Nat.le_refl 1))
    exact ⟨⟨hrun, hs.within.1.tokenBuffer_eq⟩, hdisciplined, hs.of_empty ht⟩
  · intro s m halt t hs hrun
    exact peekOneChar_within.error hs.within hrun

theorem moves_getOneToken (h : tokens ≤ 1) :
    Moves source (At tokens 1 mode) getOneToken fun token => AtDelivered mode token := by
  apply moves_record
  · intro s m token t hs hrun
    have hs := hs.mono h (Nat.le_refl 1)
    have ht := hs.getOneToken hrun
    have hdisciplined := hs.disciplined (.getOneToken token) (Nat.le_refl 1) (Nat.le_refl 1)
      (ht.within.1.mono (Nat.zero_le 1) (Nat.le_refl 1))
    exact ⟨⟨hrun, trivial⟩, hdisciplined, ht⟩
  · intro s m halt t hs hrun
    exact getOneToken_within.error (hs.within.mono h (Nat.le_refl 1)) hrun

theorem moves_ungetOneToken (token : Token) :
    Moves source (AtDelivered mode token) (ungetOneToken token)
      fun _ => AtPushedBack mode token := by
  apply moves_record
  · intro s m _ t hs hrun
    have ht := hs.ungetOneToken hrun
    have hdisciplined := hs.toAt.disciplined (.ungetOneToken token) (Nat.zero_le 1)
      (Nat.le_refl 1) ht.within.1
    exact ⟨⟨hrun, hs.within.1.tokenBuffer_eq⟩, hdisciplined, ht⟩
  · intro s m halt t hs hrun
    exact (ungetOneToken_within token).error hs.within hrun

theorem moves_peekOneToken (h : tokens ≤ 1) :
    Moves source (At tokens 1 mode) peekOneToken fun token => AtPushedBack mode token := by
  apply moves_record
  · intro s m token t hs hrun
    have hs := hs.mono h (Nat.le_refl 1)
    obtain ⟨next, hget, hunget⟩ := peekOneToken_eq_ok hrun
    have ht := (hs.getOneToken hget).ungetOneToken hunget
    have hdisciplined := hs.disciplined (.peekOneToken token) (Nat.le_refl 1)
      (Nat.le_refl 1) ht.within.1
    exact ⟨⟨hrun, trivial⟩, hdisciplined, ht⟩
  · intro s m halt t hs hrun
    exact peekOneToken_within.error (hs.within.mono h (Nat.le_refl 1)) hrun

theorem moves_setMode (mode' : TokenizerMode) (htokens : tokens ≤ 1) (hchars : chars ≤ 1)
    (h : ∀ s m, P s m →
      At tokens chars mode s m ∧ At tokens chars mode' { s with mode := mode' } m) :
    Moves source P (setMode mode') fun _ => At tokens chars mode' := by
  apply moves_record
  · intro s m _ t hs hrun
    obtain ⟨hbefore, hafter⟩ := h s m hs
    cases hrun
    have hdisciplined := hbefore.disciplined (.setMode mode') htokens hchars
      (hafter.within.1.mono htokens hchars)
    exact ⟨⟨rfl, trivial⟩, hdisciplined, hafter⟩
  · intro s m halt t hs hrun
    cases hrun

/-- Without a buffered token the mode may be set freely. -/
theorem moves_switchMode (mode' : TokenizerMode) :
    Moves source (At 0 1 mode) (setMode mode') fun _ => At 0 1 mode' :=
  moves_setMode mode' (Nat.zero_le 1) (Nat.le_refl 1) fun _ _ hs =>
    ⟨hs, hs.of_empty ⟨hs.within.1, rfl⟩⟩

/-- The mode may be set once more to what it is. -/
theorem moves_sameMode : Moves source (At 1 1 mode) (setMode mode) fun _ => At 1 1 mode :=
  moves_setMode mode (Nat.le_refl 1) (Nat.le_refl 1) fun _ _ hs =>
    ⟨hs, ⟨hs.within.1, rfl⟩, hs.tokens_eq, hs.suits⟩

theorem moves_getContext :
    Moves source (At tokens chars mode) getContext
      fun context s m => At tokens chars mode s m ∧ context.mode = mode :=
  fun _ hs => ⟨hs.1, hs.2, hs.2.within.2⟩

theorem moves_skipWhitespacesLoop (rounds : Nat) (ch : Option Byte) :
    Moves source (At 0 0 mode) (skipWhitespacesLoop rounds ch) fun _ => At 0 0 mode := by
  induction rounds generalizing ch with
  | zero =>
      cases ch with
      | none => exact moves_pure fun _ _ hs => hs
      | some b =>
          rw [skipWhitespacesLoop]
          split
          · exact moves_diverged
          · exact moves_pure fun _ _ hs => hs
  | succ rounds ih =>
      cases ch with
      | none => exact moves_pure fun _ _ hs => hs
      | some b =>
          rw [skipWhitespacesLoop]
          split
          · exact (moves_getOneChar (Nat.zero_le 1)).bind fun next => ih next
          · exact moves_pure fun _ _ hs => hs

theorem moves_skipWhitespaces :
    Moves source (At 0 1 mode) skipWhitespaces fun _ => At 0 1 mode := by
  apply (moves_getOneChar (Nat.le_refl 1)).bind
  intro ch
  apply moves_getContext.bind
  intro context
  apply Moves.given
  intro _
  exact (moves_skipWhitespacesLoop _ ch).bind fun ch => moves_ungetOneChar ch

/-- The next token, with none left behind it. -/
theorem moves_nextToken (h : tokens ≤ 1) :
    Moves source (At tokens 1 mode) getOneToken fun _ => At 0 1 mode :=
  (moves_getOneToken h).post fun _ _ hs => ⟨hs.1, hs.2.toAt⟩

theorem moves_parseNamedDirectiveArgument (directive : DirectiveParseContext) :
    Moves source (At 1 1 mode) (parseNamedDirectiveArgument directive) fun _ => At 0 1 mode := by
  apply (moves_nextToken (Nat.le_refl 1)).bind
  intro token
  apply (moves_nextToken (Nat.zero_le 1)).bind
  intro equals
  split
  · exact moves_fatal (by decide)
  · apply (moves_nextToken (Nat.zero_le 1)).bind
    intro value
    cases value with
    | string value => exact moves_pure fun _ _ hs => hs
    | _ => exact moves_fatal (by decide)

theorem moves_parseDirectiveArgument (directive : DirectiveParseContext) :
    Moves source (At 1 1 mode) (parseDirectiveArgument directive) fun _ => At 0 1 mode := by
  apply (moves_getOneToken (Nat.le_refl 1)).bind
  intro token
  cases token with
  | name text =>
      apply (moves_ungetOneToken _).bind
      intro _
      exact (moves_parseNamedDirectiveArgument directive).pre fun _ _ hs => hs.toAt
  | string value =>
      dsimp only
      split
      · exact moves_fatal (by decide)
      · exact moves_pure fun _ _ hs => hs.toAt
  | _ => exact moves_fatal (by decide)

theorem moves_parseDirectiveArgumentsLoop (rounds : Nat) (directive : DirectiveParseContext) :
    Moves source (At 0 1 mode) (parseDirectiveArgumentsLoop rounds directive)
      fun _ => At 1 1 mode := by
  induction rounds generalizing directive with
  | zero => exact moves_diverged
  | succ rounds ih =>
      apply moves_skipWhitespaces.bind
      intro _
      apply (moves_peekOneToken (Nat.zero_le 1)).bind
      intro token
      split
      · exact moves_pure fun _ _ hs => hs.toAt
      · apply ((moves_parseDirectiveArgument directive).pre fun _ _ hs => hs.toAt).bind
        intro directive
        apply (moves_getOneToken (Nat.zero_le 1)).bind
        intro token
        split
        · exact (ih directive).pre fun _ _ hs => hs.toAt
        · exact (moves_ungetOneToken token).bind fun _ => moves_pure fun _ _ hs => hs.toAt

theorem moves_parseDirectiveArguments (directive : DirectiveParseContext) :
    Moves source (At 0 1 mode) (parseDirectiveArguments directive) fun _ => At 0 1 mode := by
  apply moves_getContext.bind
  intro context
  apply Moves.given
  intro _
  apply (moves_parseDirectiveArgumentsLoop _ directive).bind
  intro directive
  apply (moves_nextToken (Nat.le_refl 1)).bind
  intro token
  split
  · exact moves_fatal (by decide)
  · exact moves_pure fun _ _ hs => hs

theorem moves_parseOptionalArguments (directive : DirectiveParseContext) :
    Moves source (At 0 1 mode) (parseOptionalArguments directive) fun _ => At 0 1 mode := by
  apply moves_peekOneChar.bind
  intro ch
  split
  · exact (moves_nextToken (Nat.zero_le 1)).bind fun _ => moves_parseDirectiveArguments directive
  · exact moves_pure fun _ _ hs => hs

/-- The arguments of a directive are read in the plain mode, and the mode is put back. -/
theorem moves_parseDirective :
    Moves source (At 1 1 mode) parseDirective fun _ => At 0 1 mode := by
  apply (moves_nextToken (Nat.le_refl 1)).bind
  intro token
  cases token with
  | directive name =>
      apply moves_getContext.bind
      intro context
      apply Moves.given
      rintro rfl
      apply (moves_switchMode .none).bind
      intro _
      apply (moves_parseOptionalArguments _).bind
      intro directive
      apply (moves_nextToken (Nat.zero_le 1)).bind
      intro token
      split
      · exact moves_fatal (by decide)
      · exact (moves_switchMode _).bind fun _ => moves_pure fun _ _ hs => hs
  | _ => exact moves_fatal (by decide)

theorem moves_parseContentLoop (room : Nat) (buffer : Bytes) (lastCh : Byte) :
    Moves source (At 1 1 mode) (parseContentLoop room buffer lastCh) fun _ => At 1 1 mode := by
  induction room generalizing buffer lastCh with
  | zero => exact moves_fatal (by decide)
  | succ room ih =>
      apply (moves_getOneToken (Nat.le_refl 1)).bind
      intro token
      split
      · exact moves_fatal (by decide)
      · split
        · exact (moves_ungetOneToken token).bind fun _ => moves_pure fun _ _ hs => hs.toAt
        · exact (ih _ _).pre fun _ _ hs => hs.toAt.mono (Nat.zero_le 1) (Nat.le_refl 1)

/-- The requirements of a test are read in the mode in which their contents are read. -/
theorem moves_parseRequirement :
    Moves source (At 1 1 .directiveAndText) parseRequirement
      fun _ => At 1 1 .directiveAndText := by
  apply moves_parseDirective.bind
  intro directive
  apply (moves_peekOneToken (Nat.zero_le 1)).bind
  intro token
  split
  · exact moves_pure fun _ _ hs => hs.toAt
  · apply (moves_getContext.pre fun _ _ hs => hs.toAt).bind
    intro context
    apply Moves.given
    intro hmode
    apply moves_sameMode.bind
    intro _
    apply (moves_parseContentLoop _ _ _).bind
    intro content
    rw [hmode]
    exact moves_sameMode.bind fun _ => moves_pure fun _ _ hs => hs

/-- The list of requirements ends with `@endtest`, which is read again in the other mode. -/
theorem moves_parseRequirementListLoop (room : Nat) (requirements : List AstRequirement) :
    Moves source (At 1 1 .directiveAndText) (parseRequirementListLoop room requirements)
      fun _ => AtPushedBack .directiveAndText (.directive (ascii "endtest")) := by
  induction room generalizing requirements with
  | zero =>
      rw [parseRequirementListLoop]
      apply (moves_peekOneToken (Nat.le_refl 1)).bind
      intro token
      split
      · rename_i htoken
        rw [htoken]
        exact moves_pure fun _ _ hs => hs
      · exact moves_fatal (by decide)
  | succ room ih =>
      rw [parseRequirementListLoop]
      apply (moves_peekOneToken (Nat.le_refl 1)).bind
      intro token
      split
      · rename_i htoken
        rw [htoken]
        exact moves_pure fun _ _ hs => hs
      · apply (moves_parseRequirement.pre fun _ _ hs => hs.toAt).bind
        intro requirement
        exact ih _

theorem moves_parseRequirementList :
    Moves source (At 0 1 .directiveAndText) parseRequirementList
      fun _ => AtPushedBack .directiveAndText (.directive (ascii "endtest")) := by
  apply (moves_getOneToken (Nat.zero_le 1)).bind
  intro token
  split
  · exact moves_fatal (by decide +kernel)
  · apply (moves_ungetOneToken token).bind
    intro _
    exact (moves_parseRequirementListLoop _ _).pre fun _ _ hs => hs.toAt

theorem moves_parseTestProlog :
    Moves source (At 1 1 mode) parseTestProlog fun _ => At 0 1 mode := by
  apply moves_parseDirective.bind
  intro directive
  split
  · apply moves_fatal
    rintro (h | h) <;> cases h
  · exact moves_pure fun _ _ hs => hs

theorem moves_parseTestEpilog :
    Moves source (At 1 1 mode) parseTestEpilog fun _ => At 0 1 mode := by
  apply moves_parseDirective.bind
  intro directive
  split
  · apply moves_fatal
    rintro (h | h) <;> cases h
  · split
    · exact moves_fatal (by decide)
    · exact moves_pure fun _ _ hs => hs

theorem moves_parseTest : Moves source (At 1 1 .none) parseTest fun _ => At 0 1 .none := by
  apply moves_parseTestProlog.bind
  intro testArguments
  apply (moves_switchMode .directiveAndText).bind
  intro _
  apply moves_parseRequirementList.bind
  intro requirements
  apply (moves_setMode .none (Nat.le_refl 1) (Nat.le_refl 1) fun _ _ hs =>
    ⟨hs.toAt, hs.setMode rfl⟩).bind
  intro _
  exact moves_parseTestEpilog.bind fun _ => moves_pure fun _ _ hs => hs

theorem moves_skipNewlinesLoop (rounds : Nat) :
    Moves source (At 1 1 mode) (skipNewlinesLoop rounds) fun _ => At 1 1 mode := by
  induction rounds with
  | zero => exact moves_diverged
  | succ rounds ih =>
      apply (moves_getOneToken (Nat.le_refl 1)).bind
      intro token
      split
      · exact ih.pre fun _ _ hs => hs.toAt.mono (Nat.zero_le 1) (Nat.le_refl 1)
      · exact (moves_ungetOneToken token).bind fun _ => moves_pure fun _ _ hs => hs.toAt

theorem moves_parseTestSuiteLoop (rounds : Nat) (token : Token) (tests : List AstTest) :
    Moves source (At 1 1 .none) (parseTestSuiteLoop rounds token tests)
      fun _ => At 1 1 .none := by
  induction rounds generalizing token tests with
  | zero => exact moves_diverged
  | succ rounds ih =>
      rw [parseTestSuiteLoop]
      split
      · exact moves_pure fun _ _ hs => hs
      · split
        · apply moves_getContext.bind
          intro context
          apply Moves.given
          intro _
          exact (moves_skipNewlinesLoop _).bind fun token => ih token tests
        · apply moves_parseTest.bind
          intro test
          apply (moves_peekOneToken (Nat.zero_le 1)).bind
          intro token
          exact (ih token _).pre fun _ _ hs => hs.toAt

theorem moves_parseTestSuiteM :
    Moves source (At 0 1 .none) parseTestSuiteM fun _ => At 1 1 .none := by
  apply (moves_peekOneToken (Nat.zero_le 1)).bind
  intro token
  apply (moves_getContext.pre fun _ _ hs => hs.toAt).bind
  intro context
  apply Moves.given
  intro _
  exact moves_parseTestSuiteLoop _ _ _

end Moves

end Traced

/-- The calls of the parser, on any file, are a disciplined run of the tokenizer, which does not
end in an error for a full buffer. -/
theorem parserCalls_recorded (source : Bytes) :
    (∃ context, Recorded source (parserCalls source) context) ∧
      ∀ halt, parseTestSuite source = .error halt → ¬ IsOverflow halt := by
  have hstart : Recorded source [] (initTokenizerContext source) ∧
      At 0 1 .none (initTokenizerContext source) (readTokens []) := by
    refine ⟨⟨.start, ?_⟩, ⟨⟨⟨Nat.le_refl 0, Nat.zero_le 1⟩, rfl⟩, rfl, List.forall_mem_nil _⟩⟩
    intro earlier call later hsplit
    cases earlier <;> cases hsplit
  have hrun := Traced.moves_parseTestSuiteM ⟨initTokenizerContext source, []⟩ hstart
  have hfollows := Traced.follows_parseTestSuiteM ⟨initTokenizerContext source, []⟩
  unfold parserCalls parseTestSuite
  rw [← hfollows]
  cases hparse : Traced.parseTestSuiteM ⟨initTokenizerContext source, []⟩ with
  | ok tests s =>
      rw [hparse] at hrun
      refine ⟨⟨s.context, hrun.1⟩, ?_⟩
      intro halt herror
      cases herror
  | error halt s =>
      rw [hparse] at hrun
      refine ⟨hrun.1, ?_⟩
      intro halt' herror
      cases herror
      exact hrun.2

theorem parserCalls_trail (source : Bytes) : ∃ context,
    Trail Call.Takes (initTokenizerContext source) (parserCalls source) context := by
  obtain ⟨⟨context, htrail, -⟩, -⟩ := parserCalls_recorded source
  exact ⟨context, htrail⟩

/-- The contexts that the tokenizer is in between the calls of the parser. -/
def parserContexts (source : Bytes) : List TokenizerContext :=
  initTokenizerContext source :: (parserCalls source).map Record.after

/-- The parser looks at characters itself. -/
def Call.isCharacterCall : Call → Bool
  | .getOneChar _ | .ungetOneChar _ | .peekOneChar _ => true
  | .getOneToken _ | .ungetOneToken _ | .peekOneToken _ | .setMode _ => false

/-- Whatever the file holds, no more than one token and one character are pushed back, between
the calls of the parser and inside of them, and the parser never fails for a full buffer. It
looks at characters only where no token is buffered, and a buffered token that is consumed in
another mode than the one it was read in is a directive. -/
theorem parser_lookAhead_disciplined (source : Bytes) :
    (∀ context ∈ parserContexts source,
        Buffered 1 1 context ∧ BufferedCalls (characterCalls context)) ∧
      (∀ halt, parseTestSuite source = .error halt → ¬ IsOverflow halt) ∧
      (∀ call ∈ parserCalls source,
        call.action.isCharacterCall = true → call.before.tokenBuffer = []) ∧
      ∀ earlier call later, parserCalls source = earlier ++ call :: later →
        (readTokens earlier).buffered.map Prod.fst = call.before.tokenBuffer ∧
          ∀ read ∈ consumed (readTokens earlier) call.action,
            read.2 ≠ call.before.mode → read.1.isDirective = true := by
  obtain ⟨⟨context, htrail, hall⟩, hhalt⟩ := parserCalls_recorded source
  have hbuffered : ∀ context ∈ parserContexts source, Buffered 1 1 context := by
    intro context hmem
    rcases List.mem_cons.mp hmem with rfl | hmem
    · exact ⟨Nat.zero_le 1, Nat.zero_le 1⟩
    · obtain ⟨call, hcall, rfl⟩ := List.mem_map.mp hmem
      obtain ⟨earlier, later, hsplit⟩ := List.append_of_mem hcall
      exact (hall earlier call later hsplit).after
  refine ⟨?_, hhalt, ?_, ?_⟩
  · intro context hmem
    exact ⟨hbuffered context hmem, characterCalls_buffered (hbuffered context hmem)⟩
  · intro call hmem hcall
    have horderly := (htrail.step_of_mem hmem).2
    cases haction : call.action <;> rw [haction] at hcall horderly
    case getOneChar | peekOneChar => exact horderly
    case ungetOneChar => exact horderly.1
    all_goals cases hcall
  · intro earlier call later hsplit
    have hcall := hall earlier call later hsplit
    refine ⟨hcall.tokens_eq, ?_⟩
    intro read hread hmode
    exact (hcall.suits read hread).resolve_left hmode

end JCUnit
