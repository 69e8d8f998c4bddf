import JCUnit.Frontend.ParserCalls

/-!
# What looking ahead costs

Every byte that the tokenizer reads too far is pushed back. `Call.Faithful` says of one
recorded call that it loses and invents nothing: what is still to be delivered before the call
is what the call delivers, followed by what is still to be delivered behind it. A byte 255 that
is pushed back breaks this, and nothing else does.
-/

namespace JCUnit

open StateError Transitions

namespace TokenizerContext

/-- The bytes that `get_one_char` has not delivered yet. -/
def undelivered (s : TokenizerContext) : Bytes := s.charBuffer ++ s.source

/-- What `get_one_char` delivers, one call after the other, up to the end of the file. -/
def pending (s : TokenizerContext) : List (Option Byte) :=
  s.charBuffer.map ofCharBuffer ++ s.source.map some

/-- Every byte has been delivered, and nothing that was pushed back remains. -/
def Exhausted (s : TokenizerContext) : Prop := s.pending = [] ∧ s.tokenBuffer = []

end TokenizerContext

/-- The next character is delivered and nothing else changes; `EOF` only at the end. -/
def DeliversChar (s : TokenizerContext) : Option Byte → TokenizerContext → Prop
  | some b, t => s.pending = some b :: t.pending ∧ t.tokenBuffer = s.tokenBuffer
  | none, t => s.Exhausted ∧ t = s

/-- The next token is delivered: the last one that was pushed back, or the one that the text
still to come begins with, in front of the rest of that text. `EOF` comes only at the end. -/
structure DeliversToken (s : TokenizerContext) (token : Token) (t : TokenizerContext) : Prop where
  from_buffer : ∀ buffered others, s.tokenBuffer = buffered :: others →
    token = buffered ∧ t.tokenBuffer = others ∧ t.pending = s.pending
  from_text : s.tokenBuffer = [] → t.tokenBuffer = [] ∧
    ∃ text rest, s.pending = text.map some ∧ t.pending = rest.map some ∧
      Lexes s.mode text token rest
  at_end : token = .eof → s.Exhausted

/-- The call is transparent. What is pushed back is what is delivered next, and a peek leaves
what it has shown, and all that is behind it, to be delivered. -/
def Faithful (call : CallRecord) : Prop :=
  match call.action with
  | .getOneChar ch => DeliversChar call.before ch call.after
  | .ungetOneChar (some b) => getOneChar call.after = .ok (some b) call.before
  | .ungetOneChar none => call.after = call.before
  | .peekOneChar ch => (∃ next, DeliversChar call.before ch next) ∧
      call.after.pending = call.before.pending ∧ call.after.tokenBuffer = call.before.tokenBuffer
  | .getOneToken token => DeliversToken call.before token call.after
  | .ungetOneToken token =>
      if token = .eof then call.after = call.before
      else getOneToken call.after = .ok token call.before
  | .peekOneToken token =>
      ∃ next, DeliversToken call.before token next ∧ getOneToken call.after = .ok token next
  | .setMode _ => call.after.pending = call.before.pending ∧
      call.after.tokenBuffer = call.before.tokenBuffer

/-- The byte that the call pushes back into the `char` buffer, read off the context before it. -/
def pushedBackByte (call : CallRecord) : Option Byte :=
  match call.action with
  | .ungetOneChar ch => ch
  | .peekOneChar _ => call.before.undelivered.head?
  | .getOneToken _ | .peekOneToken _ =>
      if call.before.tokenBuffer = [] then lookAhead call.before.mode call.before.undelivered
      else none
  | .getOneChar _ | .ungetOneToken _ | .setMode _ => none

/-- No byte that reads as `EOF` has been pushed back, and at most one byte at all. -/
structure Clean (s : TokenizerContext) : Prop where
  chars : 255 ∉ s.charBuffer
  few : s.charBuffer.length ≤ 1
  tokens : .eof ∉ s.tokenBuffer

section Contexts

variable {s t : TokenizerContext} {rest : Bytes} {mode : TokenizerMode} {ahead : Option Byte}
  {token : Token}

theorem Lexes.eof_nil {text : Bytes} (h : Lexes mode text .eof rest) :
    text = [] ∧ rest = [] := by
  cases h
  exact ⟨rfl, rfl⟩

theorem ofCharBuffer_of_ne {b : Byte} (hb : b ≠ 255) : ofCharBuffer b = some b :=
  if_neg hb

theorem Clean.fresh (text : Bytes) (mode : TokenizerMode) : Clean (fresh text mode) :=
  ⟨List.not_mem_nil, Nat.zero_le 1, List.not_mem_nil⟩

theorem Clean.pending_eq (h : Clean s) : s.pending = s.undelivered.map some := by
  have hchars : s.charBuffer.map ofCharBuffer = s.charBuffer.map some := by
    apply List.map_congr_left
    intro b hb
    exact ofCharBuffer_of_ne (ne_of_mem_of_not_mem hb h.chars)
  rw [TokenizerContext.pending, TokenizerContext.undelivered, hchars, List.map_append]

/-- With at most one byte pushed back, and that one readable, a context is the text to come. -/
theorem Clean.getOneChar_eq (h : Clean s) : getOneChar s =
    .ok s.undelivered.head? ⟨s.undelivered.tail, s.tokenBuffer, [], s.mode⟩ := by
  obtain ⟨source, tokenBuffer, charBuffer, mode⟩ := s
  cases charBuffer with
  | nil => cases source <;> rfl
  | cons b others =>
      have hothers : others = [] :=
        List.length_eq_zero_iff.mp (Nat.le_zero.mp (Nat.le_of_succ_le_succ h.few))
      have hb : b ≠ 255 := by
        intro hb
        apply h.chars
        rw [hb]
        exact List.mem_cons_self
      rw [hothers]
      change EStateM.Result.ok (ofCharBuffer b) _ = _
      rw [ofCharBuffer_of_ne hb]
      rfl

theorem Clean.lexToken_eq (h : Clean s) (htokens : s.tokenBuffer = []) :
    lexToken s = lexToken (JCUnit.fresh s.undelivered s.mode) := by
  have hget := h.getOneChar_eq
  rw [htokens] at hget
  unfold lexToken
  rw [bind_of_ok hget, bind_of_ok (getOneChar_fresh s.undelivered s.mode)]
  rfl

/-- What is left is the rest of the text exactly if the byte read ahead can be read again. -/
theorem LeftAt.pending_iff (h : LeftAt t rest mode ahead) :
    (∃ text : Bytes, t.pending = text.map some) ↔ ahead ≠ some 255 := by
  cases h with
  | fresh => exact ⟨fun _ => by simp, fun _ => ⟨rest, rfl⟩⟩
  | pushedBack =>
      cases rest with
      | nil => exact ⟨fun _ => by simp, fun _ => ⟨[], rfl⟩⟩
      | cons b rest =>
          rw [List.head?_cons, ne_eq, Option.some_inj]
          constructor
          · rintro ⟨text, htext⟩ rfl
            cases text <;> cases htext
          · intro hb
            refine ⟨b :: rest, ?_⟩
            change ofCharBuffer b :: rest.map some = _
            rw [ofCharBuffer_of_ne hb, List.map_cons]

theorem LeftAt.clean (h : LeftAt t rest mode ahead) (hahead : ahead ≠ some 255) :
    Clean t ∧ t.pending = rest.map some := by
  cases h with
  | fresh => exact ⟨.fresh rest mode, rfl⟩
  | pushedBack =>
      cases rest with
      | nil => exact ⟨.fresh [] mode, rfl⟩
      | cons b rest =>
          have hb : b ≠ 255 := fun hb => hahead (congrArg some hb)
          constructor
          · exact ⟨fun hmem => hb (List.mem_singleton.mp hmem).symm, Nat.le_refl 1, List.not_mem_nil⟩
          · change ofCharBuffer b :: rest.map some = _
            rw [ofCharBuffer_of_ne hb, List.map_cons]

/-- A token is read from the text still to come. -/
theorem Clean.lexToken_leaves (h : Clean s) (htokens : s.tokenBuffer = [])
    (hrun : lexToken s = .ok token t) : ∃ rest, Lexes s.mode s.undelivered token rest ∧
      LeftAt t rest s.mode (lookAhead s.mode s.undelivered) := by
  rw [h.lexToken_eq htokens] at hrun
  exact JCUnit.lexToken_leaves hrun

theorem LeftAt.tokenBuffer_eq {rest : Bytes} {mode : TokenizerMode} {ahead : Option Byte}
    (h : LeftAt t rest mode ahead) : t.tokenBuffer = [] := by
  cases h with
  | fresh => rfl
  | pushedBack => cases rest <;> rfl

/-- The token is delivered as it should be exactly if the byte read ahead can be read again. -/
theorem Clean.deliversToken_iff (h : Clean s) (htokens : s.tokenBuffer = [])
    (hrun : lexToken s = .ok token t) :
    DeliversToken s token t ↔ lookAhead s.mode s.undelivered ≠ some 255 := by
  obtain ⟨rest, hlexes, hleft⟩ := h.lexToken_leaves htokens hrun
  constructor
  · intro hdelivers
    obtain ⟨-, text, rest', -, hrest', -⟩ := hdelivers.from_text htokens
    exact hleft.pending_iff.mp ⟨rest', hrest'⟩
  · intro hahead
    constructor
    · intro buffered others hbuffer
      rw [htokens] at hbuffer
      cases hbuffer
    · intro _
      refine ⟨hleft.tokenBuffer_eq, s.undelivered, rest, h.pending_eq, ?_, hlexes⟩
      exact (hleft.clean hahead).2
    · rintro rfl
      refine ⟨?_, htokens⟩
      rw [h.pending_eq, hlexes.eof_nil.1, List.map_nil]

/-- A token that was pushed back is delivered as it should be. -/
theorem Clean.deliversToken_buffered (h : Clean s) {others : List Token}
    (htokens : s.tokenBuffer = token :: others) :
    DeliversToken s token { s with tokenBuffer := others } := by
  constructor
  · intro buffered others' hbuffer
    rw [htokens] at hbuffer
    obtain ⟨rfl, rfl⟩ := List.cons.inj hbuffer
    exact ⟨rfl, rfl, rfl⟩
  · intro hnil
    rw [htokens] at hnil
    cases hnil
  · rintro rfl
    refine absurd ?_ h.tokens
    rw [htokens]
    exact List.mem_cons_self

end Contexts

section Calls

variable {s t : TokenizerContext} {token : Token} {ch : Option Byte}

theorem eq_of_undelivered_nil (h : s.undelivered = []) : ⟨[], s.tokenBuffer, [], s.mode⟩ = s := by
  obtain ⟨source, tokenBuffer, charBuffer, mode⟩ := s
  obtain ⟨hchars, hsource⟩ := List.append_eq_nil_iff.mp h
  cases hchars
  cases hsource
  rfl

theorem Clean.deliversChar (h : Clean s) (htokens : s.tokenBuffer = [])
    (hrun : getOneChar s = .ok ch t) : DeliversChar s ch t := by
  rw [h.getOneChar_eq] at hrun
  cases hundelivered : s.undelivered with
  | nil =>
      rw [hundelivered] at hrun
      cases hrun
      refine ⟨⟨?_, htokens⟩, eq_of_undelivered_nil hundelivered⟩
      rw [h.pending_eq, hundelivered, List.map_nil]
  | cons b rest =>
      rw [hundelivered] at hrun
      cases hrun
      refine ⟨?_, rfl⟩
      rw [h.pending_eq, hundelivered, List.map_cons]
      rfl

theorem Clean.faithful_getOneChar (h : Clean s) (htakes : (Call.getOneChar ch).Takes s t) :
    Faithful ⟨s, .getOneChar ch, t⟩ :=
  h.deliversChar htakes.2 htakes.1

theorem faithful_ungetOneChar_iff (htakes : (Call.ungetOneChar ch).Takes s t) :
    Faithful ⟨s, .ungetOneChar ch, t⟩ ↔ ch ≠ some 255 := by
  obtain ⟨hruns, htokens, hchars⟩ := htakes
  obtain rfl := ungetOneChar_eq_ok hruns
  cases ch with
  | none => exact ⟨fun _ => by simp, fun _ => rfl⟩
  | some b =>
      have hget : getOneChar { s with charBuffer := (some b).toList ++ s.charBuffer } =
          .ok (ofCharBuffer b) s := rfl
      simp only [Faithful, hget, ne_eq, Option.some_inj]
      constructor
      · rintro heq rfl
        cases heq
      · intro hb
        rw [ofCharBuffer_of_ne hb]

theorem Clean.faithful_peekOneChar_iff (h : Clean s) (htakes : (Call.peekOneChar ch).Takes s t) :
    Faithful ⟨s, .peekOneChar ch, t⟩ ↔ s.undelivered.head? ≠ some 255 := by
  obtain ⟨hruns, htokens⟩ := htakes
  obtain ⟨next, hget, hunget⟩ := peekOneChar_eq_ok hruns
  obtain rfl := ungetOneChar_eq_ok hunget
  have hdelivers := h.deliversChar htokens hget
  rw [h.getOneChar_eq] at hget
  cases hget
  cases hundelivered : s.undelivered with
  | nil =>
      have hpending : s.pending = [] := by
        rw [h.pending_eq, hundelivered, List.map_nil]
      rw [hundelivered] at hdelivers
      refine ⟨fun _ => by simp, fun _ => ⟨⟨_, hdelivers⟩, ?_, rfl⟩⟩
      rw [hpending]
      rfl
  | cons b rest =>
      have hpending : s.pending = some b :: rest.map some := by
        rw [h.pending_eq, hundelivered, List.map_cons]
      rw [hundelivered] at hdelivers
      rw [List.head?_cons, ne_eq, Option.some_inj]
      constructor
      · rintro ⟨-, hafter, -⟩ rfl
        rw [hpending] at hafter
        cases hafter
      · intro hb
        refine ⟨⟨_, hdelivers⟩, ?_, rfl⟩
        rw [hpending]
        change ofCharBuffer b :: rest.map some = _
        rw [ofCharBuffer_of_ne hb]

theorem Clean.faithful_getOneToken_iff (h : Clean s) (hrun : getOneToken s = .ok token t) :
    Faithful ⟨s, .getOneToken token, t⟩ ↔
      pushedBackByte ⟨s, .getOneToken token, t⟩ ≠ some 255 := by
  change DeliversToken s token t ↔ (if s.tokenBuffer = [] then _ else none) ≠ some 255
  cases htokens : s.tokenBuffer with
  | nil =>
      rw [getOneToken_nil htokens] at hrun
      rw [if_pos rfl]
      exact h.deliversToken_iff htokens hrun
  | cons buffered others =>
      rw [getOneToken_cons htokens] at hrun
      cases hrun
      exact ⟨fun _ => by simp, fun _ => h.deliversToken_buffered htokens⟩

/-- Behind the end of the file there is the end of the file again. -/
theorem Clean.getOneToken_eof (h : Clean s) (hrun : getOneToken s = .ok .eof t) :
    getOneToken t = .ok .eof t := by
  cases htokens : s.tokenBuffer with
  | nil =>
      rw [getOneToken_nil htokens] at hrun
      obtain ⟨rest, hlexes, hleft⟩ := h.lexToken_leaves htokens hrun
      obtain rfl := hlexes.eof_nil.2
      generalize lookAhead s.mode s.undelivered = ahead at hleft
      cases hleft <;> rfl
  | cons buffered others =>
      rw [getOneToken_cons htokens] at hrun
      cases hrun
      refine absurd ?_ h.tokens
      rw [htokens]
      exact List.mem_cons_self

theorem faithful_ungetOneToken (hrun : ungetOneToken token s = .ok () t) :
    Faithful ⟨s, .ungetOneToken token, t⟩ := by
  obtain rfl := ungetOneToken_eq_ok hrun
  change if token = .eof then _ else _
  split
  · rfl
  · rfl

theorem Clean.faithful_peekOneToken_iff (h : Clean s) (hrun : peekOneToken s = .ok token t) :
    Faithful ⟨s, .peekOneToken token, t⟩ ↔
      pushedBackByte ⟨s, .peekOneToken token, t⟩ ≠ some 255 := by
  obtain ⟨next, hget, hunget⟩ := peekOneToken_eq_ok hrun
  obtain rfl := ungetOneToken_eq_ok hunget
  have hiff : DeliversToken s token next ↔ _ := h.faithful_getOneToken_iff hget
  change (∃ next', DeliversToken s token next' ∧ getOneToken _ = .ok token next') ↔
    pushedBackByte ⟨s, .getOneToken token, next⟩ ≠ some 255
  rw [← hiff]
  by_cases heof : token = .eof
  · rw [if_pos heof]
    have hagain : getOneToken next = .ok token next := by
      rw [heof] at hget ⊢
      exact h.getOneToken_eof hget
    constructor
    · rintro ⟨next', hdelivers, hnext⟩
      rw [hagain] at hnext
      cases hnext
      exact hdelivers
    · intro hdelivers
      exact ⟨next, hdelivers, hagain⟩
  · rw [if_neg heof]
    constructor
    · rintro ⟨next', hdelivers, hagain⟩
      cases hagain
      exact hdelivers
    · intro hdelivers
      exact ⟨next, hdelivers, rfl⟩

/-- A call is transparent exactly if it pushes back no byte 255. -/
theorem Clean.faithful_iff (h : Clean s) {call : Call} (htakes : call.Takes s t) :
    Faithful ⟨s, call, t⟩ ↔ pushedBackByte ⟨s, call, t⟩ ≠ some 255 := by
  have hnone : (none : Option Byte) ≠ some 255 := by simp
  cases call with
  | getOneChar ch => exact iff_of_true (h.faithful_getOneChar htakes) hnone
  | ungetOneChar ch => exact faithful_ungetOneChar_iff htakes
  | peekOneChar ch => exact h.faithful_peekOneChar_iff htakes
  | getOneToken token => exact h.faithful_getOneToken_iff htakes.1
  | ungetOneToken token => exact iff_of_true (faithful_ungetOneToken htakes.1) hnone
  | peekOneToken token => exact h.faithful_peekOneToken_iff htakes.1
  | setMode mode =>
      cases htakes.1
      exact iff_of_true ⟨rfl, rfl⟩ hnone

theorem Clean.ungetOneToken (h : Clean s) (token : Token) :
    Clean (if token = .eof then s else { s with tokenBuffer := token :: s.tokenBuffer }) := by
  split
  · exact h
  · rename_i htoken
    refine ⟨h.chars, h.few, ?_⟩
    exact List.not_mem_cons_of_ne_of_not_mem (Ne.symm htoken) h.tokens

theorem Clean.getOneToken (h : Clean s) (hrun : JCUnit.getOneToken s = .ok token t)
    (hpushed : pushedBackByte ⟨s, .getOneToken token, t⟩ ≠ some 255) : Clean t := by
  change (if s.tokenBuffer = [] then _ else none) ≠ some 255 at hpushed
  cases htokens : s.tokenBuffer with
  | nil =>
      rw [getOneToken_nil htokens] at hrun
      rw [if_pos htokens] at hpushed
      obtain ⟨rest, hlexes, hleft⟩ := h.lexToken_leaves htokens hrun
      exact (hleft.clean hpushed).1
  | cons buffered others =>
      rw [getOneToken_cons htokens] at hrun
      cases hrun
      refine ⟨h.chars, h.few, ?_⟩
      intro hmem
      apply h.tokens
      rw [htokens]
      exact List.mem_cons_of_mem _ hmem

theorem Clean.getOneChar (h : Clean s) (hrun : JCUnit.getOneChar s = .ok ch t) : Clean t := by
  rw [h.getOneChar_eq] at hrun
  cases hrun
  exact ⟨List.not_mem_nil, Nat.zero_le 1, h.tokens⟩

/-- A character that is pushed back onto an empty buffer. -/
theorem Clean.ungetOneChar (h : Clean s) (hchars : s.charBuffer = []) (hch : ch ≠ some 255) :
    Clean { s with charBuffer := ch.toList ++ s.charBuffer } := by
  rw [hchars, List.append_nil]
  cases ch with
  | none => exact ⟨List.not_mem_nil, Nat.zero_le 1, h.tokens⟩
  | some b =>
      refine ⟨?_, Nat.le_refl 1, h.tokens⟩
      intro hmem
      exact hch (congrArg some (List.mem_singleton.mp hmem).symm)

/-- A call that pushes back no byte 255 leaves no byte in the buffer that reads as `EOF`. -/
theorem Clean.takes (h : Clean s) {call : Call} (htakes : call.Takes s t)
    (hpushed : pushedBackByte ⟨s, call, t⟩ ≠ some 255) : Clean t := by
  obtain ⟨hruns, horderly⟩ := htakes
  cases call with
  | getOneChar ch => exact h.getOneChar hruns
  | ungetOneChar ch =>
      obtain rfl := ungetOneChar_eq_ok hruns
      exact h.ungetOneChar horderly.2 hpushed
  | peekOneChar ch =>
      obtain ⟨next, hget, hunget⟩ := peekOneChar_eq_ok hruns
      obtain rfl := ungetOneChar_eq_ok hunget
      apply (h.getOneChar hget).ungetOneChar
      · rw [h.getOneChar_eq] at hget
        cases hget
        rfl
      · rw [h.getOneChar_eq] at hget
        cases hget
        exact hpushed
  | getOneToken token => exact h.getOneToken hruns hpushed
  | ungetOneToken token =>
      obtain rfl := ungetOneToken_eq_ok hruns
      exact h.ungetOneToken token
  | peekOneToken token =>
      obtain ⟨next, hget, hunget⟩ := peekOneToken_eq_ok hruns
      obtain rfl := ungetOneToken_eq_ok hunget
      exact (h.getOneToken hget hpushed).ungetOneToken token
  | setMode mode =>
      cases hruns
      exact ⟨h.chars, h.few, h.tokens⟩

end Calls

/-- On any file, looking ahead is transparent in every call of the parser exactly if no call
pushes back a byte 255. -/
theorem lookAhead_transparent_iff (source : Bytes) :
    (∀ call ∈ parserCalls source, Faithful call) ↔
      ∀ call ∈ parserCalls source, pushedBackByte call ≠ some 255 := by
  obtain ⟨context, trail⟩ := parserCalls_trail source
  have hstart : Clean (initTokenizerContext source) := .fresh source .none
  apply trail.forall_iff (I := Clean) _ _ hstart
  · intro s call t hs htakes
    exact hs.faithful_iff htakes
  · intro s call t hs htakes hpushed
    exact hs.takes htakes hpushed

/-- A suite with a byte 255 behind the name of its first directive. -/
def strayByteSource : Bytes := ascii "@test" ++ [255] ++ ascii "\n@a\n@endtest\n"

/-- The byte is lost without a word: a peek takes it for the end of the file and drops it. -/
theorem lookAhead_loses_byte :
    parseTestSuite strayByteSource = .ok [⟨[], [⟨ascii "a", [], none⟩]⟩] ∧
      ¬∀ call ∈ parserCalls strayByteSource, Faithful call := by
  constructor
  · decide +kernel
  · intro hall
    have hmem : ⟨⟨ascii "\n@a\n@endtest\n", [], [255], .none⟩, .peekOneChar none,
        ⟨ascii "\n@a\n@endtest\n", [], [], .none⟩⟩ ∈ parserCalls strayByteSource := by
      decide +kernel
    obtain ⟨⟨next, hend, -⟩, -⟩ := hall _ hmem
    cases hend.1

end JCUnit
