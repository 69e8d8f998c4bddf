import JCUnit.Frontend.SuiteText

/-!
# How a file is parsed

The parsing functions above the directive, each with its two directions: what it accepts is a
piece of the file, and it accepts every such piece. Together they say that `parse_test_suite`
accepts the files that consist of tests, and nothing else, whatever bytes are in them.
-/

namespace JCUnit

open StateError

/-- The next token is the first one of the text. It may have been read already. -/
inductive StandsAt : TokenizerContext → Bytes → TokenizerMode → Prop
  | left {context : TokenizerContext} {text : Bytes} {mode : TokenizerMode} {ahead : Option Byte}
      (hleft : LeftAt context text mode ahead) (hkept : ahead ≠ some 255) :
      StandsAt context text mode
  | read {context : TokenizerContext} {text : Bytes} {mode : TokenizerMode} {token : Token}
      (hrun : lexToken (fresh text mode) = .ok token context) :
      StandsAt { context with tokenBuffer := [token] } text mode

section Positions

variable {context after : TokenizerContext} {text rest : Bytes} {mode : TokenizerMode}
  {token : Token} {ahead : Option Byte}

theorem LeftAt.mode_eq (h : LeftAt context rest mode ahead) : context.mode = mode := by
  cases h with
  | fresh => rfl
  | pushedBack => cases rest <;> rfl

theorem LeftAt.unread_eq (h : LeftAt context rest mode ahead) : context.unread = rest.length := by
  calc context.unread
      = context.charBuffer.length + context.source.length := by
        simp [TokenizerContext.unread, h.tokenBuffer_eq]
    _ = (context.charBuffer ++ context.source).length := List.length_append.symm
    _ = rest.length := by rw [h.text_eq]

theorem LeftAt.unbuffered (h : LeftAt context rest mode ahead) :
    { context with tokenBuffer := [] } = context := by
  have htokens := h.tokenBuffer_eq
  obtain ⟨source, tokenBuffer, charBuffer, mode⟩ := context
  rw [← show tokenBuffer = [] from htokens]

theorem StandsAt.fresh (text : Bytes) (mode : TokenizerMode) :
    StandsAt (JCUnit.fresh text mode) text mode :=
  .left (.fresh text mode) nofun

theorem StandsAt.mode_eq (h : StandsAt context text mode) : context.mode = mode := by
  cases h with
  | left hleft _ => exact hleft.mode_eq
  | read hrun =>
      obtain ⟨rest, -, hleft⟩ := lexToken_leaves hrun
      exact hleft.mode_eq

theorem StandsAt.setMode_same (h : StandsAt context text mode) :
    setMode mode context = .ok () context := by
  rw [← h.mode_eq]
  rfl

theorem StandsAt.length_le (h : StandsAt context text mode) : text.length ≤ context.unread := by
  cases h with
  | left hleft _ => exact Nat.le_of_eq hleft.unread_eq.symm
  | @read context _ _ token hrun =>
      obtain ⟨rest, hlexes, hleft⟩ := lexToken_leaves hrun
      have hunread := hleft.unread_eq
      rw [TokenizerContext.unread, hleft.tokenBuffer_eq] at hunread
      calc text.length
          ≤ token.text.length + 2 + rest.length := hlexes.length_le
        _ = TokenizerContext.unread { context with tokenBuffer := [token] } := by
            rw [← hunread]
            simp [TokenizerContext.unread, Nat.add_assoc]

/-- Where a context stands is all that the next token depends on. -/
theorem StandsAt.getOneToken_eq (h : StandsAt context text mode) :
    getOneToken context = lexToken (JCUnit.fresh text mode) := by
  cases h with
  | left hleft hkept =>
      obtain ⟨hclean, -⟩ := hleft.clean hkept
      rw [getOneToken_nil hleft.tokenBuffer_eq, hclean.lexToken_eq hleft.tokenBuffer_eq,
        hleft.mode_eq, TokenizerContext.undelivered, hleft.text_eq]
  | @read context _ _ token hrun =>
      obtain ⟨rest, -, hleft⟩ := lexToken_leaves hrun
      rw [hrun, getOneToken_cons rfl]
      exact congrArg (EStateM.Result.ok token) hleft.unbuffered

theorem StandsAt.getOneToken_sound (h : StandsAt context text mode)
    (hrun : getOneToken context = .ok token after) :
    ∃ rest, Lexes mode text token rest ∧ LeftAt after rest mode (lookAhead mode text) := by
  rw [h.getOneToken_eq] at hrun
  exact lexToken_leaves hrun

theorem StandsAt.getOneToken_complete (h : StandsAt context text mode)
    (hlexes : Lexes mode text token rest) :
    ∃ after, getOneToken context = .ok token after ∧
      LeftAt after rest mode (lookAhead mode text) := by
  obtain ⟨after, _, hrun, -⟩ := lexToken_reads hlexes
  obtain ⟨rest', hlexes', hleft⟩ := lexToken_leaves hrun
  obtain ⟨-, rfl⟩ := hlexes.unique hlexes'
  exact ⟨after, h.getOneToken_eq.trans hrun, hleft⟩

/-- A token that has been read is pushed back. -/
theorem StandsAt.ungetOneToken (h : StandsAt context text mode)
    (hget : getOneToken context = .ok token after) :
    ∃ after', JCUnit.ungetOneToken token after = .ok () after' ∧ StandsAt after' text mode := by
  rw [h.getOneToken_eq] at hget
  obtain ⟨rest, hlexes, hleft⟩ := lexToken_leaves hget
  have hroom : ¬after.tokenBuffer.length ≥ maxTokenBufferSize := by
    rw [hleft.tokenBuffer_eq]
    decide
  unfold JCUnit.ungetOneToken
  rw [if_neg hroom]
  by_cases heof : token = .eof
  · rw [heof] at hget hlexes
    obtain ⟨rfl, rfl⟩ := hlexes.eof_nil
    cases hget
    rw [if_pos heof]
    exact ⟨_, rfl, .fresh [] mode⟩
  · rw [if_neg heof, hleft.tokenBuffer_eq]
    exact ⟨_, rfl, .read hget⟩

theorem StandsAt.peekOneToken_sound (h : StandsAt context text mode)
    (hrun : peekOneToken context = .ok token after) :
    (∃ rest, Lexes mode text token rest) ∧ StandsAt after text mode := by
  obtain ⟨next, hget, hunget⟩ := peekOneToken_eq_ok hrun
  obtain ⟨rest, hlexes, -⟩ := h.getOneToken_sound hget
  obtain ⟨after', hunget', hstands⟩ := h.ungetOneToken hget
  rw [hunget] at hunget'
  cases hunget'
  exact ⟨⟨rest, hlexes⟩, hstands⟩

theorem StandsAt.peekOneToken_complete (h : StandsAt context text mode)
    (hlexes : Lexes mode text token rest) :
    ∃ after, peekOneToken context = .ok token after ∧ StandsAt after text mode := by
  obtain ⟨next, hget, -⟩ := h.getOneToken_complete hlexes
  obtain ⟨after, hunget, hstands⟩ := h.ungetOneToken hget
  refine ⟨after, ?_, hstands⟩
  unfold peekOneToken
  rw [bind_of_ok hget, bind_of_ok hunget]
  rfl

/-- The mode may change in front of a directive, even of one that has been read. -/
theorem StandsAt.setMode {name following : Bytes} (h : StandsAt context text mode)
    (hdirective : Lexes mode text (.directive name) following) (mode' : TokenizerMode) :
    StandsAt { context with mode := mode' } text mode' := by
  cases h with
  | @left _ _ _ ahead hleft hkept =>
      cases hleft with
      | fresh => exact .left (.fresh text mode') hkept
      | pushedBack =>
          cases text with
          | nil => exact .left (.fresh [] mode') nofun
          | cons b text => exact .left (.pushedBack (b :: text) mode') hkept
  | read hrun =>
      rw [lexToken_directive hdirective] at hrun
      cases hrun
      have hread := StandsAt.read (lexToken_directive (hdirective.directive_mode mode'))
      cases following <;> exact hread

/-- What begins with a directive may have had its first token read. -/
theorem StandsAt.parseDirective_eq (h : StandsAt context text mode) :
    parseDirective context = parseDirective (JCUnit.fresh text mode) := by
  have hget : getOneToken context = getOneToken (JCUnit.fresh text mode) := h.getOneToken_eq
  unfold parseDirective
  change EStateM.bind getOneToken _ context = EStateM.bind getOneToken _ (JCUnit.fresh text mode)
  simp only [EStateM.bind, hget]

theorem StandsAt.parseDirective_sound {directive : DirectiveParseContext}
    (h : StandsAt context text mode) (hrun : parseDirective context = .ok directive after) :
    ∃ rest, DirectiveLine text directive rest ∧ after = JCUnit.fresh rest mode := by
  rw [h.parseDirective_eq] at hrun
  obtain ⟨rest, hafter, hline⟩ := parseDirective_line hrun
  exact ⟨rest, hline, hafter⟩

theorem StandsAt.parseDirective_complete {directive : DirectiveParseContext}
    (h : StandsAt context text mode) (hline : DirectiveLine text directive rest) :
    parseDirective context = .ok directive (JCUnit.fresh rest mode) :=
  h.parseDirective_eq.trans (hline mode)

end Positions

theorem isDirective_iff {token : Token} :
    token.isDirective = true ↔ ∃ name, token = .directive name := by
  cases token <;> simp [Token.isDirective]

section Contents

variable {context after : TokenizerContext} {text rest buffer chars : Bytes} {lastCh b : Byte}
  {room : Nat} {result : Bytes × Byte}

theorem parseContentLoop_character (h : StandsAt context text .directiveAndText)
    (hlexes : Lexes .directiveAndText text (.character b) rest) :
    ∃ context', LeftAt context' rest .directiveAndText (lookAhead .directiveAndText text) ∧
      parseContentLoop (room + 1) buffer lastCh context =
        parseContentLoop room (buffer ++ [b]) b context' := by
  obtain ⟨context', hget, hleft⟩ := h.getOneToken_complete hlexes
  refine ⟨context', hleft, ?_⟩
  rw [parseContentLoop, bind_of_ok hget, if_neg Token.noConfusion]
  rfl

theorem parseContentLoop_directive {name : Bytes} (h : StandsAt context text .directiveAndText)
    (hlexes : Lexes .directiveAndText text (.directive name) rest) :
    ∃ after, StandsAt after text .directiveAndText ∧
      parseContentLoop (room + 1) buffer lastCh context = .ok (buffer, lastCh) after := by
  obtain ⟨context', hget, -⟩ := h.getOneToken_complete hlexes
  obtain ⟨after, hunget, hstands⟩ := h.ungetOneToken hget
  have hisDirective : (Token.directive name).isDirective = true := rfl
  refine ⟨after, hstands, ?_⟩
  rw [parseContentLoop, bind_of_ok hget, if_neg Token.noConfusion, if_pos hisDirective,
    bind_of_ok hunget]
  rfl

/-- A byte 255 that has been pushed back ends the content as the end of the file does. -/
theorem parseContentLoop_kept {ahead : Option Byte}
    (h : LeftAt context rest .directiveAndText ahead)
    (hrun : parseContentLoop room buffer lastCh context = .ok result after) :
    ahead ≠ some 255 := by
  rintro rfl
  cases room with
  | zero => cases hrun
  | succ room =>
      cases rest with
      | nil => cases h
      | cons b rest =>
          cases h with
          | pushedBack => cases hrun

theorem getD_getLast?_cons (chars : Bytes) (b lastCh : Byte) :
    (b :: chars).getLast?.getD lastCh = chars.getLast?.getD b := by
  rw [List.getLast?_cons]
  rfl

theorem parseContentLoop_sound (h : StandsAt context text .directiveAndText)
    (hrun : parseContentLoop room buffer lastCh context = .ok result after) :
    ∃ chars rest name following, ContentText text chars rest ∧
      Lexes .directiveAndText rest (.directive name) following ∧ chars.length < room ∧
      result = (buffer ++ chars, chars.getLast?.getD lastCh) ∧
      StandsAt after rest .directiveAndText := by
  induction room generalizing context text buffer lastCh with
  | zero => cases hrun
  | succ room ih =>
      have hstep : ∃ token context' rest, getOneToken context = .ok token context' ∧
          Lexes .directiveAndText text token rest := by
        rw [parseContentLoop] at hrun
        obtain ⟨token, context', hget, -⟩ := bind_eq_ok hrun
        obtain ⟨rest, hlexes, -⟩ := h.getOneToken_sound hget
        exact ⟨token, context', rest, hget, hlexes⟩
      obtain ⟨token, context', rest, hget, hlexes⟩ := hstep
      have hcharacter : ∀ b, token = .character b → ∃ chars rest name following,
          ContentText text chars rest ∧
          Lexes .directiveAndText rest (.directive name) following ∧ chars.length < room + 1 ∧
          result = (buffer ++ chars, chars.getLast?.getD lastCh) ∧
          StandsAt after rest .directiveAndText := by
        rintro b rfl
        obtain ⟨context₁, hleft, hloop⟩ := parseContentLoop_character h hlexes
        rw [hloop] at hrun
        have hkept := parseContentLoop_kept hleft hrun
        obtain ⟨chars, rest₁, name, following, hcontent, hrest, hlen, rfl, hstands⟩ :=
          ih (.left hleft hkept) hrun
        refine ⟨b :: chars, rest₁, name, following, .cons hlexes hkept hcontent, hrest,
          Nat.succ_lt_succ hlen, ?_, hstands⟩
        rw [getD_getLast?_cons, List.append_assoc]
        rfl
      cases token with
      | eof =>
          rw [parseContentLoop, bind_of_ok hget, if_pos rfl] at hrun
          cases hrun
      | directive name =>
          obtain ⟨after', hstands, hloop⟩ := parseContentLoop_directive h hlexes
          rw [hloop] at hrun
          cases hrun
          exact ⟨[], text, name, rest, .nil text, hlexes, Nat.succ_pos _, by simp, hstands⟩
      | character b => exact hcharacter b rfl
      | _ => cases hlexes

theorem parseContentLoop_complete (buffer : Bytes) (lastCh : Byte) {name following : Bytes}
    (hcontent : ContentText text chars rest)
    (hrest : Lexes .directiveAndText rest (.directive name) following)
    (h : StandsAt context text .directiveAndText) (hlen : chars.length < room) :
    ∃ after, parseContentLoop room buffer lastCh context =
        .ok (buffer ++ chars, chars.getLast?.getD lastCh) after ∧
      StandsAt after rest .directiveAndText := by
  induction hcontent generalizing context buffer lastCh room with
  | nil =>
      cases room with
      | zero => cases hlen
      | succ room =>
          obtain ⟨after, hstands, hloop⟩ := parseContentLoop_directive h hrest
          refine ⟨after, ?_, hstands⟩
          rw [hloop, List.append_nil]
          rfl
  | cons hlexes hkept _ ih =>
      cases room with
      | zero => cases hlen
      | succ room =>
          obtain ⟨context', hleft, hloop⟩ := parseContentLoop_character h hlexes
          obtain ⟨after, hrun, hstands⟩ :=
            ih _ _ hrest (.left hleft hkept) (Nat.lt_of_succ_lt_succ hlen)
          refine ⟨after, ?_, hstands⟩
          rw [hloop, hrun, getD_getLast?_cons, List.append_assoc]
          rfl

/-- Cutting the buffer by its last character drops the final newline. -/
theorem take_eq_dropFinalNewline (hpositive : 1 ≤ chars.length) (lastCh : Byte) :
    chars.take (if chars.getLast?.getD lastCh = chNewline then chars.length - 1
      else chars.length) = dropFinalNewline chars := by
  have hne : chars ≠ [] := List.ne_nil_of_length_pos hpositive
  unfold dropFinalNewline
  rw [List.getLast?_eq_getLast_of_ne_nil hne, Option.getD_some]
  by_cases hlast : chars.getLast hne = chNewline
  · rw [if_pos hlast, if_pos (congrArg some hlast), List.dropLast_eq_take]
  · rw [if_neg hlast, if_neg (fun heq => hlast (Option.some.inj heq)), List.take_length]

end Contents

section Requirements

variable {context after : TokenizerContext} {text rest : Bytes} {requirement : AstRequirement}

theorem parseRequirement_sound (h : StandsAt context text .directiveAndText)
    (hrun : parseRequirement context = .ok requirement after) :
    ∃ rest name following, RequirementText text requirement rest ∧
      Lexes .directiveAndText rest (.directive name) following ∧
      StandsAt after rest .directiveAndText := by
  unfold parseRequirement at hrun
  obtain ⟨directive, context₁, hdirective, hrun⟩ := bind_eq_ok hrun
  obtain ⟨middle, hline, rfl⟩ := h.parseDirective_sound hdirective
  obtain ⟨token, context₂, hpeek, hrun⟩ := bind_eq_ok hrun
  obtain ⟨⟨following, hlexes⟩, hstands₂⟩ := (StandsAt.fresh middle _).peekOneToken_sound hpeek
  cases hisDirective : token.isDirective with
  | true =>
      rw [if_pos hisDirective] at hrun
      obtain ⟨rfl, rfl⟩ := pure_eq_ok.mp hrun
      obtain ⟨name, rfl⟩ := isDirective_iff.mp hisDirective
      exact ⟨middle, name, following, .bare hline, hlexes, hstands₂⟩
  | false =>
      rw [hisDirective, if_neg Bool.false_ne_true] at hrun
      obtain ⟨_, _, hget, hrun⟩ := bind_eq_ok hrun
      cases hget
      rw [bind_of_ok hstands₂.setMode_same] at hrun
      obtain ⟨result, context₃, hloop, hrun⟩ := bind_eq_ok hrun
      obtain ⟨chars, rest, name, following', hcontent, hrest, hlen, rfl, hstands₃⟩ :=
        parseContentLoop_sound hstands₂ hloop
      have hpositive : 1 ≤ chars.length := by
        apply Nat.one_le_iff_ne_zero.mpr
        intro hzero
        cases hcontent with
        | nil =>
            obtain ⟨rfl, -⟩ := hrest.unique hlexes
            cases hisDirective
        | cons => cases hzero
      have hmode : setMode context₂.mode context₃ = .ok () context₃ := by
        rw [hstands₂.mode_eq]
        exact hstands₃.setMode_same
      simp only [bind_of_ok hmode, List.nil_append] at hrun
      obtain ⟨rfl, rfl⟩ := pure_eq_ok.mp hrun
      refine ⟨rest, name, following', ?_, hrest, hstands₃⟩
      rw [take_eq_dropFinalNewline hpositive]
      exact .withContent hline hcontent hpositive hlen

/-- A content that is not empty starts with a character. -/
theorem ContentText.lexes {chars : Bytes} (h : ContentText text chars rest)
    (hpositive : 1 ≤ chars.length) :
    ∃ b following, Lexes .directiveAndText text (.character b) following := by
  cases h with
  | nil => cases hpositive
  | cons hlexes _ _ => exact ⟨_, _, hlexes⟩

theorem parseRequirement_complete {name following : Bytes}
    (hrequirement : RequirementText text requirement rest)
    (hrest : Lexes .directiveAndText rest (.directive name) following)
    (h : StandsAt context text .directiveAndText) :
    ∃ after, parseRequirement context = .ok requirement after ∧
      StandsAt after rest .directiveAndText := by
  have hget (context : TokenizerContext) :
      (get : TokM TokenizerContext) context = .ok context context := rfl
  unfold parseRequirement
  cases hrequirement with
  | bare hline =>
      obtain ⟨context₂, hpeek, hstands₂⟩ := (StandsAt.fresh rest _).peekOneToken_complete hrest
      have hisDirective : (Token.directive name).isDirective = true := rfl
      refine ⟨context₂, ?_, hstands₂⟩
      rw [bind_of_ok (h.parseDirective_complete hline), bind_of_ok hpeek, if_pos hisDirective]
      rfl
  | @withContent middle chars _ directive hline hcontent hpositive hlimit =>
      obtain ⟨b, _, hlexes⟩ := hcontent.lexes hpositive
      obtain ⟨context₂, hpeek, hstands₂⟩ := (StandsAt.fresh middle _).peekOneToken_complete hlexes
      have hisDirective : ¬(Token.character b).isDirective = true := Bool.false_ne_true
      obtain ⟨context₃, hloop, hstands₃⟩ :=
        parseContentLoop_complete [] b hcontent hrest hstands₂ hlimit
      have hmode : setMode context₂.mode context₃ = .ok () context₃ := by
        rw [hstands₂.mode_eq]
        exact hstands₃.setMode_same
      refine ⟨context₃, ?_, hstands₃⟩
      rw [bind_of_ok (h.parseDirective_complete hline), bind_of_ok hpeek, if_neg hisDirective,
        bind_of_ok (hget context₂), bind_of_ok hstands₂.setMode_same]
      simp only [Token.ch, bind_of_ok hloop, bind_of_ok hmode, List.nil_append,
        take_eq_dropFinalNewline hpositive]
      rfl

theorem parseRequirementListLoop_sound {room : Nat} {result requirements : List AstRequirement}
    (h : StandsAt context text .directiveAndText)
    (hrun : parseRequirementListLoop room requirements context = .ok result after) :
    ∃ added rest following, RequirementsText text added rest ∧
      Lexes .directiveAndText rest (.directive (ascii "endtest")) following ∧
      result = requirements ++ added ∧ added.length ≤ room ∧
      StandsAt after rest .directiveAndText := by
  induction room generalizing context text requirements with
  | zero =>
      unfold parseRequirementListLoop at hrun
      obtain ⟨token, context₁, hpeek, hrun⟩ := bind_eq_ok hrun
      obtain ⟨⟨following, hlexes⟩, hstands⟩ := h.peekOneToken_sound hpeek
      by_cases hend : token = .directive (ascii "endtest")
      · rw [if_pos hend] at hrun
        obtain ⟨rfl, rfl⟩ := pure_eq_ok.mp hrun
        rw [hend] at hlexes
        exact ⟨[], text, following, .nil text, hlexes, by simp, Nat.le_refl 0, hstands⟩
      · rw [if_neg hend] at hrun
        cases hrun
  | succ room ih =>
      unfold parseRequirementListLoop at hrun
      obtain ⟨token, context₁, hpeek, hrun⟩ := bind_eq_ok hrun
      obtain ⟨⟨following, hlexes⟩, hstands⟩ := h.peekOneToken_sound hpeek
      by_cases hend : token = .directive (ascii "endtest")
      · rw [if_pos hend] at hrun
        obtain ⟨rfl, rfl⟩ := pure_eq_ok.mp hrun
        rw [hend] at hlexes
        exact ⟨[], text, following, .nil text, hlexes, by simp, Nat.zero_le _, hstands⟩
      · rw [if_neg hend] at hrun
        obtain ⟨requirement, context₂, hparse, hrun⟩ := bind_eq_ok hrun
        obtain ⟨middle, _, _, hrequirement, -, hstands₂⟩ := parseRequirement_sound hstands hparse
        obtain ⟨added, rest, following', hadded, hrest, rfl, hlen, hafter⟩ := ih hstands₂ hrun
        have hname : requirement.name ≠ ascii "endtest" := by
          intro heq
          obtain ⟨_, hfirst⟩ := hrequirement.lexes .directiveAndText
          obtain ⟨htoken, -⟩ := hlexes.unique hfirst
          rw [heq] at htoken
          exact hend htoken
        exact ⟨requirement :: added, rest, following', .cons hrequirement hname hadded, hrest,
          by simp, Nat.succ_le_succ hlen, hafter⟩

theorem parseRequirementListLoop_complete (requirements : List AstRequirement) {room : Nat}
    {added : List AstRequirement} {following : Bytes} (hadded : RequirementsText text added rest)
    (hrest : Lexes .directiveAndText rest (.directive (ascii "endtest")) following)
    (hlen : added.length ≤ room) (h : StandsAt context text .directiveAndText) :
    ∃ after, parseRequirementListLoop room requirements context =
        .ok (requirements ++ added) after ∧ StandsAt after rest .directiveAndText := by
  induction hadded generalizing context room requirements with
  | nil =>
      obtain ⟨after, hpeek, hstands⟩ := h.peekOneToken_complete hrest
      refine ⟨after, ?_, hstands⟩
      unfold parseRequirementListLoop
      rw [bind_of_ok hpeek, if_pos rfl, List.append_nil]
      rfl
  | @cons _ middle _ requirement added hrequirement hname hadded ih =>
      cases room with
      | zero => cases hlen
      | succ room =>
          obtain ⟨_, hlexes⟩ := hrequirement.lexes .directiveAndText
          obtain ⟨_, _, hnext, _⟩ := hadded.lexes hrest
          obtain ⟨context₁, hpeek, hstands₁⟩ := h.peekOneToken_complete hlexes
          obtain ⟨context₂, hrun, hstands₂⟩ := parseRequirement_complete hrequirement hnext hstands₁
          obtain ⟨after, hloop, hstands⟩ :=
            ih (requirements ++ [requirement]) hrest (Nat.le_of_succ_le_succ hlen) hstands₂
          have hopen : ¬Token.directive requirement.name = .directive (ascii "endtest") := by
            intro heq
            exact hname (Token.directive.inj heq)
          refine ⟨after, ?_, hstands⟩
          unfold parseRequirementListLoop
          rw [bind_of_ok hpeek, if_neg hopen]
          simp only [bind_of_ok hrun, hloop]
          rw [List.append_assoc]
          rfl

theorem parseRequirementList_sound {requirements : List AstRequirement}
    (h : StandsAt context text .directiveAndText)
    (hrun : parseRequirementList context = .ok requirements after) :
    ∃ rest following, RequirementsText text requirements rest ∧
      Lexes .directiveAndText rest (.directive (ascii "endtest")) following ∧
      1 ≤ requirements.length ∧ requirements.length ≤ maxRequirementCount ∧
      StandsAt after rest .directiveAndText := by
  unfold parseRequirementList at hrun
  obtain ⟨token, context₁, hget, hrun⟩ := bind_eq_ok hrun
  obtain ⟨rest₁, hlexes, -⟩ := h.getOneToken_sound hget
  by_cases hend : token = .directive (ascii "endtest")
  · rw [if_pos hend] at hrun
    cases hrun
  · rw [if_neg hend] at hrun
    obtain ⟨context₂, hunget, hstands₂⟩ := h.ungetOneToken hget
    rw [bind_of_ok hunget] at hrun
    obtain ⟨added, rest, following, hadded, hrest, rfl, hlen, hafter⟩ :=
      parseRequirementListLoop_sound hstands₂ hrun
    refine ⟨rest, following, hadded, hrest, ?_, hlen, hafter⟩
    cases hadded with
    | nil =>
        obtain ⟨htoken, -⟩ := hlexes.unique hrest
        exact absurd htoken hend
    | cons _ _ _ => exact Nat.succ_pos _

theorem parseRequirementList_complete {requirements : List AstRequirement} {following : Bytes}
    (hrequirements : RequirementsText text requirements rest)
    (hrest : Lexes .directiveAndText rest (.directive (ascii "endtest")) following)
    (hpositive : 1 ≤ requirements.length) (hlimit : requirements.length ≤ maxRequirementCount)
    (h : StandsAt context text .directiveAndText) :
    ∃ after, parseRequirementList context = .ok requirements after ∧
      StandsAt after rest .directiveAndText := by
  obtain ⟨name, _, hlexes, hempty⟩ := hrequirements.lexes hrest
  have hopen : ¬Token.directive name = .directive (ascii "endtest") := by
    intro heq
    rw [hempty (Token.directive.inj heq)] at hpositive
    cases hpositive
  obtain ⟨context₁, hget, -⟩ := h.getOneToken_complete hlexes
  obtain ⟨context₂, hunget, hstands₂⟩ := h.ungetOneToken hget
  obtain ⟨after, hloop, hstands⟩ :=
    parseRequirementListLoop_complete [] hrequirements hrest hlimit hstands₂
  refine ⟨after, ?_, hstands⟩
  unfold parseRequirementList
  rw [bind_of_ok hget, if_neg hopen, bind_of_ok hunget, hloop]
  rfl

end Requirements

section Tests

variable {context after : TokenizerContext} {text rest : Bytes}

theorem parseTestProlog_sound {arguments : List AstArgument} (h : StandsAt context text .none)
    (hrun : parseTestProlog context = .ok arguments after) :
    ∃ rest, PrologText text arguments rest ∧ after = fresh rest .none := by
  unfold parseTestProlog at hrun
  obtain ⟨directive, context₁, hdirective, hrun⟩ := bind_eq_ok hrun
  obtain ⟨rest, hline, rfl⟩ := h.parseDirective_sound hdirective
  by_cases hname : directive.directive = ascii "test"
  · rw [if_neg (not_not_intro hname)] at hrun
    obtain ⟨rfl, rfl⟩ := pure_eq_ok.mp hrun
    exact ⟨rest, .mk hline hname, rfl⟩
  · rw [if_pos hname] at hrun
    cases hrun

theorem parseTestProlog_complete {arguments : List AstArgument}
    (hprolog : PrologText text arguments rest) (h : StandsAt context text .none) :
    parseTestProlog context = .ok arguments (fresh rest .none) := by
  cases hprolog with
  | mk hline hname =>
      unfold parseTestProlog
      rw [bind_of_ok (h.parseDirective_complete hline), if_neg (not_not_intro hname)]
      rfl

theorem parseTestEpilog_sound (h : StandsAt context text .none)
    (hrun : parseTestEpilog context = .ok () after) :
    ∃ rest, EpilogText text rest ∧ after = fresh rest .none := by
  unfold parseTestEpilog at hrun
  obtain ⟨directive, context₁, hdirective, hrun⟩ := bind_eq_ok hrun
  obtain ⟨rest, hline, rfl⟩ := h.parseDirective_sound hdirective
  by_cases hname : directive.directive = ascii "endtest"
  · rw [if_neg (not_not_intro hname)] at hrun
    by_cases harguments : directive.arguments = []
    · rw [if_neg (not_not_intro harguments)] at hrun
      cases hrun
      exact ⟨rest, .mk hline hname harguments, rfl⟩
    · rw [if_pos harguments] at hrun
      cases hrun
  · rw [if_pos hname] at hrun
    cases hrun

theorem parseTestEpilog_complete (hepilog : EpilogText text rest)
    (h : StandsAt context text .none) :
    parseTestEpilog context = .ok () (fresh rest .none) := by
  cases hepilog with
  | mk hline hname harguments =>
      unfold parseTestEpilog
      rw [bind_of_ok (h.parseDirective_complete hline), if_neg (not_not_intro hname),
        if_neg (not_not_intro harguments)]
      rfl

theorem parseTest_sound {test : AstTest} (h : StandsAt context text .none)
    (hrun : parseTest context = .ok test after) :
    ∃ rest, TestText text test rest ∧ after = fresh rest .none := by
  unfold parseTest at hrun
  obtain ⟨arguments, context₁, hprolog, hrun⟩ := bind_eq_ok hrun
  obtain ⟨body, hprologText, rfl⟩ := parseTestProlog_sound h hprolog
  have hset : setMode .directiveAndText (fresh body .none) =
      .ok () (fresh body .directiveAndText) := rfl
  rw [bind_of_ok hset] at hrun
  obtain ⟨requirements, context₂, hlist, hrun⟩ := bind_eq_ok hrun
  obtain ⟨last, _, hbody, hend, hpositive, hlimit, hstands₂⟩ :=
    parseRequirementList_sound (.fresh body _) hlist
  obtain ⟨_, _, hmode, hrun⟩ := bind_eq_ok hrun
  cases hmode
  obtain ⟨_, context₄, hepilog, hrun⟩ := bind_eq_ok hrun
  obtain ⟨rest, hepilogText, rfl⟩ := parseTestEpilog_sound (hstands₂.setMode hend .none) hepilog
  obtain ⟨rfl, rfl⟩ := pure_eq_ok.mp hrun
  exact ⟨rest, .mk hprologText hbody hpositive hlimit hepilogText, rfl⟩

theorem parseTest_complete {test : AstTest} (htest : TestText text test rest)
    (h : StandsAt context text .none) : parseTest context = .ok test (fresh rest .none) := by
  cases htest with
  | @mk body last _ arguments requirements hprolog hbody hpositive hlimit hepilog =>
      obtain ⟨_, hend⟩ := hepilog.lexes .directiveAndText
      obtain ⟨context₂, hlist, hstands₂⟩ :=
        parseRequirementList_complete hbody hend hpositive hlimit (.fresh body _)
      have hset : setMode .directiveAndText (fresh body .none) =
          .ok () (fresh body .directiveAndText) := rfl
      have hmode : setMode .none context₂ = .ok () { context₂ with mode := .none } := rfl
      unfold parseTest
      rw [bind_of_ok (parseTestProlog_complete hprolog h), bind_of_ok hset, bind_of_ok hlist,
        bind_of_ok hmode,
        bind_of_ok (parseTestEpilog_complete hepilog (hstands₂.setMode hend .none))]
      rfl

end Tests

section Suites

variable {context after : TokenizerContext} {text rest : Bytes} {tests : List AstTest}
  {token : Token} {rounds : Nat}

theorem skipNewlinesLoop_sound (h : StandsAt context text .none)
    (hrun : skipNewlinesLoop rounds context = .ok token after) :
    ∃ rest following, (∀ tests, TestsText rest tests [] → TestsText text tests []) ∧
      Lexes .none rest token following ∧ StandsAt after rest .none := by
  induction rounds generalizing context text with
  | zero => cases hrun
  | succ rounds ih =>
      rw [skipNewlinesLoop] at hrun
      obtain ⟨token₁, context₁, hget, hrun⟩ := bind_eq_ok hrun
      obtain ⟨rest₁, hlexes₁, hleft⟩ := h.getOneToken_sound hget
      by_cases hnewline : token₁ = .newline
      · rw [if_pos hnewline] at hrun
        rw [hnewline] at hlexes₁
        cases hlexes₁ with
        | newline =>
            obtain ⟨rest, following, hback, hlexes, hstands⟩ := ih (.left hleft nofun) hrun
            exact ⟨rest, following, fun tests htests => .newline (hback tests htests), hlexes,
              hstands⟩
      · rw [if_neg hnewline] at hrun
        obtain ⟨context₂, hunget, hstands⟩ := h.ungetOneToken hget
        rw [bind_of_ok hunget] at hrun
        obtain ⟨rfl, rfl⟩ := pure_eq_ok.mp hrun
        exact ⟨text, rest₁, fun _ htests => htests, hlexes₁, hstands⟩

theorem skipNewlinesLoop_complete {count : Nat} {following : Bytes}
    (hlexes : Lexes .none rest token following) (hother : token ≠ .newline)
    (hrounds : count < rounds)
    (h : StandsAt context (List.replicate count chNewline ++ rest) .none) :
    ∃ after, skipNewlinesLoop rounds context = .ok token after ∧ StandsAt after rest .none := by
  induction count generalizing context rounds with
  | zero =>
      cases rounds with
      | zero => cases hrounds
      | succ rounds =>
          obtain ⟨context₁, hget, -⟩ := StandsAt.getOneToken_complete h hlexes
          obtain ⟨after, hunget, hstands⟩ := StandsAt.ungetOneToken h hget
          refine ⟨after, ?_, hstands⟩
          rw [skipNewlinesLoop, bind_of_ok hget, if_neg hother, bind_of_ok hunget]
          rfl
  | succ count ih =>
      cases rounds with
      | zero => cases hrounds
      | succ rounds =>
          obtain ⟨context₁, hget, hleft⟩ := StandsAt.getOneToken_complete h (.newline _)
          obtain ⟨after, hrun, hstands⟩ := ih (Nat.lt_of_succ_lt_succ hrounds) (.left hleft nofun)
          refine ⟨after, ?_, hstands⟩
          rw [skipNewlinesLoop, bind_of_ok hget, if_pos rfl]
          exact hrun

theorem parseTestSuiteLoop_sound {following : Bytes} {result : List AstTest}
    (h : StandsAt context text .none) (hlexes : Lexes .none text token following)
    (hrun : parseTestSuiteLoop rounds token tests context = .ok result after) :
    ∃ added, TestsText text added [] ∧ result = tests ++ added := by
  induction rounds generalizing context text token following tests with
  | zero => cases hrun
  | succ rounds ih =>
      rw [parseTestSuiteLoop] at hrun
      by_cases heof : token = .eof
      · rw [if_pos heof] at hrun
        obtain ⟨rfl, rfl⟩ := pure_eq_ok.mp hrun
        rw [heof] at hlexes
        obtain ⟨rfl, -⟩ := hlexes.eof_nil
        exact ⟨[], .nil [], (List.append_nil _).symm⟩
      · rw [if_neg heof] at hrun
        by_cases hnewline : token = .newline
        · rw [if_pos hnewline] at hrun
          obtain ⟨_, _, hget, hrun⟩ := bind_eq_ok hrun
          cases hget
          obtain ⟨token₁, context₁, hskip, hrun⟩ := bind_eq_ok hrun
          obtain ⟨rest, _, hback, hlexes₁, hstands₁⟩ := skipNewlinesLoop_sound h hskip
          obtain ⟨added, hadded, hresult⟩ := ih hstands₁ hlexes₁ hrun
          exact ⟨added, hback added hadded, hresult⟩
        · rw [if_neg hnewline] at hrun
          obtain ⟨test, context₁, hparse, hrun⟩ := bind_eq_ok hrun
          obtain ⟨rest, htest, rfl⟩ := parseTest_sound h hparse
          obtain ⟨token₂, context₂, hpeek, hrun⟩ := bind_eq_ok hrun
          obtain ⟨⟨_, hlexes₂⟩, hstands₂⟩ := (StandsAt.fresh rest _).peekOneToken_sound hpeek
          obtain ⟨added, hadded, hresult⟩ := ih hstands₂ hlexes₂ hrun
          refine ⟨test :: added, .test htest hadded, ?_⟩
          rw [hresult, List.append_assoc]
          rfl

theorem parseTestSuiteLoop_complete {following : Bytes} {added : List AstTest}
    (hadded : TestsText text added []) (h : StandsAt context text .none)
    (hlexes : Lexes .none text token following) (hrounds : text.length < rounds)
    (tests : List AstTest) :
    ∃ after, parseTestSuiteLoop rounds token tests context = .ok (tests ++ added) after := by
  induction rounds generalizing context text token following tests added with
  | zero => cases hrounds
  | succ rounds ih =>
      rw [parseTestSuiteLoop]
      generalize hlast : ([] : Bytes) = last at hadded
      cases hadded with
      | nil =>
          obtain rfl := hlast
          obtain ⟨rfl, -⟩ := hlexes.unique (.eof .none)
          rw [if_pos rfl, List.append_nil]
          exact ⟨context, rfl⟩
      | @newline text _ _ htests =>
          obtain rfl := hlast
          obtain ⟨rfl, -⟩ := hlexes.unique (.newline text)
          obtain ⟨count, rest, token₁, _, rfl, hrest, hlexes₁, hother⟩ := htests.newlines_split
          have hbound := h.length_le
          have hlength : (List.replicate count chNewline ++ rest).length = count + rest.length := by
            rw [List.length_append, List.length_replicate]
          rw [List.length_cons, hlength] at hrounds hbound
          have hcount : count + 1 < context.unread + 1 := by omega
          obtain ⟨context₁, hskip, hstands₁⟩ := skipNewlinesLoop_complete hlexes₁ hother hcount h
          obtain ⟨after, hrun⟩ := ih hrest hstands₁ hlexes₁ (by omega) tests
          refine ⟨after, ?_⟩
          have hget : (get : TokM TokenizerContext) context = .ok context context := rfl
          rw [if_neg Token.noConfusion, if_pos rfl, bind_of_ok hget, bind_of_ok hskip]
          exact hrun
      | @test _ middle _ test added htest hadded =>
          obtain rfl := hlast
          obtain ⟨_, hfirst⟩ := htest.lexes .none
          obtain ⟨rfl, -⟩ := hlexes.unique hfirst
          obtain ⟨token₂, _, hlexes₂⟩ := hadded.lexes
          obtain ⟨context₂, hpeek, hstands₂⟩ := (StandsAt.fresh middle _).peekOneToken_complete hlexes₂
          have hshorter : middle.length < rounds :=
            Nat.lt_of_lt_of_le htest.length_lt (Nat.le_of_lt_succ hrounds)
          obtain ⟨after, hrun⟩ := ih hadded hstands₂ hlexes₂ hshorter (tests ++ [test])
          refine ⟨after, ?_⟩
          rw [if_neg Token.noConfusion, if_neg Token.noConfusion,
            bind_of_ok (parseTest_complete htest h), bind_of_ok hpeek, hrun, List.append_assoc]
          rfl

/-- `parse_test_suite` accepts the files that consist of tests, and nothing else. -/
theorem parseTestSuite_iff_testsText (source : Bytes) (tests : List AstTest) :
    parseTestSuite source = .ok tests ↔ TestsText source tests [] := by
  have hstart : StandsAt (initTokenizerContext source) source .none := .fresh source .none
  have hget (context : TokenizerContext) :
      (get : TokM TokenizerContext) context = .ok context context := rfl
  constructor
  · intro hparse
    unfold parseTestSuite at hparse
    cases hrun : parseTestSuiteM (initTokenizerContext source) with
    | error halt after =>
        rw [hrun] at hparse
        cases hparse
    | ok result after =>
        rw [hrun] at hparse
        cases hparse
        unfold parseTestSuiteM at hrun
        obtain ⟨token, context₁, hpeek, hrun⟩ := bind_eq_ok hrun
        obtain ⟨⟨_, hlexes⟩, hstands⟩ := hstart.peekOneToken_sound hpeek
        rw [bind_of_ok (hget context₁)] at hrun
        obtain ⟨added, hadded, rfl⟩ := parseTestSuiteLoop_sound hstands hlexes hrun
        exact hadded
  · intro htests
    obtain ⟨token, _, hlexes⟩ := htests.lexes
    obtain ⟨context₁, hpeek, hstands⟩ := hstart.peekOneToken_complete hlexes
    have hrounds : source.length < context₁.unread + 1 := Nat.lt_succ_of_le hstands.length_le
    obtain ⟨after, hloop⟩ := parseTestSuiteLoop_complete htests hstands hlexes hrounds []
    have hrun : parseTestSuiteM (initTokenizerContext source) = .ok tests after := by
      unfold parseTestSuiteM
      rw [bind_of_ok hpeek, bind_of_ok (hget context₁)]
      exact hloop
    unfold parseTestSuite
    rw [hrun]

end Suites

end JCUnit
