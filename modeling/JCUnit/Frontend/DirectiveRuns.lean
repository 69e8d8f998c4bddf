import Mathlib.Data.List.TakeWhile
import JCUnit.Frontend.Layout

/-!
# Runs of the directive parser

For each parsing function of a directive, a successful run has read a layout of
its result, and on a layout of a result the run succeeds with that result.
-/

namespace JCUnit

open StateError

section Blanks

variable {context after : TokenizerContext} {text rest blanks : Bytes} {mode : TokenizerMode}

theorem skipWhitespacesLoop_run {rounds : Nat} (hrounds : text.length ≤ rounds) :
    skipWhitespacesLoop rounds text.head? (fresh text.tail mode) =
      .ok (text.dropWhile isWhitespaceChar).head?
        (fresh (text.dropWhile isWhitespaceChar).tail mode) := by
  induction text generalizing rounds with
  | nil =>
      unfold skipWhitespacesLoop
      rfl
  | cons b text ih =>
      rw [List.head?_cons, List.tail_cons]
      cases hb : isWhitespaceChar b with
      | false =>
          rw [List.dropWhile_cons_of_neg (by simp [hb])]
          unfold skipWhitespacesLoop
          simp only [hb, Bool.false_eq_true, if_false]
          rfl
      | true =>
          rw [List.dropWhile_cons_of_pos hb]
          cases rounds with
          | zero => cases hrounds
          | succ rounds =>
              unfold skipWhitespacesLoop
              simp only [hb, if_true]
              rw [bind_of_ok (getOneChar_fresh text mode)]
              exact ih (Nat.le_of_succ_le_succ hrounds)

theorem skipWhitespaces_run (h : Raw context text mode) :
    skipWhitespaces context = .ok () (pushedBack (text.dropWhile isWhitespaceChar) mode) := by
  have hrounds : text.length ≤ (fresh text.tail mode).unread + 1 := by
    rw [(Raw.fresh (clean_tail h.clean)).unread_eq, List.length_tail]
    omega
  have hget : (get : TokM TokenizerContext) (fresh text.tail mode) =
      .ok (fresh text.tail mode) (fresh text.tail mode) := rfl
  unfold skipWhitespaces
  rw [bind_of_ok (getOneChar_of_raw h), bind_of_ok hget,
    bind_of_ok (skipWhitespacesLoop_run hrounds)]
  exact ungetOneChar_fresh _ mode

/-- Blanks are skipped, and the byte behind them is pushed back. -/
theorem skipWhitespaces_split (h : Raw context text mode) :
    ∃ blanks rest, text = blanks ++ rest ∧ IsBlanks blanks ∧
      skipWhitespaces context = .ok () (pushedBack rest mode) ∧
      Raw (pushedBack rest mode) rest mode := by
  have hsplit : text = text.takeWhile isWhitespaceChar ++ text.dropWhile isWhitespaceChar :=
    List.takeWhile_append_dropWhile.symm
  refine ⟨_, _, hsplit, ?_, skipWhitespaces_run h, ?_⟩
  · intro b hb
    exact List.mem_takeWhile_imp hb
  · apply Raw.pushedBack
    apply clean_of_append
    rw [← hsplit]
    exact h.clean

theorem skipWhitespaces_blanks {b : Byte} (hblanks : IsBlanks blanks)
    (hb : isWhitespaceChar b = false) (h : Raw context (blanks ++ b :: rest) mode) :
    skipWhitespaces context = .ok () (pushedBack (b :: rest) mode) ∧
      Raw (pushedBack (b :: rest) mode) (b :: rest) mode := by
  have hdrop : (blanks ++ b :: rest).dropWhile isWhitespaceChar = b :: rest := by
    rw [List.dropWhile_append_of_pos hblanks, List.dropWhile_cons_of_neg (by simp [hb])]
  constructor
  · rw [skipWhitespaces_run h, hdrop]
  · exact .pushedBack (clean_of_append h.clean)

end Blanks

/-- A directive with one more argument read. -/
def DirectiveParseContext.add (directive : DirectiveParseContext) (argument : AstArgument) :
    DirectiveParseContext :=
  { directive with
    arguments := directive.arguments ++ [argument]
    hasUnnamedArgument := directive.hasUnnamedArgument || argument.name.isNone }

/-- The unnamed arguments read so far and still to come are at most one. -/
def UnnamedFits (directive : DirectiveParseContext) (arguments : List AstArgument) : Prop :=
  directive.hasUnnamedArgument.toNat + unnamedCount arguments ≤ 1

section Arguments

variable {context after : TokenizerContext} {text rest : Bytes}
  {directive directive' : DirectiveParseContext} {argument : AstArgument}
  {arguments : List AstArgument}

theorem DirectiveParseContext.add_named (name value : Bytes) :
    directive.add ⟨some name, value⟩ =
      { directive with arguments := directive.arguments ++ [⟨some name, value⟩] } := by
  simp [DirectiveParseContext.add]

theorem DirectiveParseContext.add_unnamed (value : Bytes) :
    directive.add ⟨none, value⟩ = { directive with
      arguments := directive.arguments ++ [⟨none, value⟩]
      hasUnnamedArgument := true } := by
  simp [DirectiveParseContext.add]

theorem unnamedFits_nil (directive : DirectiveParseContext) : UnnamedFits directive [] := by
  unfold UnnamedFits
  cases directive.hasUnnamedArgument <;> simp [unnamedCount]

theorem unnamedFits_cons : UnnamedFits directive (argument :: arguments) ↔
    (argument.name = none → directive.hasUnnamedArgument = false) ∧
      UnnamedFits (directive.add argument) arguments := by
  unfold UnnamedFits
  simp only [unnamedCount, List.countP_cons, DirectiveParseContext.add]
  generalize arguments.countP (fun argument => argument.name.isNone) = count
  cases argument.name with
  | some name => simp
  | none =>
      cases directive.hasUnnamedArgument with
      | true => simp
      | false => simp [Nat.add_comm]

theorem foldl_add_directive (arguments : List AstArgument) :
    ∀ directive : DirectiveParseContext,
      (arguments.foldl DirectiveParseContext.add directive).directive = directive.directive := by
  induction arguments with
  | nil =>
      intro directive
      rfl
  | cons argument arguments ih =>
      intro directive
      exact ih (directive.add argument)

theorem foldl_add_arguments (arguments : List AstArgument) :
    ∀ directive : DirectiveParseContext,
      (arguments.foldl DirectiveParseContext.add directive).arguments =
        directive.arguments ++ arguments := by
  induction arguments with
  | nil =>
      intro directive
      exact (List.append_nil _).symm
  | cons argument arguments ih =>
      intro directive
      calc ((argument :: arguments).foldl DirectiveParseContext.add directive).arguments
          = (directive.arguments ++ [argument]) ++ arguments := ih (directive.add argument)
        _ = directive.arguments ++ argument :: arguments := List.append_cons _ _ _ |>.symm

theorem parseNamedDirectiveArgument_sound {name : Bytes} {following : Bytes}
    (h : Unread context text .none) (hlexes : Lexes .none text (.name name) following)
    (hrun : parseNamedDirectiveArgument directive context = .ok directive' after) :
    ∃ value rest, IsString value ∧ text = (name ++ chEquals :: quoted value) ++ rest ∧
      directive' = directive.add ⟨some name, value⟩ ∧ Raw after rest .none := by
  unfold parseNamedDirectiveArgument at hrun
  obtain ⟨context₁, hget₁, hraw₁⟩ := getOneToken_complete h hlexes
  rw [bind_of_ok hget₁] at hrun
  obtain ⟨token₂, context₂, hget₂, hrun⟩ := bind_eq_ok hrun
  obtain ⟨rest₂, hlexes₂, hraw₂⟩ := getOneToken_sound (.raw hraw₁) hget₂
  by_cases hequals : token₂ = .punctuator chEquals
  · rw [if_neg (not_not_intro hequals)] at hrun
    rw [hequals] at hlexes₂
    obtain ⟨token₃, context₃, hget₃, hrun⟩ := bind_eq_ok hrun
    obtain ⟨rest₃, hlexes₃, hraw₃⟩ := getOneToken_sound (.raw hraw₂) hget₃
    cases hlexes with
    | name hname hends =>
        cases hlexes₂ with
        | punctuator _ _ =>
            cases hlexes₃ with
            | string _ hvalue =>
                obtain ⟨rfl, rfl⟩ := pure_eq_ok.mp hrun
                refine ⟨_, rest₃, hvalue, ?_, ?_, hraw₃⟩
                · simp [quoted]
                · exact (DirectiveParseContext.add_named _ _).symm
            | _ => cases hrun
  · rw [if_pos hequals] at hrun
    cases hrun

theorem parseNamedDirectiveArgument_complete {name value : Bytes} (hname : IsName name)
    (hvalue : IsString value)
    (h : Unread context ((name ++ chEquals :: quoted value) ++ rest) .none) :
    ∃ after, parseNamedDirectiveArgument directive context =
      .ok (directive.add ⟨some name, value⟩) after ∧ Raw after rest .none := by
  have htext : (name ++ chEquals :: quoted value) ++ rest =
      name ++ chEquals :: chQuote :: (value ++ chQuote :: rest) := by
    simp [quoted]
  rw [htext] at h
  have hends : NameEnds (chEquals :: chQuote :: (value ++ chQuote :: rest)) := .cons rfl
  obtain ⟨context₁, hget₁, hraw₁⟩ := getOneToken_complete h (.name hname hends)
  obtain ⟨context₂, hget₂, hraw₂⟩ := getOneToken_complete (.raw hraw₁) (.punctuator _ rfl)
  obtain ⟨context₃, hget₃, hraw₃⟩ := getOneToken_complete (.raw hraw₂) (.string rest hvalue)
  refine ⟨context₃, ?_, hraw₃⟩
  unfold parseNamedDirectiveArgument
  rw [bind_of_ok hget₁, bind_of_ok hget₂, if_neg (not_not_intro rfl), bind_of_ok hget₃,
    DirectiveParseContext.add_named]
  rfl

theorem parseDirectiveArgument_sound (h : Unread context text .none)
    (hrun : parseDirectiveArgument directive context = .ok directive' after) :
    ∃ argument argumentText rest, ArgumentLayout argument argumentText ∧
      text = argumentText ++ rest ∧ (argument.name = none → directive.hasUnnamedArgument = false) ∧
      directive' = directive.add argument ∧ Raw after rest .none := by
  unfold parseDirectiveArgument at hrun
  obtain ⟨token, context', hget, hrun⟩ := bind_eq_ok hrun
  obtain ⟨rest, hlexes, hraw⟩ := getOneToken_sound h hget
  cases token with
  | name name =>
      obtain ⟨after', hunget, hunread⟩ := ungetOneToken_run hraw hlexes h.clean
      simp only [bind_of_ok hunget] at hrun
      obtain ⟨value, rest, hvalue, htext, hdirective, hrest⟩ :=
        parseNamedDirectiveArgument_sound hunread hlexes hrun
      have hname : IsName name := by
        cases hlexes with
        | name hname _ => exact hname
      refine ⟨_, _, rest, .named hname hvalue, htext, ?_, hdirective, hrest⟩
      intro hnone
      cases hnone
  | string value =>
      cases hlexes with
      | string _ hvalue =>
          cases hhas : directive.hasUnnamedArgument with
          | true =>
              simp only [hhas, if_true] at hrun
              cases hrun
          | false =>
              simp only [hhas, Bool.false_eq_true, if_false] at hrun
              obtain ⟨rfl, rfl⟩ := pure_eq_ok.mp hrun
              refine ⟨_, _, rest, .unnamed hvalue, ?_, fun _ => rfl, ?_, hraw⟩
              · simp [quoted]
              · exact (DirectiveParseContext.add_unnamed _).symm
  | _ => cases hrun

theorem parseDirectiveArgument_complete {argumentText : Bytes}
    (hargument : ArgumentLayout argument argumentText)
    (hunnamed : argument.name = none → directive.hasUnnamedArgument = false)
    (h : Unread context (argumentText ++ rest) .none) :
    ∃ after, parseDirectiveArgument directive context = .ok (directive.add argument) after ∧
      Raw after rest .none := by
  unfold parseDirectiveArgument
  cases hargument with
  | @unnamed value hvalue =>
      have htext : quoted value ++ rest = chQuote :: (value ++ chQuote :: rest) := by
        simp [quoted]
      rw [htext] at h
      obtain ⟨after, hget, hraw⟩ := getOneToken_complete h (.string rest hvalue)
      refine ⟨after, ?_, hraw⟩
      rw [bind_of_ok hget]
      simp only [hunnamed rfl, Bool.false_eq_true, if_false]
      rw [DirectiveParseContext.add_unnamed]
      rfl
  | @named name value hname hvalue =>
      have htext : (name ++ chEquals :: quoted value) ++ rest =
          name ++ (chEquals :: quoted value ++ rest) := List.append_assoc _ _ _
      have hends : NameEnds (chEquals :: quoted value ++ rest) := .cons rfl
      have hlexes : Lexes .none ((name ++ chEquals :: quoted value) ++ rest) (.name name)
          (chEquals :: quoted value ++ rest) := by
        rw [htext]
        exact .name hname hends
      obtain ⟨context', hget, hraw⟩ := getOneToken_complete h hlexes
      obtain ⟨context'', hunget, hunread⟩ := ungetOneToken_run hraw hlexes h.clean
      rw [bind_of_ok hget]
      simp only [bind_of_ok hunget]
      exact parseNamedDirectiveArgument_complete hname hvalue hunread

/-- An argument starts with a token that closes no argument list and separates none. -/
theorem ArgumentLayout.lexes {argumentText : Bytes} (h : ArgumentLayout argument argumentText)
    (rest : Bytes) : ∃ token following, Lexes .none (argumentText ++ rest) token following ∧
      ∀ ch, token ≠ .punctuator ch := by
  cases h with
  | @unnamed value hvalue =>
      refine ⟨.string value, rest, ?_, fun ch => Token.noConfusion⟩
      simpa [quoted] using Lexes.string rest hvalue
  | @named name value hname hvalue =>
      refine ⟨.name name, chEquals :: quoted value ++ rest, ?_, fun ch => Token.noConfusion⟩
      have hends : NameEnds (chEquals :: quoted value ++ rest) := .cons rfl
      simpa using Lexes.name hname hends

theorem ArgumentLayout.not_blank {argumentText : Bytes} (h : ArgumentLayout argument argumentText) :
    ∃ b following, argumentText = b :: following ∧ isWhitespaceChar b = false := by
  cases h with
  | unnamed => exact ⟨chQuote, _, rfl, rfl⟩
  | @named name _ hname _ =>
      cases name with
      | nil => exact hname.elim
      | cons b name =>
          refine ⟨b, _, rfl, ?_⟩
          have hb := hname.1
          simp only [isStartNameChar, isChar, Bool.or_eq_true, Bool.and_eq_true,
            decide_eq_true_eq] at hb
          simp only [isWhitespaceChar, Bool.or_eq_false_iff, beq_eq_false_iff_ne]
          refine ⟨⟨⟨?_, ?_⟩, ?_⟩, ?_⟩ <;> rintro rfl <;> revert hb <;> decide

end Arguments

section ArgumentLists

variable {context after : TokenizerContext} {text rest inner blanks : Bytes}
  {directive directive' : DirectiveParseContext} {arguments : List AstArgument}
  {mode : TokenizerMode} {rounds : Nat}

theorem parseDirectiveArgumentsLoop_sound (h : Raw context text .none)
    (hrun : parseDirectiveArgumentsLoop rounds directive context = .ok directive' after) :
    ∃ arguments inner rest, ArgumentListLayout arguments inner ∧ text = inner ++ rest ∧
      UnnamedFits directive arguments ∧
      directive' = arguments.foldl DirectiveParseContext.add directive ∧
      Unread after rest .none := by
  induction rounds generalizing context text directive with
  | zero => cases hrun
  | succ rounds ih =>
      obtain ⟨blanks, text₀, htext₀, hblanks, hskip, hraw₀⟩ := skipWhitespaces_split h
      rw [parseDirectiveArgumentsLoop, bind_of_ok hskip] at hrun
      obtain ⟨token₁, context₁, hpeek, hrun⟩ := bind_eq_ok hrun
      obtain ⟨_, hunread₁⟩ := peekOneToken_sound (.raw hraw₀) hpeek
      by_cases hclose : token₁ = .punctuator chRightParen
      · rw [if_pos hclose] at hrun
        obtain ⟨rfl, rfl⟩ := pure_eq_ok.mp hrun
        exact ⟨[], blanks, text₀, .nil hblanks, htext₀, unnamedFits_nil _, rfl, hunread₁⟩
      · rw [if_neg hclose] at hrun
        obtain ⟨directive₂, context₂, hparse, hrun⟩ := bind_eq_ok hrun
        obtain ⟨argument, argumentText, rest₂, hargument, htext₂, hunnamed, rfl, hraw₂⟩ :=
          parseDirectiveArgument_sound hunread₁ hparse
        obtain ⟨token₃, context₃, hget, hrun⟩ := bind_eq_ok hrun
        obtain ⟨rest₃, hlexes₃, hraw₃⟩ := getOneToken_sound (.raw hraw₂) hget
        by_cases hcomma : token₃ = .punctuator chComma
        · rw [if_pos hcomma] at hrun
          rw [hcomma] at hlexes₃
          obtain ⟨arguments, inner, rest, harguments, htext, hfits, hdirective, hrest⟩ :=
            ih hraw₃ hrun
          cases hlexes₃ with
          | punctuator _ _ =>
              refine ⟨argument :: arguments, _, rest, .more hblanks hargument harguments, ?_,
                unnamedFits_cons.mpr ⟨hunnamed, hfits⟩, hdirective, hrest⟩
              rw [htext₀, htext₂, htext]
              simp
        · rw [if_neg hcomma] at hrun
          obtain ⟨context₄, hunget, hunread⟩ := ungetOneToken_run hraw₃ hlexes₃ hraw₂.clean
          rw [bind_of_ok hunget] at hrun
          obtain ⟨rfl, rfl⟩ := pure_eq_ok.mp hrun
          refine ⟨[argument], _, rest₂, .last hblanks hargument, ?_,
            unnamedFits_cons.mpr ⟨hunnamed, unnamedFits_nil _⟩, rfl, hunread⟩
          rw [htext₀, htext₂, List.append_assoc]

/-- One round of the loop behind blanks and on an argument. -/
theorem parseDirectiveArgumentsLoop_argument (rounds : Nat) {argument : AstArgument}
    {argumentText : Bytes}
    (hblanks : IsBlanks blanks) (hargument : ArgumentLayout argument argumentText)
    (hunnamed : argument.name = none → directive.hasUnnamedArgument = false)
    (h : Raw context (blanks ++ (argumentText ++ rest)) .none) :
    ∃ context', Raw context' rest .none ∧
      parseDirectiveArgumentsLoop (rounds + 1) directive context = (do
        let token ← getOneToken
        if token = Token.punctuator chComma then
          parseDirectiveArgumentsLoop rounds (directive.add argument)
        else
          ungetOneToken token
          return directive.add argument) context' := by
  obtain ⟨b, following, hfirst, hb⟩ := hargument.not_blank
  have htext : argumentText ++ rest = b :: (following ++ rest) := by rw [hfirst]; rfl
  rw [htext] at h
  obtain ⟨hskip, hraw⟩ := skipWhitespaces_blanks hblanks hb h
  rw [← htext] at hskip hraw
  obtain ⟨token, _, hlexes, hopen⟩ := hargument.lexes rest
  obtain ⟨context₁, hpeek, hunread⟩ := peekOneToken_complete (.raw hraw) hlexes
  obtain ⟨context₂, hparse, hraw₂⟩ := parseDirectiveArgument_complete hargument hunnamed hunread
  refine ⟨context₂, hraw₂, ?_⟩
  rw [parseDirectiveArgumentsLoop, bind_of_ok hskip, bind_of_ok hpeek,
    if_neg (hopen chRightParen), bind_of_ok hparse]

theorem parseDirectiveArgumentsLoop_complete (harguments : ArgumentListLayout arguments inner)
    (hfits : UnnamedFits directive arguments)
    (h : Raw context (inner ++ chRightParen :: rest) .none) (hrounds : inner.length < rounds) :
    ∃ after, parseDirectiveArgumentsLoop rounds directive context =
        .ok (arguments.foldl DirectiveParseContext.add directive) after ∧
      Unread after (chRightParen :: rest) .none := by
  have hclose : Lexes .none (chRightParen :: rest) (.punctuator chRightParen) rest :=
    .punctuator rest rfl
  induction harguments generalizing context directive rounds with
  | nil hblanks =>
      cases rounds with
      | zero => cases hrounds
      | succ rounds =>
          obtain ⟨hskip, hraw⟩ := skipWhitespaces_blanks hblanks rfl h
          obtain ⟨after, hpeek, hunread⟩ := peekOneToken_complete (.raw hraw) hclose
          refine ⟨after, ?_, hunread⟩
          rw [parseDirectiveArgumentsLoop, bind_of_ok hskip, bind_of_ok hpeek, if_pos rfl]
          rfl
  | last hblanks hargument =>
      cases rounds with
      | zero => cases hrounds
      | succ rounds =>
          rw [List.append_assoc] at h
          obtain ⟨hunnamed, -⟩ := unnamedFits_cons.mp hfits
          obtain ⟨context', hraw, hloop⟩ :=
            parseDirectiveArgumentsLoop_argument rounds hblanks hargument hunnamed h
          obtain ⟨context'', hget, hraw'⟩ := getOneToken_complete (.raw hraw) hclose
          obtain ⟨after, hunget, hunread⟩ := ungetOneToken_run hraw' hclose hraw.clean
          refine ⟨after, ?_, hunread⟩
          rw [hloop, bind_of_ok hget, if_neg (by decide), bind_of_ok hunget]
          rfl
  | @more blanks text inner argument arguments hblanks hargument _ ih =>
      cases rounds with
      | zero => cases hrounds
      | succ rounds =>
          have htext : (blanks ++ (text ++ chComma :: inner)) ++ chRightParen :: rest =
              blanks ++ (text ++ chComma :: (inner ++ chRightParen :: rest)) := by
            simp
          have hlength : inner.length < rounds := by
            simp only [List.length_append, List.length_cons] at hrounds
            omega
          rw [htext] at h
          obtain ⟨hunnamed, hfits⟩ := unnamedFits_cons.mp hfits
          obtain ⟨context', hraw, hloop⟩ :=
            parseDirectiveArgumentsLoop_argument rounds hblanks hargument hunnamed h
          obtain ⟨context'', hget, hraw'⟩ :=
            getOneToken_complete (.raw hraw) (.punctuator (b := chComma) _ rfl)
          obtain ⟨after, hrest, hunread⟩ := ih hfits hraw' hlength
          refine ⟨after, ?_, hunread⟩
          rw [hloop, bind_of_ok hget, if_pos rfl]
          exact hrest

theorem parseDirectiveArguments_sound (h : Raw context text .none)
    (hrun : parseDirectiveArguments directive context = .ok directive' after) :
    ∃ arguments inner rest, ArgumentListLayout arguments inner ∧
      text = inner ++ chRightParen :: rest ∧ UnnamedFits directive arguments ∧
      directive' = arguments.foldl DirectiveParseContext.add directive ∧
      Raw after rest .none := by
  unfold parseDirectiveArguments at hrun
  obtain ⟨_, _, hget, hrun⟩ := bind_eq_ok hrun
  cases hget
  obtain ⟨directive₁, context₁, hloop, hrun⟩ := bind_eq_ok hrun
  obtain ⟨arguments, inner, rest₁, harguments, htext, hfits, rfl, hunread₁⟩ :=
    parseDirectiveArgumentsLoop_sound h hloop
  obtain ⟨token, context₂, htoken, hrun⟩ := bind_eq_ok hrun
  obtain ⟨rest, hlexes, hraw⟩ := getOneToken_sound hunread₁ htoken
  by_cases hclose : token = .punctuator chRightParen
  · rw [if_neg (not_not_intro hclose)] at hrun
    obtain ⟨rfl, rfl⟩ := pure_eq_ok.mp hrun
    rw [hclose] at hlexes
    cases hlexes with
    | punctuator _ _ => exact ⟨arguments, inner, rest, harguments, htext, hfits, rfl, hraw⟩
  · rw [if_pos hclose] at hrun
    cases hrun

theorem parseDirectiveArguments_complete (harguments : ArgumentListLayout arguments inner)
    (hfits : UnnamedFits directive arguments)
    (h : Raw context (inner ++ chRightParen :: rest) .none) :
    ∃ after, parseDirectiveArguments directive context =
        .ok (arguments.foldl DirectiveParseContext.add directive) after ∧
      Raw after rest .none := by
  have hrounds : inner.length < context.unread + 1 := by
    rw [h.unread_eq, List.length_append]
    omega
  have hget : (get : TokM TokenizerContext) context = .ok context context := rfl
  obtain ⟨context₁, hloop, hunread⟩ := parseDirectiveArgumentsLoop_complete harguments hfits h hrounds
  obtain ⟨after, htoken, hraw⟩ := getOneToken_complete hunread (.punctuator rest rfl)
  refine ⟨after, ?_, hraw⟩
  unfold parseDirectiveArguments
  rw [bind_of_ok hget, bind_of_ok hloop, bind_of_ok htoken, if_neg (not_not_intro rfl)]
  rfl

end ArgumentLists

section Directives

variable {context after : TokenizerContext} {text rest name : Bytes}
  {directive : DirectiveParseContext} {arguments : List AstArgument} {mode : TokenizerMode}

theorem setMode_run (mode' : TokenizerMode) (context : TokenizerContext) :
    setMode mode' context = .ok () { context with mode := mode' } := rfl

theorem parseOptionalArguments_sound (h : Raw context text .none)
    (hrun : parseOptionalArguments ⟨name, [], false⟩ context = .ok directive after) :
    ∃ argumentsText rest, OptionalArgumentsLayout directive.arguments argumentsText ∧
      directive.directive = name ∧ text = argumentsText ++ rest ∧ Raw after rest .none := by
  have hraw : Raw (pushedBack text .none) text .none := .pushedBack h.clean
  unfold parseOptionalArguments at hrun
  rw [bind_of_ok (peekOneChar_of_raw h)] at hrun
  by_cases hparen : text.head? = some chLeftParen
  · rw [if_pos hparen] at hrun
    obtain ⟨text', rfl⟩ := List.head?_eq_some_iff.mp hparen
    obtain ⟨context₁, hget, hraw₁⟩ := getOneToken_complete (.raw hraw) (.punctuator text' rfl)
    rw [bind_of_ok hget] at hrun
    obtain ⟨arguments, inner, rest, harguments, rfl, hfits, rfl, hraw₂⟩ :=
      parseDirectiveArguments_sound hraw₁ hrun
    refine ⟨chLeftParen :: (inner ++ [chRightParen]), rest, ?_, ?_, ?_, hraw₂⟩
    · rw [foldl_add_arguments]
      refine .present harguments ?_
      simpa [UnnamedFits] using hfits
    · exact foldl_add_directive _ _
    · simp
  · rw [if_neg hparen] at hrun
    obtain ⟨rfl, rfl⟩ := pure_eq_ok.mp hrun
    exact ⟨[], text, .absent, rfl, rfl, hraw⟩

theorem parseOptionalArguments_complete (harguments : OptionalArgumentsLayout arguments text)
    (h : Raw context (text ++ chNewline :: rest) .none) :
    ∃ directive after, parseOptionalArguments ⟨name, [], false⟩ context = .ok directive after ∧
      directive.directive = name ∧ directive.arguments = arguments ∧
      Raw after (chNewline :: rest) .none := by
  have hraw : Raw (pushedBack (text ++ chNewline :: rest) .none) (text ++ chNewline :: rest) .none :=
    .pushedBack h.clean
  unfold parseOptionalArguments
  rw [bind_of_ok (peekOneChar_of_raw h)]
  cases harguments with
  | absent => exact ⟨⟨name, [], false⟩, _, rfl, rfl, rfl, hraw⟩
  | @present inner _ harguments hunnamed =>
      have htext : chLeftParen :: (inner ++ [chRightParen]) ++ chNewline :: rest =
          chLeftParen :: (inner ++ chRightParen :: chNewline :: rest) := by
        simp
      have hfits : UnnamedFits ⟨name, [], false⟩ arguments := by
        simpa [UnnamedFits] using hunnamed
      rw [htext] at hraw ⊢
      obtain ⟨context₁, hget, hraw₁⟩ := getOneToken_complete (.raw hraw) (.punctuator _ rfl)
      obtain ⟨after, hrun, hraw₂⟩ := parseDirectiveArguments_complete harguments hfits hraw₁
      refine ⟨arguments.foldl DirectiveParseContext.add ⟨name, [], false⟩, after, ?_, ?_, ?_, hraw₂⟩
      · rw [List.head?_cons, if_pos rfl, bind_of_ok hget]
        exact hrun
      · exact foldl_add_directive _ _
      · exact foldl_add_arguments _ _

/-- A directive that is parsed has been read from a layout of it. -/
theorem parseDirective_sound (h : Unread context text mode)
    (hrun : parseDirective context = .ok directive after) :
    ∃ directiveText rest, DirectiveLayout directive.directive directive.arguments directiveText ∧
      text = directiveText ++ rest ∧ Raw after rest mode := by
  unfold parseDirective at hrun
  obtain ⟨token, context₁, htoken, hrun⟩ := bind_eq_ok hrun
  obtain ⟨rest₁, hlexes, hraw₁⟩ := getOneToken_sound h htoken
  cases hlexes with
  | @directive _ name _ hname hends =>
      obtain ⟨_, _, hget, hrun⟩ := bind_eq_ok hrun
      cases hget
      rw [bind_of_ok (setMode_run .none context₁)] at hrun
      obtain ⟨directive₂, context₂, hoptional, hrun⟩ := bind_eq_ok hrun
      obtain ⟨argumentsText, rest₂, harguments, hdirective, rfl, hraw₂⟩ :=
        parseOptionalArguments_sound (hraw₁.setMode .none) hoptional
      obtain ⟨token₃, context₃, htoken₃, hrun⟩ := bind_eq_ok hrun
      obtain ⟨rest, hlexes₃, hraw₃⟩ := getOneToken_sound (.raw hraw₂) htoken₃
      by_cases hnewline : token₃ = .newline
      · rw [if_neg (not_not_intro hnewline), bind_of_ok (setMode_run _ context₃)] at hrun
        obtain ⟨rfl, rfl⟩ := pure_eq_ok.mp hrun
        rw [hnewline] at hlexes₃
        cases hlexes₃ with
        | newline =>
            refine ⟨chAt :: (name ++ (argumentsText ++ [chNewline])), rest, ?_, by simp, ?_⟩
            · rw [hdirective]
              exact .mk hname harguments
            · rw [hraw₁.mode_eq]
              exact hraw₃.setMode mode
      · rw [if_pos hnewline] at hrun
        cases hrun
  | _ => cases hrun

/-- A layout of a directive is parsed as that directive. -/
theorem parseDirective_complete (hlayout : DirectiveLayout name arguments text)
    (h : Unread context (text ++ rest) mode) :
    ∃ directive after, parseDirective context = .ok directive after ∧
      directive.directive = name ∧ directive.arguments = arguments ∧ Raw after rest mode := by
  cases hlayout with
  | mk hname harguments =>
      rename_i argumentsText
      have htext : chAt :: (name ++ (argumentsText ++ [chNewline])) ++ rest =
          chAt :: (name ++ (argumentsText ++ chNewline :: rest)) := by
        simp
      have hends := harguments.nameEnds rest
      rw [htext] at h
      obtain ⟨context₁, hget, hraw₁⟩ := getOneToken_complete h (.directive mode hname hends)
      obtain ⟨directive, context₂, hoptional, hdirective, hargumentsEq, hraw₂⟩ :=
        parseOptionalArguments_complete harguments (hraw₁.setMode .none)
      obtain ⟨context₃, hnewline, hraw₃⟩ := getOneToken_complete (.raw hraw₂) (.newline rest)
      have hmode : (get : TokM TokenizerContext) context₁ = .ok context₁ context₁ := rfl
      refine ⟨directive, _, ?_, hdirective, hargumentsEq, hraw₃.setMode mode⟩
      unfold parseDirective
      rw [bind_of_ok hget]
      simp only [bind_of_ok hmode, bind_of_ok (setMode_run .none context₁), bind_of_ok hoptional,
        bind_of_ok hnewline, ne_eq, not_true_eq_false, if_false, hraw₁.mode_eq]
      rfl

end Directives

end JCUnit
