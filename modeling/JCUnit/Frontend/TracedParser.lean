import JCUnit.Foundation.Projection
import JCUnit.Foundation.Transitions
import JCUnit.Frontend.Parser

/-!
# The parser with a record of its tokenizer calls

The functions of the parser over a context that also lists the calls of the tokenizer that
have returned, in order, each with the contexts before and after it. Every function is
projected to the one of the parser: the list changes nothing.
-/

namespace JCUnit

open Projection Transitions

/-- What the parser does to the tokenizer: a call with what it was given or gave back, or a
store to `mode`. -/
inductive Call
  | getOneChar (ch : Option Byte)
  | ungetOneChar (ch : Option Byte)
  | peekOneChar (ch : Option Byte)
  | getOneToken (token : Token)
  | ungetOneToken (token : Token)
  | peekOneToken (token : Token)
  | setMode (mode : TokenizerMode)
deriving DecidableEq

abbrev CallRecord := Record TokenizerContext Call

/-- The context of the tokenizer, and the calls that have returned so far. -/
structure TracedContext where
  context : TokenizerContext
  calls : List CallRecord

abbrev TracedM := EStateM Halt TracedContext

namespace Traced

/-- A call that is recorded when it returns. -/
def record {α : Type} (call : α → Call) (x : TokM α) : TracedM α := fun s =>
  match x s.context with
  | .ok a context => .ok a ⟨context, s.calls ++ [⟨s.context, call a, context⟩]⟩
  | .error halt context => .error halt ⟨context, s.calls⟩

def getOneChar : TracedM (Option Byte) := record .getOneChar JCUnit.getOneChar

def ungetOneChar (ch : Option Byte) : TracedM Unit :=
  record (fun _ => .ungetOneChar ch) (JCUnit.ungetOneChar ch)

def peekOneChar : TracedM (Option Byte) := record .peekOneChar JCUnit.peekOneChar

def getOneToken : TracedM Token := record .getOneToken JCUnit.getOneToken

def ungetOneToken (token : Token) : TracedM Unit :=
  record (fun _ => .ungetOneToken token) (JCUnit.ungetOneToken token)

def peekOneToken : TracedM Token := record .peekOneToken JCUnit.peekOneToken

def setMode (mode : TokenizerMode) : TracedM Unit :=
  record (fun _ => .setMode mode) (JCUnit.setMode mode)

/-- The context as it is, for a bound of a loop or the mode to come back to. -/
def getContext : TracedM TokenizerContext := fun s => .ok s.context s

/-- A fatal error ends the parser, and is no call of the tokenizer. -/
def fatal {α : Type} (message : Bytes) : TracedM α :=
  throw (fatalError message)

/-- The loop of `skip_whitespaces`, with the character it stops at. -/
def skipWhitespacesLoop : Nat → Option Byte → TracedM (Option Byte)
  | rounds, some ch =>
      if isWhitespaceChar ch then
        match rounds with
        | 0 => throw .diverged
        | rounds + 1 => do
            let next ← getOneChar
            skipWhitespacesLoop rounds next
      else return some ch
  | _, none => return none

def skipWhitespaces : TracedM Unit := do
  let ch ← getOneChar
  let context ← getContext
  let ch ← skipWhitespacesLoop (context.unread + 1) ch
  ungetOneChar ch

def parseNamedDirectiveArgument (directive : DirectiveParseContext) :
    TracedM DirectiveParseContext := do
  let token ← getOneToken
  let name := token.text
  let token ← getOneToken
  if token ≠ .punctuator chEquals then fatal (ascii "Expected '=' after name of argument!")
  else
    let token ← getOneToken
    match token with
    | .string value =>
        return { directive with arguments := directive.arguments ++ [⟨some name, value⟩] }
    | _ => fatal (ascii "Expected value of the named argument as a string!")

def parseDirectiveArgument (directive : DirectiveParseContext) :
    TracedM DirectiveParseContext := do
  let token ← getOneToken
  match token with
  | .name _ =>
      ungetOneToken token
      parseNamedDirectiveArgument directive
  | .string value =>
      if directive.hasUnnamedArgument then
        fatal (ascii "A directive cannot have two unnamed arguments!")
      else
        return { directive with
          arguments := directive.arguments ++ [⟨none, value⟩]
          hasUnnamedArgument := true }
  | _ => fatal (ascii "An unnamed argument of a directive should be a string!")

/-- The loop of `parse_directive_arguments`, one argument a round. -/
def parseDirectiveArgumentsLoop : Nat → DirectiveParseContext → TracedM DirectiveParseContext
  | 0, _ => throw .diverged
  | rounds + 1, directive => do
      skipWhitespaces
      let token ← peekOneToken
      if token = .punctuator chRightParen then return directive
      else
        let directive ← parseDirectiveArgument directive
        let token ← getOneToken
        if token = .punctuator chComma then parseDirectiveArgumentsLoop rounds directive
        else
          ungetOneToken token
          return directive

def parseDirectiveArguments (directive : DirectiveParseContext) :
    TracedM DirectiveParseContext := do
  let context ← getContext
  let directive ← parseDirectiveArgumentsLoop (context.unread + 1) directive
  let token ← getOneToken
  if token ≠ .punctuator chRightParen then
    fatal (ascii "Expected ')' at end of directive argument!")
  else return directive

/-- The part of `parse_directive` behind the name of the directive. -/
def parseOptionalArguments (directive : DirectiveParseContext) :
    TracedM DirectiveParseContext := do
  let ch ← peekOneChar
  if ch = some chLeftParen then
    let _ ← getOneToken
    parseDirectiveArguments directive
  else return directive

def parseDirective : TracedM DirectiveParseContext := do
  let token ← getOneToken
  match token with
  | .directive name =>
      let context ← getContext
      setMode .none
      let directive ← parseOptionalArguments ⟨name, [], false⟩
      let token ← getOneToken
      if token ≠ .newline then fatal (ascii "Expected newline character after directive!")
      else
        setMode context.mode
        return directive
  | _ => fatal (ascii "Expected a directive!")

/-- The loop of `parse_requirement` over the characters of the content. -/
def parseContentLoop : Nat → Bytes → Byte → TracedM (Bytes × Byte)
  | 0, _, _ => fatal (ascii "The requirement's content of the test too long!")
  | room + 1, buffer, lastCh => do
      let token ← getOneToken
      if token = .eof then fatal (ascii "An unterminated test!")
      else if token.isDirective then
        ungetOneToken token
        return (buffer, lastCh)
      else parseContentLoop room (buffer ++ [token.ch]) token.ch

def parseRequirement : TracedM AstRequirement := do
  let directive ← parseDirective
  let token ← peekOneToken
  if token.isDirective then return ⟨directive.directive, directive.arguments, none⟩
  else
    let context ← getContext
    setMode .directiveAndText
    let (buffer, lastCh) ← parseContentLoop maxRequirementContentSize [] token.ch
    let len := if lastCh = chNewline then buffer.length - 1 else buffer.length
    setMode context.mode
    return ⟨directive.directive, directive.arguments, some (buffer.take len)⟩

/-- The loop of `parse_requirement_list`, one requirement a round. -/
def parseRequirementListLoop : Nat → List AstRequirement → TracedM (List AstRequirement)
  | room, requirements => do
      let token ← peekOneToken
      if token = .directive (ascii "endtest") then return requirements
      else
        match room with
        | 0 => fatal (ascii "Exceed max requirement for test!")
        | room + 1 =>
            let requirement ← parseRequirement
            parseRequirementListLoop room (requirements ++ [requirement])

def parseRequirementList : TracedM (List AstRequirement) := do
  let token ← getOneToken
  if token = .directive (ascii "endtest") then
    fatal (ascii "There is no any requirement provided for test!")
  else
    ungetOneToken token
    parseRequirementListLoop maxRequirementCount []

def parseTestProlog : TracedM (List AstArgument) := do
  let directive ← parseDirective
  if directive.directive ≠ ascii "test" then
    fatal (ascii "Expected test directive, but given '" ++ directive.directive ++ ascii "'!")
  else return directive.arguments

def parseTestEpilog : TracedM Unit := do
  let directive ← parseDirective
  if directive.directive ≠ ascii "endtest" then
    fatal (ascii "Expected endtest directive, but given '" ++ directive.directive ++ ascii "'!")
  else if directive.arguments ≠ [] then
    fatal (ascii "Unexpected arguments for the 'endtest' directive!")
  else return ()

def parseTest : TracedM AstTest := do
  let testArguments ← parseTestProlog
  setMode .directiveAndText
  let requirements ← parseRequirementList
  setMode .none
  parseTestEpilog
  return ⟨testArguments, requirements⟩

/-- The inner loop of `parse_test_suite`, over empty lines. -/
def skipNewlinesLoop : Nat → TracedM Token
  | 0 => throw .diverged
  | rounds + 1 => do
      let token ← getOneToken
      if token = .newline then skipNewlinesLoop rounds
      else
        ungetOneToken token
        return token

/-- The outer loop of `parse_test_suite`, over tests and empty lines. -/
def parseTestSuiteLoop : Nat → Token → List AstTest → TracedM (List AstTest)
  | 0, _, _ => throw .diverged
  | rounds + 1, token, tests =>
      if token = .eof then return tests
      else if token = .newline then do
        let context ← getContext
        let token ← skipNewlinesLoop (context.unread + 1)
        parseTestSuiteLoop rounds token tests
      else do
        let test ← parseTest
        let token ← peekOneToken
        parseTestSuiteLoop rounds token (tests ++ [test])

def parseTestSuiteM : TracedM (List AstTest) := do
  let token ← peekOneToken
  let context ← getContext
  parseTestSuiteLoop (context.unread + 1) token []

section Projections

/-- The two programs do the same to the tokenizer's context. -/
abbrev Follows {α : Type} (x : TracedM α) (y : TokM α) : Prop :=
  Projects TracedContext.context x y

/-- A recorded call does to the context what the call does. -/
theorem follows_record {α : Type} (call : α → Call) (x : TokM α) : Follows (record call x) x := by
  intro s
  unfold record
  cases x s.context <;> rfl

/-- To read the context is no call. -/
theorem follows_getContext : Follows getContext get :=
  fun _ => rfl

theorem follows_fatal {α : Type} (message : Bytes) :
    Follows (fatal message : TracedM α) (JCUnit.fatal message) :=
  Projects.throw _

/-- By induction on the rounds, which are the same on both sides. -/
theorem follows_skipWhitespacesLoop (rounds : Nat) (ch : Option Byte) :
    Follows (skipWhitespacesLoop rounds ch) (JCUnit.skipWhitespacesLoop rounds ch) := by
  induction rounds generalizing ch with
  | zero =>
      cases ch with
      | none => exact Projects.pure none
      | some b =>
          rw [skipWhitespacesLoop, JCUnit.skipWhitespacesLoop]
          split
          · exact Projects.throw _
          · exact Projects.pure _
  | succ rounds ih =>
      cases ch with
      | none => exact Projects.pure none
      | some b =>
          rw [skipWhitespacesLoop, JCUnit.skipWhitespacesLoop]
          split
          · exact (follows_record _ _).bind fun next => ih next
          · exact Projects.pure _

theorem follows_skipWhitespaces : Follows skipWhitespaces JCUnit.skipWhitespaces := by
  apply (follows_record _ _).bind
  intro ch
  apply follows_getContext.bind
  intro context
  apply (follows_skipWhitespacesLoop _ _).bind
  intro ch
  exact follows_record _ _

theorem follows_parseNamedDirectiveArgument (directive : DirectiveParseContext) :
    Follows (parseNamedDirectiveArgument directive)
      (JCUnit.parseNamedDirectiveArgument directive) := by
  apply (follows_record _ _).bind
  intro token
  apply (follows_record _ _).bind
  intro equals
  split
  · exact follows_fatal _
  · apply (follows_record _ _).bind
    intro value
    cases value with
    | string value => exact Projects.pure _
    | _ => exact follows_fatal _

theorem follows_parseDirectiveArgument (directive : DirectiveParseContext) :
    Follows (parseDirectiveArgument directive) (JCUnit.parseDirectiveArgument directive) := by
  apply (follows_record _ _).bind
  intro token
  cases token with
  | name text =>
      exact (follows_record _ _).bind fun _ => follows_parseNamedDirectiveArgument directive
  | string value =>
      dsimp only
      split
      · exact follows_fatal _
      · exact Projects.pure _
  | _ => exact follows_fatal _

theorem follows_parseDirectiveArgumentsLoop (rounds : Nat) (directive : DirectiveParseContext) :
    Follows (parseDirectiveArgumentsLoop rounds directive)
      (JCUnit.parseDirectiveArgumentsLoop rounds directive) := by
  induction rounds generalizing directive with
  | zero => exact Projects.throw _
  | succ rounds ih =>
      apply follows_skipWhitespaces.bind
      intro _
      apply (follows_record _ _).bind
      intro token
      split
      · exact Projects.pure _
      · apply (follows_parseDirectiveArgument directive).bind
        intro directive
        apply (follows_record _ _).bind
        intro token
        split
        · exact ih directive
        · exact (follows_record _ _).bind fun _ => Projects.pure _

theorem follows_parseDirectiveArguments (directive : DirectiveParseContext) :
    Follows (parseDirectiveArguments directive) (JCUnit.parseDirectiveArguments directive) := by
  apply follows_getContext.bind
  intro context
  apply (follows_parseDirectiveArgumentsLoop _ directive).bind
  intro directive
  apply (follows_record _ _).bind
  intro token
  split
  · exact follows_fatal _
  · exact Projects.pure _

theorem follows_parseOptionalArguments (directive : DirectiveParseContext) :
    Follows (parseOptionalArguments directive) (JCUnit.parseOptionalArguments directive) := by
  apply (follows_record _ _).bind
  intro ch
  split
  · exact (follows_record _ _).bind fun _ => follows_parseDirectiveArguments directive
  · exact Projects.pure _

/-- Both put the mode back that they have found. -/
theorem follows_parseDirective : Follows parseDirective JCUnit.parseDirective := by
  apply (follows_record _ _).bind
  intro token
  cases token with
  | directive name =>
      apply follows_getContext.bind
      intro context
      apply (follows_record _ _).bind
      intro _
      apply (follows_parseOptionalArguments _).bind
      intro directive
      apply (follows_record _ _).bind
      intro token
      split
      · exact follows_fatal _
      · exact (follows_record _ _).bind fun _ => Projects.pure _
  | _ => exact follows_fatal _

/-- By induction on the room that the content has left. -/
theorem follows_parseContentLoop (room : Nat) (buffer : Bytes) (lastCh : Byte) :
    Follows (parseContentLoop room buffer lastCh)
      (JCUnit.parseContentLoop room buffer lastCh) := by
  induction room generalizing buffer lastCh with
  | zero => exact follows_fatal _
  | succ room ih =>
      apply (follows_record _ _).bind
      intro token
      split
      · exact follows_fatal _
      · split
        · exact (follows_record _ _).bind fun _ => Projects.pure _
        · exact ih _ _

theorem follows_parseRequirement : Follows parseRequirement JCUnit.parseRequirement := by
  apply follows_parseDirective.bind
  intro directive
  apply (follows_record _ _).bind
  intro token
  dsimp only
  split
  · exact Projects.pure _
  · apply follows_getContext.bind
    intro context
    apply (follows_record _ _).bind
    intro _
    apply (follows_parseContentLoop _ _ _).bind
    intro content
    exact (follows_record _ _).bind fun _ => Projects.pure _

/-- By induction on the number of requirements that may still come. -/
theorem follows_parseRequirementListLoop (room : Nat) (requirements : List AstRequirement) :
    Follows (parseRequirementListLoop room requirements)
      (JCUnit.parseRequirementListLoop room requirements) := by
  induction room generalizing requirements with
  | zero =>
      rw [parseRequirementListLoop, JCUnit.parseRequirementListLoop]
      apply (follows_record _ _).bind
      intro token
      split
      · exact Projects.pure _
      · exact follows_fatal _
  | succ room ih =>
      rw [parseRequirementListLoop, JCUnit.parseRequirementListLoop]
      apply (follows_record _ _).bind
      intro token
      split
      · exact Projects.pure _
      · exact follows_parseRequirement.bind fun requirement => ih _

theorem follows_parseRequirementList :
    Follows parseRequirementList JCUnit.parseRequirementList := by
  apply (follows_record _ _).bind
  intro token
  split
  · exact follows_fatal _
  · exact (follows_record _ _).bind fun _ => follows_parseRequirementListLoop _ _

theorem follows_parseTestProlog : Follows parseTestProlog JCUnit.parseTestProlog := by
  apply follows_parseDirective.bind
  intro directive
  split
  · exact follows_fatal _
  · exact Projects.pure _

theorem follows_parseTestEpilog : Follows parseTestEpilog JCUnit.parseTestEpilog := by
  apply follows_parseDirective.bind
  intro directive
  split
  · exact follows_fatal _
  · split
    · exact follows_fatal _
    · exact Projects.pure _

/-- A test is projected function by function, from its prolog to its epilog. -/
theorem follows_parseTest : Follows parseTest JCUnit.parseTest := by
  apply follows_parseTestProlog.bind
  intro testArguments
  apply (follows_record _ _).bind
  intro _
  apply follows_parseRequirementList.bind
  intro requirements
  apply (follows_record _ _).bind
  intro _
  exact follows_parseTestEpilog.bind fun _ => Projects.pure _

theorem follows_skipNewlinesLoop (rounds : Nat) :
    Follows (skipNewlinesLoop rounds) (JCUnit.skipNewlinesLoop rounds) := by
  induction rounds with
  | zero => exact Projects.throw _
  | succ rounds ih =>
      apply (follows_record _ _).bind
      intro token
      split
      · exact ih
      · exact (follows_record _ _).bind fun _ => Projects.pure _

/-- By induction on the rounds; the bound of the inner loop is read from the context both share. -/
theorem follows_parseTestSuiteLoop (rounds : Nat) (token : Token) (tests : List AstTest) :
    Follows (parseTestSuiteLoop rounds token tests)
      (JCUnit.parseTestSuiteLoop rounds token tests) := by
  induction rounds generalizing token tests with
  | zero => exact Projects.throw _
  | succ rounds ih =>
      rw [parseTestSuiteLoop, JCUnit.parseTestSuiteLoop]
      split
      · exact Projects.pure _
      · split
        · apply follows_getContext.bind
          intro context
          exact (follows_skipNewlinesLoop _).bind fun token => ih token tests
        · apply follows_parseTest.bind
          intro test
          exact (follows_record _ _).bind fun token => ih token _

/-- The recording parser is the parser. -/
theorem follows_parseTestSuiteM : Follows parseTestSuiteM JCUnit.parseTestSuiteM := by
  apply (follows_record _ _).bind
  intro token
  apply follows_getContext.bind
  intro context
  exact follows_parseTestSuiteLoop _ _ _

end Projections

end Traced

/-- The tokenizer calls that `parse_test_suite` makes on a freshly opened file and that return,
also where the parser gives up on the file later. -/
def parserCalls (source : Bytes) : List CallRecord :=
  match Traced.parseTestSuiteM ⟨initTokenizerContext source, []⟩ with
  | .ok _ s => s.calls
  | .error _ s => s.calls

end JCUnit
