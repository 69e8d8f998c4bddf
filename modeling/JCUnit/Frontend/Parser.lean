import JCUnit.Frontend.Tokenizer

/-!
# The parser

Recursive descent over the tokenizer's context. A loop whose rounds are not
counted by a limit of the source is given as many rounds as there are bytes and
tokens left to deliver, and one more. It ends in `diverged` if that is not enough.
-/

namespace JCUnit

structure AstArgument where
  name : Option Bytes
  value : Bytes
deriving DecidableEq

structure AstRequirement where
  name : Bytes
  arguments : List AstArgument
  content : Option Bytes
deriving DecidableEq

structure AstTest where
  arguments : List AstArgument
  requirements : List AstRequirement
deriving DecidableEq

structure DirectiveParseContext where
  directive : Bytes
  arguments : List AstArgument
  hasUnnamedArgument : Bool
deriving DecidableEq

def maxRequirementContentSize : Nat := 8192
def maxRequirementCount : Nat := 4

def skipWhitespacesLoop : Nat → Option Byte → TokM (Option Byte)
  | rounds, some ch =>
      if isWhitespaceChar ch then
        match rounds with
        | 0 => throw .diverged
        | rounds + 1 => do
            let next ← getOneChar
            skipWhitespacesLoop rounds next
      else return some ch
  | _, none => return none

def skipWhitespaces : TokM Unit := do
  let ch ← getOneChar
  let context ← get
  let ch ← skipWhitespacesLoop (context.unread + 1) ch
  ungetOneChar ch

def parseNamedDirectiveArgument (directive : DirectiveParseContext) : TokM DirectiveParseContext := do
  let token ← getOneToken
  let name := token.text
  let token ← getOneToken
  if token ≠ .punctuator chEquals then fatal (ascii "Expected '=' after name of argument!")
  else
    let token ← getOneToken
    match token with
    | .string value =>
        return { directive with arguments := directive.arguments ++ [⟨some name, value⟩] }
    | _ => fatal (ascii "Expected value of the named argument as a string!")

def parseDirectiveArgument (directive : DirectiveParseContext) : TokM DirectiveParseContext := do
  let token ← getOneToken
  match token with
  | .name _ =>
      ungetOneToken token
      parseNamedDirectiveArgument directive
  | .string value =>
      if directive.hasUnnamedArgument then
        fatal (ascii "A directive cannot have two unnamed arguments!")
      else
        return { directive with
          arguments := directive.arguments ++ [⟨none, value⟩]
          hasUnnamedArgument := true }
  | _ => fatal (ascii "An unnamed argument of a directive should be a string!")

def parseDirectiveArgumentsLoop : Nat → DirectiveParseContext → TokM DirectiveParseContext
  | 0, _ => throw .diverged
  | rounds + 1, directive => do
      skipWhitespaces
      let token ← peekOneToken
      if token = .punctuator chRightParen then return directive
      else
        let directive ← parseDirectiveArgument directive
        let token ← getOneToken
        if token = .punctuator chComma then parseDirectiveArgumentsLoop rounds directive
        else
          ungetOneToken token
          return directive

def parseDirectiveArguments (directive : DirectiveParseContext) : TokM DirectiveParseContext := do
  let context ← get
  let directive ← parseDirectiveArgumentsLoop (context.unread + 1) directive
  let token ← getOneToken
  if token ≠ .punctuator chRightParen then
    fatal (ascii "Expected ')' at end of directive argument!")
  else return directive

/-- The arguments of a directive, which are read only behind a parenthesis. -/
def parseOptionalArguments (directive : DirectiveParseContext) : TokM DirectiveParseContext := do
  let ch ← peekOneChar
  if ch = some chLeftParen then
    let _ ← getOneToken
    parseDirectiveArguments directive
  else return directive

def parseDirective : TokM DirectiveParseContext := do
  let token ← getOneToken
  match token with
  | .directive name =>
      let context ← get
      setMode .none
      let directive ← parseOptionalArguments ⟨name, [], false⟩
      let token ← getOneToken
      if token ≠ .newline then fatal (ascii "Expected newline character after directive!")
      else
        setMode context.mode
        return directive
  | _ => fatal (ascii "Expected a directive!")

/-- The content loop of `parse_requirement`, with room for `room` more bytes in the buffer. -/
def parseContentLoop : Nat → Bytes → Byte → TokM (Bytes × Byte)
  | 0, _, _ => fatal (ascii "The requirement's content of the test too long!")
  | room + 1, buffer, lastCh => do
      let token ← getOneToken
      if token = .eof then fatal (ascii "An unterminated test!")
      else if token.isDirective then
        ungetOneToken token
        return (buffer, lastCh)
      else parseContentLoop room (buffer ++ [token.ch]) token.ch

def parseRequirement : TokM AstRequirement := do
  let directive ← parseDirective
  let token ← peekOneToken
  if token.isDirective then return ⟨directive.directive, directive.arguments, none⟩
  else
    let context ← get
    setMode .directiveAndText
    let (buffer, lastCh) ← parseContentLoop maxRequirementContentSize [] token.ch
    let len := if lastCh = chNewline then buffer.length - 1 else buffer.length
    setMode context.mode
    return ⟨directive.directive, directive.arguments, some (buffer.take len)⟩

def parseRequirementListLoop : Nat → List AstRequirement → TokM (List AstRequirement)
  | room, requirements => do
      let token ← peekOneToken
      if token = .directive (ascii "endtest") then return requirements
      else
        match room with
        | 0 => fatal (ascii "Exceed max requirement for test!")
        | room + 1 =>
            let requirement ← parseRequirement
            parseRequirementListLoop room (requirements ++ [requirement])

def parseRequirementList : TokM (List AstRequirement) := do
  let token ← getOneToken
  if token = .directive (ascii "endtest") then
    fatal (ascii "There is no any requirement provided for test!")
  else
    ungetOneToken token
    parseRequirementListLoop maxRequirementCount []

def parseTestProlog : TokM (List AstArgument) := do
  let directive ← parseDirective
  if directive.directive ≠ ascii "test" then
    fatal (ascii "Expected test directive, but given '" ++ directive.directive ++ ascii "'!")
  else return directive.arguments

def parseTestEpilog : TokM Unit := do
  let directive ← parseDirective
  if directive.directive ≠ ascii "endtest" then
    fatal (ascii "Expected endtest directive, but given '" ++ directive.directive ++ ascii "'!")
  else if directive.arguments ≠ [] then
    fatal (ascii "Unexpected arguments for the 'endtest' directive!")
  else return ()

def parseTest : TokM AstTest := do
  let testArguments ← parseTestProlog
  setMode .directiveAndText
  let requirements ← parseRequirementList
  setMode .none
  parseTestEpilog
  return ⟨testArguments, requirements⟩

/-- Skip the newlines between tests, up to a token that is none. -/
def skipNewlinesLoop : Nat → TokM Token
  | 0 => throw .diverged
  | rounds + 1 => do
      let token ← getOneToken
      if token = .newline then skipNewlinesLoop rounds
      else
        ungetOneToken token
        return token

def parseTestSuiteLoop : Nat → Token → List AstTest → TokM (List AstTest)
  | 0, _, _ => throw .diverged
  | rounds + 1, token, tests =>
      if token = .eof then return tests
      else if token = .newline then do
        let context ← get
        let token ← skipNewlinesLoop (context.unread + 1)
        parseTestSuiteLoop rounds token tests
      else do
        let test ← parseTest
        let token ← peekOneToken
        parseTestSuiteLoop rounds token (tests ++ [test])

def parseTestSuiteM : TokM (List AstTest) := do
  let token ← peekOneToken
  let context ← get
  parseTestSuiteLoop (context.unread + 1) token []

/-- `parse_test_suite` on a freshly opened file. -/
def parseTestSuite (source : Bytes) : Except Halt (List AstTest) :=
  match parseTestSuiteM (initTokenizerContext source) with
  | .ok tests _ => .ok tests
  | .error halt _ => .error halt

example : parseTestSuite (ascii "@test(\"a\")\n@given(\"file\")\nx@@y\n\n@endtest\n") =
    .ok [⟨[⟨none, ascii "a"⟩], [⟨ascii "given", [⟨none, ascii "file"⟩], some (ascii "x@y\n")⟩]⟩] := by
  decide +kernel

end JCUnit
