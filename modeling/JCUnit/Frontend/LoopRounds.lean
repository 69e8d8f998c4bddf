import JCUnit.Foundation.Iteration
import JCUnit.Frontend.Parser

/-!
# The loops of the front end, round by round

One round of each loop of the tokenizer and the parser: the test of its limit, what it reads
and whether it goes on. Each loop is its round over and over, for as long as it wants to.
-/

namespace JCUnit

open StateError Iteration

/-- A round of `get_one_name`, from the byte to store. -/
def nameRound (loop : Bytes × Byte) : TokM (Bytes × Byte ⊕ Bytes × Option Byte) := do
  let buffer := loop.1 ++ [loop.2]
  if buffer.length ≥ maxNameLen then
    fatal (ascii "Too long name '" ++ buffer ++ ascii "' exceed 256 characters!")
  else
    let next ← getOneChar
    match next with
    | some b => if isNameChar b then return .inl (buffer, b) else return .inr (buffer, next)
    | none => return .inr (buffer, next)

/-- A round of `get_one_string`, from the character just read. -/
def stringRound (loop : Bytes × Option Byte) : TokM (Bytes × Option Byte ⊕ Bytes) := do
  if loop.1.length ≥ maxStringLen then fatal (ascii "Too long string!")
  else
    match loop.2 with
    | none => fatal (ascii "Unterminated string!")
    | some ch =>
        if ch = chQuote then return .inr loop.1
        else if ch = chNewline then fatal (ascii "Newline inside the string!")
        else
          let next ← getOneChar
          return .inl (loop.1 ++ [ch], next)

/-- A round of `skip_whitespaces`, from the character just read. -/
def whitespaceRound : Option Byte → TokM (Option Byte ⊕ Option Byte)
  | some ch =>
      if isWhitespaceChar ch then do
        let next ← getOneChar
        return .inl next
      else return .inr (some ch)
  | none => return .inr none

/-- A round of `parse_directive_arguments`. -/
def argumentRound (directive : DirectiveParseContext) :
    TokM (DirectiveParseContext ⊕ DirectiveParseContext) := do
  skipWhitespaces
  let token ← peekOneToken
  if token = .punctuator chRightParen then return .inr directive
  else
    let directive ← parseDirectiveArgument directive
    let token ← getOneToken
    if token = .punctuator chComma then return .inl directive
    else
      ungetOneToken token
      return .inr directive

/-- A round of the content loop of `parse_requirement`. -/
def contentRound (loop : Bytes × Byte) : TokM (Bytes × Byte ⊕ Bytes × Byte) := do
  if loop.1.length ≥ maxRequirementContentSize then
    fatal (ascii "The requirement's content of the test too long!")
  else
    let token ← getOneToken
    if token = .eof then fatal (ascii "An unterminated test!")
    else if token.isDirective then
      ungetOneToken token
      return .inr loop
    else return .inl (loop.1 ++ [token.ch], token.ch)

/-- A round of `parse_requirement_list`. -/
def requirementRound (requirements : List AstRequirement) :
    TokM (List AstRequirement ⊕ List AstRequirement) := do
  let token ← peekOneToken
  if token = .directive (ascii "endtest") then return .inr requirements
  else if requirements.length ≥ maxRequirementCount then
    fatal (ascii "Exceed max requirement for test!")
  else
    let requirement ← parseRequirement
    return .inl (requirements ++ [requirement])

/-- A round of the newline skipping in `parse_test_suite`. -/
def newlineRound (_ : Unit) : TokM (Unit ⊕ Token) := do
  let token ← getOneToken
  if token = .newline then return .inl ()
  else
    ungetOneToken token
    return .inr token

/-- A round of `parse_test_suite`, with the token that it has looked at. -/
def testRound (loop : Token × List AstTest) : TokM (Token × List AstTest ⊕ List AstTest) := do
  if loop.1 = .eof then return .inr loop.2
  else if loop.1 = .newline then
    let context ← get
    let token ← skipNewlinesLoop (context.unread + 1)
    return .inl (token, loop.2)
  else
    let test ← parseTest
    let token ← peekOneToken
    return .inl (token, loop.2 ++ [test])

section Unfolding

theorem getOneNameLoop_eq {room : Nat} {buffer : Bytes} (h : buffer.length + room + 1 = maxNameLen)
    (ch : Byte) :
    getOneNameLoop room buffer ch = iterate .diverged nameRound (room + 1) (buffer, ch) := by
  induction room generalizing buffer ch with
  | zero =>
      have hfull : (buffer ++ [ch]).length ≥ maxNameLen := by
        rw [List.length_append, List.length_singleton]
        omega
      rw [iterate, nameRound, if_pos hfull]
      rfl
  | succ room ih =>
      have hroom : ¬ (buffer ++ [ch]).length ≥ maxNameLen := by
        rw [List.length_append, List.length_singleton]
        omega
      rw [getOneNameLoop, iterate, nameRound, if_neg hroom, bind_assoc]
      congr 1
      funext next
      cases next with
      | none => rfl
      | some b =>
          dsimp only
          split
          · rw [ih (by rw [List.length_append, List.length_singleton]; omega)]
            rfl
          · rfl

theorem getOneStringLoop_eq {room : Nat} {buffer : Bytes} (h : buffer.length + room = maxStringLen)
    (ch : Option Byte) :
    getOneStringLoop room buffer ch = iterate .diverged stringRound (room + 1) (buffer, ch) := by
  induction room generalizing buffer ch with
  | zero =>
      have hfull : buffer.length ≥ maxStringLen := Nat.le_of_eq h.symm
      rw [iterate, stringRound, if_pos hfull]
      rfl
  | succ room ih =>
      have hroom : ¬ buffer.length ≥ maxStringLen := by omega
      rw [iterate, stringRound, if_neg hroom]
      cases ch with
      | none => rfl
      | some ch =>
          rw [getOneStringLoop]
          dsimp only
          split
          · rfl
          split
          · rfl
          · rw [bind_assoc]
            congr 1
            funext next
            rw [ih (by rw [List.length_append, List.length_singleton]; omega)]
            rfl

theorem parseDirectiveArgumentsLoop_eq (rounds : Nat) (directive : DirectiveParseContext) :
    parseDirectiveArgumentsLoop rounds directive =
      iterate .diverged argumentRound rounds directive := by
  induction rounds generalizing directive with
  | zero => rfl
  | succ rounds ih =>
      rw [parseDirectiveArgumentsLoop, iterate, argumentRound, bind_assoc]
      congr 1
      funext _
      rw [bind_assoc]
      congr 1
      funext token
      split
      · rfl
      · rw [bind_assoc]
        congr 1
        funext directive'
        rw [bind_assoc]
        congr 1
        funext token'
        split
        · exact ih directive'
        · rw [bind_assoc]
          rfl

theorem parseContentLoop_eq {room : Nat} {buffer : Bytes}
    (h : buffer.length + room = maxRequirementContentSize) (lastCh : Byte) :
    parseContentLoop room buffer lastCh =
      iterate .diverged contentRound (room + 1) (buffer, lastCh) := by
  induction room generalizing buffer lastCh with
  | zero =>
      have hfull : buffer.length ≥ maxRequirementContentSize := Nat.le_of_eq h.symm
      rw [iterate, contentRound, if_pos hfull]
      rfl
  | succ room ih =>
      have hroom : ¬ buffer.length ≥ maxRequirementContentSize := by omega
      rw [parseContentLoop, iterate, contentRound, if_neg hroom, bind_assoc]
      congr 1
      funext token
      split
      · rfl
      split
      · rw [bind_assoc]
        rfl
      · rw [ih (by rw [List.length_append, List.length_singleton]; omega)]
        rfl

theorem parseRequirementListLoop_eq {room : Nat} {requirements : List AstRequirement}
    (h : requirements.length + room = maxRequirementCount) :
    parseRequirementListLoop room requirements =
      iterate .diverged requirementRound (room + 1) requirements := by
  induction room generalizing requirements with
  | zero =>
      have hfull : requirements.length ≥ maxRequirementCount := Nat.le_of_eq h.symm
      rw [parseRequirementListLoop, iterate, requirementRound, bind_assoc]
      congr 1
      funext token
      split
      · rfl
      · rfl
  | succ room ih =>
      have hroom : ¬ requirements.length ≥ maxRequirementCount := by omega
      rw [parseRequirementListLoop, iterate, requirementRound, bind_assoc]
      congr 1
      funext token
      split
      · rfl
      · rw [bind_assoc]
        congr 1
        funext requirement
        rw [ih (by rw [List.length_append, List.length_singleton]; omega)]
        rfl

theorem skipNewlinesLoop_eq (rounds : Nat) :
    skipNewlinesLoop rounds = iterate .diverged newlineRound rounds () := by
  induction rounds with
  | zero => rfl
  | succ rounds ih =>
      rw [skipNewlinesLoop, iterate, newlineRound, bind_assoc]
      congr 1
      funext token
      split
      · exact ih
      · rw [bind_assoc]
        rfl

theorem parseTestSuiteLoop_eq (rounds : Nat) (token : Token) (tests : List AstTest) :
    parseTestSuiteLoop rounds token tests = iterate .diverged testRound rounds (token, tests) := by
  induction rounds generalizing token tests with
  | zero => rfl
  | succ rounds ih =>
      rw [parseTestSuiteLoop, iterate, testRound]
      split
      · rfl
      split
      · rw [bind_assoc]
        congr 1
        funext context
        rw [bind_assoc]
        congr 1
        funext token'
        exact ih token' tests
      · rw [bind_assoc]
        congr 1
        funext test
        rw [bind_assoc]
        congr 1
        funext token'
        exact ih token' (tests ++ [test])

end Unfolding

end JCUnit
