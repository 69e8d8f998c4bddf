import JCUnit.Foundation.Mirroring
import JCUnit.Frontend.LinkedTree

/-!
# The parser over linked lists

The functions of `parse.c` as they build the tests in memory. A `struct directive_parse_context`
has a pointer to the variable for the name of the directive, and the end pointer of the list for
its arguments. From every memory, the parser stops where the parser over lists of the model stops
and in the same error, or the memory holds the tests that this parser gives.
-/

namespace JCUnit

open Mirroring LinkedChain StateError

abbrev LinkM := EStateM Halt (TokenizerContext × AstMemory)

namespace Linked

structure DirectiveParseContext where
  directive : DirectiveTarget
  argumentsEnd : AstNode
  hasUnnamedArgument : Bool
deriving DecidableEq

section Functions

def fatal {α : Type} (message : Bytes) : LinkM α :=
  throw (fatalError message)

/-- An argument at the end of the list, and the end pointer behind it. -/
def appendArgument (directive : DirectiveParseContext) (name : Option Bytes) (value : Bytes) :
    LinkM DirectiveParseContext := do
  let argumentsEnd ← onMemory fun memory =>
    memory.appendArgument directive.argumentsEnd ⟨name, value⟩
  return { directive with argumentsEnd }

def parseNamedDirectiveArgument (directive : DirectiveParseContext) :
    LinkM DirectiveParseContext := do
  let token ← onState getOneToken
  let name := token.text
  let token ← onState getOneToken
  if token ≠ .punctuator chEquals then fatal (ascii "Expected '=' after name of argument!")
  else
    let token ← onState getOneToken
    match token with
    | .string value => appendArgument directive (some name) value
    | _ => fatal (ascii "Expected value of the named argument as a string!")

def parseDirectiveArgument (directive : DirectiveParseContext) : LinkM DirectiveParseContext := do
  let token ← onState getOneToken
  match token with
  | .name _ =>
      onState (ungetOneToken token)
      parseNamedDirectiveArgument directive
  | .string value =>
      if directive.hasUnnamedArgument then
        fatal (ascii "A directive cannot have two unnamed arguments!")
      else
        let directive ← appendArgument directive none value
        return { directive with hasUnnamedArgument := true }
  | _ => fatal (ascii "An unnamed argument of a directive should be a string!")

def parseDirectiveArgumentsLoop : Nat → DirectiveParseContext → LinkM DirectiveParseContext
  | 0, _ => throw .diverged
  | rounds + 1, directive => do
      onState skipWhitespaces
      let token ← onState peekOneToken
      if token = .punctuator chRightParen then return directive
      else
        let directive ← parseDirectiveArgument directive
        let token ← onState getOneToken
        if token = .punctuator chComma then parseDirectiveArgumentsLoop rounds directive
        else
          onState (ungetOneToken token)
          return directive

def parseDirectiveArguments (directive : DirectiveParseContext) :
    LinkM DirectiveParseContext := do
  let context ← onState get
  let directive ← parseDirectiveArgumentsLoop (context.unread + 1) directive
  let token ← onState getOneToken
  if token ≠ .punctuator chRightParen then
    fatal (ascii "Expected ')' at end of directive argument!")
  else return directive

def parseOptionalArguments (directive : DirectiveParseContext) : LinkM DirectiveParseContext := do
  let ch ← onState peekOneChar
  if ch = some chLeftParen then
    let _ ← onState getOneToken
    parseDirectiveArguments directive
  else return directive

def parseDirective (directive : DirectiveParseContext) : LinkM DirectiveParseContext := do
  let token ← onState getOneToken
  match token with
  | .directive name =>
      onMemory fun memory => memory.setDirective directive.directive name
      let context ← onState get
      onState (setMode .none)
      let directive ← parseOptionalArguments directive
      let token ← onState getOneToken
      if token ≠ .newline then fatal (ascii "Expected newline character after directive!")
      else
        onState (setMode context.mode)
        return directive
  | _ => fatal (ascii "Expected a directive!")

def parseRequirement (requirement : Nat) : LinkM Unit := do
  let _ ← parseDirective
    ⟨.requirementName requirement, .requirementArguments requirement, false⟩
  let token ← onState peekOneToken
  if token.isDirective then return ()
  else
    let context ← onState get
    onState (setMode .directiveAndText)
    let (buffer, lastCh) ← onState (parseContentLoop maxRequirementContentSize [] token.ch)
    let len := if lastCh = chNewline then buffer.length - 1 else buffer.length
    onState (setMode context.mode)
    onMemory fun memory => memory.setContent requirement (buffer.take len)

def parseRequirementListLoop : Nat → AstNode → LinkM Unit
  | room, requirementsEnd => do
      let token ← onState peekOneToken
      if token = .directive (ascii "endtest") then return ()
      else
        match room with
        | 0 => fatal (ascii "Exceed max requirement for test!")
        | room + 1 =>
            let requirement ← onMemory AstMemory.makeAstRequirement
            parseRequirement requirement
            let requirementsEnd ← onMemory fun memory =>
              memory.append requirementsEnd (.requirement requirement)
            parseRequirementListLoop room requirementsEnd

/-- `slist_get_end`, over a memory that has no more nodes than it has requirements. -/
def getRequirementsEnd (test : Nat) : LinkM AstNode := do
  let memory ← onMemory fun memory => (memory, memory)
  match slistGetEnd memory.next memory.requirements (.testRequirements test) with
  | .ok requirementsEnd => return requirementsEnd
  | .error halt => throw halt

def parseRequirementList (test : Nat) : LinkM Unit := do
  let token ← onState getOneToken
  if token = .directive (ascii "endtest") then
    fatal (ascii "There is no any requirement provided for test!")
  else
    onState (ungetOneToken token)
    let requirementsEnd ← getRequirementsEnd test
    parseRequirementListLoop maxRequirementCount requirementsEnd

def parseTestProlog (test : Nat) : LinkM Unit := do
  onMemory AstMemory.unsetDirective
  let _ ← parseDirective ⟨.localVariable, .testArguments test, false⟩
  let directive ← onMemory fun memory => (memory.directive, memory)
  match directive with
  | none => throw .undefined
  | some directive =>
      if directive ≠ ascii "test" then
        fatal (ascii "Expected test directive, but given '" ++ directive ++ ascii "'!")
      else return ()

def parseTestEpilog : LinkM Unit := do
  onMemory AstMemory.unsetDirective
  onMemory fun memory => ((), { memory with next := slistInit memory.next .epilogArguments })
  let _ ← parseDirective ⟨.localVariable, .epilogArguments, false⟩
  let memory ← onMemory fun memory => (memory, memory)
  match memory.directive with
  | none => throw .undefined
  | some directive =>
      if directive ≠ ascii "endtest" then
        fatal (ascii "Expected endtest directive, but given '" ++ directive ++ ascii "'!")
      else if !slistIsEmpty memory.next .epilogArguments then
        fatal (ascii "Unexpected arguments for the 'endtest' directive!")
      else return ()

def parseTest : LinkM Nat := do
  let test ← onMemory AstMemory.makeAstTest
  parseTestProlog test
  onState (setMode .directiveAndText)
  parseRequirementList test
  onState (setMode .none)
  parseTestEpilog
  return test

def parseTestSuiteLoop : Nat → Token → AstNode → LinkM Unit
  | 0, _, _ => throw .diverged
  | rounds + 1, token, testsEnd =>
      if token = .eof then return ()
      else if token = .newline then do
        let context ← onState get
        let token ← onState (skipNewlinesLoop (context.unread + 1))
        parseTestSuiteLoop rounds token testsEnd
      else do
        let test ← parseTest
        let testsEnd ← onMemory fun memory => memory.append testsEnd (.test test)
        let token ← onState peekOneToken
        parseTestSuiteLoop rounds token testsEnd

def parseTestSuiteM : LinkM Nat := do
  let suite ← onMemory AstMemory.makeSlist
  let token ← onState peekOneToken
  let context ← onState get
  parseTestSuiteLoop (context.unread + 1) token (.tests suite)
  return suite

/-- `parse_test_suite` on a freshly opened file: the list of its tests, and the memory. -/
def parseTestSuite (memory : AstMemory) (source : Bytes) : Except Halt (Nat × AstMemory) :=
  match parseTestSuiteM (initTokenizerContext source, memory) with
  | .ok suite (_, memory) => .ok (suite, memory)
  | .error halt _ => .error halt

end Functions

section Arguments

variable {M : AstMemory → Prop} {m₀ m : AstMemory} {head : AstNode} {target : DirectiveTarget}
  {linked : DirectiveParseContext} {plain : JCUnit.DirectiveParseContext}

/-- The directive that is parsed has its name and, in the list at the head, its arguments. -/
structure Filling (m₀ : AstMemory) (head : AstNode) (target : DirectiveTarget)
    (linked : DirectiveParseContext) (plain : JCUnit.DirectiveParseContext) (m : AstMemory) :
    Prop where
  listing : Listing argumentKind m₀ head linked.argumentsEnd plain.arguments m
  name : m.directiveAt target = some plain.directive
  hasUnnamedArgument : linked.hasUnnamedArgument = plain.hasUnnamedArgument

theorem Filling.appendArgument (h : Filling m₀ head target linked plain m)
    (hhead : ∀ i, AstNode.argument i ≠ head) (hlevel : head.level = 0) (argument : AstArgument) :
    Filling m₀ head target
      { linked with argumentsEnd := (m.appendArgument linked.argumentsEnd argument).1 }
      { plain with arguments := plain.arguments ++ [argument] }
      (m.appendArgument linked.argumentsEnd argument).2 where
  listing := by
    apply h.listing.append (m.grows_makeArgument argument) rfl hhead hlevel
    exact ⟨Nat.lt_succ_self _, Function.update_self _ _ _⟩
  name := by
    rw [← h.name]
    cases target with
    | requirementName i => rfl
    | localVariable => rfl
  hasUnnamedArgument := h.hasUnnamedArgument

theorem Filling.foundUnnamed (h : Filling m₀ head target linked plain m) :
    Filling m₀ head target { linked with hasUnnamedArgument := true }
      { plain with hasUnnamedArgument := true } m :=
  ⟨h.listing, h.name, rfl⟩

theorem fatal_mirrors {α β : Type} {N : α → β → AstMemory → Prop} (message : Bytes) :
    Mirrors M (fatal message) (JCUnit.fatal message) N :=
  .throw _

variable (hhead : ∀ i, AstNode.argument i ≠ head) (hlevel : head.level = 0)
include hhead hlevel

theorem appendArgument_mirrors (name : Option Bytes) (value : Bytes) :
    Mirrors (Filling m₀ head target linked plain) (appendArgument linked name value)
      (pure { plain with arguments := plain.arguments ++ [⟨name, value⟩] })
      (Filling m₀ head target) := by
  apply Mirrors.of_each
  intro m h
  apply Mirrors.onMemory_bind_of_eq
  apply Mirrors.pure
  rintro _ rfl
  exact h.appendArgument hhead hlevel ⟨name, value⟩

theorem parseNamedDirectiveArgument_mirrors :
    Mirrors (Filling m₀ head target linked plain) (parseNamedDirectiveArgument linked)
      (JCUnit.parseNamedDirectiveArgument plain) (Filling m₀ head target) := by
  apply Mirrors.onState_bind
  intro nameToken
  apply Mirrors.onState_bind
  intro token
  split
  · exact fatal_mirrors _
  · apply Mirrors.onState_bind
    intro token
    cases token with
    | string value => exact appendArgument_mirrors hhead hlevel _ value
    | _ => exact fatal_mirrors _

theorem parseDirectiveArgument_mirrors :
    Mirrors (Filling m₀ head target linked plain) (parseDirectiveArgument linked)
      (JCUnit.parseDirectiveArgument plain) (Filling m₀ head target) := by
  apply Mirrors.onState_bind
  intro token
  cases token with
  | name text =>
      apply Mirrors.onState_bind
      intro _
      exact parseNamedDirectiveArgument_mirrors hhead hlevel
  | string value =>
      apply Mirrors.of_each
      intro m h
      dsimp only
      rw [h.hasUnnamedArgument]
      split
      · exact fatal_mirrors _
      · unfold appendArgument
        rw [bind_assoc]
        apply Mirrors.onMemory_bind_of_eq
        apply Mirrors.pure
        rintro _ rfl
        exact (h.appendArgument hhead hlevel ⟨none, value⟩).foundUnnamed
  | _ => exact fatal_mirrors _

theorem parseDirectiveArgumentsLoop_mirrors (rounds : Nat) :
    Mirrors (Filling m₀ head target linked plain) (parseDirectiveArgumentsLoop rounds linked)
      (JCUnit.parseDirectiveArgumentsLoop rounds plain) (Filling m₀ head target) := by
  induction rounds generalizing linked plain with
  | zero => exact .throw _
  | succ rounds ih =>
      apply Mirrors.onState_bind
      intro _
      apply Mirrors.onState_bind
      intro token
      split
      · exact .pure fun m h => h
      · apply (parseDirectiveArgument_mirrors hhead hlevel).bind
        intro linked plain
        apply Mirrors.onState_bind
        intro token
        split
        · exact ih
        · apply Mirrors.onState_bind
          intro _
          exact .pure fun m h => h

theorem parseOptionalArguments_mirrors :
    Mirrors (Filling m₀ head target linked plain) (parseOptionalArguments linked)
      (JCUnit.parseOptionalArguments plain) (Filling m₀ head target) := by
  apply Mirrors.onState_bind
  intro ch
  split
  · apply Mirrors.onState_bind
    intro _
    apply Mirrors.onState_bind
    intro context
    apply (parseDirectiveArgumentsLoop_mirrors hhead hlevel _).bind
    intro linked plain
    apply Mirrors.onState_bind
    intro token
    split
    · exact fatal_mirrors _
    · exact .pure fun m h => h
  · exact .pure fun m h => h

/-- From an empty list on, the arguments of a directive go into the list. -/
theorem parseDirective_mirrors (hempty : m₀.next head = head)
    (htarget : ∀ i, target = .requirementName i → head = .requirementArguments i) :
    Mirrors (m₀ = ·) (parseDirective ⟨target, head, false⟩) JCUnit.parseDirective
      (Filling m₀ head target) := by
  apply Mirrors.onState_bind
  intro token
  cases token with
  | directive name =>
      apply Mirrors.onMemory_bind_of_eq
      apply Mirrors.onState_bind
      intro context
      apply Mirrors.onState_bind
      intro _
      have hstart : Filling m₀ head target ⟨target, head, false⟩ ⟨name, [], false⟩
          (m₀.setDirective target name).2 := by
        refine ⟨⟨(AstMemory.Grows.refl _ m₀).setDirective ?_ name, .of_self ?_⟩,
          m₀.directiveAt_setDirective target name, rfl⟩
        · intro i hi
          exact (htarget i hi).symm
        · rw [m₀.setDirective_next]
          exact hempty
      apply ((parseOptionalArguments_mirrors hhead hlevel).started hstart).bind
      intro linked plain
      apply Mirrors.onState_bind
      intro token
      split
      · exact fatal_mirrors _
      · apply Mirrors.onState_bind
        intro _
        exact .pure fun m h => h
  | _ => exact fatal_mirrors _

end Arguments

section Requirements

variable {m₀ m : AstMemory} {linked : DirectiveParseContext} {plain : JCUnit.DirectiveParseContext}

/-- The directive in a new record is a requirement without content. -/
theorem Filling.holdsRequirement
    (h : Filling m₀.makeAstRequirement.2 (.requirementArguments m₀.requirements)
      (.requirementName m₀.requirements) linked plain m) :
    HoldsRequirement m m₀.requirements ⟨plain.directive, plain.arguments, none⟩ where
  allocated := lt_of_lt_of_le (Nat.lt_succ_self _) h.listing.grows.requirements
  name := h.name
  content := by
    rw [h.listing.grows.requirementContent _ (Nat.lt_succ_self _)]
    exact Function.update_self _ _ _
  arguments := h.listing.isList

theorem Filling.grows_requirement
    (h : Filling m₀.makeAstRequirement.2 (.requirementArguments m₀.requirements)
      (.requirementName m₀.requirements) linked plain m) : m₀.Grows Nowhere m := by
  apply (AstMemory.grows_makeAstRequirement m₀).trans h.listing.grows
  rintro node hnode rfl
  exact absurd hnode (Nat.lt_irrefl _)

/-- A new record becomes the requirement, and nothing else changes. -/
theorem parseRequirement_mirrors (m₀ : AstMemory) :
    Mirrors (m₀.makeAstRequirement.2 = ·) (parseRequirement m₀.requirements)
      JCUnit.parseRequirement
      (fun _ requirement m => m₀.Grows Nowhere m ∧ HoldsRequirement m m₀.requirements requirement)
      := by
  have hempty := m₀.makeAstRequirement_arguments
  apply (parseDirective_mirrors (fun _ h => by cases h) rfl hempty fun _ h => by cases h; rfl).bind
  intro linked plain
  apply Mirrors.onState_bind
  intro token
  split
  · exact .pure fun m h => ⟨h.grows_requirement, h.holdsRequirement⟩
  · apply Mirrors.onState_bind
    intro context
    apply Mirrors.onState_bind
    intro _
    apply Mirrors.onState_bind
    rintro ⟨buffer, lastCh⟩
    apply Mirrors.onState_bind
    intro _
    apply Mirrors.onMemory
    intro m h
    exact ⟨h.grows_requirement.setContent le_rfl _, h.holdsRequirement.setContent _⟩

variable {m₁ : AstMemory} {test : Nat}

/-- A list is what the other parser has so far, wherever its end pointer is. -/
abbrev Listed {β : Type} (kind : RecordKind β) (m₁ : AstMemory) (head : AstNode)
    (records : List β) (m : AstMemory) : Prop :=
  ∃ endNode, Listing kind m₁ head endNode records m

theorem parseRequirementListLoop_mirrors (htest : test < m₁.tests) (room : Nat)
    {requirementsEnd : AstNode} {requirements : List AstRequirement} :
    Mirrors (Listing requirementKind m₁ (.testRequirements test) requirementsEnd requirements)
      (parseRequirementListLoop room requirementsEnd)
      (JCUnit.parseRequirementListLoop room requirements)
      (fun _ => Listed requirementKind m₁ (.testRequirements test)) := by
  induction room generalizing requirementsEnd requirements with
  | zero =>
      apply Mirrors.onState_bind
      intro token
      split
      · exact .pure fun m h => ⟨_, h⟩
      · exact fatal_mirrors _
  | succ room ih =>
      apply Mirrors.onState_bind
      intro token
      split
      · exact .pure fun m h => ⟨_, h⟩
      · apply Mirrors.of_each
        intro m hlisting
        apply Mirrors.onMemory_bind_of_eq
        apply (parseRequirement_mirrors m).bind
        intro _ requirement
        apply Mirrors.of_each
        rintro m' ⟨hgrows, hrequirement⟩
        apply Mirrors.onMemory_bind_of_eq
        have hhead : m.Allocated (.testRequirements test) :=
          AstMemory.Allocated.mono hlisting.grows htest
        exact ih.started (hlisting.append hgrows (hgrows.next _ hhead id) (fun _ h => by cases h) rfl
          hrequirement)

theorem parseRequirementList_mirrors (htest : test < m₁.tests)
    (hempty : m₁.next (.testRequirements test) = .testRequirements test) :
    Mirrors (m₁ = ·) (parseRequirementList test) JCUnit.parseRequirementList
      (fun _ => Listed requirementKind m₁ (.testRequirements test)) := by
  apply Mirrors.onState_bind
  intro token
  split
  · exact fatal_mirrors _
  · apply Mirrors.onState_bind
    intro _
    unfold getRequirementsEnd
    rw [bind_assoc]
    apply Mirrors.onMemory_bind_of_eq
    have hend : slistGetEnd m₁.next m₁.requirements (.testRequirements test) =
        .ok (.testRequirements test) :=
      slistGetEnd_eq (.of_self hempty) (Nat.zero_le _)
    dsimp only
    rw [hend]
    exact (parseRequirementListLoop_mirrors htest _).started (.of_self hempty)

end Requirements

section Tests

variable {m₁ : AstMemory} {test : Nat}

theorem parseTestProlog_mirrors (hempty : m₁.next (.testArguments test) = .testArguments test) :
    Mirrors (m₁ = ·) (parseTestProlog test) JCUnit.parseTestProlog
      (fun _ => Listed argumentKind m₁ (.testArguments test)) := by
  apply Mirrors.onMemory_bind_of_eq
  have hstart : m₁.unsetDirective.2.next (.testArguments test) = .testArguments test := hempty
  apply (parseDirective_mirrors (fun _ h => by cases h) rfl hstart fun _ h => by cases h).bind
  intro linked plain
  apply Mirrors.of_each
  intro m h
  apply Mirrors.onMemory_bind_of_eq
  have hname : m.directive = some plain.directive := h.name
  dsimp only
  rw [hname]
  dsimp only
  split
  · exact fatal_mirrors _
  · apply Mirrors.pure
    rintro _ rfl
    exact ⟨_, h.listing.since m₁.grows_unsetDirective⟩

theorem grows_epilogArguments (m : AstMemory) :
    m.Grows Nowhere { m with next := slistInit m.next .epilogArguments } :=
  { AstMemory.Grows.refl Nowhere m with
    next := fun node hnode _ => slistInit_of_ne (by rintro rfl; exact hnode) }

/-- The list in a variable is built beside the others. -/
theorem parseTestEpilog_mirrors (m₁ : AstMemory) :
    Mirrors (m₁ = ·) parseTestEpilog JCUnit.parseTestEpilog (fun _ _ => m₁.Grows Nowhere) := by
  apply Mirrors.onMemory_bind_of_eq
  apply Mirrors.onMemory_bind_of_eq
  have hempty : slistInit m₁.unsetDirective.2.next .epilogArguments .epilogArguments =
      .epilogArguments := slistInit_self _ _
  apply (parseDirective_mirrors (fun _ h => by cases h) rfl hempty fun _ h => by cases h).bind
  intro linked plain
  apply Mirrors.of_each
  intro m h
  apply Mirrors.onMemory_bind_of_eq
  have hname : m.directive = some plain.directive := h.name
  have hgrows : m₁.Grows Nowhere m := by
    apply (m₁.grows_unsetDirective.trans (grows_epilogArguments _) ?_).trans h.listing.grows
    · rintro node hnode rfl
      exact hnode
    · exact fun _ _ hnowhere => hnowhere
  have harguments : (!slistIsEmpty m.next .epilogArguments) = decide (plain.arguments ≠ []) := by
    rw [Bool.eq_iff_iff, Bool.not_eq_true', Bool.eq_false_iff, ne_eq,
      h.listing.isList.slistIsEmpty_iff, decide_eq_true_iff]
  dsimp only
  rw [hname, harguments]
  dsimp only
  split
  · exact fatal_mirrors _
  · rw [if_congr decide_eq_true_iff rfl rfl]
    split
    · exact fatal_mirrors _
    · apply Mirrors.pure
      rintro _ rfl
      exact hgrows

/-- A new record becomes the test, and nothing else changes. -/
theorem parseTest_mirrors (m₀ : AstMemory) :
    Mirrors (m₀ = ·) parseTest JCUnit.parseTest
      (fun i test m => i = m₀.tests ∧ m₀.Grows Nowhere m ∧ HoldsTest m m₀.tests test) := by
  apply Mirrors.onMemory_bind_of_eq
  apply (parseTestProlog_mirrors m₀.makeAstTest_arguments).bind
  intro _ arguments
  apply Mirrors.onState_bind
  intro _
  apply Mirrors.of_each
  rintro m₂ ⟨_, harguments⟩
  have hallocated : m₀.tests < m₂.tests :=
    lt_of_lt_of_le (Nat.lt_succ_self _) harguments.grows.tests
  have hempty : m₂.next (.testRequirements m₀.tests) = .testRequirements m₀.tests := by
    rw [harguments.grows.next _ (Nat.lt_succ_self _) (by rintro ⟨⟩),
      m₀.makeAstTest_requirements]
  apply (parseRequirementList_mirrors hallocated hempty).bind
  intro _ requirements
  apply Mirrors.onState_bind
  intro _
  apply Mirrors.of_each
  rintro m₃ ⟨_, hrequirements⟩
  apply (parseTestEpilog_mirrors m₃).bind
  intro _ _
  apply Mirrors.pure
  intro m₄ hepilog
  refine ⟨rfl, ?_, ?_, ?_, ?_⟩
  · apply ((((AstMemory.grows_makeAstTest m₀).trans harguments.grows ?_).trans
      hrequirements.grows ?_).trans hepilog fun _ _ hnowhere => hnowhere)
    · rintro node hnode rfl
      exact absurd hnode (Nat.lt_irrefl _)
    · rintro node hnode rfl
      exact absurd hnode (Nat.lt_irrefl _)
  · exact lt_of_lt_of_le hallocated (hrequirements.grows.tests.trans hepilog.tests)
  · apply (harguments.isList.frame hrequirements.grows hallocated rfl ?_).frame hepilog
    · exact lt_of_lt_of_le hallocated hrequirements.grows.tests
    · rfl
    · exact fun node hnowhere => False.elim hnowhere
    · rintro node rfl
      exact Nat.zero_lt_one
  · apply hrequirements.isList.frame hepilog
    · exact lt_of_lt_of_le hallocated hrequirements.grows.tests
    · rfl
    · exact fun node hnowhere => False.elim hnowhere

end Tests

section Suites

variable {m₁ : AstMemory} {suite : Nat}

theorem parseTestSuiteLoop_mirrors (hsuite : suite < m₁.suites) (rounds : Nat) {token : Token}
    {testsEnd : AstNode} {tests : List AstTest} :
    Mirrors (Listing testKind m₁ (.tests suite) testsEnd tests)
      (parseTestSuiteLoop rounds token testsEnd) (JCUnit.parseTestSuiteLoop rounds token tests)
      (fun _ => Listed testKind m₁ (.tests suite)) := by
  induction rounds generalizing token testsEnd tests with
  | zero => exact .throw _
  | succ rounds ih =>
      unfold parseTestSuiteLoop JCUnit.parseTestSuiteLoop
      split
      · exact .pure fun m h => ⟨_, h⟩
      · split
        · apply Mirrors.onState_bind
          intro context
          apply Mirrors.onState_bind
          intro token
          exact ih
        · apply Mirrors.of_each
          intro m hlisting
          apply (parseTest_mirrors m).bind
          intro i test
          apply Mirrors.of_each
          rintro m' ⟨rfl, hgrows, htest⟩
          apply Mirrors.onMemory_bind_of_eq
          apply Mirrors.onState_bind
          intro token
          have hhead : m.Allocated (.tests suite) :=
            AstMemory.Allocated.mono hlisting.grows hsuite
          exact ih.started (hlisting.append hgrows (hgrows.next _ hhead id) (fun _ h => by cases h)
            rfl htest)

theorem parseTestSuiteM_mirrors (m₀ : AstMemory) :
    Mirrors (m₀ = ·) parseTestSuiteM JCUnit.parseTestSuiteM
      (fun suite tests m => m₀.Grows Nowhere m ∧ suite = m₀.suites ∧
        testKind.IsList m (.tests suite) tests) := by
  apply Mirrors.onMemory_bind_of_eq
  apply Mirrors.onState_bind
  intro token
  apply Mirrors.onState_bind
  intro context
  apply ((parseTestSuiteLoop_mirrors (Nat.lt_succ_self m₀.suites) _).started
    (.of_self m₀.makeSlist_empty)).bind_value
  rintro _ tests m ⟨_, htests⟩
  refine ⟨(AstMemory.grows_makeSlist m₀).trans htests.grows ?_, rfl, htests.isList⟩
  rintro node hnode rfl
  exact absurd hnode (Nat.lt_irrefl _)

/-- From every memory, `parse_test_suite` stops in the error of the parser over lists, or the
memory has the tests that this parser gives in a new list, and what was there before is as it was. -/
theorem parseTestSuite_corresponds (memory : AstMemory) (source : Bytes) :
    Corresponds
      (fun (parsed : Nat × AstMemory) tests => memory.Grows Nowhere parsed.2 ∧
        parsed.1 = memory.suites ∧ testKind.IsList parsed.2 (.tests parsed.1) tests)
      (parseTestSuite memory source) (JCUnit.parseTestSuite source) := by
  have hends := parseTestSuiteM_mirrors memory (initTokenizerContext source) memory rfl
  unfold parseTestSuite JCUnit.parseTestSuite
  generalize parseTestSuiteM (initTokenizerContext source, memory) = linked at hends ⊢
  generalize JCUnit.parseTestSuiteM (initTokenizerContext source) = plain at hends ⊢
  cases hends with
  | ok h => exact .ok h
  | error e p s => exact .error e

end Suites

end Linked

end JCUnit
