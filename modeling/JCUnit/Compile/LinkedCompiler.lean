import JCUnit.Compile.Compiler
import JCUnit.Foundation.FilledTable
import JCUnit.Frontend.LinkedParser
import JCUnit.Memory.Pool

/-!
# The compiler over linked lists

`compile_test_suite` as it goes over the lists that the parser has built in memory. The tests are
counted, a table is allocated for them, and a loop over the list stores what each of them compiles
to. The compilers of the requirements, which are those of the model, are given the arguments that
`slist_foreach` visits. From every memory, the suite is the one of the compiler over lists, as long
as its table is in the blob of the pool that it has been given.
-/

namespace JCUnit

open StateError FilledTable

namespace Linked

section Functions

variable (memory : AstMemory)

/-- A requirement as its compiler finds it, with the arguments that its loops visit. -/
def requirementAt (requirement : Nat) : Except Halt AstRequirement := do
  let arguments ← argumentKind.foreach memory (.requirementArguments requirement)
    (fun arguments i => .ok (arguments ++ [memory.argument i])) []
  match memory.requirementName requirement with
  | none => .error .undefined
  | some name => return ⟨name, arguments, memory.requirementContent requirement⟩

def testArgumentsCompiler (test : ProgramRunnerTest) (astTest : Nat) :
    Except Halt ProgramRunnerTest := do
  let name ← argumentKind.foreach memory (.testArguments astTest)
    (fun name i => testArgumentsLoop [memory.argument i] name) none
  match name with
  | none => testFatal (ascii "Missing the 'name' named argument (can be unnamed) for the 'test' directive!")
  | some name =>
      if name.length = 0 then testFatal (ascii "The 'name' cannot be empty for the 'test' directive!")
      else return { test with name := some name }

def compileRequirement (test : ProgramRunnerTest) (requirement : Nat) :
    Except Halt ProgramRunnerTest := do
  let requirement ← requirementAt memory requirement
  JCUnit.compileRequirement test requirement

def programRunnerTestCompiler (astTest : Nat) : Except Halt ProgramRunnerTest := do
  let test ← testArgumentsCompiler memory makeProgramRunnerTest astTest
  let test ← requirementKind.foreach memory (.testRequirements astTest)
    (compileRequirement memory) test
  if (test.programArgs.map fun args => strstr (cstr args) filePlaceholder) = some true ∧
      (test.givenType = givenTypeNone ∨ test.givenType = givenTypeStdin) then
    testFatal (ascii "The '" ++ filePlaceholder ++ ascii "' placeholder in args requires a file-based given (\"file\" or \"reference\"), not \"none\" or \"stdin\"!")
  else return test

def findAstRequirementByName (astTest : Nat) (requirementName : Bytes) :
    Except Halt (Option Nat) :=
  requirementKind.foreachReturn memory (.testRequirements astTest) fun i =>
    match memory.requirementName i with
    | none => .error .undefined
    | some name =>
        if name.length == requirementName.length &&
            memcmpEq name requirementName requirementName.length then .ok (some i)
        else .ok none

def compileTest (astTest : Nat) : Except Halt ProgramRunnerTest := do
  let requirement ← findAstRequirementByName memory astTest (ascii "whenRun")
  if requirement.isNone then
    testFatal (ascii "Cannot find any compiler to compile the test!")
  else
    let test ← programRunnerTestCompiler memory astTest
    if test.flags &&& testCompleteMask ≠ testCompleteMask then
      return { test with flags := test.flags ||| testFlagIncomplete }
    else return test

/-- How many entries of a table for so many pointers are in memory. A table that is larger than a
blob is given one blob all the same. -/
def tableRoom (testsCount : UInt32) : Nat := min testsCount.toNat pointersPerBlob

/-- A `struct test_suite`, with the entries of its table that are in memory. -/
structure TestSuite where
  name : CString
  tests : List (Option ProgramRunnerTest)
  testsCount : UInt32

/-- One round of the loop of `do_compile_test_suite`. A store behind the end of the table is
undefined. -/
def compileRound (tests : Table ProgramRunnerTest) (astTest : Nat) :
    Except Halt (Table ProgramRunnerTest) := do
  let test ← compileTest memory astTest
  tests.store .undefined test

def doCompileTestSuite (filename : CString) (astTests : Nat) : Except Halt TestSuite := do
  let testsCount ← slistCount memory.next memory.tests (.tests astTests)
  let tests ← testKind.foreach memory (.tests astTests) (compileRound memory)
    (.ofSize ProgramRunnerTest (tableRoom testsCount))
  return ⟨suiteName filename, tests.entries, testsCount⟩

/-- `compile_test_suite` of the file at a path, or of a path without a file, and the memory with
all that has been parsed. -/
def compileTestSuite (filename : CString) (file : Option Bytes) :
    Except Halt (TestSuite × AstMemory) :=
  match file with
  | none => testFatal (ascii "Can't read file \"" ++ filename.bytes ++ ascii "\": No such file or directory")
  | some contents => do
      let (astTests, memory) ← parseTestSuite memory contents
      let suite ← doCompileTestSuite memory filename astTests
      return (suite, memory)

end Functions

section Requirements

variable {m : AstMemory} {i : Nat}

theorem foldlM_append (arguments visited : List AstArgument) :
    (arguments.foldlM (fun visited argument => Except.ok (visited ++ [argument])) visited :
      Except Halt (List AstArgument)) = .ok (visited ++ arguments) := by
  induction arguments generalizing visited with
  | nil => exact congrArg Except.ok (List.append_nil visited).symm
  | cons argument arguments ih =>
      rw [List.foldlM_cons, except_ok_bind, ih, List.append_assoc, List.singleton_append]

theorem requirementAt_eq {requirement : AstRequirement} (h : HoldsRequirement m i requirement) :
    requirementAt m i = .ok requirement := by
  have hvisited : argumentKind.foreach m (.requirementArguments i)
      (fun arguments i => .ok (arguments ++ [m.argument i])) [] = .ok requirement.arguments := by
    rw [h.arguments.foreach_eq fun arguments i argument hargument => by rw [hargument.record]]
    exact foldlM_append requirement.arguments []
  unfold requirementAt
  rw [hvisited, except_ok_bind, h.name, h.content]
  rfl

theorem compileRequirement_eq {requirement : AstRequirement} (h : HoldsRequirement m i requirement)
    (test : ProgramRunnerTest) :
    compileRequirement m test i = JCUnit.compileRequirement test requirement := by
  unfold compileRequirement
  rw [requirementAt_eq h, except_ok_bind]

end Requirements

section Tests

variable {m : AstMemory} {i : Nat} {astTest : AstTest}

/-- The loop of `test_arguments_compiler` is a fold over its rounds. -/
theorem testArgumentsLoop_eq_foldlM (arguments : List AstArgument) (name : Option Bytes) :
    testArgumentsLoop arguments name =
      arguments.foldlM (fun name argument => testArgumentsLoop [argument] name) name := by
  induction arguments generalizing name with
  | nil => rfl
  | cons argument arguments ih =>
      obtain ⟨argumentName, value⟩ := argument
      rw [List.foldlM_cons]
      cases argumentName with
      | none => exact ih (some value)
      | some argumentName =>
          simp only [testArgumentsLoop]
          split
          · split
            · rfl
            · exact ih (some value)
          · rfl

theorem testArgumentsCompiler_eq (h : HoldsTest m i astTest) (test : ProgramRunnerTest) :
    testArgumentsCompiler m test i = JCUnit.testArgumentsCompiler test astTest := by
  have hloop : argumentKind.foreach m (.testArguments i)
      (fun name i => testArgumentsLoop [m.argument i] name) none =
      testArgumentsLoop astTest.arguments none := by
    rw [testArgumentsLoop_eq_foldlM]
    apply h.arguments.foreach_eq
    intro name i argument hargument
    rw [hargument.record]
  unfold testArgumentsCompiler JCUnit.testArgumentsCompiler
  exact congrArg (· >>= _) hloop

theorem programRunnerTestCompiler_eq (h : HoldsTest m i astTest) :
    programRunnerTestCompiler m i = JCUnit.programRunnerTestCompiler astTest := by
  unfold programRunnerTestCompiler JCUnit.programRunnerTestCompiler
  rw [testArgumentsCompiler_eq h]
  refine congrArg (JCUnit.testArgumentsCompiler makeProgramRunnerTest astTest >>= ·) (funext ?_)
  intro test
  rw [h.requirements.foreach_eq fun test i requirement hrequirement =>
    compileRequirement_eq hrequirement test]

theorem findAstRequirementByName_eq (h : HoldsTest m i astTest) (requirementName : Bytes) :
    ∃ found, findAstRequirementByName m i requirementName = .ok found ∧
      found.isSome = (JCUnit.findAstRequirementByName astTest requirementName).isSome := by
  apply h.requirements.foreachReturn_eq
  intro i requirement hrequirement
  rw [hrequirement.name]
  dsimp only
  split
  case isTrue hfound => exact ⟨some i, rfl, hfound.symm⟩
  case isFalse hfound => exact ⟨none, rfl, (Bool.eq_false_iff.mpr hfound).symm⟩

theorem compileTest_eq (h : HoldsTest m i astTest) :
    compileTest m i = JCUnit.compileTest astTest := by
  obtain ⟨found, hfind, hfound⟩ := findAstRequirementByName_eq h (ascii "whenRun")
  unfold compileTest JCUnit.compileTest
  rw [hfind, except_ok_bind, programRunnerTestCompiler_eq h, ← Option.not_isSome, hfound,
    Option.not_isSome]

end Tests

section Suites

variable {m : AstMemory} {head : Nat} {astTests : List AstTest}

/-- The suite with a full table of tests. -/
def tabulatedSuite (suite : JCUnit.TestSuite) : TestSuite :=
  ⟨suite.name, suite.tests.map some, UInt32.ofNat suite.tests.length⟩

theorem tableRoom_of_fits {count : Nat} (hfits : count ≤ pointersPerBlob) :
    tableRoom (UInt32.ofNat count) = count := by
  have hlt := lt_of_le_pointersPerBlob hfits
  unfold tableRoom
  rw [UInt32.toNat_ofNat_of_lt' hlt, Nat.min_eq_left hfits]

/-- The tests are compiled and stored as long as there is room for them. -/
theorem doCompileTestSuite_corresponds (h : testKind.IsList m (.tests head) astTests)
    (filename : CString) {room : Nat} (hroom : tableRoom (UInt32.ofNat astTests.length) = room) :
    Corresponds (fun suite tests => astTests.length = room →
        suite = tabulatedSuite ⟨suiteName filename, tests⟩)
      (doCompileTestSuite m filename head)
      (do
        let tests ← (astTests.take (room + 1)).mapM JCUnit.compileTest
        if astTests.length ≤ room then .ok tests else .error .undefined) := by
  have hcounted : slistCount m.next m.tests (.tests head) = .ok (UInt32.ofNat astTests.length) :=
    h.slistCount_eq
  unfold doCompileTestSuite
  rw [hcounted, except_ok_bind, hroom]
  apply Corresponds.bind_value
    (R := fun tests results => tests.Holds room results (room - astTests.length))
  · rw [h.foreach_eq fun tests i astTest htest => by
      unfold compileRound
      rw [compileTest_eq htest]]
    exact (Table.holds_ofSize room).foldlM_store astTests
  · intro tests results hresults hlength
    rw [hlength, Nat.sub_self] at hresults
    rw [hresults.entries_eq, hlength, ← hresults.counted]
    rfl

theorem tableRoom_le (testsCount : UInt32) : tableRoom testsCount ≤ pointersPerBlob :=
  Nat.min_le_right _ _

theorem doCompileTestSuite_fits (h : testKind.IsList m (.tests head) astTests)
    (filename : CString) (hfits : astTests.length ≤ pointersPerBlob) :
    Corresponds (fun suite suite' => suite = tabulatedSuite suite')
      (doCompileTestSuite m filename head) (JCUnit.doCompileTestSuite filename astTests) := by
  have hrun := doCompileTestSuite_corresponds h filename (tableRoom_of_fits hfits)
  rw [List.take_of_length_le (Nat.le_succ _)] at hrun
  unfold JCUnit.doCompileTestSuite
  cases hmap : astTests.mapM JCUnit.compileTest with
  | error halt =>
      rw [hmap] at hrun
      generalize doCompileTestSuite m filename head = linked at hrun ⊢
      cases hrun
      exact .error halt
  | ok tests =>
      rw [hmap, except_ok_bind, if_pos le_rfl] at hrun
      obtain ⟨suite, hsuite, htable⟩ := hrun.eq_ok rfl
      rw [hsuite]
      exact .ok (htable rfl)

/-- The first test behind the blob is compiled and stored, if none before it is refused. -/
theorem doCompileTestSuite_overruns (h : testKind.IsList m (.tests head) astTests)
    (filename : CString) (hover : pointersPerBlob < astTests.length) :
    doCompileTestSuite m filename head = .error .undefined ∨
      ∃ halt, doCompileTestSuite m filename head = .error halt ∧
        JCUnit.doCompileTestSuite filename astTests = .error halt := by
  have hrun := doCompileTestSuite_corresponds h filename rfl
  have hroom : ¬astTests.length ≤ tableRoom (UInt32.ofNat astTests.length) :=
    Nat.not_le.mpr (lt_of_le_of_lt (tableRoom_le _) hover)
  generalize tableRoom (UInt32.ofNat astTests.length) = room at hrun hroom
  generalize doCompileTestSuite m filename head = linked at hrun ⊢
  cases hmap : (astTests.take (room + 1)).mapM JCUnit.compileTest with
  | ok tests =>
      rw [hmap, except_ok_bind, if_neg hroom] at hrun
      cases hrun
      exact .inl rfl
  | error halt =>
      rw [hmap] at hrun
      cases hrun
      have hall : astTests.mapM JCUnit.compileTest = .error halt := by
        calc astTests.mapM JCUnit.compileTest
            = (astTests.take (room + 1) ++ astTests.drop (room + 1)).mapM JCUnit.compileTest := by
              rw [List.take_append_drop]
          _ = .error halt := by
              rw [List.mapM_append, hmap]
              rfl
      refine .inr ⟨halt, rfl, ?_⟩
      unfold JCUnit.doCompileTestSuite
      rw [hall]
      rfl

theorem length_doCompileTestSuite {filename : CString} {suite : JCUnit.TestSuite}
    (h : JCUnit.doCompileTestSuite filename astTests = .ok suite) :
    suite.tests.length = astTests.length := by
  unfold JCUnit.doCompileTestSuite at h
  obtain ⟨tests, htests, h⟩ := except_bind_eq_ok h
  cases h
  exact length_mapM htests

/-- What the loop over the list comes to, told by what the compiler over lists gives. -/
theorem doCompileTestSuite_spec (h : testKind.IsList m (.tests head) astTests)
    (filename : CString) :
    match JCUnit.doCompileTestSuite filename astTests with
    | .ok suite =>
        doCompileTestSuite m filename head =
          if suite.tests.length ≤ pointersPerBlob then .ok (tabulatedSuite suite)
          else .error .undefined
    | .error halt =>
        doCompileTestSuite m filename head = .error halt ∨
          (pointersPerBlob < astTests.length ∧
            doCompileTestSuite m filename head = .error .undefined) := by
  cases hsuite : JCUnit.doCompileTestSuite filename astTests with
  | ok suite =>
      dsimp only
      rw [length_doCompileTestSuite hsuite]
      split
      case isTrue hfits =>
        obtain ⟨linked, hrun, rfl⟩ := (doCompileTestSuite_fits h filename hfits).eq_ok hsuite
        exact hrun
      case isFalse hover =>
        rcases doCompileTestSuite_overruns h filename (Nat.lt_of_not_le hover) with
          hrun | ⟨halt, -, hplain⟩
        · exact hrun
        · rw [hsuite] at hplain
          cases hplain
  | error halt =>
      rcases Nat.lt_or_ge pointersPerBlob astTests.length with hover | hfits
      · rcases doCompileTestSuite_overruns h filename hover with hrun | ⟨halt', hrun, hplain⟩
        · exact .inr ⟨hover, hrun⟩
        · rw [hsuite] at hplain
          cases hplain
          exact .inl hrun
      · have hrun := doCompileTestSuite_fits h filename hfits
        rw [hsuite] at hrun
        generalize doCompileTestSuite m filename head = linked at hrun ⊢
        cases hrun
        exact .inl rfl

/-- More tests than there is room for. -/
def Overruns (file : Option Bytes) : Prop :=
  ∃ contents ∈ file, ∃ astTests, JCUnit.parseTestSuite contents = .ok astTests ∧
    pointersPerBlob < astTests.length

/-- `compile_test_suite` over linked lists, from every memory: a suite that the compiler over lists
gives is in the table if the table has room for it, and nothing that was in memory before has
changed. If it has not, a test is stored behind the blob. The errors are the same, but for those in
tests behind the one that is stored there. -/
theorem compileTestSuite_spec (memory : AstMemory) (filename : CString) (file : Option Bytes) :
    match JCUnit.compileTestSuite filename file with
    | .ok suite =>
        if suite.tests.length ≤ pointersPerBlob then
          ∃ m, compileTestSuite memory filename file = .ok (tabulatedSuite suite, m) ∧
            memory.Grows Nowhere m
        else compileTestSuite memory filename file = .error .undefined
    | .error halt =>
        compileTestSuite memory filename file = .error halt ∨
          (Overruns file ∧ compileTestSuite memory filename file = .error .undefined) := by
  cases file with
  | none => exact .inl rfl
  | some contents =>
      have hparse := parseTestSuite_corresponds memory contents
      unfold compileTestSuite JCUnit.compileTestSuite
      dsimp only
      cases hplain : JCUnit.parseTestSuite contents with
      | error halt =>
          rw [hplain] at hparse
          generalize parseTestSuite memory contents = parsed at hparse ⊢
          cases hparse
          exact .inl rfl
      | ok astTests =>
          obtain ⟨⟨head, m⟩, hlinked, hgrows, -, hlist⟩ := hparse.eq_ok hplain
          have hspec := doCompileTestSuite_spec hlist filename
          rw [hlinked, except_ok_bind, except_ok_bind]
          dsimp only
          cases hsuite : JCUnit.doCompileTestSuite filename astTests with
          | error halt =>
              rw [hsuite] at hspec
              rcases hspec with hrun | ⟨hover, hrun⟩
              · rw [hrun]
                exact .inl rfl
              · rw [hrun]
                exact .inr ⟨⟨contents, rfl, astTests, hplain, hover⟩, rfl⟩
          | ok suite =>
              rw [hsuite] at hspec
              dsimp only at hspec ⊢
              rw [hspec]
              split
              · exact ⟨m, rfl, hgrows⟩
              · rfl

end Suites

end Linked

end JCUnit
