import JCUnit.Compile.TestSuite
import JCUnit.Frontend.Parser

/-!
# The compiler

Turns the tests of a parsed file into the records the runner works on. A handler
of a requirement takes the test compiled so far and returns it extended, or stops
in a fatal error. The warnings that `jcunit_warning` prints are left out: nothing
the compiler returns depends on them.
-/

namespace JCUnit

/-- The bytes a `%s`, `strcmp`, `strchr` or `strstr` sees of a string's value. -/
def cstr (value : Bytes) : Bytes := (CString.ofBuffer value).bytes

theorem cstr_append {text : Bytes} (htext : 0 ∉ text) (rest : Bytes) :
    (CString.ofBuffer (text ++ rest)).bytes = text ++ cstr rest := by
  apply List.takeWhile_append_of_pos
  intro b hb
  simpa using ne_of_mem_of_not_mem hb htext

theorem cstr_eq_self_iff {value : Bytes} : cstr value = value ↔ 0 ∉ value := by
  constructor
  · intro h
    rw [← h]
    exact (CString.ofBuffer value).nulFree
  · intro h
    exact congrArg CString.bytes (CString.ofBuffer_bytes ⟨value, h⟩)

/-- `strcmp(name, value) == 0` for a literal without NUL. -/
def strcmpEq (name value : Bytes) : Bool := name == cstr value

/-- `strstr(haystack, needle) != NULL`. -/
def strstr (haystack needle : Bytes) : Bool :=
  haystack.tails.any fun tail => needle.isPrefixOf tail

def stringEqualsWithCstring (source dest : Bytes) : Bool :=
  source.length == dest.length && memcmpEq source dest dest.length

def testFatal {α : Type} (message : Bytes) : Except Halt α := .error (fatalError message)

inductive StreamCode
  | unknown
  | stdout
  | stderr
deriving DecidableEq

def resolveStreamCodeByName (name : Bytes) : StreamCode :=
  if stringEqualsWithCstring name (ascii "stdout") then .stdout
  else if stringEqualsWithCstring name (ascii "stderr") then .stderr
  else .unknown

/-- The loop of `test_arguments_compiler`, with the name found so far. -/
def testArgumentsLoop : List AstArgument → Option Bytes → Except Halt (Option Bytes)
  | [], name => .ok name
  | argument :: arguments, name =>
      match argument.name with
      | none => testArgumentsLoop arguments (some argument.value)
      | some argumentName =>
          if strcmpEq (ascii "name") argumentName then
            if name.isSome then testFatal (ascii "Cannot be both definition of 'name' named and unnamed for the 'test' directive!")
            else testArgumentsLoop arguments (some argument.value)
          else
            testFatal (ascii "Unknown named argument '" ++ cstr argumentName ++ ascii "' for the 'test' directive!")

def testArgumentsCompiler (test : ProgramRunnerTest) (astTest : AstTest) :
    Except Halt ProgramRunnerTest := do
  let name ← testArgumentsLoop astTest.arguments none
  match name with
  | none => testFatal (ascii "Missing the 'name' named argument (can be unnamed) for the 'test' directive!")
  | some name =>
      if name.length = 0 then testFatal (ascii "The 'name' cannot be empty for the 'test' directive!")
      else return { test with name := some name }

structure GivenArguments where
  givenType : Option Bytes
  givenFilename : Option Bytes
  givenPath : Option Bytes
deriving DecidableEq

/-- The loop of `given_test_requirement_compiler` over its arguments. -/
def givenArgumentsLoop : List AstArgument → GivenArguments → Except Halt GivenArguments
  | [], given => .ok given
  | argument :: arguments, given =>
      match argument.name with
      | none => givenArgumentsLoop arguments { given with givenType := some argument.value }
      | some name =>
          if strcmpEq (ascii "type") name then
            if given.givenType.isSome then testFatal (ascii "Cannot be both definition of 'type' named and unnamed or redefinition of 'type' for the 'given' requirement!")
            else givenArgumentsLoop arguments { given with givenType := some argument.value }
          else if strcmpEq (ascii "filename") name then
            if given.givenFilename.isSome then testFatal (ascii "Cannot be both redefinition of 'filename' for the 'given' requirement!")
            else givenArgumentsLoop arguments { given with givenFilename := some argument.value }
          else if strcmpEq (ascii "path") name then
            if given.givenPath.isSome then testFatal (ascii "Cannot be both redefinition of 'path' for the 'given' requirement!")
            else givenArgumentsLoop arguments { given with givenPath := some argument.value }
          else
            testFatal (ascii "Unknown named argument '" ++ cstr name ++ ascii "' for the 'given' requirement!")

def givenTestRequirementCompiler (requirement : AstRequirement) (test : ProgramRunnerTest) :
    Except Halt ProgramRunnerTest := do
  let given ← givenArgumentsLoop requirement.arguments ⟨none, none, none⟩
  match given.givenType with
  | none => testFatal (ascii "Missing the 'type' named argument (can be unnamed) for the 'given' requirement!")
  | some givenType =>
      if givenType.length = 0 then testFatal (ascii "The type cannot be empty for the 'given' requirement!")
      else if stringEqualsWithCstring givenType (ascii "none") then
        if given.givenFilename.isSome then testFatal (ascii "The 'filename' argument is not allowed for 'none' given type!")
        else if given.givenPath.isSome then testFatal (ascii "The 'path' argument is not allowed for 'none' given type!")
        else if requirement.content.isSome then testFatal (ascii "The content is not allowed for 'none' given type!")
        else return { test with
          givenType := givenTypeNone
          flags := test.flags ||| testFlagHasGiven }
      else if stringEqualsWithCstring givenType (ascii "reference") then
        if given.givenPath.getD [] = [] then testFatal (ascii "The 'path' argument is required for 'reference' given type!")
        else if given.givenFilename.isSome then testFatal (ascii "The 'filename' argument is not allowed for 'reference' given type!")
        else if requirement.content.isSome then testFatal (ascii "The content is not allowed for 'reference' given type!")
        else return { test with
          givenType := givenTypeReference
          givenPath := given.givenPath
          flags := test.flags ||| testFlagHasGiven }
      else if stringEqualsWithCstring givenType (ascii "stdin") then
        if given.givenFilename.isSome then testFatal (ascii "The 'filename' argument is not allowed for 'stdin' given type!")
        else if given.givenPath.isSome then testFatal (ascii "The 'path' argument is not allowed for 'stdin' given type!")
        else return { test with
          givenType := givenTypeStdin
          givenFileContent := requirement.content
          flags := test.flags ||| testFlagHasGiven }
      else if !stringEqualsWithCstring givenType (ascii "file") then
        testFatal (ascii "The unknown \"" ++ cstr givenType ++ ascii "\" given type!")
      else if given.givenPath.isSome then testFatal (ascii "The 'path' argument is not allowed for 'file' given type!")
      else if given.givenFilename = some [] then testFatal (ascii "The filename cannot be empty for the 'given' requirement!")
      else if (cstr (given.givenFilename.getD [])).contains 47 then
        testFatal (ascii "Cannot be any path separators in 'filename' argument of the 'given' requirement!")
      else return { test with
        givenType := givenTypeFile
        givenFileContent := requirement.content
        givenFilename := given.givenFilename
        flags := test.flags ||| testFlagHasGiven }

structure WhenRunArguments where
  program : Option Bytes
  args : Option Bytes
deriving DecidableEq

/-- The loop of `when_run_requirement_compiler` over its arguments. -/
def whenRunArgumentsLoop : List AstArgument → WhenRunArguments → Except Halt WhenRunArguments
  | [], found => .ok found
  | argument :: arguments, found =>
      match argument.name with
      | none => whenRunArgumentsLoop arguments { found with program := some argument.value }
      | some name =>
          if strcmpEq (ascii "program") name then
            if found.program.isSome then testFatal (ascii "Cannot be both definition of 'program' named and unnamed for the 'whenRun' requirement!")
            else whenRunArgumentsLoop arguments { found with program := some argument.value }
          else if strcmpEq (ascii "args") name then
            whenRunArgumentsLoop arguments { found with args := some argument.value }
          else
            testFatal (ascii "Unknown named argument '" ++ cstr name ++ ascii "' for the 'whenRun' requirement!")

def whenRunRequirementCompiler (requirement : AstRequirement) (test : ProgramRunnerTest) :
    Except Halt ProgramRunnerTest := do
  if requirement.content.isSome then testFatal (ascii "The 'whenRun' requirement must not contain any content!")
  else
    let found ← whenRunArgumentsLoop requirement.arguments ⟨none, none⟩
    match found.program with
    | none => testFatal (ascii "Missing the 'program' named argument (can be unnamed) for the 'whenRun' requirement!")
    | some program =>
        if program.length = 0 then testFatal (ascii "The program cannot be empty for the 'whenRun' requirement!")
        else if found.args = some [] then testFatal (ascii "The args cannot be empty for the 'whenRun' requirement!")
        else return { test with
          programPath := some program
          programArgs := found.args
          flags := test.flags ||| testFlagHasWhen }

/-- The stream an `expectOutput` requirement is for, which its first argument names. -/
def expectOutputStream (requirement : AstRequirement) : Except Halt StreamCode :=
  match requirement.arguments with
  | [] => testFatal (ascii "No arguments are given for 'expectOutput' directive!")
  | argument :: _ =>
      if (argument.name.map fun name => !strcmpEq (ascii "stream") name) = some true then
        testFatal (ascii "Unexpected named argument '" ++ cstr (argument.name.getD []) ++ ascii "' for the 'expectOutput' requirement!")
      else if argument.value.length = 0 then testFatal (ascii "The stream name cannot be empty for the 'expectOutput' requirement!")
      else if resolveStreamCodeByName argument.value = .unknown then
        testFatal (ascii "The unknown stream name \"" ++ cstr argument.value ++ ascii "\" for 'expectOutput' requirement!")
      else return resolveStreamCodeByName argument.value

def expectOutputRequirementCompiler (requirement : AstRequirement) (test : ProgramRunnerTest) :
    Except Halt ProgramRunnerTest := do
  let streamCode ← expectOutputStream requirement
  if streamCode = .stdout then
    -- a duplicate is ignored with a warning
    if test.expectedStdout.isSome then return test
    else return { test with
      expectedStdout := requirement.content
      flags := test.flags ||| testFlagHasThen }
  else
    if test.expectedStderr.isSome then return test
    else return { test with
      expectedStderr := requirement.content
      flags := test.flags ||| testFlagHasThen }

def shouldBeSkippedRequirementCompiler (_requirement : AstRequirement) (test : ProgramRunnerTest) :
    Except Halt ProgramRunnerTest :=
  return { test with flags := test.flags ||| testFlagSkipped }

def unknownTestRequirementCompiler (requirement : AstRequirement) (test : ProgramRunnerTest) :
    Except Halt ProgramRunnerTest :=
  testFatal (ascii "An unknown '" ++ cstr requirement.name ++ ascii "' requirement for the test '" ++
    cstr (test.name.getD []) ++ ascii "'!")

def resolveTestRequirementCompiler (requirement : AstRequirement) :
    AstRequirement → ProgramRunnerTest → Except Halt ProgramRunnerTest :=
  if strcmpEq (ascii "given") requirement.name then givenTestRequirementCompiler
  else if strcmpEq (ascii "whenRun") requirement.name then whenRunRequirementCompiler
  else if strcmpEq (ascii "expectOutput") requirement.name then expectOutputRequirementCompiler
  else if strcmpEq (ascii "shouldBeSkipped") requirement.name then shouldBeSkippedRequirementCompiler
  else unknownTestRequirementCompiler

def compileRequirement (test : ProgramRunnerTest) (requirement : AstRequirement) :
    Except Halt ProgramRunnerTest :=
  resolveTestRequirementCompiler requirement requirement test

def makeProgramRunnerTest : ProgramRunnerTest :=
  ⟨none, testKindProgramRunner, 0, 0, none, none, none, none, none, none, none⟩

def filePlaceholder : Bytes := [123, 123] ++ ascii "file" ++ [125, 125]

def programRunnerTestCompiler (astTest : AstTest) : Except Halt ProgramRunnerTest := do
  let test ← testArgumentsCompiler makeProgramRunnerTest astTest
  let test ← astTest.requirements.foldlM compileRequirement test
  if (test.programArgs.map fun args => strstr (cstr args) filePlaceholder) = some true ∧
      (test.givenType = givenTypeNone ∨ test.givenType = givenTypeStdin) then
    testFatal (ascii "The '" ++ filePlaceholder ++ ascii "' placeholder in args requires a file-based given (\"file\" or \"reference\"), not \"none\" or \"stdin\"!")
  else return test

def findAstRequirementByName (astTest : AstTest) (requirementName : Bytes) :
    Option AstRequirement :=
  astTest.requirements.find? fun requirement =>
    requirement.name.length == requirementName.length &&
      memcmpEq requirement.name requirementName requirementName.length

def compileTest (astTest : AstTest) : Except Halt ProgramRunnerTest := do
  if (findAstRequirementByName astTest (ascii "whenRun")).isNone then
    testFatal (ascii "Cannot find any compiler to compile the test!")
  else
    let test ← programRunnerTestCompiler astTest
    if test.flags &&& testCompleteMask ≠ testCompleteMask then
      return { test with flags := test.flags ||| testFlagIncomplete }
    else return test

/-- The part of a path behind its last slash, or `NULL` for an empty path. -/
def basename (path : Bytes) : Option Bytes :=
  match path.reverse.findIdx? (· == 47) with
  | some behind => some (path.drop (path.length - behind))
  | none => if path = [] then none else some path

def suiteName (filename : CString) : CString :=
  CString.ofBuffer ((basename filename.bytes).getD (ascii "<unnamed>"))

def doCompileTestSuite (filename : CString) (astTests : List AstTest) : Except Halt TestSuite := do
  let tests ← astTests.mapM compileTest
  return ⟨suiteName filename, tests⟩

/-- `compile_test_suite` of the file at a path, or of a path without a file. -/
def compileTestSuite (filename : CString) (file : Option Bytes) : Except Halt TestSuite :=
  match file with
  | none => testFatal (ascii "Can't read file \"" ++ filename.bytes ++ ascii "\": No such file or directory")
  | some contents => do
      let astTests ← parseTestSuite contents
      doCompileTestSuite filename astTests

example : (compileTestSuite ⟨ascii "a/b.test", by decide⟩ (some (ascii
    "@test(\"t\")\n@given(\"none\")\n@whenRun(\"/bin/x\", args=\"-v\")\n@expectOutput(\"stdout\")\nhi\n@endtest\n"))) =
    .ok ⟨⟨ascii "b.test", by decide⟩, [{ makeProgramRunnerTest with
      name := some (ascii "t")
      flags := testCompleteMask
      programPath := some (ascii "/bin/x")
      programArgs := some (ascii "-v")
      expectedStdout := some (ascii "hi") }]⟩ := by
  decide +kernel

end JCUnit
