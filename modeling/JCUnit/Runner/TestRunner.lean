import JCUnit.Foundation.StateError
import JCUnit.Matching.PatternMatch
import JCUnit.Runner.BuildArgs
import JCUnit.Runner.ChildProcess

/-!
# Running a test

`test_run` and what it calls, as programs that leave a trace of what they do to the
system. The answers of the system during one test are given.
-/

namespace JCUnit

/-- The portable filename character set. -/
def isPortableChar (b : Byte) : Bool :=
  (65 ≤ b && b ≤ 90) || (97 ≤ b && b ≤ 122) || (48 ≤ b && b ≤ 57) || b = 46 || b = 95 || b = 45

/-- What `mkstemp` puts for the last six characters of its template. -/
structure TemporarySuffix where
  bytes : Bytes
  six : bytes.length = 6
  portable : ∀ b ∈ bytes, isPortableChar b = true
deriving DecidableEq

/-- What the system answers while a test runs. A call that fails gives the text of its error. -/
structure Host where
  programExists : Bool
  programExecutable : Bool
  mkstemp : Except Bytes TemporarySuffix
  fopenError : Option Bytes
  stdinPipeError : Option Bytes
  stdoutPipeError : Option Bytes
  stderrPipeError : Option Bytes
  forkError : Option Bytes
  exchange : ExchangeEnd
  child : ChildOutcome

inductive HostEvent
  | created (path : CString) (content : Bytes)
  | unlinked (path : CString)
  | started (program : CString) (argv : List Bytes) (stdinInput : Option Bytes)
deriving DecidableEq

abbrev RunM := EStateM Halt (List HostEvent)

def perform (event : HostEvent) : RunM Unit :=
  modify fun events => events ++ [event]

def ofExcept {α : Type} : Except Halt α → RunM α
  | .ok a => pure a
  | .error halt => throw halt

def runFatal {α : Type} (message : Bytes) : RunM α := throw (fatalError message)

inductive TestResultStatus
  | pass
  | failure
  | incomplete
  | error
  | skipped
deriving DecidableEq

def testResultKindProgramRunner : UInt32 := 1

structure AbstractTestResult where
  name : Option Bytes
  status : TestResultStatus
  kind : UInt32
deriving DecidableEq

structure ProgramRunnerTestResult where
  base : AbstractTestResult
  givenFilename : Option Bytes
  executable : Option Bytes
  stderrOutput : Option Bytes
  expectedStdout : Option Bytes
  actualStdout : Option Bytes
  expectedStderr : Option Bytes
  actualStderr : Option Bytes
  errorCode : ErrorCode
  exitCode : Int
deriving DecidableEq

/-- What the pointer returned by `test_run` points to. -/
inductive TestResult
  | plain (base : AbstractTestResult)
  | programRunner (result : ProgramRunnerTestResult)
deriving DecidableEq

def TestResult.status : TestResult → TestResultStatus
  | .plain base => base.status
  | .programRunner result => result.base.status

/-- The size of the buffer `given_filename`. -/
def maxTestGivenFilenameLen : Nat := 255

def givenFilenamePrefix : Bytes := ascii "/tmp/"

/-- `jcunit_given_file_template` without its last six characters. -/
def givenFileTemplate : Bytes := ascii "/tmp/jcunit_gf_XXXXXX"

/-- A difference computed in `size_t`. -/
def sizeSub (a b : Nat) : Nat := (a + 2 ^ 64 - b) % 2 ^ 64

def resolveGivenFilename (host : Host) (test : ProgramRunnerTest) : RunM CString := do
  match test.givenFilename with
  | some filename =>
      if maxTestGivenFilenameLen ≤ sizeSub (sizeSub filename.length givenFilenamePrefix.length) 1 then
        runFatal (ascii "Too long 'filename' of the 'given' requirement!")
      -- `sprintf` writes the name with its NUL, however long it is
      else if maxTestGivenFilenameLen < givenFilenamePrefix.length + (cstr filename).length + 1 then
        throw .undefined
      else return CString.ofBuffer (givenFilenamePrefix ++ filename)
  | none =>
      match host.mkstemp with
      | .error text => runFatal (ascii "Cannot create temporary file: \"" ++ text ++ ascii "\"!")
      | .ok suffix =>
          let path := CString.ofBuffer (givenFileTemplate ++ suffix.bytes)
          perform (.created path [])
          return path

def makeGivenFile (host : Host) (filename : CString) (content : Option Bytes) : RunM Unit :=
  match host.fopenError with
  | some text => runFatal (ascii "Can't open the file: " ++ text ++ ascii "!\n")
  | none => perform (.created filename (content.getD []))

/-- The file of the test's `given`, after it has been created if it has to be. -/
def prepareGiven (host : Host) (test : ProgramRunnerTest) : RunM (Option Bytes) := do
  if test.givenType = givenTypeFile then
    let filename ← resolveGivenFilename host test
    makeGivenFile host filename test.givenFileContent
    return some filename.bytes
  else if test.givenType = givenTypeReference then return test.givenPath
  else return none

/-- `stdin_input`: the bytes for the child's standard input, if it gets any. -/
def stdinInput (test : ProgramRunnerTest) : Option Bytes :=
  if test.givenType = givenTypeStdin then some (test.givenFileContent.getD []) else none

def checkCall (failed : Option Bytes) (what : Bytes) : RunM Unit :=
  match failed with
  | some text => runFatal (what ++ ascii ": \"" ++ text ++ ascii "\"!")
  | none => return ()

def childProcessRun (host : Host) (path : CString) (argv : List Bytes) (stdinInput : Option Bytes) :
    RunM ChildOutcome := do
  checkCall (if stdinInput.isSome then host.stdinPipeError else none)
    (ascii "Cannot create stdin pipe")
  checkCall host.stdoutPipeError (ascii "Cannot create stdout pipe")
  checkCall host.stderrPipeError (ascii "Cannot create stderr pipe")
  checkCall host.forkError (ascii "Cannot fork the child process")
  perform (.started path argv stdinInput)
  match host.exchange.halt stdinInput with
  | none => return host.child
  | some halt => throw halt

/-- What `try_to_run_program` leaves in its three output parameters. -/
structure ProgramRun where
  stdout : ProcessOutput
  stderr : ProcessOutput
  exitCode : Int
deriving DecidableEq

/-- The outputs of a program that is not started. -/
def notStarted (errorCode : ErrorCode) : ProgramRun := ⟨⟨[], errorCode⟩, ⟨[], .none⟩, 0⟩

def tryToRunProgram (host : Host) (program : CString) (filename extraArgs : Option CString)
    (stdinInput : Option Bytes) : RunM ProgramRun := do
  let args ← ofExcept (buildArgs program filename extraArgs)
  if !host.programExists then return notStarted .fileNotFound
  else if !host.programExecutable then return notStarted .notExecutable
  else
    let child ← childProcessRun host program args stdinInput
    return ⟨child.output .stdout, child.output .stderr, child.exitCode⟩

def isTestPasses (expected : Option Bytes) (output : ProcessOutput) : Bool :=
  match expected with
  | some expected => patternMatch expected output.bytes
  | none => false

/-- A stream with an expectation that its output does not meet. -/
def streamFails (expected : Option Bytes) (output : ProcessOutput) : Bool :=
  expected.isSome && !isTestPasses expected output

/-- The result before the outputs are compared, with the status of an error. -/
def makeProgramRunnerTestResult (test : ProgramRunnerTest) (givenFilename : Option Bytes)
    (run : ProgramRun) : ProgramRunnerTestResult where
  base := ⟨test.name, .error, testResultKindProgramRunner⟩
  givenFilename
  executable := test.programPath
  stderrOutput := if 0 < run.stderr.bytes.length then some run.stderr.bytes else none
  expectedStdout := none
  actualStdout := none
  expectedStderr := none
  actualStderr := none
  errorCode := run.stdout.errorCode
  exitCode := run.exitCode

/-- `pass` at the end of `program_runner_test_runner`. -/
def testPasses (test : ProgramRunnerTest) (run : ProgramRun) : Bool :=
  !streamFails test.expectedStdout run.stdout && !streamFails test.expectedStderr run.stderr &&
    -- a non-zero exit code with unexpected stderr is a failure
    !(run.exitCode ≠ 0 && 0 < run.stderr.bytes.length && test.expectedStderr.isNone)

/-- The result for the outputs of the program. -/
def judge (test : ProgramRunnerTest) (givenFilename : Option Bytes) (run : ProgramRun) :
    ProgramRunnerTestResult :=
  let result := makeProgramRunnerTestResult test givenFilename run
  if run.stdout.errorCode ≠ .none then result
  else
    { result with
      base := { result.base with status := if testPasses test run then .pass else .failure }
      expectedStdout :=
        if streamFails test.expectedStdout run.stdout then test.expectedStdout else none
      actualStdout :=
        if streamFails test.expectedStdout run.stdout then some run.stdout.bytes else none
      expectedStderr :=
        if streamFails test.expectedStderr run.stderr then test.expectedStderr else none
      actualStderr :=
        if streamFails test.expectedStderr run.stderr then some run.stderr.bytes else none }

/-- The end of a given file. -/
def removeGivenFile (test : ProgramRunnerTest) (givenFilename : Option Bytes) : RunM Unit :=
  if test.givenType = givenTypeFile then
    perform (.unlinked (CString.ofBuffer (givenFilename.getD [])))
  else return ()

def programRunnerTestRunner (host : Host) (test : ProgramRunnerTest) :
    RunM ProgramRunnerTestResult := do
  let givenFilename ← prepareGiven host test
  match test.programPath with
  -- the runner reads `executable->value` without a check
  | none => throw .undefined
  | some executable =>
      let run ← tryToRunProgram host (CString.ofBuffer executable)
        (givenFilename.map CString.ofBuffer) (test.programArgs.map CString.ofBuffer)
        (stdinInput test)
      removeGivenFile test givenFilename
      return judge test givenFilename run

def runIncompleteTest (test : ProgramRunnerTest) : AbstractTestResult :=
  ⟨test.name, .incomplete, testResultKindProgramRunner⟩

def runSkippedTest (test : ProgramRunnerTest) : AbstractTestResult :=
  ⟨test.name, .skipped, testResultKindProgramRunner⟩

def ProgramRunnerTest.isIncomplete (test : ProgramRunnerTest) : Bool :=
  test.flags &&& testFlagIncomplete ≠ 0

def ProgramRunnerTest.isSkipped (test : ProgramRunnerTest) : Bool :=
  test.flags &&& testFlagSkipped ≠ 0

def testRun (host : Host) (test : ProgramRunnerTest) : RunM TestResult := do
  if test.isIncomplete then return .plain (runIncompleteTest test)
  else if test.isSkipped then return .plain (runSkippedTest test)
  else if test.kind = testKindProgramRunner then
    return .programRunner (← programRunnerTestRunner host test)
  else
    match test.name with
    | some name => runFatal (ascii "There is no any runner to run the test \"" ++ cstr name ++ ascii "\"!")
    | none => throw .undefined

end JCUnit
