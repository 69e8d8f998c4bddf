import JCUnit.Diff.PrintDiff
import JCUnit.Suites.TestIterator

/-!
# Showing a result

`show-result.c` as the text each function prints. A result that is smaller than the
cast expects, a pointer that is `NULL`, or a diff that is larger than a blob of the
memory pool, leaves the behaviour undefined.
-/

namespace JCUnit

/-- `%u` and `%d` of a number that is not negative. -/
def decimal (n : Nat) : Bytes := ascii (toString n)

/-- A field width: the text is filled up at its left. -/
def padLeft (width : Nat) (fill : Byte) (text : Bytes) : Bytes :=
  List.replicate (width - text.length) fill ++ text

/-- What a pointer to a string points to, as `%s` prints it. -/
def deref (string : Option Bytes) : Except Halt Bytes :=
  match string with
  | some bytes => .ok (cstr bytes)
  | none => .error .undefined

def TestResult.name : TestResult → Option Bytes
  | .plain base => base.name
  | .programRunner result => result.base.name

def TestResult.kind : TestResult → UInt32
  | .plain base => base.kind
  | .programRunner result => result.base.kind

/-- The cast to `struct program_runner_test_result *`. -/
def TestResult.asProgramRunner : TestResult → Except Halt ProgramRunnerTestResult
  | .plain _ => .error .undefined
  | .programRunner result => .ok result

def stringifyTestStatus (status : TestResultStatus) (useShortVersion : Bool) : Bytes :=
  match status with
  | .pass => if useShortVersion then ascii "." else ascii "PASS"
  | .failure => if useShortVersion then ascii "F" else ascii "FAIL"
  | .incomplete => if useShortVersion then ascii "I" else ascii "INCOMPLETE"
  | .error => if useShortVersion then ascii "E" else ascii "ERROR"
  | .skipped => if useShortVersion then ascii "S" else ascii "SKIPPED"

def printProgramRunnerError (result : ProgramRunnerTestResult) : Except Halt Bytes :=
  match result.errorCode with
  | .none => return []
  | .fileNotFound => return ascii "The file \"" ++ (← deref result.executable) ++ ascii "\" was not found!\n"
  | .notExecutable => return ascii "The file \"" ++ (← deref result.executable) ++ ascii "\" is not executable!\n"
  | .readChildData => return ascii "Can't read the program data!\n"
  | .outputTooLong => return ascii "The program output is too long!\n"

/-- The `switch` on the kind of a result. -/
def printError (result : TestResult) : Except Halt Bytes := do
  if result.kind = testResultKindProgramRunner then
    let result ← result.asProgramRunner
    printProgramRunnerError result
  else return []

def printExitCode (result : ProgramRunnerTestResult) : Bytes :=
  if result.exitCode ≠ 0 then ascii "[exit code] " ++ ascii (toString result.exitCode) ++ [newline]
  else []

/-- The diff of a stream that has an expected or an actual text, below its heading. -/
def printStreamDiff (useColors : Bool) (heading : Bytes) (expected actual : Option Bytes) :
    Except Halt Bytes := do
  if expected.isSome || actual.isSome then
    let diff ← printDiff useColors expected actual
    return heading ++ diff
  else return []

def printStreamDiffs (useColors : Bool) (result : ProgramRunnerTestResult) : Except Halt Bytes := do
  let hasBoth := (result.expectedStdout.isSome || result.actualStdout.isSome) &&
    (result.expectedStderr.isSome || result.actualStderr.isSome)
  let stdout ← printStreamDiff useColors (if hasBoth then ascii "[stdout]\n" else [])
    result.expectedStdout result.actualStdout
  let stderr ← printStreamDiff useColors (if hasBoth then ascii "[stderr]\n" else [])
    result.expectedStderr result.actualStderr
  return stdout ++ stderr

/-- The lines of a stream, each with a mark before it; a line is printed up to a NUL. -/
def printStderrLines : Bytes → Bytes → Bytes
  | [], [] => []
  | line, [] => ascii "[stderr] " ++ cstr line ++ [newline]
  | line, b :: rest =>
      if b = newline then ascii "[stderr] " ++ cstr line ++ [newline] ++ printStderrLines [] rest
      else printStderrLines (line ++ [b]) rest

def printStderrOutput (record : TestRecord) (result : ProgramRunnerTestResult) :
    Except Halt Bytes :=
  match record.test with
  | none => .error .undefined
  | some test =>
      if test.test.expectedStderr.isSome then return []
      else return printStderrLines [] (result.stderrOutput.getD [])

/-- `show_test_result_in_detail_mode` -/
def showTestResultInDetailMode (useColors : Bool) (record : TestRecord) : Except Halt Bytes := do
  let status := record.result.status
  let name ← deref record.result.name
  let line := ascii "    " ++ padLeft 10 32 (stringifyTestStatus status false) ++ [32] ++ name ++ [newline]
  match status with
  | .incomplete | .pass | .skipped => return line
  | .error =>
      let error ← printError record.result
      return line ++ error
  | .failure =>
      let result ← record.result.asProgramRunner
      let diffs ← printStreamDiffs useColors result
      let stderrOutput ← printStderrOutput record result
      return line ++ diffs ++ printExitCode result ++ stderrOutput

def showTestResultInPassthroughMode (record : TestRecord) : Bytes :=
  stringifyTestStatus record.result.status true

/-- The line before an error or a failure in the list of them. -/
def showNumbered (number : UInt32) (record : TestRecord) : Except Halt Bytes := do
  match record.test with
  | none => .error .undefined
  | some test =>
      let name ← deref record.result.name
      return decimal number.toNat ++ ascii ") " ++ test.suiteName.bytes ++ ascii " : " ++ name ++ [newline]

/-- The check in front of the cast. -/
def checkKind (result : TestResult) : Except Halt ProgramRunnerTestResult :=
  if result.kind ≠ testResultKindProgramRunner then
    .error (fatalError (ascii "An unknown test result!"))
  else result.asProgramRunner

def showErrorTestResult (record : TestRecord) (errorNumber : UInt32) : Except Halt Bytes := do
  let result ← checkKind record.result
  let heading ← showNumbered errorNumber record
  let error ← printError record.result
  let stderrOutput ← printStderrOutput record result
  return heading ++ error ++ stderrOutput

def showFailureTestResult (useColors : Bool) (record : TestRecord) (failureNumber : UInt32) :
    Except Halt Bytes := do
  let result ← checkKind record.result
  let heading ← showNumbered failureNumber record
  let diffs ← printStreamDiffs useColors result
  let stderrOutput ← printStderrOutput record result
  return heading ++ diffs ++ printExitCode result ++ stderrOutput

example : showTestResultInDetailMode false ⟨none, .plain ⟨some (ascii "t"), .skipped, 1⟩⟩ =
    .ok (ascii "       SKIPPED t\n") := by
  decide

end JCUnit
