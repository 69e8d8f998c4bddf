import JCUnit.Foundation.Loops
import JCUnit.Runner.StaticStorage
import JCUnit.Suites.ShowResult
import JCUnit.Suites.Stdout

/-!
# Running all suites

`run_suites` with its two modes and what `main` does around it, as programs that change
the state of a session. What the system answers during a call of `test_run` may depend
on the number of the call and on what jcunit's stdout has not written out, which a
child process inherits.
-/

namespace JCUnit

open Loops

def runModePassthrough : UInt32 := 1
def runModeDetail : UInt32 := 2

/-- `TEST_RESULT_PER_LINE` -/
def testResultPerLine : UInt32 := 50

/-- What a session is started with, and the answers of the system. `elapsedMs` is the sum of the
measured times, as it is printed. -/
structure Surroundings where
  host : Nat → Bytes → Host
  buffering : Buffering
  useColors : Bool
  noSummary : Bool
  elapsedMs : UInt32

/-- A call of `test_run`: the test, what stdout had not written out, what was done to the system,
what was captured of the child if one was started, and the result. -/
structure TestCall where
  test : SuiteTest
  unflushed : Bytes
  events : List HostEvent
  captured : Option CapturedOutput
  result : TestResult
deriving DecidableEq

structure TestSession where
  iterator : TestIterator
  results : TestsResults
  out : Stdout
  storage : StaticStorage
  calls : List TestCall
deriving DecidableEq

def TestSession.start : TestSession where
  iterator := testIteratorInitBySuites []
  results := makeTestsResults 0
  out := .empty
  storage := .zeroed
  calls := []

abbrev TestSessionM := EStateM Halt TestSession

/-- `fprintf` to stdout. -/
def fprintf (env : Surroundings) (text : Bytes) : TestSessionM Unit :=
  modify fun s => { s with out := s.out.print env.buffering text }

/-- A result that is not an error of the C program. -/
def orHalt {α : Type} : Except Halt α → TestSessionM α
  | .ok a => pure a
  | .error halt => throw halt

/-- `test_run` as the next call of the session, with the static variables as they are. -/
def callTestRun (env : Surroundings) (test : SuiteTest) : TestSessionM TestResult := fun s =>
  let unflushed := s.out.unflushed
  match Static.testRun (env.host s.calls.length unflushed) test.test ⟨s.storage, [], none⟩ with
  | .ok result state =>
      .ok result { s with
        storage := state.storage
        calls := s.calls ++ [⟨test, unflushed, state.events, state.captured, result⟩] }
  | .error halt state => .error halt { s with storage := state.storage }

/-- `test_runner`, the function every test is visited with. -/
def testRunner (env : Surroundings) (test : SuiteTest) (currentIndex : UInt32) :
    TestSessionM TestRecord := do
  let result ← callTestRun env test
  let s ← get
  let results ← orHalt (addTestResultToTestSuiteResult s.results (.of test result) currentIndex)
  set { s with results }
  return .of test result

def testIteratorVisit (env : Surroundings) : TestSessionM (Option TestRecord) := do
  let s ← get
  if s.iterator.finished then return none
  else
    let test ← orHalt s.iterator.current
    let record ← testRunner env test s.iterator.cursor
    modify fun s => { s with iterator := s.iterator.next }
    return some record

/-- The heading before the first test of a suite; suites are compared by their places. -/
def printSuiteHeading (env : Surroundings) (previousTestSuite : Option Nat) (test : SuiteTest) :
    TestSessionM Unit :=
  if previousTestSuite ≠ some test.suite then
    fprintf env (ascii "Test Suite: " ++ test.suiteName.bytes ++ [newline])
  else return ()

/-- The result of a visited test, and the blank line behind the last test of its suite. -/
def showInDetail (env : Surroundings) (currentTestSuite : Nat) (record : TestRecord) :
    TestSessionM Unit := do
  let text ← orHalt (showTestResultInDetailMode env.useColors record)
  fprintf env text
  let s ← get
  let nextTest ← orHalt s.iterator.currentSafe
  if nextTest.map SuiteTest.suite ≠ some currentTestSuite then fprintf env [newline]
  else return ()

/-- A round of the loop in detail mode, with `previous_test_suite`. -/
def detailRound (env : Surroundings) (previousTestSuite : Option Nat) :
    TestSessionM (Option (Option Nat)) := do
  let s ← get
  if s.iterator.finished then return none
  else
    let current ← orHalt s.iterator.current
    printSuiteHeading env previousTestSuite current
    match ← testIteratorVisit env with
    | none => return none
    | some record =>
        showInDetail env current.suite record
        return some (some current.suite)

/-- The mark of a visited test, and the percentage behind a full line; the number of marks in
the line is returned. -/
def showInPassthrough (env : Surroundings) (testResultInLine : UInt32) (record : TestRecord) :
    TestSessionM UInt32 := do
  fprintf env (showTestResultInPassthroughMode record)
  let testResultInLine := testResultInLine + 1
  if testResultInLine = testResultPerLine then
    let s ← get
    fprintf env (ascii " (" ++
      padLeft 3 32 (decimal (s.iterator.cursor * 100 / s.iterator.testsCount).toNat) ++ ascii "%)\n")
    return 0
  else return testResultInLine

/-- A round of the loop in passthrough mode, with `test_result_in_line`. -/
def passthroughRound (env : Surroundings) (testResultInLine : UInt32) :
    TestSessionM (Option UInt32) := do
  let s ← get
  if s.iterator.finished then return none
  else
    match ← testIteratorVisit env with
    | none => return none
    | some record =>
        let testResultInLine ← showInPassthrough env testResultInLine record
        return some testResultInLine

/-- A colour around a text, where the condition for it holds. -/
def coloured (useIt : Bool) (colour text : Bytes) : Bytes :=
  if useIt then 27 :: colour ++ text ++ 27 :: ascii "[0m" else text

def printSummaryLine (useColors : Bool) (results : TestsResults) : Bytes :=
  let part := fun (colour label : Bytes) (count : UInt32) =>
    coloured (useColors && count > 0) colour (label ++ ascii ": " ++ decimal count.toNat)
  part (ascii "[32m") (ascii "Passed") results.passedCount ++ ascii ", " ++
    part (ascii "[33m") (ascii "Skipped") results.skippedCount ++ ascii ", " ++
    part (ascii "[31m") (ascii "Errors") results.errorCount ++ ascii ", " ++
    part (ascii "[31m") (ascii "Failed") results.failureCount ++ ascii ", " ++
    part (ascii "[33m") (ascii "Incomplete") results.incompleteCount

def printFinalSummary (useColors : Bool) (elapsedMs : UInt32) (results : TestsResults) : Bytes :=
  let minutes := elapsedMs / 60000
  let seconds := (elapsedMs % 60000) / 1000
  let ms := elapsedMs % 1000
  let hasFailures := results.failureCount > 0 || results.errorCount > 0
  let hasWarnings := results.skippedCount > 0 || results.incompleteCount > 0
  let warning := ascii "OK, but some tests were skipped or incomplete!"
  let verdict :=
    if useColors then
      if hasFailures then coloured true (ascii "[41;30m ") (ascii "FAILED! ")
      else if hasWarnings then coloured true (ascii "[43;30m ") (warning ++ ascii " ")
      else coloured true (ascii "[42;30m ") (ascii "OK! ")
    else if hasFailures then ascii "FAILED!"
    else if hasWarnings then warning
    else ascii "OK!"
  ascii "Time: " ++ padLeft 2 48 (decimal minutes.toNat) ++ ascii ":" ++
    padLeft 2 48 (decimal seconds.toNat) ++ ascii "." ++ padLeft 3 48 (decimal ms.toNat) ++
    [newline] ++ verdict ++ [newline] ++ printSummaryLine useColors results ++ [newline]

/-- The loops over the results: those with the status, numbered from one. -/
def printNumbered (status : TestResultStatus) (show_ : TestRecord → UInt32 → Except Halt Bytes) :
    List (Option TestRecord) → UInt32 → Except Halt Bytes
  | [], _ => .ok []
  | none :: _, _ => .error .undefined
  | some record :: records, number =>
      if record.result.status = status then do
        let text ← show_ record (number + 1)
        let rest ← printNumbered status show_ records (number + 1)
        return text ++ rest
      else printNumbered status show_ records number

/-- What passthrough mode prints below the progress marks about the errors and failures. -/
def printProblems (useColors : Bool) (results : TestsResults) : Except Halt Bytes := do
  let errors ←
    if results.errorCount > 0 then do
      let texts ← printNumbered .error showErrorTestResult results.results 0
      pure (ascii "There are " ++ decimal results.errorCount.toNat ++ ascii " errors:\n\n" ++ texts ++
        [newline])
    else .ok []
  let between :=
    if results.errorCount > 0 && results.failureCount > 0 then ascii "---\n\n" else []
  let failures ←
    if results.failureCount > 0 then do
      let texts ← printNumbered .failure (showFailureTestResult useColors) results.results 0
      pure (ascii "There are " ++ decimal results.failureCount.toNat ++ ascii " failures:\n\n" ++
        texts ++ [newline])
    else .ok []
  return errors ++ between ++ failures

/-- The blanks and the percentage that end a line of marks that is not full. -/
def fillLine (testResultInLine : UInt32) : Bytes :=
  if testResultInLine > 0 then
    List.replicate (testResultPerLine - testResultInLine).toNat 32 ++ ascii " (100%)"
  else []

/-- The loop of a mode, bounded by a number of rounds that no run reaches. -/
def visitAll {β : Type} (round : β → TestSessionM (Option β)) (b : β) : TestSessionM β := do
  let s ← get
  loop .diverged round (s.iterator.testsCount.toNat + 1) b

def runSuitesInDetailMode (env : Surroundings) : TestSessionM Unit := do
  let _ ← visitAll (detailRound env) none
  let s ← get
  if !env.noSummary then fprintf env (printFinalSummary env.useColors env.elapsedMs s.results)

def runSuitesInPassthroughMode (env : Surroundings) : TestSessionM Unit := do
  let testResultInLine ← visitAll (passthroughRound env) 0
  fprintf env (fillLine testResultInLine ++ ascii "\n\n")
  let s ← get
  fprintf env (← orHalt (printProblems env.useColors s.results))
  if env.noSummary then fprintf env (printSummaryLine env.useColors s.results ++ [newline])
  else fprintf env (printFinalSummary env.useColors env.elapsedMs s.results)

/-- The function for a run mode, if there is one. -/
def testModeRunner (runMode : UInt32) : Except Halt (Surroundings → TestSessionM Unit) :=
  if runMode = runModeDetail then .ok runSuitesInDetailMode
  else if runMode = runModePassthrough then .ok runSuitesInPassthroughMode
  else .error (fatalError (ascii "The unknown running mode '" ++ decimal runMode.toNat ++ ascii "'!"))

/-- The iterator and the results, before the first test is run. -/
def TestSession.init (suites : List TestSuite) (s : TestSession) : TestSession :=
  let iterator := testIteratorInitBySuites suites
  { s with iterator, results := makeTestsResults iterator.testsCount }

def runSuites (env : Surroundings) (suites : List TestSuite) (runMode : UInt32) :
    TestSessionM Unit := do
  let runner ← orHalt (testModeRunner runMode)
  modify (TestSession.init suites)
  runner env

/-- `main` from the suites it has read to its exit code. -/
def mainRun (env : Surroundings) (suites : List TestSuite) (runMode : UInt32) : TestSessionM Nat := do
  if getTotalTestsCount suites = 0 then
    fprintf env (ascii "No tests executed!\n")
    return 0
  else
    runSuites env suites runMode
    let s ← get
    set { s with out := s.out.fflush }
    return if s.results.errorCount > 0 ∨ s.results.failureCount > 0 then 2 else 0

end JCUnit
