import JCUnit.Memory.Pool
import JCUnit.Runner.TestRunner

/-!
# The flattened list of tests and the results

`test-iterator.c` copies the tests of all suites into one array and walks through it
with a cursor; `make_tests_results` and `add_test_result_to_test_suite_result` keep an
array of results of the same length and five counters. Both arrays are blocks of the
memory pool, so they have their room as long as there are no more than
`pointersPerBlob` tests; the arrays here have it for any number.
-/

namespace JCUnit

/-- A test with what its `test_suite` points to: the suite at this place of the list. -/
structure SuiteTest where
  suite : Nat
  suiteName : CString
  test : ProgramRunnerTest
deriving DecidableEq

/-- `tests_count` -/
def TestSuite.testsCount (suite : TestSuite) : UInt32 := UInt32.ofNat suite.tests.length

def getTotalTestsCount (suites : List TestSuite) : UInt32 :=
  suites.foldl (fun testsCount suite => testsCount + suite.testsCount) 0

structure TestIterator where
  tests : List SuiteTest
  testsCount : UInt32
  cursor : UInt32
deriving DecidableEq

/-- The inner loop of `test_iterator_init_by_suites`; the next free place is the end. -/
def appendTests (tests : List SuiteTest) (suite : TestSuite × Nat) : List SuiteTest :=
  suite.1.tests.foldl (fun tests test => tests ++ [⟨suite.2, suite.1.name, test⟩]) tests

def testIteratorInitBySuites (suites : List TestSuite) : TestIterator where
  tests := suites.zipIdx.foldl appendTests []
  testsCount := getTotalTestsCount suites
  cursor := 0

def TestIterator.finished (iterator : TestIterator) : Bool :=
  iterator.cursor ≥ iterator.testsCount

/-- `test_iterator_current`, where there is a test at the cursor. -/
def TestIterator.current (iterator : TestIterator) : Except Halt SuiteTest :=
  match iterator.tests[iterator.cursor.toNat]? with
  | some test => .ok test
  | none => .error .undefined

def TestIterator.next (iterator : TestIterator) : TestIterator :=
  { iterator with cursor := iterator.cursor + 1 }

/-- `test_iterator_current_safe` -/
def TestIterator.currentSafe (iterator : TestIterator) : Except Halt (Option SuiteTest) :=
  if iterator.finished then .ok none else iterator.current.map some

/-- A result with what its `test` field points to. -/
structure TestRecord where
  test : Option SuiteTest
  result : TestResult
deriving DecidableEq

/-- The results of tests that are not run have `NULL` in their `test` field. -/
def TestRecord.of (test : SuiteTest) (result : TestResult) : TestRecord where
  test :=
    match result with
    | .plain _ => none
    | .programRunner _ => some test
  result := result

/-- `struct tests_results`; a place of the array that is not set is `none`. -/
structure TestsResults where
  results : List (Option TestRecord)
  resultsCount : UInt32
  passedCount : UInt32
  skippedCount : UInt32
  failureCount : UInt32
  incompleteCount : UInt32
  errorCount : UInt32
deriving DecidableEq

def makeTestsResults (totalTestsCount : UInt32) : TestsResults where
  results := List.replicate totalTestsCount.toNat none
  resultsCount := totalTestsCount
  passedCount := 0
  skippedCount := 0
  failureCount := 0
  incompleteCount := 0
  errorCount := 0

/-- The `switch` on the status. -/
def TestsResults.count (results : TestsResults) : TestResultStatus → TestsResults
  | .pass => { results with passedCount := results.passedCount + 1 }
  | .failure => { results with failureCount := results.failureCount + 1 }
  | .incomplete => { results with incompleteCount := results.incompleteCount + 1 }
  | .error => { results with errorCount := results.errorCount + 1 }
  | .skipped => { results with skippedCount := results.skippedCount + 1 }

def addTestResultToTestSuiteResult (results : TestsResults) (record : TestRecord)
    (resultIndex : UInt32) : Except Halt TestsResults :=
  if resultIndex.toNat < results.results.length then
    .ok (({ results with results := results.results.set resultIndex.toNat (some record) }).count
      record.result.status)
  else .error .undefined

/-- The counter of a status. -/
def TestsResults.counter (results : TestsResults) : TestResultStatus → UInt32
  | .pass => results.passedCount
  | .failure => results.failureCount
  | .incomplete => results.incompleteCount
  | .error => results.errorCount
  | .skipped => results.skippedCount

section Flattening

theorem appendTests_eq (tests : List SuiteTest) (suite : TestSuite × Nat) :
    appendTests tests suite =
      tests ++ suite.1.tests.map fun test => ⟨suite.2, suite.1.name, test⟩ := by
  unfold appendTests
  induction suite.1.tests generalizing tests with
  | nil => exact (List.append_nil tests).symm
  | cons test rest ih =>
      rw [List.foldl_cons, ih, List.append_assoc]
      rfl

/-- The array of the iterator holds the tests of the suites one suite after the other. -/
theorem foldl_appendTests (suites : List (TestSuite × Nat)) (tests : List SuiteTest) :
    (suites.foldl appendTests tests).map SuiteTest.test =
      tests.map SuiteTest.test ++ (suites.map Prod.fst).flatMap TestSuite.tests := by
  induction suites generalizing tests with
  | nil => simp
  | cons suite suites ih =>
      rw [List.foldl_cons, ih, appendTests_eq, List.map_append, List.map_map, List.append_assoc,
        List.map_cons, List.flatMap_cons]
      congr 2
      exact List.map_id' suite.1.tests

theorem init_tests (suites : List TestSuite) :
    (testIteratorInitBySuites suites).tests.map SuiteTest.test = suites.flatMap TestSuite.tests := by
  have hflat := foldl_appendTests suites.zipIdx []
  rw [List.zipIdx_map_fst] at hflat
  exact hflat

theorem toNat_foldl_testsCount (suites : List TestSuite) (count : UInt32)
    (h : count.toNat + (suites.flatMap TestSuite.tests).length < 2 ^ 32) :
    (suites.foldl (fun testsCount suite => testsCount + suite.testsCount) count).toNat =
      count.toNat + (suites.flatMap TestSuite.tests).length := by
  induction suites generalizing count with
  | nil => rfl
  | cons suite suites ih =>
      rw [List.flatMap_cons, List.length_append] at h
      have hsum : (count + suite.testsCount).toNat = count.toNat + suite.tests.length := by
        rw [TestSuite.testsCount, UInt32.toNat_add, UInt32.toNat_ofNat']
        omega
      rw [List.foldl_cons, ih _ (by rw [hsum]; omega), hsum, List.flatMap_cons,
        List.length_append, Nat.add_assoc]

/-- While the number of tests fits, it is what is counted. -/
theorem toNat_getTotalTestsCount (suites : List TestSuite)
    (h : (suites.flatMap TestSuite.tests).length < 2 ^ 32) :
    (getTotalTestsCount suites).toNat = (suites.flatMap TestSuite.tests).length := by
  have hzero : (0 : UInt32).toNat + (suites.flatMap TestSuite.tests).length < 2 ^ 32 := by
    rw [UInt32.toNat_zero, Nat.zero_add]
    exact h
  rw [getTotalTestsCount, toNat_foldl_testsCount suites 0 hzero]
  exact Nat.zero_add _

end Flattening

section Counting

variable {results results' : TestsResults} {record : TestRecord} {index : UInt32}

/-- Counting a status adds one to its counter and leaves everything else. -/
theorem TestsResults.count_eq (results : TestsResults) (status : TestResultStatus) :
    (results.count status).results = results.results ∧
      (results.count status).resultsCount = results.resultsCount ∧
      ∀ other, (results.count status).counter other =
        if status = other then results.counter other + 1 else results.counter other := by
  cases status
  all_goals
    refine ⟨rfl, rfl, ?_⟩
    intro other
    cases other <;> rfl

theorem TestsResults.counter_withResults (results : TestsResults)
    (records : List (Option TestRecord)) (status : TestResultStatus) :
    ({ results with results := records } : TestsResults).counter status = results.counter status := by
  cases status <;> rfl

/-- Adding a result sets its place and counts its status. -/
theorem addTestResult_eq_ok
    (h : addTestResultToTestSuiteResult results record index = .ok results') :
    results'.results = results.results.set index.toNat (some record) ∧
      results'.resultsCount = results.resultsCount ∧
      ∀ status, results'.counter status =
        if record.result.status = status then results.counter status + 1
        else results.counter status := by
  rw [addTestResultToTestSuiteResult] at h
  split at h
  · cases h
    obtain ⟨hresults, hcount, hcounter⟩ := TestsResults.count_eq
      { results with results := results.results.set index.toNat (some record) } record.result.status
    refine ⟨hresults, hcount, ?_⟩
    intro status
    rw [hcounter, TestsResults.counter_withResults]
  · cases h

end Counting

end JCUnit
