import JCUnit.Runner.Verdict
import JCUnit.Suites.ProgressLayout

/-!
# Reports read only what is there

The functions that show a result follow pointers of it: to its name, to its test, and, after a
cast, to the fields of a program runner's result. What `test_run` returns for a test with a name
has all that they need, in both modes. What can fail is a diff: its table has to fit a blob of the
memory pool. So a session ends early in the run of a test or in a diff.
-/

namespace JCUnit

open StateError Loops

section Diffs

/-- Both diffs of a result fit the memory pool. A stream that is not shown has no lines. -/
def ProgramRunnerTestResult.DiffsFit (result : ProgramRunnerTestResult) : Prop :=
  DiffFits (result.expectedStdout.getD []) (result.actualStdout.getD []) ∧
    DiffFits (result.expectedStderr.getD []) (result.actualStderr.getD [])

/-- A failure with a diff that does not fit the memory pool. -/
def TestResult.Oversized : TestResult → Prop
  | .plain _ => False
  | .programRunner result => result.base.status = .failure ∧ ¬result.DiffsFit

theorem diffFits_nil : DiffFits [] [] := by decide

theorem printStreamDiff_cases (useColors : Bool) (heading : Bytes) (expected actual : Option Bytes) :
    (DiffFits (expected.getD []) (actual.getD []) ∧
        ∃ text, printStreamDiff useColors heading expected actual = .ok text) ∨
      (¬DiffFits (expected.getD []) (actual.getD []) ∧
        printStreamDiff useColors heading expected actual = .error .undefined) := by
  by_cases hshown : (expected.isSome || actual.isSome) = true
  · unfold printStreamDiff printDiff
    rw [if_pos hshown, diffLines_eq]
    by_cases hfits : DiffFits (expected.getD []) (actual.getD [])
    · rw [if_pos hfits]
      exact Or.inl ⟨hfits, _, rfl⟩
    · rw [if_neg hfits]
      exact Or.inr ⟨hfits, rfl⟩
  · unfold printStreamDiff
    rw [if_neg hshown]
    rw [Bool.or_eq_true, not_or, Option.not_isSome_iff_eq_none, Option.not_isSome_iff_eq_none] at hshown
    rw [hshown.1, hshown.2]
    exact Or.inl ⟨diffFits_nil, _, rfl⟩

theorem printStreamDiffs_cases (useColors : Bool) (result : ProgramRunnerTestResult) :
    (result.DiffsFit ∧ ∃ text, printStreamDiffs useColors result = .ok text) ∨
      (¬result.DiffsFit ∧ printStreamDiffs useColors result = .error .undefined) := by
  unfold printStreamDiffs
  dsimp only
  generalize ((result.expectedStdout.isSome || result.actualStdout.isSome) &&
    (result.expectedStderr.isSome || result.actualStderr.isSome)) = hasBoth
  rcases printStreamDiff_cases useColors (if hasBoth = true then ascii "[stdout]\n" else [])
    result.expectedStdout result.actualStdout with ⟨hstdout, out, hout⟩ | ⟨hstdout, hout⟩
  · rcases printStreamDiff_cases useColors (if hasBoth = true then ascii "[stderr]\n" else [])
      result.expectedStderr result.actualStderr with ⟨hstderr, err, herr⟩ | ⟨hstderr, herr⟩
    · rw [hout, herr]
      exact Or.inl ⟨⟨hstdout, hstderr⟩, _, rfl⟩
    · rw [hout, herr]
      exact Or.inr ⟨fun hfits => hstderr hfits.2, rfl⟩
  · rw [hout]
    exact Or.inr ⟨fun hfits => hstdout hfits.1, rfl⟩

end Diffs

section Records

variable {record : TestRecord}

/-- What the reports read of a result is there. -/
structure TestRecord.Reportable (record : TestRecord) : Prop where
  kind : record.result.kind = testResultKindProgramRunner
  name : ∃ name, record.result.name = some name
  problem : record.result.status = .error ∨ record.result.status = .failure →
    ∃ result test executable, record.result = .programRunner result ∧ record.test = some test ∧
      result.executable = some executable

theorem testRun_reportable {host : Host} {test : SuiteTest} {result : TestResult}
    {events events' : List HostEvent} (hname : test.test.name.isSome = true)
    (hrun : testRun host test.test events = .ok result events') :
    (TestRecord.of test result).Reportable := by
  obtain ⟨name, hname⟩ := Option.isSome_iff_exists.mp hname
  unfold testRun at hrun
  split at hrun
  · obtain ⟨rfl, -⟩ := pure_eq_ok.mp hrun
    exact ⟨rfl, ⟨name, hname⟩, by rintro (hstatus | hstatus) <;> cases hstatus⟩
  split at hrun
  · obtain ⟨rfl, -⟩ := pure_eq_ok.mp hrun
    exact ⟨rfl, ⟨name, hname⟩, by rintro (hstatus | hstatus) <;> cases hstatus⟩
  split at hrun
  · obtain ⟨judged, events₁, hjudged, hresult⟩ := bind_eq_ok hrun
    obtain ⟨rfl, -⟩ := pure_eq_ok.mp hresult
    obtain ⟨filename, _, -, rfl, program, _, hprogram, -⟩ := programRunnerTestRunner_eq_ok hjudged
    have hbase : (judge test.test filename host.programRun).base.name = test.test.name := by
      unfold judge
      split <;> rfl
    have hkind : (judge test.test filename host.programRun).base.kind =
        testResultKindProgramRunner := by
      unfold judge
      split <;> rfl
    have hexecutable : (judge test.test filename host.programRun).executable = some program := by
      unfold judge
      split <;> exact hprogram
    exact ⟨hkind, ⟨name, hbase.trans hname⟩, fun _ => ⟨_, test, program, rfl, rfl, hexecutable⟩⟩
  · rw [hname] at hrun
    cases hrun

theorem exists_printProgramRunnerError {result : ProgramRunnerTestResult} {executable : Bytes}
    (h : result.executable = some executable) :
    ∃ text, printProgramRunnerError result = .ok text := by
  unfold printProgramRunnerError
  rw [h]
  cases result.errorCode <;> exact ⟨_, rfl⟩

theorem exists_printStderrOutput {test : SuiteTest} (h : record.test = some test)
    (result : ProgramRunnerTestResult) : ∃ text, printStderrOutput record result = .ok text := by
  unfold printStderrOutput
  simp only [h]
  split <;> exact ⟨_, rfl⟩

theorem TestRecord.Reportable.exists_showNumbered (h : record.Reportable) {test : SuiteTest}
    (htest : record.test = some test) (number : UInt32) :
    ∃ text, showNumbered number record = .ok text := by
  obtain ⟨name, hname⟩ := h.name
  unfold showNumbered
  rw [htest, hname]
  exact ⟨_, rfl⟩

theorem TestRecord.Reportable.printError_eq (h : record.Reportable) {result : ProgramRunnerTestResult}
    (hresult : record.result = .programRunner result) :
    printError record.result = printProgramRunnerError result := by
  unfold printError
  rw [if_pos h.kind, hresult]
  rfl

theorem TestRecord.Reportable.checkKind_eq (h : record.Reportable) {result : ProgramRunnerTestResult}
    (hresult : record.result = .programRunner result) : checkKind record.result = .ok result := by
  unfold checkKind
  rw [if_neg (not_not.mpr h.kind), hresult]
  rfl

theorem oversized_iff {result : ProgramRunnerTestResult}
    (hresult : record.result = .programRunner result) (hstatus : record.result.status = .failure) :
    record.result.Oversized ↔ ¬result.DiffsFit := by
  rw [hresult] at hstatus ⊢
  exact and_iff_right hstatus

theorem not_oversized_of_status {result : TestResult} (hstatus : result.status ≠ .failure) :
    ¬result.Oversized := by
  intro hover
  cases result with
  | plain base => exact hover
  | programRunner result => exact hstatus hover.1

/-- Detail mode can show every result whose diffs fit the memory pool. -/
theorem TestRecord.Reportable.showInDetail_cases (h : record.Reportable) (useColors : Bool) :
    (¬record.result.Oversized ∧ ∃ text, showTestResultInDetailMode useColors record = .ok text) ∨
      (record.result.Oversized ∧
        showTestResultInDetailMode useColors record = .error .undefined) := by
  obtain ⟨name, hname⟩ := h.name
  unfold showTestResultInDetailMode
  rw [hname]
  cases hstatus : record.result.status with
  | pass => exact Or.inl ⟨not_oversized_of_status (by rw [hstatus]; decide), _, rfl⟩
  | skipped => exact Or.inl ⟨not_oversized_of_status (by rw [hstatus]; decide), _, rfl⟩
  | incomplete => exact Or.inl ⟨not_oversized_of_status (by rw [hstatus]; decide), _, rfl⟩
  | error =>
      obtain ⟨result, _, _, hresult, -, hexecutable⟩ := h.problem (Or.inl hstatus)
      obtain ⟨error, herror⟩ := exists_printProgramRunnerError hexecutable
      rw [h.printError_eq hresult, herror]
      exact Or.inl ⟨not_oversized_of_status (by rw [hstatus]; decide), _, rfl⟩
  | failure =>
      obtain ⟨result, _, _, hresult, htest, -⟩ := h.problem (Or.inr hstatus)
      obtain ⟨output, houtput⟩ := exists_printStderrOutput htest result
      rw [oversized_iff hresult hstatus, not_not, hresult]
      dsimp only [TestResult.asProgramRunner, bind, Except.bind]
      rw [houtput]
      rcases printStreamDiffs_cases useColors result with ⟨hfits, diffs, hdiffs⟩ | ⟨hover, hdiffs⟩
      · rw [hdiffs]
        exact Or.inl ⟨hfits, _, rfl⟩
      · rw [hdiffs]
        exact Or.inr ⟨hover, rfl⟩

theorem TestRecord.Reportable.exists_showError (h : record.Reportable)
    (hstatus : record.result.status = .error) (number : UInt32) :
    ∃ text, showErrorTestResult record number = .ok text := by
  obtain ⟨result, test, _, hresult, htest, hexecutable⟩ := h.problem (Or.inl hstatus)
  obtain ⟨heading, hheading⟩ := h.exists_showNumbered htest number
  obtain ⟨error, herror⟩ := exists_printProgramRunnerError hexecutable
  obtain ⟨output, houtput⟩ := exists_printStderrOutput htest result
  unfold showErrorTestResult
  rw [h.checkKind_eq hresult, hheading, h.printError_eq hresult, herror]
  dsimp only [bind, Except.bind]
  rw [houtput]
  exact ⟨_, rfl⟩

/-- The list of failures can show every failure whose diffs fit the memory pool. -/
theorem TestRecord.Reportable.showFailure_cases (h : record.Reportable)
    (hstatus : record.result.status = .failure) (useColors : Bool) (number : UInt32) :
    (¬record.result.Oversized ∧ ∃ text, showFailureTestResult useColors record number = .ok text) ∨
      (record.result.Oversized ∧
        showFailureTestResult useColors record number = .error .undefined) := by
  obtain ⟨result, test, _, hresult, htest, -⟩ := h.problem (Or.inr hstatus)
  obtain ⟨heading, hheading⟩ := h.exists_showNumbered htest number
  obtain ⟨output, houtput⟩ := exists_printStderrOutput htest result
  rw [oversized_iff hresult hstatus, not_not]
  unfold showFailureTestResult
  rw [h.checkKind_eq hresult, hheading]
  dsimp only [bind, Except.bind]
  rw [houtput]
  rcases printStreamDiffs_cases useColors result with ⟨hfits, diffs, hdiffs⟩ | ⟨hover, hdiffs⟩
  · rw [hdiffs]
    exact Or.inl ⟨hfits, _, rfl⟩
  · rw [hdiffs]
    exact Or.inr ⟨hover, rfl⟩

/-- The loop over the results shows all of them, or stops at one that cannot be shown. -/
theorem printNumbered_cases {status : TestResultStatus}
    {show_ : TestRecord → UInt32 → Except Halt Bytes} {Fails : TestRecord → Prop}
    {records : List TestRecord}
    (hshow : ∀ record ∈ records, record.result.status = status → ∀ number,
      (¬Fails record ∧ ∃ text, show_ record number = .ok text) ∨
        (Fails record ∧ show_ record number = .error .undefined)) (number : UInt32) :
    ((∀ record ∈ records, record.result.status = status → ¬Fails record) ∧
        ∃ text, printNumbered status show_ (records.map some) number = .ok text) ∨
      ((∃ record ∈ records, record.result.status = status ∧ Fails record) ∧
        printNumbered status show_ (records.map some) number = .error .undefined) := by
  induction records generalizing number with
  | nil => exact Or.inl ⟨fun record hmem => absurd hmem List.not_mem_nil, [], rfl⟩
  | cons record records ih =>
      obtain ⟨hrecord, hshow⟩ := List.forall_mem_cons.mp hshow
      rw [List.map_cons, printNumbered]
      split
      · rename_i hstatus
        rcases hrecord hstatus (number + 1) with ⟨hfits, text, htext⟩ | ⟨hfails, htext⟩
        · rw [htext]
          rcases ih hshow (number + 1) with ⟨hall, rest, hrest⟩ | ⟨⟨other, hmem, hother⟩, hrest⟩
          · dsimp only [bind, Except.bind]
            rw [hrest]
            exact Or.inl ⟨List.forall_mem_cons.mpr ⟨fun _ => hfits, hall⟩, _, rfl⟩
          · dsimp only [bind, Except.bind]
            rw [hrest]
            exact Or.inr ⟨⟨other, List.mem_cons_of_mem _ hmem, hother⟩, rfl⟩
        · rw [htext]
          exact Or.inr ⟨⟨record, List.mem_cons_self, hstatus, hfails⟩, rfl⟩
      · rename_i hother
        rcases ih hshow number with ⟨hall, hrest⟩ | ⟨⟨fails, hmem, hfails⟩, hrest⟩
        · exact Or.inl
            ⟨List.forall_mem_cons.mpr ⟨fun hstatus => absurd hstatus hother, hall⟩, hrest⟩
        · exact Or.inr ⟨⟨fails, List.mem_cons_of_mem _ hmem, hfails⟩, hrest⟩

/-- A list of errors or failures under its heading, if there are any. -/
def problemSection (count : UInt32) (problems texts : Bytes) : Bytes :=
  if count > 0 then
    ascii "There are " ++ decimal count.toNat ++ ascii " " ++ problems ++ ascii ":\n\n" ++ texts ++
      [newline]
  else []

def problemSections (results : TestsResults) (errors failures : Bytes) : Bytes :=
  problemSection results.errorCount (ascii "errors") errors ++
    (if results.errorCount > 0 ∧ results.failureCount > 0 then ascii "---\n\n" else []) ++
    problemSection results.failureCount (ascii "failures") failures

theorem printProblems_eq {useColors : Bool} {results : TestsResults} {errors failures : Bytes}
    (herrors : printNumbered .error showErrorTestResult results.results 0 = .ok errors)
    (hfailures :
      printNumbered .failure (showFailureTestResult useColors) results.results 0 = .ok failures) :
    printProblems useColors results = .ok (problemSections results errors failures) := by
  unfold printProblems problemSections problemSection
  rw [herrors, hfailures]
  by_cases herror : results.errorCount > 0
  · by_cases hfailure : results.failureCount > 0
    · simp [herror, hfailure, bind, Except.bind, pure, Except.pure, ascii]
    · simp [herror, hfailure, bind, Except.bind, pure, Except.pure, ascii]
  · by_cases hfailure : results.failureCount > 0
    · simp [herror, hfailure, bind, Except.bind, pure, Except.pure, ascii]
    · simp [herror, hfailure, bind, Except.bind, pure, Except.pure]

theorem printProblems_eq_error {useColors : Bool} {results : TestsResults} {errors : Bytes}
    {halt : Halt} (hcount : results.failureCount > 0)
    (herrors : printNumbered .error showErrorTestResult results.results 0 = .ok errors)
    (hfailures :
      printNumbered .failure (showFailureTestResult useColors) results.results 0 = .error halt) :
    printProblems useColors results = .error halt := by
  unfold printProblems
  rw [herrors, hfailures]
  dsimp only [bind, Except.bind, pure, Except.pure]
  by_cases herror : results.errorCount > 0
  · rw [if_pos herror, if_pos hcount]
  · rw [if_neg herror, if_pos hcount]

end Records

section Sessions

variable {env : Surroundings} {s s' : TestSession} {tests : List SuiteTest} {halt : Halt}

/-- Every test has its name. -/
def Named (tests : List ProgramRunnerTest) : Prop :=
  ∀ test ∈ tests, test.name.isSome = true

theorem Visited.test_mem (h : Visited env tests s) {call : TestCall} (hcall : call ∈ s.calls) :
    call.test ∈ tests := by
  have hmem : call.test ∈ s.calls.map TestCall.test := List.mem_map_of_mem hcall
  rw [h.calls] at hmem
  exact List.mem_of_mem_take hmem

theorem Visited.reportable (h : Visited env tests s) (hnamed : Named (tests.map SuiteTest.test)) :
    ∀ call ∈ s.calls, call.record.Reportable := by
  intro call hcall
  obtain ⟨i, hi⟩ := List.mem_iff_getElem?.mp hcall
  exact testRun_reportable (hnamed _ (List.mem_map_of_mem (h.test_mem hcall)))
    (h.answered i call hi).run

/-- The entries of both lists of problems, for a session whose tests have all been called. -/
theorem Visited.problems_cases (h : Visited env tests s) (hall : s.calls.length = tests.length)
    (hnamed : Named (tests.map SuiteTest.test)) :
    ((∀ call ∈ s.calls, ¬call.result.Oversized) ∧
        ∃ errors failures,
          printNumbered .error showErrorTestResult s.results.results 0 = .ok errors ∧
          printNumbered .failure (showFailureTestResult env.useColors) s.results.results 0 =
            .ok failures) ∨
      ((∃ call ∈ s.calls, call.result.Oversized) ∧
        printProblems env.useColors s.results = .error .undefined) := by
  have hrecords : s.results.results = (s.calls.map TestCall.record).map some := by
    rw [h.results, hall, Nat.sub_self, List.map_map]
    exact List.append_nil _
  have hreportable : ∀ record ∈ s.calls.map TestCall.record, record.Reportable := by
    intro record hrecord
    obtain ⟨call, hcall, rfl⟩ := List.mem_map.mp hrecord
    exact h.reportable hnamed call hcall
  obtain ⟨errors, herrors⟩ : ∃ errors,
      printNumbered .error showErrorTestResult s.results.results 0 = .ok errors := by
    rw [hrecords]
    have hshow : ∀ record ∈ s.calls.map TestCall.record, record.result.status = .error →
        ∀ number, (¬False ∧ ∃ text, showErrorTestResult record number = .ok text) ∨
          (False ∧ showErrorTestResult record number = .error .undefined) :=
      fun record hmem hstatus number =>
        Or.inl ⟨not_false, (hreportable record hmem).exists_showError hstatus number⟩
    rcases printNumbered_cases hshow 0 with ⟨-, herrors⟩ | ⟨⟨_, _, _, hfalse⟩, -⟩
    · exact herrors
    · exact absurd hfalse not_false
  have hcases := printNumbered_cases (fun record hmem hstatus number =>
    (hreportable record hmem).showFailure_cases hstatus env.useColors number) 0
  rw [← hrecords] at hcases
  rcases hcases with ⟨hfits, failures, hfailures⟩ | ⟨⟨record, hmem, hstatus, hover⟩, hfailures⟩
  · refine Or.inl ⟨?_, errors, failures, herrors, hfailures⟩
    intro call hcall hover
    have hstatus : call.result.status = .failure :=
      not_not.mp fun hother => not_oversized_of_status hother hover
    exact hfits call.record (List.mem_map_of_mem hcall) hstatus hover
  · obtain ⟨call, hcall, rfl⟩ := List.mem_map.mp hmem
    have hcount := (h.counter_pos_iff .failure).mpr ⟨call, hcall, hstatus⟩
    exact Or.inr ⟨⟨call, hcall, hover⟩, printProblems_eq_error hcount herrors hfailures⟩

theorem Visited.exists_current (h : Visited env tests s) (hunfinished : s.iterator.finished ≠ true) :
    ∃ test, s.iterator.current = .ok test := by
  have hroom : s.calls.length < tests.length := by
    rw [← not_le, ← h.finished_iff]
    exact hunfinished
  refine ⟨tests[s.calls.length], ?_⟩
  rw [TestIterator.current, h.array, h.cursor, List.getElem?_eq_getElem hroom]

/-- The look ahead gives the first test that has not been called, if there is one. -/
theorem Visited.currentSafe_eq (h : Visited env tests s) :
    s.iterator.currentSafe = .ok tests[s.calls.length]? := by
  unfold TestIterator.currentSafe
  split
  · rename_i hfinished
    rw [List.getElem?_eq_none (h.finished_iff.mp hfinished)]
  · rename_i hunfinished
    obtain ⟨test, hcurrent⟩ := h.exists_current hunfinished
    rw [h.current_eq hcurrent, hcurrent]
    rfl

/-- The session has ended in the run of a test, with the results of the tests before it. -/
structure Stopped (env : Surroundings) (tests : List SuiteTest) (halt : Halt) (s : TestSession) :
    Prop where
  visited : Visited env tests s
  ended : EndedInTestRun env (tests.map SuiteTest.test) halt s

theorem Visited.exists_addTestResult (h : Visited env tests s)
    (hunfinished : s.iterator.finished ≠ true) (record : TestRecord) :
    ∃ results, addTestResultToTestSuiteResult s.results record s.iterator.cursor = .ok results := by
  have hroom : s.calls.length < tests.length := by
    rw [← not_le, ← h.finished_iff]
    exact hunfinished
  refine ⟨_, if_pos ?_⟩
  rw [h.cursor, h.results, List.length_append, List.length_map, List.length_replicate]
  omega

theorem Visited.visit_stopped (h : Visited env tests s)
    (hrun : testIteratorVisit env s = .error halt s') : Stopped env tests halt s' := by
  rcases bind_eq_error hrun with hget | ⟨_, _, hget, h₁⟩
  · cases hget
  cases hget
  split at h₁
  · cases h₁
  rename_i hunfinished
  obtain ⟨test, hcurrent⟩ := h.exists_current hunfinished
  rw [hcurrent] at h₁
  rcases bind_eq_error h₁ with hnone | ⟨_, _, hsome, h₂⟩
  · cases hnone
  obtain ⟨rfl, rfl⟩ := pure_eq_ok.mp hsome
  rcases bind_eq_error h₂ with hrecord | ⟨_, _, _, hnext⟩
  · rcases bind_eq_error hrecord with hcall | ⟨result, s₁, hcall, hadd⟩
    · obtain ⟨storage, events, htestRun, rfl⟩ := callTestRun_eq_error hcall
      refine ⟨⟨h.array, h.testsCount, h.cursor, h.calls, h.answered, h.results, h.resultsCount,
        h.counters⟩, test.test, events, ?_, htestRun⟩
      rw [List.getElem?_map, h.current_eq hcurrent, Option.map_some]
    · obtain ⟨storage, call, -, -, -, -, rfl⟩ := callTestRun_eq_ok hcall
      obtain ⟨results, hresults⟩ := h.exists_addTestResult hunfinished (.of test result)
      rcases bind_eq_error hadd with hget | ⟨_, _, hget, hrecorded⟩
      · cases hget
      cases hget
      rcases bind_eq_error hrecorded with hrefused | ⟨_, _, _, hset⟩
      · have hnone := orHalt_eq_error hrefused
        rw [hresults] at hnone
        cases hnone
      · cases hset
  · cases hnext

theorem fprintf_ne_error (text : Bytes) : fprintf env text s ≠ .error halt s' := by
  intro h
  cases h

/-- The session has ended in a diff that does not fit the memory pool. -/
structure EndedInDiff (halt : Halt) (s : TestSession) : Prop where
  undefined : halt = .undefined
  oversized : ∃ call ∈ s.calls, call.result.Oversized

structure Overrun (env : Surroundings) (tests : List SuiteTest) (halt : Halt) (s : TestSession) :
    Prop where
  visited : Visited env tests s
  ended : EndedInDiff halt s

/-- To show a result only fails in a diff. -/
theorem showInDetail_eq_error (h : Visited env tests s) (suite : Nat) {record : TestRecord}
    (hrecord : record.Reportable) (hrun : showInDetail env suite record s = .error halt s') :
    halt = .undefined ∧ record.result.Oversized ∧ s' = s := by
  rcases hrecord.showInDetail_cases env.useColors with ⟨-, text, htext⟩ | ⟨hover, htext⟩
  · exfalso
    rcases bind_eq_error hrun with hshow | ⟨_, s₁, hshow, h₁⟩
    · rw [htext] at hshow
      cases hshow
    obtain ⟨-, rfl⟩ := orHalt_eq_ok hshow
    rcases bind_eq_error h₁ with hprint | ⟨_, s₂, hprint, h₂⟩
    · exact fprintf_ne_error _ hprint
    obtain rfl := fprintf_eq_ok hprint
    rcases bind_eq_error h₂ with hget | ⟨_, _, hget, h₃⟩
    · cases hget
    cases hget
    rw [(h.withOut (s₁.out.print env.buffering _)).currentSafe_eq] at h₃
    rcases bind_eq_error h₃ with hsafe | ⟨_, _, _, h₄⟩
    · cases hsafe
    split at h₄
    · exact fprintf_ne_error _ h₄
    · cases h₄
  · unfold showInDetail at hrun
    rw [htext] at hrun
    cases hrun
    exact ⟨rfl, hover, rfl⟩

/-- A round of detail mode only ends the session where a test does, or in the diffs of its result. -/
theorem detailRound_ended {previous : Option Nat} (htotal : tests.length < 2 ^ 32)
    (hnamed : Named (tests.map SuiteTest.test)) (h : Visited env tests s)
    (hrun : detailRound env previous s = .error halt s') :
    Stopped env tests halt s' ∨ Overrun env tests halt s' := by
  rcases bind_eq_error hrun with hget | ⟨_, _, hget, h₁⟩
  · cases hget
  cases hget
  split at h₁
  · cases h₁
  rename_i hunfinished
  obtain ⟨test, hcurrent⟩ := h.exists_current hunfinished
  rw [hcurrent] at h₁
  rcases bind_eq_error h₁ with hnone | ⟨_, s₁, hsome, h₂⟩
  · cases hnone
  obtain ⟨rfl, rfl⟩ := pure_eq_ok.mp hsome
  rcases bind_eq_error h₂ with hheading | ⟨_, s₂, hheading, h₃⟩
  · unfold printSuiteHeading at hheading
    split at hheading
    · exact absurd hheading (fprintf_ne_error _)
    · cases hheading
  obtain ⟨⟨before, rfl⟩, -⟩ := keeps_printSuiteHeading previous test _ _ _ (.refl s) hheading
  rcases bind_eq_error h₃ with hvisit | ⟨found, s₃, hvisit, h₄⟩
  · exact Or.inl ((h.withOut before).visit_stopped hvisit)
  rcases testIteratorVisit_eq_ok hvisit with ⟨-, rfl, -⟩ | ⟨record, rfl, hvisited⟩
  · cases h₄
  have hafter := ((h.withOut before).visit htotal hvisited).1
  obtain ⟨-, call, _, _, -, -, -, rfl, -, rfl⟩ := hvisited
  have hlast : call ∈ s.calls ++ [call] := List.mem_append_right _ List.mem_cons_self
  rcases bind_eq_error h₄ with hshow | ⟨_, _, _, h₅⟩
  · obtain ⟨hundefined, hover, rfl⟩ :=
      showInDetail_eq_error hafter _ (hafter.reportable hnamed call hlast) hshow
    exact Or.inr ⟨hafter, hundefined, call, hlast, hover⟩
  · cases h₅

theorem passthroughRound_stopped {inLine : UInt32} (h : Visited env tests s)
    (hrun : passthroughRound env inLine s = .error halt s') : Stopped env tests halt s' := by
  rcases bind_eq_error hrun with hget | ⟨_, _, hget, h₁⟩
  · cases hget
  cases hget
  split at h₁
  · cases h₁
  rcases bind_eq_error h₁ with hvisit | ⟨found, _, _, h₂⟩
  · exact h.visit_stopped hvisit
  cases found with
  | none => cases h₂
  | some record =>
      rcases bind_eq_error h₂ with hshow | ⟨_, _, _, h₃⟩
      · exact absurd hshow (showInPassthrough_ne_error _ _)
      · cases h₃

/-- The loop of a mode ends early where one of its rounds does. -/
theorem Visited.visitAll_ended {β : Type} {body : β → TestSessionM (Option β)} {b : β}
    {Ended : Halt → TestSession → Prop} (hround : VisitsOnce env body)
    (hends : ∀ b s halt s', Visited env tests s → body b s = .error halt s' → Ended halt s')
    (htotal : tests.length < 2 ^ 32) (h : Visited env tests s) (hcalls : s.calls = [])
    (hrun : JCUnit.visitAll body b s = .error halt s') : Ended halt s' := by
  rcases bind_eq_error hrun with hget | ⟨_, _, hget, hloop⟩
  · cases hget
  cases hget
  obtain ⟨k, b₁, t, hrounds, hend⟩ := loop_eq_error hloop
  obtain ⟨hvisited, hk⟩ := h.rounds hround htotal hcalls hrounds
  rcases hend with hlast | hbound
  · exact hends b₁ t halt s' hvisited hlast
  · have hle := hvisited.length_le
    have hcount := h.testsCount
    omega

section Modes

variable {suites : List TestSuite}

theorem length_init_tests (suites : List TestSuite) :
    (testIteratorInitBySuites suites).tests.length = (suites.flatMap TestSuite.tests).length := by
  rw [← init_tests, List.length_map]

theorem runSuitesInDetailMode_ended
    (htotal : (suites.flatMap TestSuite.tests).length < 2 ^ 32)
    (hnamed : Named (suites.flatMap TestSuite.tests))
    (hrun : runSuitesInDetailMode env (TestSession.init suites .start) = .error halt s) :
    Stopped env (testIteratorInitBySuites suites).tests halt s ∨
      Overrun env (testIteratorInitBySuites suites).tests halt s := by
  have hinit : Visited env (testIteratorInitBySuites suites).tests
      (TestSession.init suites .start) := visited_init htotal
  rw [← init_tests] at hnamed
  rw [← length_init_tests] at htotal
  rcases bind_eq_error hrun with hloop | ⟨_, s₁, _, h₁⟩
  · exact hinit.visitAll_ended detailRound_visitsOnce
      (fun _ _ _ _ h hround => detailRound_ended htotal hnamed h hround) htotal rfl hloop
  rcases bind_eq_error h₁ with hget | ⟨_, _, hget, h₂⟩
  · cases hget
  split at h₂
  · exact absurd h₂ (fprintf_ne_error _)
  · cases h₂

theorem runSuitesInPassthroughMode_ended
    (htotal : (suites.flatMap TestSuite.tests).length < 2 ^ 32)
    (hnamed : Named (suites.flatMap TestSuite.tests))
    (hrun : runSuitesInPassthroughMode env (TestSession.init suites .start) = .error halt s) :
    Stopped env (testIteratorInitBySuites suites).tests halt s ∨
      Overrun env (testIteratorInitBySuites suites).tests halt s := by
  have hinit : Visited env (testIteratorInitBySuites suites).tests
      (TestSession.init suites .start) := visited_init htotal
  rw [← init_tests] at hnamed
  rw [← length_init_tests] at htotal
  rcases bind_eq_error hrun with hloop | ⟨inLine, s₁, hloop, h₁⟩
  · exact Or.inl (hinit.visitAll_ended passthroughRound_visitsOnce
      (fun _ _ _ _ h hround => passthroughRound_stopped h hround) htotal rfl hloop)
  obtain ⟨hvisited, hall⟩ := hinit.visitAll passthroughRound_visitsOnce htotal rfl hloop
  rcases bind_eq_error h₁ with hfill | ⟨_, s₂, hfill, h₂⟩
  · exact absurd hfill (fprintf_ne_error _)
  obtain rfl := fprintf_eq_ok hfill
  rcases bind_eq_error h₂ with hget | ⟨_, _, hget, h₃⟩
  · cases hget
  cases hget
  rcases bind_eq_error h₃ with hnone | ⟨_, _, _, h₄⟩
  · change orHalt (printProblems env.useColors s₁.results) _ = _ at hnone
    rcases hvisited.problems_cases hall hnamed with
      ⟨-, errors, failures, herrors, hfailures⟩ | ⟨hover, hproblems⟩
    · rw [printProblems_eq herrors hfailures] at hnone
      cases hnone
    · rw [hproblems] at hnone
      cases hnone
      exact Or.inr ⟨hvisited.withOut _, rfl, hover⟩
  rcases bind_eq_error h₄ with hprint | ⟨_, _, _, h₅⟩
  · exact absurd hprint (fprintf_ne_error _)
  split at h₅
  · exact absurd h₅ (fprintf_ne_error _)
  · exact absurd h₅ (fprintf_ne_error _)

/-- In both modes a session ends early only in the run of a test or in a diff. -/
theorem runSuites_ended {runMode : UInt32}
    (hmode : runMode = runModeDetail ∨ runMode = runModePassthrough)
    (htotal : (suites.flatMap TestSuite.tests).length < 2 ^ 32)
    (hnamed : Named (suites.flatMap TestSuite.tests))
    (hrun : runSuites env suites runMode .start = .error halt s) :
    Stopped env (testIteratorInitBySuites suites).tests halt s ∨
      Overrun env (testIteratorInitBySuites suites).tests halt s := by
  rcases hmode with rfl | rfl
  · exact runSuitesInDetailMode_ended htotal hnamed hrun
  · exact runSuitesInPassthroughMode_ended htotal hnamed hrun

end Modes

end Sessions

end JCUnit
