import JCUnit.Suites.ReportSafety

/-!
# The report of passthrough mode

Below the progress marks passthrough mode goes through the array of results twice. The first list
has an entry for every error, the second one for every failure, each numbered from one in the order
of the tests, and the headings give their numbers.
-/

namespace JCUnit

open StateError Loops

/-- The texts of the results of this status, numbered in their order. -/
def Listed (status : TestResultStatus) (show_ : TestRecord → UInt32 → Except Halt Bytes)
    (records : List TestRecord) (first : Nat) (texts : List Bytes) : Prop :=
  List.Forall₂ (fun problem text => show_ problem.1 (UInt32.ofNat problem.2) = .ok text)
    ((records.filter fun record => record.result.status = status).zipIdx first) texts

/-- The list below its heading; a list without entries is not printed. -/
def problemList (problems : Bytes) (texts : List Bytes) : Bytes :=
  if 0 < texts.length then
    ascii "There are " ++ decimal texts.length ++ ascii " " ++ problems ++ ascii ":\n\n" ++
      texts.flatten ++ [newline]
  else []

def problemLists (errors failures : List Bytes) : Bytes :=
  problemList (ascii "errors") errors ++
    (if 0 < errors.length ∧ 0 < failures.length then ascii "---\n\n" else []) ++
    problemList (ascii "failures") failures

/-- The line of counters, with or without the time and the verdict. -/
def passthroughSummary (env : Surroundings) (results : TestsResults) : Bytes :=
  if env.noSummary then printSummaryLine env.useColors results ++ [newline]
  else printFinalSummary env.useColors env.elapsedMs results

section Lists

variable {status : TestResultStatus} {show_ : TestRecord → UInt32 → Except Halt Bytes}
  {records : List TestRecord} {texts : List Bytes} {text : Bytes}

theorem printNumbered_from {number : Nat}
    (h : printNumbered status show_ (records.map some) (UInt32.ofNat number) = .ok text) :
    ∃ texts, Listed status show_ records (number + 1) texts ∧ text = texts.flatten := by
  induction records generalizing number text with
  | nil =>
      cases h
      exact ⟨[], List.Forall₂.nil, rfl⟩
  | cons record records ih =>
      rw [List.map_cons, printNumbered] at h
      split at h
      · rename_i hstatus
        have hnext : UInt32.ofNat number + 1 = UInt32.ofNat (number + 1) :=
          (UInt32.ofNat_add number 1).symm
        rw [hnext] at h
        obtain ⟨first, hfirst, h₁⟩ := except_bind_eq_ok h
        obtain ⟨rest, hrest, h₂⟩ := except_bind_eq_ok h₁
        cases h₂
        obtain ⟨texts, htexts, rfl⟩ := ih hrest
        refine ⟨first :: texts, ?_, rfl⟩
        unfold Listed at htexts ⊢
        rw [List.filter_cons_of_pos (by simpa using hstatus), List.zipIdx_cons]
        exact List.Forall₂.cons hfirst htexts
      · rename_i hother
        obtain ⟨texts, htexts, rfl⟩ := ih h
        refine ⟨texts, ?_, rfl⟩
        unfold Listed at htexts ⊢
        rw [List.filter_cons_of_neg (by simpa using hother)]
        exact htexts

theorem printNumbered_eq_ok (h : printNumbered status show_ (records.map some) 0 = .ok text) :
    ∃ texts, Listed status show_ records 1 texts ∧ text = texts.flatten :=
  printNumbered_from h

theorem Listed.length {calls : List TestCall} {first : Nat}
    (h : Listed status show_ (calls.map TestCall.record) first texts) :
    texts.length = countStatus calls status := by
  have hstatus : ∀ call : TestCall, call.record.result.status = call.result.status := fun _ => rfl
  rw [← List.Forall₂.length_eq h, List.length_zipIdx, countStatus, List.countP_eq_length_filter,
    List.filter_map, List.length_map]
  simp only [Function.comp_def, hstatus]

theorem problemSection_eq {count : UInt32} {problems : Bytes} (h : count.toNat = texts.length) :
    problemSection count problems texts.flatten = problemList problems texts := by
  have hpos : count > 0 ↔ 0 < texts.length := by
    rw [gt_iff_lt, UInt32.lt_iff_toNat_lt, h, UInt32.toNat_zero]
  unfold problemSection problemList
  simp only [hpos, h]

end Lists

section Sessions

variable {env : Surroundings} {s s' : TestSession} {tests : List SuiteTest}

/-- What is printed about the problems of a session whose tests have all been called, if all
diffs fit the memory pool. -/
theorem Visited.problems (h : Visited env tests s) (hall : s.calls.length = tests.length)
    (hnamed : Named (tests.map SuiteTest.test)) {text : Bytes}
    (htext : printProblems env.useColors s.results = .ok text) :
    (∀ call ∈ s.calls, ¬call.result.Oversized) ∧ ∃ errors failures,
      Listed .error showErrorTestResult (s.calls.map TestCall.record) 1 errors ∧
      Listed .failure (showFailureTestResult env.useColors) (s.calls.map TestCall.record) 1
        failures ∧
      text = problemLists errors failures := by
  have hrecords : s.results.results = (s.calls.map TestCall.record).map some := by
    rw [h.results, hall, Nat.sub_self, List.map_map]
    exact List.append_nil _
  rcases h.problems_cases hall hnamed with
    ⟨hfits, errorText, failureText, herrorText, hfailureText⟩ | ⟨-, hundefined⟩
  · have herrors := herrorText
    have hfailures := hfailureText
    rw [hrecords] at herrors hfailures
    obtain ⟨errors, hlistedErrors, rfl⟩ := printNumbered_eq_ok herrors
    obtain ⟨failures, hlistedFailures, rfl⟩ := printNumbered_eq_ok hfailures
    refine ⟨hfits, errors, failures, hlistedErrors, hlistedFailures, ?_⟩
    have herrorCount : s.results.errorCount.toNat = errors.length :=
      (h.counters .error).trans hlistedErrors.length.symm
    have hfailureCount : s.results.failureCount.toNat = failures.length :=
      (h.counters .failure).trans hlistedFailures.length.symm
    rw [printProblems_eq herrorText hfailureText, problemSections, problemSection_eq herrorCount,
      problemSection_eq hfailureCount] at htext
    simp only [gt_iff_lt, UInt32.lt_iff_toNat_lt, herrorCount, hfailureCount,
      UInt32.toNat_zero] at htext
    exact (Except.ok.inj htext).symm
  · cases hundefined.symm.trans htext

/-- What passthrough mode does behind its loop. -/
theorem endPassthrough_eq_ok {inLine : UInt32} {u : Unit}
    (h : (do
      fprintf env (fillLine inLine ++ ascii "\n\n")
      let s ← get
      fprintf env (← orHalt (printProblems env.useColors s.results))
      if env.noSummary then fprintf env (printSummaryLine env.useColors s.results ++ [newline])
      else fprintf env (printFinalSummary env.useColors env.elapsedMs s.results) :
      TestSessionM Unit) s = .ok u s') :
    ∃ problems out, printProblems env.useColors s.results = .ok problems ∧ s' = s.withOut out ∧
      out.printed = s.out.printed ++ fillLine inLine ++ ascii "\n\n" ++
        problems ++ passthroughSummary env s.results := by
  obtain ⟨_, s₁, hfill, h₁⟩ := bind_eq_ok h
  obtain rfl := fprintf_eq_ok hfill
  obtain ⟨_, _, hget, h₂⟩ := bind_eq_ok h₁
  cases hget
  obtain ⟨text, s₂, htext, h₃⟩ := bind_eq_ok h₂
  obtain ⟨hshown, rfl⟩ := orHalt_eq_ok htext
  obtain ⟨_, s₃, hprint, h₄⟩ := bind_eq_ok h₃
  obtain rfl := fprintf_eq_ok hprint
  rw [← apply_ite (fprintf env)] at h₄
  obtain rfl := fprintf_eq_ok h₄
  refine ⟨text, _, hshown, rfl, ?_⟩
  simp only [TestSession.withOut, Stdout.printed_print, List.append_assoc]
  rfl

/-- Every diff of a session that has come to its end in passthrough mode has been shown. -/
theorem runSuitesInPassthroughMode_shown {suites : List TestSuite} {u : Unit}
    (htotal : (suites.flatMap TestSuite.tests).length < 2 ^ 32)
    (hnamed : Named (suites.flatMap TestSuite.tests))
    (hrun : runSuitesInPassthroughMode env (TestSession.init suites .start) = .ok u s) :
    ∀ call ∈ s.calls, ¬call.result.Oversized := by
  have hinit : Visited env (testIteratorInitBySuites suites).tests
      (TestSession.init suites .start) := visited_init htotal
  rw [← init_tests] at hnamed
  rw [← length_init_tests] at htotal
  obtain ⟨inLine, t, hloop, hend⟩ := bind_eq_ok hrun
  obtain ⟨hvisited, hall⟩ := hinit.visitAll passthroughRound_visitsOnce htotal rfl hloop
  obtain ⟨problems, out, hproblems, rfl, -⟩ := endPassthrough_eq_ok hend
  exact (hvisited.problems hall hnamed hproblems).1

end Sessions

/-- Passthrough mode prints the progress marks, every error and every failure under its number,
and the summary. Only the run of a test can prevent it, or a diff that does not fit a blob of the
memory pool. -/
theorem passthrough_report (env : Surroundings) (suites : List TestSuite)
    (hpos : 1 ≤ (suites.flatMap TestSuite.tests).length)
    (hroom : (suites.flatMap TestSuite.tests).length ≤ pointersPerBlob)
    (hnamed : Named (suites.flatMap TestSuite.tests)) :
    (∀ s, runSuites env suites runModePassthrough .start = .ok () s →
      ∃ lines errors failures, ProgressLayout s.calls lines ∧
        Listed .error showErrorTestResult (s.calls.map TestCall.record) 1 errors ∧
        Listed .failure (showFailureTestResult env.useColors) (s.calls.map TestCall.record) 1
          failures ∧
        errors.length = countStatus s.calls .error ∧
        failures.length = countStatus s.calls .failure ∧
        s.out.printed = progressBlock s.calls.length lines ++ ascii "\n\n" ++
          problemLists errors failures ++ passthroughSummary env s.results) ∧
    ∀ halt s, runSuites env suites runModePassthrough .start = .error halt s →
      EndedInTestRun env (suites.flatMap TestSuite.tests) halt s ∨ EndedInDiff halt s := by
  have htotal := lt_of_le_pointersPerBlob hroom
  have hbound : 100 * (suites.flatMap TestSuite.tests).length < 2 ^ 32 :=
    lt_of_le_of_lt (Nat.mul_le_mul_left 100 hroom) (by decide)
  constructor
  · intro s hrun
    have hpassthrough :
        runSuitesInPassthroughMode env (TestSession.init suites .start) = .ok () s := hrun
    obtain ⟨inLine, t, hloop, hend⟩ := bind_eq_ok hpassthrough
    have hinit : Progress env (testIteratorInitBySuites suites).tests 0
        (TestSession.init suites .start) := progress_init htotal
    rw [← init_tests] at hnamed
    rw [← length_init_tests] at hpos hbound
    obtain ⟨hprogress, hall⟩ := hinit.visitAll hbound hloop
    obtain ⟨problems, out, hproblems, rfl, hprinted⟩ := endPassthrough_eq_ok hend
    obtain ⟨-, errors, failures, herrors, hfailures, rfl⟩ :=
      hprogress.visited.problems hall hnamed hproblems
    have hfilled := hprogress.filled hpos hall
    rw [← hall] at hpos hfilled
    refine ⟨_, errors, failures, progressLayout_progressLines hpos, herrors, hfailures,
      herrors.length, hfailures.length, ?_⟩
    change out.printed = _
    rw [hprinted, hfilled]
    rfl
  · intro halt s hrun
    rcases runSuites_ended (Or.inr rfl) htotal hnamed hrun with hstopped | hover
    · have hended := hstopped.ended
      rw [init_tests] at hended
      exact Or.inl hended
    · exact Or.inr hover.ended

/-- A test that passes, two that fail and one whose program is not there. -/
theorem passthrough_report_three_problems :
    let test : ProgramRunnerTest := { makeProgramRunnerTest with
      name := some (ascii "t"), flags := testCompleteMask, programPath := some (ascii "/bin/x"),
      expectedStdout := some (ascii "hi") }
    let suites : List TestSuite := [⟨⟨ascii "a.test", by decide⟩, [test, test]⟩,
      ⟨⟨ascii "b.test", by decide⟩, [test, test]⟩]
    let env : Surroundings :=
      { host := fun i _ => ⟨i ≠ 2, true, .error [], none, none, none, none, none, .finished,
          ⟨false, some 0, fun
            | .stdout => [some (ascii (if i = 0 then "hi" else "ho"))]
            | .stderr => []⟩⟩
        buffering := .fullyBuffered 4096
        useColors := true
        noSummary := false
        elapsedMs := 61007 }
    ∃ s, runSuites env suites runModePassthrough .start = .ok () s ∧
      ∃ lines errors failures, errors.length = 1 ∧ failures.length = 2 ∧
        s.out.printed = progressBlock s.calls.length lines ++ ascii "\n\n" ++
          problemLists errors failures ++ passthroughSummary env s.results := by
  intro test suites env
  have hpos : 1 ≤ (suites.flatMap TestSuite.tests).length := by decide
  have hroom : (suites.flatMap TestSuite.tests).length ≤ pointersPerBlob := by decide
  have hnamed : Named (suites.flatMap TestSuite.tests) := by
    simp [Named, suites, test]
  have hcounts : (do
      runSuites env suites runModePassthrough
      let s ← get
      return (countStatus s.calls .error, countStatus s.calls .failure)).run' .start =
        some (1, 2) := by
    decide +kernel
  obtain ⟨s', hends⟩ := run'_eq_some hcounts
  obtain ⟨_, s, hrun, hget⟩ := bind_eq_ok hends
  obtain ⟨hcount, -⟩ := EStateM.Result.ok.inj hget
  obtain ⟨herrorCount, hfailureCount⟩ := Prod.mk.inj hcount
  obtain ⟨lines, errors, failures, -, -, -, herrors, hfailures, hprinted⟩ :=
    (passthrough_report env suites hpos hroom hnamed).1 s hrun
  exact ⟨s, hrun, lines, errors, failures, herrors.trans herrorCount,
    hfailures.trans hfailureCount, hprinted⟩

end JCUnit
