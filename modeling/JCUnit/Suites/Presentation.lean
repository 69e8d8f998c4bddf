import Mathlib.Data.List.Perm.Basic
import JCUnit.Suites.DetailLayout
import JCUnit.Suites.ProblemLists

/-!
# Presentation does not interfere

The run mode, colours, the summary and the buffering of stdout decide what is shown. As long as no
program gets at what stdout has not written out, they decide nothing else: the tests, what is done
for each of them, their results and the exit code are the same, and so is the place where a session
ends early. Only a diff that does not fit the memory pool tells them apart: detail mode prints it
before the next test and passthrough mode behind the last one.
-/

namespace JCUnit

open StateError Loops

/-- What came of a call of `test_run`. -/
structure Outcome where
  test : SuiteTest
  events : List HostEvent
  result : TestResult
deriving DecidableEq

def TestCall.outcome (call : TestCall) : Outcome where
  test := call.test
  events := call.events
  result := call.result

/-- The answers of the system do not depend on what stdout has not written out. -/
def Blind (env : Surroundings) (host : Nat → Host) : Prop :=
  ∀ i unflushed, env.host i unflushed = host i

/-- This comes of the test at this place. -/
structure HasOutcome (host : Nat → Host) (tests : List SuiteTest) (i : Nat) (outcome : Outcome) :
    Prop where
  test : tests[i]? = some outcome.test
  run : testRun (host i) outcome.test.test [] = .ok outcome.result outcome.events

section Outcomes

variable {env env' : Surroundings} {host : Nat → Host} {tests : List SuiteTest}
  {s s' : TestSession}

theorem HasOutcome.unique {i : Nat} {outcome outcome' : Outcome}
    (h : HasOutcome host tests i outcome) (h' : HasOutcome host tests i outcome') :
    outcome = outcome' := by
  obtain ⟨test, events, result⟩ := outcome
  obtain ⟨test', events', result'⟩ := outcome'
  obtain rfl : test = test' := Option.some.inj (h.test.symm.trans h'.test)
  have hrun := h.run.symm.trans h'.run
  cases hrun
  rfl

theorem Visited.hasOutcome (h : Visited env tests s) (hblind : Blind env host) {i : Nat}
    {call : TestCall} (hcall : s.calls[i]? = some call) :
    HasOutcome host tests i call.outcome := by
  have hi : i < s.calls.length := (List.getElem?_eq_some_iff.mp hcall).1
  constructor
  · have htest := congrArg (·[i]?) h.calls
    rw [List.getElem?_map, hcall, List.getElem?_take_of_lt hi] at htest
    exact htest.symm
  · rw [← hblind i call.unflushed]
    exact (h.answered i call hcall).run

/-- Two sessions over the same tests do the same, as far as the shorter one has come. -/
theorem Visited.outcomes_prefix (h : Visited env tests s) (h' : Visited env' tests s')
    (hblind : Blind env host) (hblind' : Blind env' host)
    (hle : s.calls.length ≤ s'.calls.length) :
    s.calls.map TestCall.outcome <+: s'.calls.map TestCall.outcome := by
  rw [List.prefix_iff_eq_take]
  apply List.ext_getElem?
  intro i
  rw [List.length_map, List.getElem?_map]
  by_cases hi : i < s.calls.length
  · rw [List.getElem?_take_of_lt hi, List.getElem?_map, List.getElem?_eq_getElem hi,
      List.getElem?_eq_getElem (Nat.lt_of_lt_of_le hi hle)]
    have hone := h.hasOutcome hblind (List.getElem?_eq_getElem hi)
    have hother := h'.hasOutcome hblind' (List.getElem?_eq_getElem (Nat.lt_of_lt_of_le hi hle))
    exact congrArg some (hone.unique hother)
  · rw [List.getElem?_eq_none (Nat.le_of_not_lt hi), List.getElem?_take_eq_none (Nat.le_of_not_lt hi)]
    rfl

/-- Where one session ends early, no other one has a result. -/
theorem Stopped.no_outcome {halt : Halt} (h : Stopped env tests halt s) (hblind : Blind env host)
    {outcome : Outcome} : ¬HasOutcome host tests s.calls.length outcome := by
  rintro ⟨htest, hrun⟩
  obtain ⟨test, events, hended, herror⟩ := h.ended
  rw [List.getElem?_map, htest, Option.map_some] at hended
  cases hended
  rw [hblind, hrun] at herror
  cases herror

theorem Stopped.length_le {halt : Halt} (h : Stopped env tests halt s)
    (h' : Visited env' tests s') (hblind : Blind env host) (hblind' : Blind env' host) :
    s'.calls.length ≤ s.calls.length := by
  by_contra hlt
  have hcall := List.getElem?_eq_getElem (Nat.lt_of_not_le hlt)
  exact h.no_outcome hblind (h'.hasOutcome hblind' hcall)

theorem Stopped.same {halt halt' : Halt} (h : Stopped env tests halt s)
    (h' : Stopped env' tests halt' s') (hblind : Blind env host) (hblind' : Blind env' host) :
    halt = halt' ∧ s.calls.map TestCall.outcome = s'.calls.map TestCall.outcome := by
  have hlength : s.calls.length = s'.calls.length :=
    Nat.le_antisymm (h'.length_le h.visited hblind' hblind) (h.length_le h'.visited hblind hblind')
  constructor
  · obtain ⟨test, events, htest, herror⟩ := h.ended
    obtain ⟨test', events', htest', herror'⟩ := h'.ended
    rw [← hlength, htest] at htest'
    cases htest'
    rw [hblind] at herror
    rw [hblind', ← hlength, herror] at herror'
    cases herror'
    rfl
  · apply (h.visited.outcomes_prefix h'.visited hblind hblind' hlength.le).eq_of_length
    rw [List.length_map, List.length_map, hlength]

theorem TestsResults.ext_counter {results results' : TestsResults}
    (hresults : results.results = results'.results)
    (hcount : results.resultsCount = results'.resultsCount)
    (hcounter : ∀ status, results.counter status = results'.counter status) :
    results = results' := by
  obtain ⟨records, count, passed, skipped, failure, incomplete, error⟩ := results
  obtain ⟨records', count', passed', skipped', failure', incomplete', error'⟩ := results'
  obtain rfl : records = records' := hresults
  obtain rfl : count = count' := hcount
  obtain rfl : passed = passed' := hcounter .pass
  obtain rfl : skipped = skipped' := hcounter .skipped
  obtain rfl : failure = failure' := hcounter .failure
  obtain rfl : incomplete = incomplete' := hcounter .incomplete
  obtain rfl : error = error' := hcounter .error
  rfl

/-- The array of results and the counters follow from the outcomes. -/
theorem Visited.results_eq (h : Visited env tests s) (h' : Visited env' tests s')
    (hsame : s.calls.map TestCall.outcome = s'.calls.map TestCall.outcome) :
    s.results = s'.results := by
  have hlength : s.calls.length = s'.calls.length := by
    rw [← List.length_map TestCall.outcome, hsame, List.length_map]
  apply TestsResults.ext_counter
  · have hrecord : (fun call : TestCall => some call.record) =
        (fun outcome : Outcome => some (.of outcome.test outcome.result)) ∘ TestCall.outcome := rfl
    rw [h.results, h'.results, hlength, hrecord, ← List.map_map, ← List.map_map, hsame]
  · apply UInt32.toNat_inj.mp
    rw [h.resultsCount, h'.resultsCount]
  · intro status
    apply UInt32.toNat_inj.mp
    have hcount : ∀ calls : List TestCall, countStatus calls status =
        (calls.map TestCall.outcome).countP fun outcome => outcome.result.status = status := by
      intro calls
      rw [List.countP_map]
      rfl
    rw [h.counters, h'.counters, hcount, hcount, hsame]

end Outcomes

/-- Every diff of a failure fits the memory pool. -/
def ShowsFit (host : Nat → Host) (tests : List ProgramRunnerTest) : Prop :=
  ∀ (i : Nat) test result events, tests[i]? = some test →
    testRun (host i) test [] = .ok result events → ¬result.Oversized

section Modes

variable {env env' : Surroundings} {host : Nat → Host} {suites : List TestSuite}
  {runMode runMode' : UInt32} {s : TestSession}

/-- Every diff of a session that has come to its end has been shown. -/
theorem runSuites_shown {u : Unit} (htotal : (suites.flatMap TestSuite.tests).length < 2 ^ 32)
    (hnamed : Named (suites.flatMap TestSuite.tests))
    (hrun : runSuites env suites runMode .start = .ok u s) :
    ∀ call ∈ s.calls, ¬call.result.Oversized := by
  obtain ⟨runner, s₁, hrunner, h₁⟩ := bind_eq_ok hrun
  obtain ⟨hmode, rfl⟩ := orHalt_eq_ok hrunner
  obtain ⟨_, s₂, hset, h₂⟩ := bind_eq_ok h₁
  cases hset
  unfold testModeRunner at hmode
  split at hmode
  · cases hmode
    exact runSuitesInDetailMode_shown htotal hnamed h₂
  split at hmode
  · cases hmode
    exact runSuitesInPassthroughMode_shown htotal hnamed h₂
  · cases hmode

theorem Visited.not_overrun {halt : Halt} (hblind : Blind env host)
    (hfits : ShowsFit host (suites.flatMap TestSuite.tests)) :
    ¬Overrun env (testIteratorInitBySuites suites).tests halt s := by
  rintro ⟨hvisited, -, call, hcall, hover⟩
  obtain ⟨i, hi⟩ := List.mem_iff_getElem?.mp hcall
  obtain ⟨htest, hrun⟩ := hvisited.hasOutcome hblind hi
  refine hfits i call.test.test call.result call.events ?_ hrun hover
  rw [← init_tests, List.getElem?_map, htest]
  rfl

/-- Where one session runs to its end, every other one does, with the same outcomes. -/
theorem runSuites_ok_same (hmode' : runMode' = runModeDetail ∨ runMode' = runModePassthrough)
    (hblind : Blind env host) (hblind' : Blind env' host)
    (htotal : (suites.flatMap TestSuite.tests).length < 2 ^ 32)
    (hnamed : Named (suites.flatMap TestSuite.tests))
    (hrun : runSuites env suites runMode .start = .ok () s) :
    ∃ s', runSuites env' suites runMode' .start = .ok () s' ∧
      s'.calls.map TestCall.outcome = s.calls.map TestCall.outcome ∧ s'.results = s.results := by
  obtain ⟨hvisited, hall⟩ := runSuites_visited htotal hrun
  cases hrun' : runSuites env' suites runMode' .start with
  | ok u s' =>
      obtain ⟨hvisited', hall'⟩ := runSuites_visited htotal hrun'
      have hlength : s'.calls.length = s.calls.length := hall'.trans hall.symm
      have hsame : s'.calls.map TestCall.outcome = s.calls.map TestCall.outcome := by
        apply (hvisited'.outcomes_prefix hvisited hblind' hblind hlength.le).eq_of_length
        rw [List.length_map, List.length_map, hlength]
      exact ⟨s', rfl, hsame, hvisited'.results_eq hvisited hsame⟩
  | error halt s' =>
      rcases runSuites_ended hmode' htotal hnamed hrun' with hstopped | hover
      · have hle := hstopped.length_le hvisited hblind' hblind
        obtain ⟨test, events, htest, -⟩ := hstopped.ended
        have hlt := (List.getElem?_eq_some_iff.mp htest).1
        rw [List.length_map] at hlt
        omega
      · -- the diff that ends this session has been shown in the other one
        have hfront := hover.visited.outcomes_prefix hvisited hblind' hblind
          (hall ▸ hover.visited.length_le)
        obtain ⟨call, hcall, hcallOver⟩ := hover.ended.oversized
        obtain ⟨other, hother, hsame⟩ :=
          List.mem_map.mp (hfront.subset (List.mem_map_of_mem hcall))
        have hresult : other.result = call.result := congrArg Outcome.result hsame
        rw [← hresult] at hcallOver
        exact absurd hcallOver (runSuites_shown htotal hnamed hrun other hother)

/-- Where one session ends early, every other one does, in the run of the same test. -/
theorem runSuites_error_same (hmode : runMode = runModeDetail ∨ runMode = runModePassthrough)
    (hmode' : runMode' = runModeDetail ∨ runMode' = runModePassthrough)
    (hblind : Blind env host) (hblind' : Blind env' host)
    (htotal : (suites.flatMap TestSuite.tests).length < 2 ^ 32)
    (hnamed : Named (suites.flatMap TestSuite.tests))
    (hfits : ShowsFit host (suites.flatMap TestSuite.tests)) {halt : Halt}
    (hrun : runSuites env suites runMode .start = .error halt s) :
    ∃ s', runSuites env' suites runMode' .start = .error halt s' ∧
      s'.calls.map TestCall.outcome = s.calls.map TestCall.outcome := by
  have hstopped := (runSuites_ended hmode htotal hnamed hrun).resolve_right
    (Visited.not_overrun hblind hfits)
  cases hrun' : runSuites env' suites runMode' .start with
  | ok u s' =>
      obtain ⟨s'', hok, -⟩ := runSuites_ok_same hmode hblind' hblind htotal hnamed hrun'
      rw [hrun] at hok
      cases hok
  | error halt' s' =>
      have hstopped' := (runSuites_ended hmode' htotal hnamed hrun').resolve_right
        (Visited.not_overrun hblind' hfits)
      obtain ⟨rfl, hsame⟩ := hstopped.same hstopped' hblind hblind'
      exact ⟨s', rfl, hsame.symm⟩

end Modes

/-- The exit code tells whether there was an error or a failure. -/
def TestsResults.exitCode (results : TestsResults) : Nat :=
  if results.errorCount > 0 ∨ results.failureCount > 0 then 2 else 0

/-- What `main` does when all tests have been run. -/
def finishRun : TestSessionM Nat := do
  let s ← get
  set { s with out := s.out.fflush }
  return s.results.exitCode

theorem mainRun_eq (env : Surroundings) {suites : List TestSuite}
    (h : getTotalTestsCount suites ≠ 0) (runMode : UInt32) :
    mainRun env suites runMode = runSuites env suites runMode >>= fun _ => finishRun := by
  unfold mainRun
  rw [if_neg h]
  rfl

/-- Neither the mode nor colours, the summary, the measured times or the buffering change which
tests are run, what is done for them, their results, the counters or the exit code of a session that
comes to its end, or, where all diffs fit the memory pool, where and how a session ends early. -/
theorem presentation_irrelevant (env env' : Surroundings) (host : Nat → Host)
    (suites : List TestSuite) (runMode runMode' : UInt32)
    (hmode : runMode = runModeDetail ∨ runMode = runModePassthrough)
    (hmode' : runMode' = runModeDetail ∨ runMode' = runModePassthrough)
    (hblind : Blind env host) (hblind' : Blind env' host)
    (hroom : (suites.flatMap TestSuite.tests).length ≤ pointersPerBlob)
    (hnamed : Named (suites.flatMap TestSuite.tests)) :
    (∀ code s, mainRun env suites runMode .start = .ok code s →
      ∃ s', mainRun env' suites runMode' .start = .ok code s' ∧
        s'.calls.map TestCall.outcome = s.calls.map TestCall.outcome ∧
        s'.results = s.results) ∧
    (ShowsFit host (suites.flatMap TestSuite.tests) →
      ∀ halt s, mainRun env suites runMode .start = .error halt s →
        ∃ s', mainRun env' suites runMode' .start = .error halt s' ∧
          s'.calls.map TestCall.outcome = s.calls.map TestCall.outcome) := by
  have htotal := lt_of_le_pointersPerBlob hroom
  by_cases hnone : getTotalTestsCount suites = 0
  · unfold mainRun
    rw [if_pos hnone, if_pos hnone]
    constructor
    · intro code s hrun
      obtain ⟨_, s₁, hprint, hend⟩ := bind_eq_ok hrun
      obtain rfl := fprintf_eq_ok hprint
      obtain ⟨rfl, rfl⟩ := pure_eq_ok.mp hend
      exact ⟨_, rfl, rfl, rfl⟩
    · intro _ halt s hrun
      rcases bind_eq_error hrun with hprint | ⟨_, _, _, hend⟩
      · exact absurd hprint (fprintf_ne_error _)
      · cases hend
  · rw [mainRun_eq env hnone, mainRun_eq env' hnone]
    constructor
    · intro code s hrun
      obtain ⟨_, s₁, hsuites, hend⟩ := bind_eq_ok hrun
      cases hend
      obtain ⟨s₁', hsuites', hsame, hresults⟩ :=
        runSuites_ok_same hmode' hblind hblind' htotal hnamed hsuites
      refine ⟨s₁'.withOut s₁'.out.fflush, ?_, hsame, hresults⟩
      rw [bind_of_ok hsuites', ← hresults]
      rfl
    · intro hfits halt s hrun
      rcases bind_eq_error hrun with hsuites | ⟨_, _, _, hend⟩
      · obtain ⟨s', hsuites', hsame⟩ :=
          runSuites_error_same hmode hmode' hblind hblind' htotal hnamed hfits hsuites
        rw [bind_of_error hsuites']
        exact ⟨s', rfl, hsame⟩
      · cases hend

/-- A skipped test and two others, in colours and line by line, or as marks only. -/
theorem presentation_irrelevant_three_tests :
    let test : ProgramRunnerTest := { makeProgramRunnerTest with
      name := some (ascii "t"), flags := testCompleteMask, programPath := some (ascii "/bin/x"),
      expectedStdout := some (ascii "hi") }
    let skipped := { test with flags := test.flags ||| testFlagSkipped }
    let suites : List TestSuite := [⟨⟨ascii "a.test", by decide⟩, [test, skipped]⟩,
      ⟨⟨ascii "b.test", by decide⟩, [test]⟩]
    let host := fun i => ⟨true, true, .error [], none, none, none, none, none, .finished,
      ⟨false, some 0, fun
        | .stdout => [some (ascii (if i = 0 then "hi" else "ho"))]
        | .stderr => []⟩⟩
    let marks : Surroundings := ⟨fun i _ => host i, .unbuffered, false, true, 0⟩
    let lines : Surroundings := ⟨fun i _ => host i, .lineBuffered 1024, true, false, 59999⟩
    ∃ s s', mainRun marks suites runModePassthrough .start = .ok 2 s ∧
      mainRun lines suites runModeDetail .start = .ok 2 s' ∧ s'.results = s.results := by
  intro test skipped suites host marks lines
  have hends : (mainRun marks suites runModePassthrough).run' .start = some 2 := by
    decide +kernel
  obtain ⟨s, hrun⟩ := run'_eq_some hends
  obtain ⟨s', hrun', -, hresults⟩ := (presentation_irrelevant marks lines host suites
    runModePassthrough runModeDetail (Or.inr rfl) (Or.inl rfl) (fun _ _ => rfl) (fun _ _ => rfl)
    (by decide) (by simp [Named, suites, test, skipped])).1 2 s hrun
  exact ⟨s, s', hrun, hrun', hresults⟩

section Order

variable {env env' : Surroundings} {answer : ProgramRunnerTest → Host}
  {tests : List ProgramRunnerTest} {suites suites' : List TestSuite} {s s' : TestSession}

/-- What the system answers during the run of a test only depends on the test. -/
def Isolated (env : Surroundings) (answer : ProgramRunnerTest → Host)
    (tests : List ProgramRunnerTest) : Prop :=
  ∀ (i : Nat) test, tests[i]? = some test → ∀ unflushed, env.host i unflushed = answer test

/-- What comes of a test by itself. -/
def aloneOutcome (answer : ProgramRunnerTest → Host) (test : ProgramRunnerTest) :
    Option (ProgramRunnerTest × List HostEvent × TestResult) :=
  match testRun (answer test) test [] with
  | .ok result events => some (test, events, result)
  | .error _ _ => none

def TestCall.alone (call : TestCall) : ProgramRunnerTest × List HostEvent × TestResult :=
  (call.test.test, call.events, call.result)

theorem Visited.aloneOutcomes (h : Visited env (testIteratorInitBySuites suites).tests s)
    (hall : s.calls.length = (testIteratorInitBySuites suites).tests.length)
    (hisolated : Isolated env answer (suites.flatMap TestSuite.tests)) :
    (s.calls.map TestCall.alone).map some =
      (suites.flatMap TestSuite.tests).map (aloneOutcome answer) := by
  have htests := h.tests_eq hall
  rw [← htests] at hisolated ⊢
  rw [List.map_map, List.map_map]
  apply List.ext_getElem?
  intro i
  rw [List.getElem?_map, List.getElem?_map]
  cases hcall : s.calls[i]? with
  | none => rfl
  | some call =>
      have hrun := (h.answered i call hcall).run
      rw [hisolated i call.test.test (by rw [List.getElem?_map, hcall]; rfl)] at hrun
      rw [Option.map_some, Option.map_some, Function.comp_apply, Function.comp_apply,
        aloneOutcome, hrun]
      rfl

/-- What comes of a called test by itself is what has come of it. -/
theorem Visited.alone_eq (h : Visited env (testIteratorInitBySuites suites).tests s)
    (hisolated : Isolated env answer (suites.flatMap TestSuite.tests)) {call : TestCall}
    (hcall : call ∈ s.calls) : call.test.test ∈ suites.flatMap TestSuite.tests ∧
      aloneOutcome answer call.test.test = some call.alone := by
  obtain ⟨i, hi⟩ := List.mem_iff_getElem?.mp hcall
  have hlt : i < s.calls.length := (List.getElem?_eq_some_iff.mp hi).1
  have htest : (suites.flatMap TestSuite.tests)[i]? = some call.test.test := by
    have hplace := congrArg (·[i]?) h.calls
    rw [List.getElem?_map, hi, List.getElem?_take_of_lt hlt] at hplace
    rw [← init_tests, List.getElem?_map, ← hplace]
    rfl
  have hrun := (h.answered i call hi).run
  rw [hisolated i call.test.test htest] at hrun
  refine ⟨List.mem_of_getElem? htest, ?_⟩
  rw [aloneOutcome, hrun]
  rfl

/-- The test that ends a session early would end it by itself. -/
theorem Stopped.aloneOutcome_eq_none {halt : Halt}
    (h : Stopped env (testIteratorInitBySuites suites).tests halt s)
    (hisolated : Isolated env answer (suites.flatMap TestSuite.tests)) :
    ∃ test ∈ suites.flatMap TestSuite.tests, aloneOutcome answer test = none := by
  obtain ⟨test, events, htest, herror⟩ := h.ended
  rw [init_tests] at htest
  refine ⟨test, List.mem_of_getElem? htest, ?_⟩
  rw [hisolated _ test htest] at herror
  rw [aloneOutcome, herror]

theorem countStatus_eq_alone (calls : List TestCall) (status : TestResultStatus) :
    countStatus calls status =
      (calls.map TestCall.alone).countP fun alone => alone.2.2.status = status := by
  rw [List.countP_map]
  rfl

/-- A session with the same tests in another order. -/
theorem runSuites_reordered {runMode runMode' : UInt32}
    (hmode' : runMode' = runModeDetail ∨ runMode' = runModePassthrough)
    (hperm : (suites.flatMap TestSuite.tests).Perm (suites'.flatMap TestSuite.tests))
    (hisolated : Isolated env answer (suites.flatMap TestSuite.tests))
    (hisolated' : Isolated env' answer (suites'.flatMap TestSuite.tests))
    (htotal : (suites.flatMap TestSuite.tests).length < 2 ^ 32)
    (hnamed : Named (suites.flatMap TestSuite.tests))
    (hrun : runSuites env suites runMode .start = .ok () s) :
    ∃ s', runSuites env' suites' runMode' .start = .ok () s' ∧
      (s'.calls.map TestCall.alone).Perm (s.calls.map TestCall.alone) ∧
      ∀ status, s'.results.counter status = s.results.counter status := by
  have htotal' : (suites'.flatMap TestSuite.tests).length < 2 ^ 32 := by
    rw [← hperm.length_eq]
    exact htotal
  obtain ⟨hvisited, hall⟩ := runSuites_visited htotal hrun
  have houtcomes := hvisited.aloneOutcomes hall hisolated
  cases hrun' : runSuites env' suites' runMode' .start with
  | ok u s' =>
      obtain ⟨hvisited', hall'⟩ := runSuites_visited htotal' hrun'
      have houtcomes' := hvisited'.aloneOutcomes hall' hisolated'
      have hsame : (s'.calls.map TestCall.alone).Perm (s.calls.map TestCall.alone) := by
        rw [← List.map_perm_map_iff (fun _ _ => Option.some.inj), houtcomes, houtcomes']
        exact (hperm.map _).symm
      refine ⟨s', rfl, hsame, ?_⟩
      intro status
      apply UInt32.toNat_inj.mp
      rw [hvisited'.counters, hvisited.counters, countStatus_eq_alone, countStatus_eq_alone]
      exact hsame.countP_eq _
  | error halt s' =>
      have hnamed' : Named (suites'.flatMap TestSuite.tests) :=
        fun test htest => hnamed test (hperm.mem_iff.mpr htest)
      have hmem : ∀ test ∈ suites'.flatMap TestSuite.tests,
          aloneOutcome answer test ∈ (s.calls.map TestCall.alone).map some := by
        intro test htest
        rw [houtcomes]
        exact List.mem_map_of_mem (hperm.mem_iff.mpr htest)
      rcases runSuites_ended hmode' htotal' hnamed' hrun' with hstopped | hover
      · obtain ⟨test, htest, hnone⟩ := hstopped.aloneOutcome_eq_none hisolated'
        obtain ⟨_, -, hsome⟩ := List.mem_map.mp (hmem test htest)
        rw [hnone] at hsome
        cases hsome
      · obtain ⟨call, hcall, hcallOver⟩ := hover.ended.oversized
        obtain ⟨htest, halone⟩ := hover.visited.alone_eq hisolated' hcall
        obtain ⟨_, hlisted, hsame⟩ := List.mem_map.mp (hmem call.test.test htest)
        obtain ⟨other, hother, rfl⟩ := List.mem_map.mp hlisted
        have hresult : other.result = call.result :=
          congrArg (fun alone => alone.2.2) (Option.some.inj (hsame.trans halone))
        rw [← hresult] at hcallOver
        exact absurd hcallOver (runSuites_shown htotal hnamed hrun other hother)

end Order

/-- Where tests do not disturb each other, their order and their distribution over the suites
change neither what comes of each of them nor the counters or the exit code. The arrays of tests are
taken to have room, as they have up to `pointersPerBlob`. -/
theorem order_irrelevant (env env' : Surroundings) (answer : ProgramRunnerTest → Host)
    (suites suites' : List TestSuite) (runMode runMode' : UInt32)
    (hmode' : runMode' = runModeDetail ∨ runMode' = runModePassthrough)
    (hperm : (suites.flatMap TestSuite.tests).Perm (suites'.flatMap TestSuite.tests))
    (hisolated : Isolated env answer (suites.flatMap TestSuite.tests))
    (hisolated' : Isolated env' answer (suites'.flatMap TestSuite.tests))
    (htotal : (suites.flatMap TestSuite.tests).length < 2 ^ 32)
    (hnamed : Named (suites.flatMap TestSuite.tests)) (code : Nat) (s : TestSession)
    (hrun : mainRun env suites runMode .start = .ok code s) :
    ∃ s', mainRun env' suites' runMode' .start = .ok code s' ∧
      (s'.calls.map TestCall.alone).Perm (s.calls.map TestCall.alone) ∧
      ∀ status, s'.results.counter status = s.results.counter status := by
  have hcount : getTotalTestsCount suites = getTotalTestsCount suites' := by
    apply UInt32.toNat_inj.mp
    rw [toNat_getTotalTestsCount suites htotal, toNat_getTotalTestsCount suites', hperm.length_eq]
    rw [← hperm.length_eq]
    exact htotal
  by_cases hnone : getTotalTestsCount suites = 0
  · unfold mainRun at hrun ⊢
    rw [if_pos hnone] at hrun
    rw [if_pos (hcount ▸ hnone)]
    obtain ⟨_, s₁, hprint, hend⟩ := bind_eq_ok hrun
    obtain rfl := fprintf_eq_ok hprint
    obtain ⟨rfl, rfl⟩ := pure_eq_ok.mp hend
    exact ⟨_, rfl, List.Perm.refl _, fun _ => rfl⟩
  · rw [mainRun_eq env hnone] at hrun
    rw [mainRun_eq env' (hcount ▸ hnone)]
    obtain ⟨_, s₁, hsuites, hend⟩ := bind_eq_ok hrun
    cases hend
    obtain ⟨s', hsuites', hsame, hcounter⟩ :=
      runSuites_reordered hmode' hperm hisolated hisolated' htotal hnamed hsuites
    refine ⟨s'.withOut s'.out.fflush, ?_, hsame, hcounter⟩
    have herror : s'.results.errorCount = s₁.results.errorCount := hcounter .error
    have hfailure : s'.results.failureCount = s₁.results.failureCount := hcounter .failure
    have hcode : s'.results.exitCode = s₁.results.exitCode := by
      rw [TestsResults.exitCode, TestsResults.exitCode, herror, hfailure]
    rw [bind_of_ok hsuites', ← hcode]
    rfl

/-- Two tests of one suite, and of two suites the other way round. -/
theorem order_irrelevant_two_tests :
    let test : ProgramRunnerTest := { makeProgramRunnerTest with
      name := some (ascii "t"), flags := testCompleteMask, programPath := some (ascii "/bin/x"),
      expectedStdout := some (ascii "hi") }
    let other := { test with expectedStdout := some (ascii "ho") }
    let suites : List TestSuite := [⟨⟨ascii "a.test", by decide⟩, [test, other]⟩]
    let suites' : List TestSuite := [⟨⟨ascii "b.test", by decide⟩, [other]⟩,
      ⟨⟨ascii "c.test", by decide⟩, [test]⟩]
    let env : Surroundings :=
      { host := fun _ _ => ⟨true, true, .error [], none, none, none, none, none, .finished,
          ⟨false, some 0, fun
            | .stdout => [some (ascii "hi")]
            | .stderr => []⟩⟩
        buffering := .unbuffered
        useColors := false
        noSummary := false
        elapsedMs := 0 }
    ∃ s s', mainRun env suites runModePassthrough .start = .ok 2 s ∧
      mainRun env suites' runModePassthrough .start = .ok 2 s' ∧
      (s'.calls.map TestCall.alone).Perm (s.calls.map TestCall.alone) := by
  intro test other suites suites' env
  have hends : (mainRun env suites runModePassthrough).run' .start = some 2 := by
    decide +kernel
  obtain ⟨s, hrun⟩ := run'_eq_some hends
  have hperm : (suites.flatMap TestSuite.tests).Perm (suites'.flatMap TestSuite.tests) :=
    List.Perm.swap other test []
  obtain ⟨s', hrun', hsame, -⟩ := order_irrelevant env env (fun _ => env.host 0 []) suites suites'
    runModePassthrough runModePassthrough (Or.inr rfl) hperm (fun _ _ _ _ => rfl)
    (fun _ _ _ _ => rfl) (by decide) (by simp [Named, suites, test, other]) 2 s hrun
  exact ⟨s, s', hrun, hrun', hsame⟩

end JCUnit
