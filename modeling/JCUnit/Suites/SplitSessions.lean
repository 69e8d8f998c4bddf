import JCUnit.Suites.Presentation

/-!
# Sessions in parts

Where the tests do not disturb each other, a session does with each of them what a session of this
test alone would do. The sources of a run may then be given to several runs instead.
-/

namespace JCUnit

open StateError

/-- A call went wrong. -/
def WentWrong (calls : List TestCall) : Prop :=
  ∃ call ∈ calls, call.result.status = .failure ∨ call.result.status = .error

instance (calls : List TestCall) : Decidable (WentWrong calls) :=
  inferInstanceAs (Decidable (∃ call ∈ calls, _))

/-- The session and its exit code are what comes of each of the tests by itself. -/
structure Reports (answer : ProgramRunnerTest → Host) (tests : List ProgramRunnerTest) (code : Nat)
    (s : TestSession) : Prop where
  alone : (s.calls.map TestCall.alone).map some = tests.map (aloneOutcome answer)
  counters : ∀ status, (s.results.counter status).toNat = countStatus s.calls status
  code : code = if WentWrong s.calls then 2 else 0
  shown : ∀ call ∈ s.calls, ¬call.result.Oversized

/-- The test by itself comes to its end, and its diffs fit the memory pool. -/
def EndsAlone (answer : ProgramRunnerTest → Host) (test : ProgramRunnerTest) : Prop :=
  ∃ alone, aloneOutcome answer test = some alone ∧ ¬alone.2.2.Oversized

section Parts

variable {env : Surroundings} {answer : ProgramRunnerTest → Host} {suites : List TestSuite}
  {tests tests' : List ProgramRunnerTest} {runMode : UInt32} {code code' code'' : Nat}
  {s s' s'' : TestSession}

theorem mainRun_reports (hisolated : Isolated env answer (suites.flatMap TestSuite.tests))
    (htotal : (suites.flatMap TestSuite.tests).length < 2 ^ 32)
    (hnamed : Named (suites.flatMap TestSuite.tests))
    (hrun : mainRun env suites runMode .start = .ok code s) :
    Reports answer (suites.flatMap TestSuite.tests) code s := by
  have hcode := mainRun_visited htotal hrun
  by_cases hnone : getTotalTestsCount suites = 0
  · have hempty : suites.flatMap TestSuite.tests = [] := by
      apply List.eq_nil_of_length_eq_zero
      rw [← toNat_getTotalTestsCount suites htotal, hnone]
      rfl
    unfold mainRun at hrun
    rw [if_pos hnone] at hrun
    obtain ⟨_, s₁, hprint, hend⟩ := bind_eq_ok hrun
    obtain rfl := fprintf_eq_ok hprint
    obtain ⟨rfl, rfl⟩ := pure_eq_ok.mp hend
    refine ⟨?_, ?_, hcode, fun _ hcall => absurd hcall List.not_mem_nil⟩
    · rw [hempty]
      rfl
    · intro status
      cases status <;> rfl
  · rw [mainRun_eq env hnone] at hrun
    obtain ⟨_, s₁, hsuites, hend⟩ := bind_eq_ok hrun
    cases hend
    obtain ⟨hvisited, hall⟩ := runSuites_visited htotal hsuites
    have hshown := runSuites_shown htotal hnamed hsuites
    exact ⟨hvisited.aloneOutcomes hall hisolated, hvisited.counters, hcode, hshown⟩

/-- A session of tests that end by themselves runs to its end. -/
theorem exists_mainRun (hmode : runMode = runModeDetail ∨ runMode = runModePassthrough)
    (hisolated : Isolated env answer (suites.flatMap TestSuite.tests))
    (htotal : (suites.flatMap TestSuite.tests).length < 2 ^ 32)
    (hnamed : Named (suites.flatMap TestSuite.tests))
    (hends : ∀ test ∈ suites.flatMap TestSuite.tests, EndsAlone answer test) :
    ∃ code s, mainRun env suites runMode .start = .ok code s := by
  by_cases hnone : getTotalTestsCount suites = 0
  · unfold mainRun
    rw [if_pos hnone]
    exact ⟨0, _, rfl⟩
  · rw [mainRun_eq env hnone]
    cases hsuites : runSuites env suites runMode .start with
    | ok u s₁ =>
        rw [bind_of_ok hsuites]
        exact ⟨_, _, rfl⟩
    | error halt s₁ =>
        rcases runSuites_ended hmode htotal hnamed hsuites with hstopped | hover
        · obtain ⟨test, htest, hnone⟩ := hstopped.aloneOutcome_eq_none hisolated
          obtain ⟨alone, halone, -⟩ := hends test htest
          cases hnone.symm.trans halone
        · obtain ⟨call, hcall, hcallOver⟩ := hover.ended.oversized
          obtain ⟨htest, hcallAlone⟩ := hover.visited.alone_eq hisolated hcall
          obtain ⟨alone, halone, hfits⟩ := hends call.test.test htest
          cases halone.symm.trans hcallAlone
          exact absurd hcallOver hfits

theorem Reports.ends (h : Reports answer tests code s) :
    ∀ test ∈ tests, EndsAlone answer test := by
  intro test htest
  have hmem : aloneOutcome answer test ∈ (s.calls.map TestCall.alone).map some := by
    rw [h.alone]
    exact List.mem_map_of_mem htest
  obtain ⟨alone, halone, hsame⟩ := List.mem_map.mp hmem
  obtain ⟨call, hcall, rfl⟩ := List.mem_map.mp halone
  exact ⟨call.alone, hsame.symm, h.shown call hcall⟩

theorem Reports.append_alone (h : Reports answer (tests ++ tests') code s)
    (h' : Reports answer tests code' s') (h'' : Reports answer tests' code'' s'') :
    s.calls.map TestCall.alone = s'.calls.map TestCall.alone ++ s''.calls.map TestCall.alone := by
  apply List.map_injective_iff.mpr fun _ _ => Option.some.inj
  rw [h.alone, List.map_append, List.map_append, h'.alone, h''.alone]

theorem Reports.append_counter (h : Reports answer (tests ++ tests') code s)
    (h' : Reports answer tests code' s') (h'' : Reports answer tests' code'' s'')
    (status : TestResultStatus) :
    (s.results.counter status).toNat =
      (s'.results.counter status).toNat + (s''.results.counter status).toNat := by
  rw [h.counters, h'.counters, h''.counters, countStatus_eq_alone, countStatus_eq_alone,
    countStatus_eq_alone, h.append_alone h' h'', List.countP_append]

theorem wentWrong_iff (calls : List TestCall) : WentWrong calls ↔
    ∃ alone ∈ calls.map TestCall.alone,
      alone.2.2.status = .failure ∨ alone.2.2.status = .error := by
  unfold WentWrong
  simp only [List.mem_map, exists_exists_and_eq_and]
  rfl

theorem Reports.append_code (h : Reports answer (tests ++ tests') code s)
    (h' : Reports answer tests code' s') (h'' : Reports answer tests' code'' s'') :
    code = max code' code'' := by
  have hwrong : WentWrong s.calls ↔ WentWrong s'.calls ∨ WentWrong s''.calls := by
    rw [wentWrong_iff, wentWrong_iff, wentWrong_iff, h.append_alone h' h'']
    simp only [List.mem_append, or_and_right, exists_or]
  rw [h.code, h'.code, h''.code]
  by_cases hfirst : WentWrong s'.calls
  · rw [if_pos (hwrong.mpr (Or.inl hfirst)), if_pos hfirst]
    split <;> rfl
  · simp only [hwrong, hfirst, false_or, if_false, Nat.zero_max]

end Parts

/-- A run over the suites of two runs comes to its end when both do. Then it makes the calls of the
first and those of the second, with the same results, its counters are the sums of theirs, and it
exits with the greater of their exit codes. The arrays of tests are taken to have room, as they have
up to `pointersPerBlob`. -/
theorem sessions_compose (env env' env'' : Surroundings) (answer : ProgramRunnerTest → Host)
    (suites suites' : List TestSuite) (runMode runMode' runMode'' : UInt32)
    (hmode : runMode = runModeDetail ∨ runMode = runModePassthrough)
    (hmode' : runMode' = runModeDetail ∨ runMode' = runModePassthrough)
    (hmode'' : runMode'' = runModeDetail ∨ runMode'' = runModePassthrough)
    (hisolated : Isolated env answer ((suites ++ suites').flatMap TestSuite.tests))
    (hisolated' : Isolated env' answer (suites.flatMap TestSuite.tests))
    (hisolated'' : Isolated env'' answer (suites'.flatMap TestSuite.tests))
    (htotal : ((suites ++ suites').flatMap TestSuite.tests).length < 2 ^ 32)
    (hnamed : Named ((suites ++ suites').flatMap TestSuite.tests)) :
    ((∃ code s, mainRun env (suites ++ suites') runMode .start = .ok code s) ↔
      (∃ code s, mainRun env' suites runMode' .start = .ok code s) ∧
        ∃ code s, mainRun env'' suites' runMode'' .start = .ok code s) ∧
    ∀ code s code' s' code'' s'',
      mainRun env (suites ++ suites') runMode .start = .ok code s →
      mainRun env' suites runMode' .start = .ok code' s' →
      mainRun env'' suites' runMode'' .start = .ok code'' s'' →
      s.calls.map TestCall.alone =
          s'.calls.map TestCall.alone ++ s''.calls.map TestCall.alone ∧
        (∀ status, (s.results.counter status).toNat =
          (s'.results.counter status).toNat + (s''.results.counter status).toNat) ∧
        code = max code' code'' := by
  have htests : (suites ++ suites').flatMap TestSuite.tests =
      suites.flatMap TestSuite.tests ++ suites'.flatMap TestSuite.tests := List.flatMap_append
  have htotals : (suites.flatMap TestSuite.tests).length < 2 ^ 32 ∧
      (suites'.flatMap TestSuite.tests).length < 2 ^ 32 := by
    rw [htests, List.length_append] at htotal
    omega
  have hnameds : Named (suites.flatMap TestSuite.tests) ∧
      Named (suites'.flatMap TestSuite.tests) := by
    rw [htests] at hnamed
    exact List.forall_mem_append.mp hnamed
  have hwhole : ∀ code s, mainRun env (suites ++ suites') runMode .start = .ok code s →
      Reports answer (suites.flatMap TestSuite.tests ++ suites'.flatMap TestSuite.tests) code s := by
    intro code s hrun
    rw [← htests]
    exact mainRun_reports hisolated htotal hnamed hrun
  constructor
  · constructor
    · rintro ⟨code, s, hrun⟩
      obtain ⟨hends, hends'⟩ := List.forall_mem_append.mp (hwhole code s hrun).ends
      exact ⟨exists_mainRun hmode' hisolated' htotals.1 hnameds.1 hends,
        exists_mainRun hmode'' hisolated'' htotals.2 hnameds.2 hends'⟩
    · rintro ⟨⟨code', s', hrun'⟩, ⟨code'', s'', hrun''⟩⟩
      apply exists_mainRun hmode hisolated htotal hnamed
      rw [htests]
      exact List.forall_mem_append.mpr ⟨(mainRun_reports hisolated' htotals.1 hnameds.1 hrun').ends,
        (mainRun_reports hisolated'' htotals.2 hnameds.2 hrun'').ends⟩
  · intro code s code' s' code'' s'' hrun hrun' hrun''
    have h := hwhole code s hrun
    have h' := mainRun_reports hisolated' htotals.1 hnameds.1 hrun'
    have h'' := mainRun_reports hisolated'' htotals.2 hnameds.2 hrun''
    exact ⟨h.append_alone h' h'', h.append_counter h' h'', h.append_code h' h''⟩

/-- A suite whose test passes and one whose test fails. -/
theorem sessions_compose_two_suites :
    let test : ProgramRunnerTest := { makeProgramRunnerTest with
      name := some (ascii "t"), flags := testCompleteMask, programPath := some (ascii "/bin/x"),
      expectedStdout := some (ascii "hi") }
    let suites : List TestSuite := [⟨⟨ascii "a.test", by decide⟩, [test]⟩]
    let suites' : List TestSuite :=
      [⟨⟨ascii "b.test", by decide⟩, [{ test with expectedStdout := some (ascii "ho") }]⟩]
    let env : Surroundings :=
      { host := fun _ _ => ⟨true, true, .error [], none, none, none, none, none, .finished,
          ⟨false, some 0, fun
            | .stdout => [some (ascii "hi")]
            | .stderr => []⟩⟩
        buffering := .unbuffered
        useColors := false
        noSummary := false
        elapsedMs := 0 }
    ∃ s s' s'', mainRun env (suites ++ suites') runModePassthrough .start = .ok 2 s ∧
      mainRun env suites runModeDetail .start = .ok 0 s' ∧
      mainRun env suites' runModeDetail .start = .ok 2 s'' ∧
      s.calls.map TestCall.alone =
        s'.calls.map TestCall.alone ++ s''.calls.map TestCall.alone := by
  intro test suites suites' env
  have hends : (mainRun env (suites ++ suites') runModePassthrough).run' .start = some 2 := by
    decide +kernel
  have hends' : (mainRun env suites runModeDetail).run' .start = some 0 := by
    decide +kernel
  have hends'' : (mainRun env suites' runModeDetail).run' .start = some 2 := by
    decide +kernel
  obtain ⟨s, hrun⟩ := run'_eq_some hends
  obtain ⟨s', hrun'⟩ := run'_eq_some hends'
  obtain ⟨s'', hrun''⟩ := run'_eq_some hends''
  have hcompose := sessions_compose env env env (fun _ => env.host 0 []) suites suites'
    runModePassthrough runModeDetail runModeDetail (Or.inr rfl) (Or.inl rfl) (Or.inl rfl)
    (fun _ _ _ _ => rfl) (fun _ _ _ _ => rfl) (fun _ _ _ _ => rfl) (by decide)
    (by simp [Named, suites, suites', test])
  exact ⟨s, s', s'', hrun, hrun', hrun'', (hcompose.2 2 s 0 s' 2 s'' hrun hrun' hrun'').1⟩

end JCUnit
