import JCUnit.Compile.RequirementEffects
import JCUnit.Frontend.InsertedDirective
import JCUnit.Runner.TestRunner

/-!
# Skipping a test

The requirement that skips a test has an effect that can be exchanged with every other one, so
a test compiles with it as it did without it, but for the flag. A test with the flag is not run.
-/

namespace JCUnit

open StateError

def ProgramRunnerTest.skipped (test : ProgramRunnerTest) : ProgramRunnerTest :=
  { test with flags := test.flags ||| testFlagSkipped }

section Compiling

variable {test test' : ProgramRunnerTest} {requirement : AstRequirement} {astTest : AstTest}

theorem compileRequirement_skipped (h : compileRequirement test requirement = .ok test') :
    compileRequirement test.skipped requirement = .ok test'.skipped := by
  cases compileRequirement_uniform test.name requirement with
  | fails message hfails =>
      rw [hfails test rfl] at h
      cases h
  | applies e _ happlies =>
      rw [happlies test rfl] at h
      obtain rfl := Except.ok.inj h
      have hapart : RequirementEffect.shouldBeSkipped.Apart e := by cases e <;> exact trivial
      rw [happlies test.skipped rfl]
      exact congrArg Except.ok (hapart.comm test)

theorem foldlM_compileRequirement_skipped {requirements : List AstRequirement}
    (h : requirements.foldlM compileRequirement test = .ok test') :
    requirements.foldlM compileRequirement test.skipped = .ok test'.skipped := by
  induction requirements generalizing test with
  | nil =>
      cases h
      rfl
  | cons requirement requirements ih =>
      rw [List.foldlM_cons] at h ⊢
      obtain ⟨next, hnext, h⟩ := except_bind_eq_ok h
      rw [compileRequirement_skipped hnext]
      exact ih h

/-- Wherever the requirement is put, it adds the flag and changes nothing else. -/
theorem foldlM_compileRequirement_skippedAt (i : Nat)
    (h : astTest.requirements.foldlM compileRequirement test = .ok test') :
    (astTest.skippedAt i).requirements.foldlM compileRequirement test = .ok test'.skipped := by
  rw [← List.take_append_drop i astTest.requirements, List.foldlM_append] at h
  obtain ⟨between, hbefore, hbehind⟩ := except_bind_eq_ok h
  rw [AstTest.skippedAt, List.foldlM_append, hbefore]
  change (List.foldlM compileRequirement between (skipRequirement :: _) : Except Halt _) = _
  have hskip : compileRequirement between skipRequirement = .ok between.skipped := rfl
  rw [List.foldlM_cons, hskip]
  exact foldlM_compileRequirement_skipped hbehind

theorem findAstRequirementByName_skippedAt (i : Nat) :
    (findAstRequirementByName (astTest.skippedAt i) (ascii "whenRun")).isNone =
      (findAstRequirementByName astTest (ascii "whenRun")).isNone := by
  have hother : (skipRequirement.name.length == (ascii "whenRun").length &&
      memcmpEq skipRequirement.name (ascii "whenRun") (ascii "whenRun").length) = false := rfl
  unfold findAstRequirementByName
  conv_rhs => rw [← List.take_append_drop i astTest.requirements]
  rw [AstTest.skippedAt, List.find?_append, List.find?_append, List.find?_cons_of_neg]
  rw [hother]
  exact Bool.false_ne_true

theorem or_and_distrib (a b mask : UInt32) : (a ||| b) &&& mask = (a &&& mask) ||| (b &&& mask) :=
  UInt32.toBitVec_inj.mp BitVec.and_or_distrib_right

/-- The flag is not one of those that a complete test has. -/
theorem skipped_mask (flags : UInt32) :
    (flags ||| testFlagSkipped) &&& testCompleteMask = flags &&& testCompleteMask := by
  have hapart : testFlagSkipped &&& testCompleteMask = 0 := by decide
  rw [or_and_distrib, hapart, UInt32.or_zero]

/-- A flag that is set is found. -/
theorem marked_ne_zero (flags flag : UInt32) (hflag : flag ≠ 0) :
    (flags ||| flag) &&& flag ≠ 0 := by
  rw [or_and_distrib, UInt32.and_self]
  intro hzero
  exact hflag (UInt32.or_eq_zero_iff.mp hzero).2

theorem compileTest_skippedAt (i : Nat) (h : compileTest astTest = .ok test)
    (hcomplete : test.isIncomplete = false) :
    compileTest (astTest.skippedAt i) = .ok test.skipped := by
  unfold compileTest at h ⊢
  rw [findAstRequirementByName_skippedAt]
  split at h
  · cases h
  rename_i hwhenRun
  rw [if_neg hwhenRun]
  obtain ⟨compiled, hcompiled, h⟩ := except_bind_eq_ok h
  obtain ⟨named, hnamed, hcompiled⟩ := except_bind_eq_ok hcompiled
  obtain ⟨handled, hhandled, hcompiled⟩ := except_bind_eq_ok hcompiled
  have hfold := foldlM_compileRequirement_skippedAt i hhandled
  have hnamed' : testArgumentsCompiler makeProgramRunnerTest (astTest.skippedAt i) = .ok named :=
    hnamed
  split at hcompiled
  · cases hcompiled
  rename_i hplaceholder
  cases hcompiled
  have hrunner : programRunnerTestCompiler (astTest.skippedAt i) = .ok compiled.skipped := by
    unfold programRunnerTestCompiler
    rw [hnamed']
    change ((astTest.skippedAt i).requirements.foldlM compileRequirement named >>= _) = _
    rw [hfold]
    exact if_neg hplaceholder
  rw [hrunner]
  change (if compiled.skipped.flags &&& testCompleteMask ≠ testCompleteMask then _ else _) = _
  rw [ProgramRunnerTest.skipped, skipped_mask]
  split at h
  · cases h
    rw [ProgramRunnerTest.isIncomplete, decide_eq_false_iff_not] at hcomplete
    exact absurd (marked_ne_zero compiled.flags testFlagIncomplete (by decide)) hcomplete
  · rename_i hmask
    cases h
    rw [if_neg hmask]
    rfl

end Compiling

/-- A skipped test ends without anything being done. -/
theorem testRun_skipped {test : ProgramRunnerTest} (hcomplete : test.isIncomplete = false)
    (host : Host) (events : List HostEvent) :
    testRun host test.skipped events = .ok (.plain (runSkippedTest test.skipped)) events := by
  have hincomplete : test.skipped.isIncomplete = false := by
    have hapart : testFlagSkipped &&& testFlagIncomplete = 0 := by decide
    rw [ProgramRunnerTest.isIncomplete] at hcomplete ⊢
    rwa [ProgramRunnerTest.skipped, or_and_distrib, hapart, UInt32.or_zero]
  have hskipped : test.skipped.isSkipped = true :=
    decide_eq_true (marked_ne_zero test.flags testFlagSkipped (by decide))
  unfold testRun
  rw [hincomplete, hskipped]
  rfl

/-- A complete test with room for one more requirement can be skipped by a line in front of any
of its requirements, and the rest of its suite stays as it is. -/
theorem test_can_be_skipped {filename : CString} {source after : Bytes} {tests : List AstTest}
    {suite : TestSuite} {astTest : AstTest} {test : ProgramRunnerTest} {k i : Nat}
    (hparse : parseTestSuite source = .ok tests)
    (hcompile : compileTestSuite filename (some source) = .ok suite)
    (hastTest : tests[k]? = some astTest) (htest : suite.tests[k]? = some test)
    (hcomplete : test.isIncomplete = false)
    (hroom : astTest.requirements.length < maxRequirementCount)
    (hposition : RequirementAt source tests k i after) :
    ∃ before suite', source = before ++ after ∧
      compileTestSuite filename (some (before ++ skipLine ++ after)) = .ok suite' ∧
      suite'.name = suite.name ∧ suite'.tests = suite.tests.set k test.skipped ∧
      test.skipped.isSkipped = true ∧
      ∀ host events,
        testRun host test.skipped events = .ok (.plain (runSkippedTest test.skipped)) events := by
  obtain ⟨before, hsource, htests⟩ := hposition.inserted hastTest hroom
  have hparse' := (parseTestSuite_iff_testsText _ _).mpr htests
  rw [← List.append_assoc] at hparse'
  obtain ⟨_, hparsed, hcompile⟩ := except_bind_eq_ok hcompile
  obtain rfl := Except.ok.inj (hparse.symm.trans hparsed)
  obtain ⟨compiled, hcompiled, hsuite⟩ := except_bind_eq_ok hcompile
  cases hsuite
  have hskipped := compileTest_skippedAt i (mapM_getElem? hcompiled hastTest htest) hcomplete
  refine ⟨before, ⟨suiteName filename, compiled.set k test.skipped⟩, hsource, ?_, rfl, rfl, ?_, ?_⟩
  · change (parseTestSuite (before ++ skipLine ++ after) >>= doCompileTestSuite filename) = _
    rw [hparse']
    change ((tests.set k (astTest.skippedAt i)).mapM compileTest >>= _) = _
    rw [mapM_set k hcompiled hskipped]
    rfl
  · exact decide_eq_true (marked_ne_zero test.flags testFlagSkipped (by decide))
  · exact testRun_skipped hcomplete

theorem test_can_be_skipped_whenRun :
    ∃ before after suite', before ++ after = ascii
        "@test(\"t\")\n@given(\"none\")\n@whenRun(\"/bin/x\")\n@expectOutput(\"stdout\")\nhi\n@endtest\n" ∧
      compileTestSuite ⟨ascii "a.test", by decide⟩ (some (before ++ skipLine ++ after)) =
        .ok suite' ∧
      suite'.tests = [ProgramRunnerTest.skipped { makeProgramRunnerTest with
        name := some (ascii "t")
        flags := testCompleteMask
        programPath := some (ascii "/bin/x")
        expectedStdout := some (ascii "hi") }] := by
  have hparse : parseTestSuite (ascii
      "@test(\"t\")\n@given(\"none\")\n@whenRun(\"/bin/x\")\n@expectOutput(\"stdout\")\nhi\n@endtest\n") =
      .ok [⟨[⟨none, ascii "t"⟩], [⟨ascii "given", [⟨none, ascii "none"⟩], none⟩,
        ⟨ascii "whenRun", [⟨none, ascii "/bin/x"⟩], none⟩,
        ⟨ascii "expectOutput", [⟨none, ascii "stdout"⟩], some (ascii "hi")⟩]⟩] := by
    decide +kernel
  have hcompile : compileTestSuite ⟨ascii "a.test", by decide⟩ (some (ascii
      "@test(\"t\")\n@given(\"none\")\n@whenRun(\"/bin/x\")\n@expectOutput(\"stdout\")\nhi\n@endtest\n")) =
      .ok ⟨⟨ascii "a.test", by decide⟩, [{ makeProgramRunnerTest with
        name := some (ascii "t")
        flags := testCompleteMask
        programPath := some (ascii "/bin/x")
        expectedStdout := some (ascii "hi") }]⟩ := by
    decide +kernel
  obtain ⟨after, hposition⟩ := exists_requirementAt (k := 0) (i := 1) hparse rfl (by decide)
  obtain ⟨before, suite', hsource, hcompiled, -, htests, -⟩ :=
    test_can_be_skipped (k := 0) hparse hcompile rfl rfl (by decide) (by decide) hposition
  exact ⟨before, after, suite', hsource.symm, hcompiled, htests⟩

/-- With expectations of both streams a complete test has all requirements it may have. -/
theorem full_test_cannot_be_skipped :
    (compileTestSuite ⟨ascii "a.test", by decide⟩ (some (
      ascii "@test(\"t\")\n" ++
      ascii "@given(\"none\")\n@whenRun(\"/bin/x\")\n@expectOutput(\"stdout\")\nhi\n" ++
      ascii "@expectOutput(\"stderr\")\nno\n@endtest\n"))) =
      .ok ⟨⟨ascii "a.test", by decide⟩, [{ makeProgramRunnerTest with
        name := some (ascii "t")
        flags := testCompleteMask
        programPath := some (ascii "/bin/x")
        expectedStdout := some (ascii "hi")
        expectedStderr := some (ascii "no") }]⟩ ∧
    (compileTestSuite ⟨ascii "a.test", by decide⟩ (some (
      ascii "@test(\"t\")\n" ++ skipLine ++
      ascii "@given(\"none\")\n@whenRun(\"/bin/x\")\n@expectOutput(\"stdout\")\nhi\n" ++
      ascii "@expectOutput(\"stderr\")\nno\n@endtest\n"))) =
      testFatal (ascii "Exceed max requirement for test!") := by
  decide +kernel

end JCUnit
