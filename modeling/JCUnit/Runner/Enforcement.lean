import JCUnit.Compile.Expectations
import JCUnit.Frontend.ContentBounds
import JCUnit.Matching.Satisfiable
import JCUnit.Runner.Verdict

/-!
# Expectations that are enforced

An expectation is enforced if no output of the program lets the test pass without
meeting it. Some output passes every test that can be started, and one without a
content is lost on the way to the runner.
-/

namespace JCUnit

open StateError

section Start

/-- The paths the test's file may get: its own name, one of `mkstemp`, or the one referred to. -/
inductive GivenPath (test : ProgramRunnerTest) : Option Bytes → Prop
  | named {filename : Bytes} (htype : test.givenType = givenTypeFile)
      (hname : test.givenFilename = some filename)
      (hlimit : sizeSub (sizeSub filename.length givenFilenamePrefix.length) 1 <
        maxTestGivenFilenameLen)
      (hroom : givenFilenamePrefix.length + (cstr filename).length + 1 ≤ maxTestGivenFilenameLen) :
      GivenPath test (some (CString.ofBuffer (givenFilenamePrefix ++ filename)).bytes)
  | temporary (suffix : TemporarySuffix) (htype : test.givenType = givenTypeFile)
      (hname : test.givenFilename = none) :
      GivenPath test (some (CString.ofBuffer (givenFileTemplate ++ suffix.bytes)).bytes)
  | reference (htype : test.givenType = givenTypeReference) : GivenPath test test.givenPath
  | absent (hfile : test.givenType ≠ givenTypeFile)
      (hreference : test.givenType ≠ givenTypeReference) : GivenPath test none

/-- The test has a program, and a command line can be built for it. -/
def ProgramRunnerTest.Startable (test : ProgramRunnerTest) : Prop :=
  ∃ filename program args, GivenPath test filename ∧ test.programPath = some program ∧
    buildArgs (CString.ofBuffer program) (filename.map CString.ofBuffer)
      (test.programArgs.map CString.ofBuffer) = .ok args

variable {test : ProgramRunnerTest} {events events' : List HostEvent} {filename : Option Bytes}

theorem resolveGivenFilename_givenPath {host : Host} {path : CString}
    (htype : test.givenType = givenTypeFile)
    (h : resolveGivenFilename host test events = .ok path events') :
    GivenPath test (some path.bytes) := by
  unfold resolveGivenFilename at h
  cases hname : test.givenFilename with
  | some name =>
      simp only [hname] at h
      split at h
      · cases h
      split at h
      · cases h
      · rename_i hlimit hroom
        cases (pure_eq_ok.mp h).1
        exact .named htype hname (Nat.not_le.mp hlimit) (Nat.not_lt.mp hroom)
  | none =>
      simp only [hname] at h
      cases hsuffix : host.mkstemp with
      | error text =>
          rw [hsuffix] at h
          cases h
      | ok suffix =>
          rw [hsuffix] at h
          obtain ⟨_, events₁, _, h⟩ := bind_eq_ok h
          cases (pure_eq_ok.mp h).1
          exact .temporary suffix htype hname

theorem prepareGiven_givenPath {host : Host}
    (h : prepareGiven host test events = .ok filename events') : GivenPath test filename := by
  unfold prepareGiven at h
  split at h
  case isTrue htype =>
    obtain ⟨path, events₁, hpath, h⟩ := bind_eq_ok h
    obtain ⟨_, events₂, _, h⟩ := bind_eq_ok h
    cases (pure_eq_ok.mp h).1
    exact resolveGivenFilename_givenPath htype hpath
  case isFalse hfile =>
    split at h
    case isTrue htype =>
      cases (pure_eq_ok.mp h).1
      exact .reference htype
    case isFalse hreference =>
      cases (pure_eq_ok.mp h).1
      exact .absent hfile hreference

theorem prepareGiven_of_resolve {suffix : TemporarySuffix} {child : ChildOutcome} {path : CString}
    (htype : test.givenType = givenTypeFile)
    (h : resolveGivenFilename (Host.obliging suffix child) test events = .ok path events') :
    prepareGiven (Host.obliging suffix child) test events = .ok (some path.bytes)
      (events' ++ [.created path (test.givenFileContent.getD [])]) := by
  unfold prepareGiven
  rw [if_pos htype, bind_of_ok h]
  rfl

/-- A system whose `mkstemp` gives the right name prepares any of the paths. -/
theorem GivenPath.prepareGiven_obliging (h : GivenPath test filename) :
    ∃ suffix, ∀ child events, ∃ events',
      prepareGiven (Host.obliging suffix child) test events = .ok filename events' := by
  cases h with
  | @named name htype hname hlimit hroom =>
      refine ⟨someSuffix, ?_⟩
      intro child events
      have hresolve : resolveGivenFilename (Host.obliging someSuffix child) test events =
          .ok (CString.ofBuffer (givenFilenamePrefix ++ name)) events := by
        unfold resolveGivenFilename
        simp only [hname, if_neg (Nat.not_le.mpr hlimit), if_neg (Nat.not_lt.mpr hroom)]
        rfl
      exact ⟨_, prepareGiven_of_resolve htype hresolve⟩
  | temporary suffix htype hname =>
      refine ⟨suffix, ?_⟩
      intro child events
      have hresolve : resolveGivenFilename (Host.obliging suffix child) test events =
          .ok (CString.ofBuffer (givenFileTemplate ++ suffix.bytes))
            (events ++ [.created (CString.ofBuffer (givenFileTemplate ++ suffix.bytes)) []]) := by
        unfold resolveGivenFilename
        simp only [hname]
        rfl
      exact ⟨_, prepareGiven_of_resolve htype hresolve⟩
  | reference htype =>
      refine ⟨someSuffix, fun child events => ⟨events, ?_⟩⟩
      unfold prepareGiven
      rw [if_neg (by rw [htype]; decide), if_pos htype]
      rfl
  | absent hfile hreference =>
      refine ⟨someSuffix, fun child events => ⟨events, ?_⟩⟩
      unfold prepareGiven
      rw [if_neg hfile, if_neg hreference]
      rfl

theorem tryToRunProgram_obliging {suffix : TemporarySuffix} {child : ChildOutcome}
    {program : CString} {filename extraArgs : Option CString} {args : List Bytes}
    (hargs : buildArgs program filename extraArgs = .ok args) (stdinInput : Option Bytes)
    (events : List HostEvent) :
    tryToRunProgram (Host.obliging suffix child) program filename extraArgs stdinInput events =
      .ok (Host.obliging suffix child).programRun (events ++ [.started program args stdinInput]) := by
  unfold tryToRunProgram
  have hlift : ofExcept (buildArgs program filename extraArgs) events = .ok args events := by
    rw [hargs]
    rfl
  rw [bind_of_ok hlift]
  cases stdinInput <;> rfl

/-- A test that can be started is run to its verdict, whatever its program does. -/
theorem ProgramRunnerTest.Startable.runs (h : test.Startable) :
    ∃ suffix filename, ∀ child events, ∃ events',
      programRunnerTestRunner (Host.obliging suffix child) test events =
        .ok (judge test filename (Host.obliging suffix child).programRun) events' := by
  obtain ⟨filename, program, args, hpath, hprogram, hargs⟩ := h
  obtain ⟨suffix, hprepare⟩ := hpath.prepareGiven_obliging
  refine ⟨suffix, filename, ?_⟩
  intro child events
  obtain ⟨events₁, hgiven⟩ := hprepare child events
  have hremoved : ∀ events₂, ∃ events', removeGivenFile test filename events₂ = .ok () events' := by
    intro events₂
    unfold removeGivenFile
    split
    · exact ⟨_, rfl⟩
    · exact ⟨_, rfl⟩
  obtain ⟨events', hremove⟩ := hremoved
    (events₁ ++ [.started (CString.ofBuffer program) args (stdinInput test)])
  refine ⟨events', ?_⟩
  unfold programRunnerTestRunner
  rw [bind_of_ok hgiven]
  simp only [hprogram]
  rw [bind_of_ok (tryToRunProgram_obliging hargs _ _), bind_of_ok hremove]
  rfl

theorem startable_of_run {host : Host} {result : ProgramRunnerTestResult}
    (h : programRunnerTestRunner host test events = .ok result events') : test.Startable := by
  obtain ⟨filename, events₁, hgiven, _, program, args, hprogram, hargs⟩ :=
    programRunnerTestRunner_eq_ok h
  exact ⟨filename, program, args, prepareGiven_givenPath hgiven, hprogram, hargs⟩

end Start

section Enforced

/-- The bytes a run keeps of a stream. -/
def ProgramRun.captured (run : ProgramRun) : Stream → Bytes
  | .stdout => run.stdout.bytes
  | .stderr => run.stderr.bytes

/-- The first `expectOutput` for the stream has a content, or the first content there is says
the same as none. -/
def AstTest.KeepsExpectation (astTest : AstTest) (stream : Stream) : Prop :=
  (∃ content, (astTest.expectations stream).head? = some (some content)) ∨
    (astTest.expectations stream).findSome? id = some []

variable {test : ProgramRunnerTest} {astTest : AstTest} {stream : Stream}

theorem AstTest.KeepsExpectation.compiled (h : astTest.KeepsExpectation stream)
    (hcompile : compileTest astTest = .ok test) :
    test.expected stream = some (astTest.firstExpectation stream) := by
  rw [compileTest_expected hcompile]
  unfold AstTest.firstExpectation
  cases hexpectations : astTest.expectations stream with
  | nil =>
      unfold AstTest.KeepsExpectation at h
      simp [hexpectations] at h
  | cons first rest =>
      unfold AstTest.KeepsExpectation at h
      rw [hexpectations] at h
      cases first with
      | some content => rfl
      | none => simpa using h

/-- An expectation that is lost declares no output, and the test expects some output or
nothing at all. -/
theorem lost_expectation (h : ¬ astTest.KeepsExpectation stream)
    (hcompile : compileTest astTest = .ok test) :
    astTest.firstExpectation stream = [] ∧ test.expected stream ≠ some [] := by
  unfold AstTest.KeepsExpectation at h
  push Not at h
  constructor
  · unfold AstTest.firstExpectation
    cases hexpectations : astTest.expectations stream with
    | nil => rfl
    | cons first rest =>
        cases first with
        | none => rfl
        | some content =>
            rw [hexpectations] at h
            exact absurd rfl (h.1 content)
  · rw [compileTest_expected hcompile]
    exact h.2

theorem testRun_of_program {host : Host} {events events' : List HostEvent}
    {result : ProgramRunnerTestResult} (hcomplete : test.isIncomplete = false)
    (hskipped : test.isSkipped = false) (hkind : test.kind = testKindProgramRunner)
    (h : programRunnerTestRunner host test events = .ok result events') :
    testRun host test events = .ok (.programRunner result) events' := by
  unfold testRun
  rw [hcomplete, hskipped]
  simp only [Bool.false_eq_true, if_false, if_pos hkind]
  rw [bind_of_ok h]
  rfl

/-- A passing run meets the expectations the compiled test has. -/
theorem expected_of_pass {host : Host} {events events' : List HostEvent} {result : TestResult}
    (hcomplete : test.isIncomplete = false) (hskipped : test.isSkipped = false)
    (hkind : test.kind = testKindProgramRunner)
    (hrun : testRun host test events = .ok result events') (hpass : result.status = .pass)
    (stream : Stream) :
    test.Startable ∧ ∀ expected ∈ test.expected stream,
      patternMatch expected (host.programRun.captured stream) = true := by
  unfold testRun at hrun
  rw [hcomplete, hskipped] at hrun
  simp only [Bool.false_eq_true, if_false, if_pos hkind] at hrun
  obtain ⟨programResult, events₁, hprogram, hrun⟩ := bind_eq_ok hrun
  cases (pure_eq_ok.mp hrun).1
  refine ⟨startable_of_run hprogram, ?_⟩
  obtain ⟨filename, _, _, rfl, _⟩ := programRunnerTestRunner_eq_ok hprogram
  have hpasses := (judge_status_pass_iff.mp hpass).2
  unfold testPasses at hpasses
  simp only [Bool.and_eq_true, Bool.not_eq_true'] at hpasses
  intro expected hexpected
  cases stream with
  | stdout =>
      have hstream := hpasses.1.1
      unfold ProgramRunnerTest.expected at hexpected
      simp only [Option.mem_def] at hexpected
      simpa [streamFails, isTestPasses, hexpected, ProgramRun.captured] using hstream
  | stderr =>
      have hstream := hpasses.1.2
      unfold ProgramRunnerTest.expected at hexpected
      simp only [Option.mem_def] at hexpected
      simpa [streamFails, isTestPasses, hexpected, ProgramRun.captured] using hstream

theorem ChildOutcome.output_length_lt (child : ChildOutcome) (stream : Stream) :
    (child.output stream).bytes.length < maxProcessOutputBufferLen := by
  unfold ChildOutcome.output
  rw [capture_eq]
  split
  case isTrue => exact Nat.zero_lt_succ _
  case isFalse hshort =>
    split
    · exact Nat.zero_lt_succ _
    · exact Nat.not_le.mp hshort

theorem Host.captured_length_lt (host : Host) (stream : Stream) :
    (host.programRun.captured stream).length < maxProcessOutputBufferLen := by
  unfold Host.programRun
  split
  · cases stream <;> exact Nat.zero_lt_succ _
  split
  · cases stream <;> exact Nat.zero_lt_succ _
  · cases stream with
    | stdout => exact host.child.output_length_lt .stdout
    | stderr => exact host.child.output_length_lt .stderr

theorem capture_single {output : Bytes} (hshort : output.length < maxProcessOutputBufferLen) :
    capture [] [some output] = ⟨output, .none⟩ := by
  have hdelivered : delivered [some output] = output := by
    cases output <;> simp [delivered]
  have hfails : readFails [some output] = false := by
    cases output <;> rfl
  rw [capture_eq, hdelivered, hfails, List.nil_append, if_neg (Nat.not_le.mpr hshort)]
  rfl

/-- Some output meets an expectation; unless that is no output, one that is not empty. -/
theorem exists_meeting_output (expected : Option Bytes)
    (hfits : ∀ content ∈ expected, content.length < maxRequirementContentSize) :
    ∃ output : Bytes, output.length < maxProcessOutputBufferLen ∧
      streamFails expected ⟨output, .none⟩ = false ∧ (expected ≠ some [] → output ≠ []) := by
  have hsizes : maxRequirementContentSize = maxProcessOutputBufferLen := rfl
  cases expected with
  | none => exact ⟨[120], by decide, rfl, fun _ => List.cons_ne_nil _ _⟩
  | some content =>
      have hshort := hfits content rfl
      have hbound : 2 * content.length < 2 ^ 32 := by
        have hlimit : maxRequirementContentSize = 8192 := rfl
        omega
      by_cases hcontent : content = []
      · subst hcontent
        refine ⟨[], by decide, ?_, fun hdiffers => absurd rfl hdiffers⟩
        simpa [streamFails, isTestPasses, literalPieces] using patternMatch_flatten hbound
      · obtain ⟨output, houtput, hlength, hmatch⟩ := exists_patternMatch_ne_nil hcontent hbound
        refine ⟨output, by omega, ?_, fun _ => houtput⟩
        simp [streamFails, isTestPasses, hmatch]

theorem compileTest_expected_fits {astTest : AstTest} (hfit : astTest.ContentsFit)
    (hcompile : compileTest astTest = .ok test) (stream : Stream) :
    ∀ content ∈ test.expected stream, content.length < maxRequirementContentSize := by
  intro content hcontent
  rw [compileTest_expected hcompile, Option.mem_def, List.findSome?_eq_some_iff] at hcontent
  obtain ⟨before, found, after, hsplit, hfound, _⟩ := hcontent
  have hmem : some content ∈ astTest.expectations stream := by
    rw [hsplit, show found = some content from hfound]
    exact List.mem_append_right _ List.mem_cons_self
  obtain ⟨requirement, hrequirement, heq⟩ := List.mem_map.mp hmem
  exact hfit requirement (List.mem_filter.mp hrequirement).1 content heq

/-- A test that can be started passes with some output, which is empty on a stream only if the
test expects that. -/
theorem exists_passing_run (hcomplete : test.isIncomplete = false) (hskipped : test.isSkipped = false)
    (hkind : test.kind = testKindProgramRunner) (hstart : test.Startable)
    (hfits : ∀ stream, ∀ content ∈ test.expected stream, content.length < maxRequirementContentSize) :
    ∃ host events events' result, testRun host test events = .ok result events' ∧
      result.status = .pass ∧ ∀ stream, test.expected stream ≠ some [] →
        host.programRun.captured stream ≠ [] := by
  obtain ⟨suffix, filename, hruns⟩ := hstart.runs
  obtain ⟨out, houtShort, houtMeets, hout⟩ := exists_meeting_output test.expectedStdout (hfits .stdout)
  obtain ⟨err, herrShort, herrMeets, herr⟩ := exists_meeting_output test.expectedStderr (hfits .stderr)
  let child : ChildOutcome :=
    ⟨false, some 0, fun stream =>
      match stream with
      | .stdout => [some out]
      | .stderr => [some err]⟩
  have hprogram : (Host.obliging suffix child).programRun = ⟨⟨out, .none⟩, ⟨err, .none⟩, 0⟩ := by
    have hstdout := capture_single houtShort
    have hstderr := capture_single herrShort
    change (⟨capture [] [some out], capture [] [some err], _⟩ : ProgramRun) = _
    rw [hstdout, hstderr]
    rfl
  obtain ⟨events', hrun⟩ := hruns child []
  rw [hprogram] at hrun
  have hpass : (judge test filename ⟨⟨out, .none⟩, ⟨err, .none⟩, 0⟩).base.status = .pass := by
    apply judge_status_pass_iff.mpr
    refine ⟨rfl, ?_⟩
    simp [testPasses, houtMeets, herrMeets]
  refine ⟨Host.obliging suffix child, [], events', .programRunner _, ?_, hpass, ?_⟩
  · exact testRun_of_program hcomplete hskipped hkind hrun
  · intro stream hstream
    rw [hprogram]
    cases stream with
    | stdout => exact hout hstream
    | stderr => exact herr hstream

/-- The tests on which every declared expectation is enforced: those that cannot be started,
and those that keep the expectation. -/
theorem expectation_enforced_iff (source : Bytes) (astTests : List AstTest) (astTest : AstTest)
    (test : ProgramRunnerTest) (stream : Stream)
    (hparse : parseTestSuite source = .ok astTests) (hmem : astTest ∈ astTests)
    (hcompile : compileTest astTest = .ok test) (hcomplete : test.isIncomplete = false)
    (hskipped : test.isSkipped = false) :
    (∀ host events events' result, testRun host test events = .ok result events' →
      result.status = .pass →
        patternMatch (astTest.firstExpectation stream) (host.programRun.captured stream) = true) ↔
      (¬ test.Startable ∨ astTest.KeepsExpectation stream) := by
  have hkind := compileTest_kind hcompile
  constructor
  · intro henforced
    by_contra hlost
    push Not at hlost
    obtain ⟨hstart, hlost⟩ := hlost
    obtain ⟨hfirst, hexpected⟩ := lost_expectation hlost hcompile
    have hfits := compileTest_expected_fits (parseTestSuite_contentsFit hparse astTest hmem) hcompile
    obtain ⟨host, events, events', result, hrun, hpass, hcaptured⟩ :=
      exists_passing_run hcomplete hskipped hkind hstart hfits
    have hmatch := henforced host events events' result hrun hpass
    rw [hfirst] at hmatch
    have hshort := host.captured_length_lt stream
    apply hcaptured stream hexpected
    exact patternMatch_nil (hshort.trans (by decide)) hmatch
  · intro hcondition host events events' result hrun hpass
    obtain ⟨hstart, hmeets⟩ := expected_of_pass hcomplete hskipped hkind hrun hpass stream
    have hkeeps := hcondition.resolve_left (fun hnot => hnot hstart)
    exact hmeets _ (hkeeps.compiled hcompile)

theorem expectation_enforced_iff_hi :
    let test : ProgramRunnerTest := { makeProgramRunnerTest with
      name := some (ascii "t")
      flags := testCompleteMask
      programPath := some (ascii "./tool")
      expectedStdout := some (ascii "hi") }
    let astTest : AstTest := ⟨[⟨none, ascii "t"⟩], [⟨ascii "given", [⟨none, ascii "none"⟩], none⟩,
      ⟨ascii "whenRun", [⟨none, ascii "./tool"⟩], none⟩,
      ⟨ascii "expectOutput", [⟨none, ascii "stdout"⟩], some (ascii "hi")⟩]⟩
    (∀ host events events' result, testRun host test events = .ok result events' →
      result.status = .pass →
        patternMatch (astTest.firstExpectation .stdout) (host.programRun.captured .stdout) = true) ↔
      (¬ test.Startable ∨ astTest.KeepsExpectation .stdout) := by
  intro test astTest
  have hparse : parseTestSuite (ascii "@test(\"t\")\n@given(\"none\")\n@whenRun(\"./tool\")\n@expectOutput(\"stdout\")\nhi\n@endtest\n") =
      .ok [astTest] := by
    decide +kernel
  exact expectation_enforced_iff _ _ astTest test .stdout hparse (List.mem_singleton_self _)
    (by decide +kernel) (by decide) (by decide)

/-- An `expectOutput` without a content lets a program pass that puts out something. -/
theorem empty_expectation_not_enforced :
    ∃ astTest test,
      parseTestSuite (ascii "@test(\"t\")\n@given(\"none\")\n@whenRun(\"./tool\")\n@expectOutput(\"stdout\")\n@endtest\n") = .ok [astTest] ∧
      compileTest astTest = .ok test ∧ test.isIncomplete = false ∧ test.isSkipped = false ∧
      astTest.expectations .stdout ≠ [] ∧
      ∃ host result events, testRun host test [] = .ok result events ∧ result.status = .pass ∧
        patternMatch (astTest.firstExpectation .stdout) (host.programRun.captured .stdout) = false := by
  let test : ProgramRunnerTest := { makeProgramRunnerTest with
    name := some (ascii "t")
    flags := testCompleteMask
    programPath := some (ascii "./tool") }
  let host := Host.obliging someSuffix ⟨false, some 0, fun
    | .stdout => [some (ascii "hello")]
    | .stderr => []⟩
  refine ⟨⟨[⟨none, ascii "t"⟩], [⟨ascii "given", [⟨none, ascii "none"⟩], none⟩,
    ⟨ascii "whenRun", [⟨none, ascii "./tool"⟩], none⟩,
    ⟨ascii "expectOutput", [⟨none, ascii "stdout"⟩], none⟩]⟩, test, by decide +kernel,
    by decide +kernel, by decide, by decide, by decide +kernel, host,
    .programRunner (judge test none host.programRun),
    [.started ⟨ascii "./tool", by decide⟩ [ascii "./tool"] none], ?_, ?_, ?_⟩
  · exact testRun_of_program (by decide) (by decide) rfl rfl
  · decide +kernel
  · decide +kernel

end Enforced

end JCUnit
