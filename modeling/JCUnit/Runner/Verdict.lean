import JCUnit.Runner.TestRunner

/-!
# The verdict of a test

The status of a run that returns depends only on the outputs of the program, which
the answers of the system determine. Errors of the harness are reported only for
stdout and before the program is started.
-/

namespace JCUnit

open StateError

/-- What `try_to_run_program` leaves when it returns. -/
def Host.programRun (host : Host) : ProgramRun :=
  if !host.programExists then notStarted .fileNotFound
  else if !host.programExecutable then notStarted .notExecutable
  else ⟨host.child.output .stdout, host.child.output .stderr, host.child.exitCode⟩

section Returns

variable {host : Host} {test : ProgramRunnerTest} {events events' : List HostEvent}

theorem childProcessRun_eq_ok {path : CString} {argv : List Bytes} {stdinInput : Option Bytes}
    {child : ChildOutcome} (h : childProcessRun host path argv stdinInput events = .ok child events') :
    child = host.child := by
  unfold childProcessRun at h
  obtain ⟨_, _, _, h⟩ := bind_eq_ok h
  obtain ⟨_, _, _, h⟩ := bind_eq_ok h
  obtain ⟨_, _, _, h⟩ := bind_eq_ok h
  obtain ⟨_, _, _, h⟩ := bind_eq_ok h
  obtain ⟨_, _, _, h⟩ := bind_eq_ok h
  cases hends : host.exchange.halt stdinInput with
  | none =>
      rw [hends] at h
      exact (pure_eq_ok.mp h).1.symm
  | some halt =>
      rw [hends] at h
      cases h

theorem tryToRunProgram_eq_ok {program : CString} {filename extraArgs : Option CString}
    {stdinInput : Option Bytes} {run : ProgramRun}
    (h : tryToRunProgram host program filename extraArgs stdinInput events = .ok run events') :
    run = host.programRun ∧ ∃ args, buildArgs program filename extraArgs = .ok args := by
  unfold tryToRunProgram at h
  obtain ⟨args, events₁, hargs, h⟩ := bind_eq_ok h
  constructor
  · unfold Host.programRun
    cases hexists : host.programExists with
    | false =>
        rw [hexists] at h
        exact (pure_eq_ok.mp h).1.symm
    | true =>
        cases hexecutable : host.programExecutable with
        | false =>
            rw [hexists, hexecutable] at h
            exact (pure_eq_ok.mp h).1.symm
        | true =>
            rw [hexists, hexecutable] at h
            obtain ⟨child, events₂, hchild, h⟩ := bind_eq_ok h
            rw [← childProcessRun_eq_ok hchild]
            exact (pure_eq_ok.mp h).1.symm
  · cases hbuild : buildArgs program filename extraArgs with
    | ok args => exact ⟨args, rfl⟩
    | error halt =>
        rw [hbuild] at hargs
        cases hargs

/-- A run of a test that returns gives the verdict on what the program has put out. -/
theorem programRunnerTestRunner_eq_ok {result : ProgramRunnerTestResult}
    (h : programRunnerTestRunner host test events = .ok result events') :
    ∃ filename events₁, prepareGiven host test events = .ok filename events₁ ∧
      result = judge test filename host.programRun ∧
      ∃ program args, test.programPath = some program ∧
        buildArgs (CString.ofBuffer program) (filename.map CString.ofBuffer)
          (test.programArgs.map CString.ofBuffer) = .ok args := by
  unfold programRunnerTestRunner at h
  obtain ⟨filename, events₁, hgiven, h⟩ := bind_eq_ok h
  refine ⟨filename, events₁, hgiven, ?_⟩
  cases hprogram : test.programPath with
  | none =>
      rw [hprogram] at h
      cases h
  | some program =>
      rw [hprogram] at h
      obtain ⟨run, events₂, hrun, h⟩ := bind_eq_ok h
      obtain ⟨_, events₃, _, h⟩ := bind_eq_ok h
      obtain ⟨rfl, args, hargs⟩ := tryToRunProgram_eq_ok hrun
      exact ⟨(pure_eq_ok.mp h).1.symm, program, args, rfl, hargs⟩

end Returns

section Status

variable {test : ProgramRunnerTest} {filename : Option Bytes} {run : ProgramRun}

theorem judge_status (test : ProgramRunnerTest) (filename : Option Bytes) (run : ProgramRun) :
    (judge test filename run).base.status =
      if run.stdout.errorCode ≠ .none then .error
      else if testPasses test run then .pass else .failure := by
  unfold judge
  split <;> rfl

theorem judge_status_error_iff :
    (judge test filename run).base.status = .error ↔ run.stdout.errorCode ≠ .none := by
  rw [judge_status]
  by_cases herror : run.stdout.errorCode ≠ .none
  · simp [herror]
  · rw [if_neg herror]
    cases testPasses test run <;> simpa using herror

theorem judge_status_pass_iff :
    (judge test filename run).base.status = .pass ↔
      run.stdout.errorCode = .none ∧ testPasses test run = true := by
  rw [judge_status]
  by_cases herror : run.stdout.errorCode ≠ .none
  · simp [herror]
  · rw [if_neg herror]
    cases testPasses test run
    · simp
    · simpa using herror

end Status

section HarnessErrors

/-- The program cannot be run, or its output cannot be captured. -/
def Host.HarnessError (host : Host) : Prop :=
  host.programExists = false ∨ host.programExecutable = false ∨
    host.child.execReturned = true ∨ ∃ stream, host.child.CaptureError stream

/-- The program is not started, or stdout cannot be captured, or neither `execv` nor the
capture of stderr fails. -/
def Host.ErrorReported (host : Host) : Prop :=
  host.programExists = false ∨ host.programExecutable = false ∨
    host.child.CaptureError .stdout ∨
    (host.child.execReturned = false ∧ ¬ host.child.CaptureError .stderr)

theorem programRun_errorCode_iff (host : Host) :
    host.programRun.stdout.errorCode ≠ .none ↔ host.programExists = false ∨
      host.programExecutable = false ∨ host.child.CaptureError .stdout := by
  unfold Host.programRun
  rw [← errorCode_ne_none_iff]
  cases host.programExists with
  | false => simp [notStarted]
  | true =>
      cases host.programExecutable with
      | false => simp [notStarted]
      | true => simp

/-- A test whose program cannot be run or captured ends as an error, unless it is `execv` or
stderr that fails and all else goes well. -/
theorem harness_error_reported_iff (host : Host) (test : ProgramRunnerTest)
    (events events' : List HostEvent) (result : ProgramRunnerTestResult)
    (hrun : programRunnerTestRunner host test events = .ok result events') :
    (host.HarnessError → result.base.status = .error) ↔ host.ErrorReported := by
  obtain ⟨filename, _, _, rfl, _⟩ := programRunnerTestRunner_eq_ok hrun
  rw [judge_status_error_iff, programRun_errorCode_iff]
  unfold Host.HarnessError Host.ErrorReported
  constructor
  · intro hreported
    by_cases herror : host.programExists = false ∨ host.programExecutable = false ∨
        host.child.CaptureError .stdout
    · obtain hexists | hexecutable | hstdout := herror
      · exact Or.inl hexists
      · exact Or.inr (Or.inl hexecutable)
      · exact Or.inr (Or.inr (Or.inl hstdout))
    · have hquiet : ¬ _ := fun hharness => herror (hreported hharness)
      push Not at hquiet
      refine Or.inr (Or.inr (Or.inr ⟨?_, hquiet.2.2.2 .stderr⟩))
      exact Bool.eq_false_iff.mpr hquiet.2.2.1
  · intro hreported hharness
    obtain hexists | hexecutable | hstdout | ⟨hexec, hstderr⟩ := hreported
    · exact Or.inl hexists
    · exact Or.inr (Or.inl hexecutable)
    · exact Or.inr (Or.inr hstdout)
    · obtain hexists | hexecutable | hreturned | ⟨stream, hcapture⟩ := hharness
      · exact Or.inl hexists
      · exact Or.inr (Or.inl hexecutable)
      · rw [hexec] at hreturned
        cases hreturned
      · cases stream with
        | stdout => exact Or.inr (Or.inr hcapture)
        | stderr => exact absurd hcapture hstderr

/-- A system on which every call of the harness succeeds. -/
def Host.obliging (suffix : TemporarySuffix) (child : ChildOutcome) : Host where
  programExists := true
  programExecutable := true
  mkstemp := .ok suffix
  fopenError := none
  stdinPipeError := none
  stdoutPipeError := none
  stderrPipeError := none
  forkError := none
  exchange := .finished
  child := child

def someSuffix : TemporarySuffix := ⟨ascii "Ab3dEf", by decide, by decide +kernel⟩

/-- A test of a program that is expected to put out anything. -/
def anythingTest : ProgramRunnerTest :=
  { makeProgramRunnerTest with
    name := some (ascii "t")
    flags := testCompleteMask
    programPath := some (ascii "./tool")
    expectedStdout := some placeholderAnyStr }

/-- The file is executable, but its format is not one `execv` can start. -/
theorem exec_failure_passes :
    let host := Host.obliging someSuffix ⟨true, none, fun _ => []⟩
    host.HarnessError ∧ ∃ result events,
      programRunnerTestRunner host anythingTest [] = .ok result events ∧
        result.base.status = .pass := by
  intro host
  refine ⟨Or.inr (Or.inr (Or.inl rfl)), judge anythingTest none host.programRun,
    [.started ⟨ascii "./tool", by decide⟩ [ascii "./tool"] none], ?_, ?_⟩
  · rfl
  · decide +kernel

/-- A program that fails to write to stdout. -/
theorem harness_error_reported_iff_read_failure :
    let host := Host.obliging someSuffix ⟨false, some 0, fun | .stdout => [none] | .stderr => []⟩
    (host.HarnessError → (judge anythingTest none host.programRun).base.status = .error) ↔
      host.ErrorReported := by
  intro host
  apply harness_error_reported_iff host anythingTest []
    [.started ⟨ascii "./tool", by decide⟩ [ascii "./tool"] none]
  rfl

end HarnessErrors

end JCUnit
