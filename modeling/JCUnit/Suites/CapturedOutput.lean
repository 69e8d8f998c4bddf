import JCUnit.Suites.EveryTestOnce

/-!
# What is captured of a test

A child starts with a copy of jcunit's stdio state. Where `execv` fails it calls `exit`,
which writes out what the copied stdout holds, to the pipe that is captured.
-/

namespace JCUnit

/-- What becomes of a child behind the fork. -/
inductive Exec
  | fails
  | runs (exited : Option UInt8) (reads : Stream → List (Option Bytes))

/-- The child of a fork, when this is what stdout has not written out. -/
def Exec.child (exec : Exec) (unflushed : Bytes) : ChildOutcome :=
  match exec with
  | .fails => ⟨true, some 127, fun
      | .stdout => [some unflushed]
      | .stderr => []⟩
  | .runs exited reads => ⟨false, exited, reads⟩

/-- What the program itself writes, as it is captured; nothing where there is no program. -/
def Exec.ownOutput : Exec → CapturedOutput
  | .fails => ⟨⟨[], .none⟩, ⟨[], .none⟩⟩
  | .runs _ reads => ⟨capture [] (reads .stdout), capture [] (reads .stderr)⟩

/-- Surroundings whose children are forked from jcunit. -/
def Surroundings.forking (env : Surroundings) (host : Nat → Host) (exec : Nat → Exec) :
    Surroundings :=
  { env with host := fun i unflushed => { host i with child := (exec i).child unflushed } }

/-- Every captured output is what the program of the test has written. -/
def TestSession.CapturesOwn (s : TestSession) (exec : Nat → Exec) : Prop :=
  ∀ (i : Nat) call captured, s.calls[i]? = some call → call.captured = some captured →
    captured = (exec i).ownOutput

/-- Where `execv` failed in a child, stdout had written out everything before the fork. -/
def TestSession.FlushedAtFailures (s : TestSession) (exec : Nat → Exec) : Prop :=
  ∀ (i : Nat) call, s.calls[i]? = some call → call.captured.isSome = true → exec i = .fails →
    call.unflushed = []

theorem capture_single_eq_nil (bytes : Bytes) :
    capture [] [some bytes] = ⟨[], .none⟩ ↔ bytes = [] := by
  cases bytes with
  | nil =>
      constructor
      · intro _
        rfl
      · intro _
        decide
  | cons b rest =>
      have hdelivered : delivered [some (b :: rest)] = b :: rest := List.append_nil _
      rw [capture_eq, hdelivered, List.nil_append]
      constructor
      · intro h
        split at h
        · cases h
        split at h
        · cases h
        · injection h
      · intro h
        cases h

/-- A child whose `execv` fails writes the bytes it has inherited, and those only. -/
theorem captured_child_iff (exec : Exec) (unflushed : Bytes) :
    (⟨(exec.child unflushed).output .stdout, (exec.child unflushed).output .stderr⟩ :
        CapturedOutput) = exec.ownOutput ↔ (exec = .fails → unflushed = []) := by
  cases exec with
  | runs exited reads => exact ⟨fun _ h => (nomatch h), fun _ => rfl⟩
  | fails =>
      have hstderr : (Exec.fails.child unflushed).output .stderr = ⟨[], .none⟩ := rfl
      rw [hstderr]
      constructor
      · intro h _
        injection h with hstdout _
        exact (capture_single_eq_nil unflushed).mp hstdout
      · intro h
        obtain rfl := h rfl
        decide

variable {env : Surroundings} {host : Nat → Host} {exec : Nat → Exec} {s : TestSession}
  {tests : List SuiteTest}

theorem Visited.capturesOwn_iff (h : Visited (env.forking host exec) tests s) :
    s.CapturesOwn exec ↔ s.FlushedAtFailures exec := by
  constructor
  · intro hown i call hcall hsome hfails
    obtain ⟨captured, hcaptured⟩ := Option.isSome_iff_exists.mp hsome
    have hgiven := (h.answered i call hcall).captured captured hcaptured
    rw [hown i call captured hcall hcaptured] at hgiven
    exact (captured_child_iff _ _).mp hgiven.symm hfails
  · intro hflushed i call captured hcall hcaptured
    rw [(h.answered i call hcall).captured captured hcaptured]
    apply (captured_child_iff _ _).mpr
    exact hflushed i call hcall (Option.isSome_iff_exists.mpr ⟨captured, hcaptured⟩)

/-- What is captured is the program's own output just where stdout was written out before each
fork whose `execv` fails; then two sessions capture the same for the same program. -/
theorem captured_output_iff (env : Surroundings) (host : Nat → Host) (exec : Nat → Exec)
    (suites : List TestSuite) (runMode : UInt32) (s : TestSession)
    (htotal : (suites.flatMap TestSuite.tests).length < 2 ^ 32)
    (hrun : runSuites (env.forking host exec) suites runMode .start = .ok () s) :
    (s.CapturesOwn exec ↔ s.FlushedAtFailures exec) ∧
    (s.FlushedAtFailures exec →
      ∀ (env' : Surroundings) (host' : Nat → Host) (exec' : Nat → Exec)
        (suites' : List TestSuite) (runMode' : UInt32) (s' : TestSession),
      (suites'.flatMap TestSuite.tests).length < 2 ^ 32 →
      runSuites (env'.forking host' exec') suites' runMode' .start = .ok () s' →
      s'.FlushedAtFailures exec' →
      ∀ (i i' : Nat) call call' captured captured', s.calls[i]? = some call →
        s'.calls[i']? = some call' → exec i = exec' i' →
        call.captured = some captured → call'.captured = some captured' →
        captured = captured') := by
  obtain ⟨hvisited, -⟩ := runSuites_visited htotal hrun
  refine ⟨hvisited.capturesOwn_iff, ?_⟩
  intro hflushed env' host' exec' suites' runMode' s' htotal' hrun' hflushed'
    i i' call call' captured captured' hcall hcall' hexec hcaptured hcaptured'
  obtain ⟨hvisited', -⟩ := runSuites_visited htotal' hrun'
  have hown := hvisited.capturesOwn_iff.mpr hflushed
  have hown' := hvisited'.capturesOwn_iff.mpr hflushed'
  rw [hown i call captured hcall hcaptured, hown' i' call' captured' hcall' hcaptured', hexec]

section Example

/-- A test whose program writes `hi`, twice. -/
def repeatedTest : List TestSuite :=
  [⟨⟨ascii "a.test", by decide⟩, List.replicate 2 { makeProgramRunnerTest with
    name := some (ascii "t"), flags := testCompleteMask, programPath := some (ascii "/bin/x"),
    expectedStdout := some (ascii "hi") }⟩]

/-- The second time `execv` fails. -/
def failsLater : Nat → Exec
  | 0 => .runs (some 0) fun
      | .stdout => [some (ascii "hi")]
      | .stderr => []
  | _ => .fails

/-- A system in which the checks of the program pass. -/
def checksPass (_ : Nat) : Host :=
  ⟨true, true, .error [], none, none, none, none, none, .finished, ⟨false, none, fun _ => []⟩⟩

def plainOutput (buffering : Buffering) : Surroundings where
  host _ _ := checksPass 0
  buffering
  useColors := false
  noSummary := true
  elapsedMs := 0

/-- What the calls of a run had not written out, and what was captured. -/
def capturedIn (run : EStateM.Result Halt TestSession Unit) : List (Bytes × Option CapturedOutput) :=
  match run with
  | .ok _ s => s.calls.map fun call => (call.unflushed, call.captured)
  | .error _ _ => []

/-- On an unbuffered stdout the failing test captures nothing. -/
theorem captured_output_iff_unbuffered :
    ∃ s, runSuites ((plainOutput .unbuffered).forking checksPass failsLater) repeatedTest
        runModePassthrough .start = .ok () s ∧ s.CapturesOwn failsLater := by
  have hcaptured : capturedIn (runSuites ((plainOutput .unbuffered).forking checksPass failsLater)
      repeatedTest runModePassthrough .start) =
        [([], some ⟨⟨ascii "hi", .none⟩, ⟨[], .none⟩⟩), ([], some ⟨⟨[], .none⟩, ⟨[], .none⟩⟩)] := by
    decide +kernel
  cases hrun : runSuites ((plainOutput .unbuffered).forking checksPass failsLater) repeatedTest
      runModePassthrough .start with
  | error halt s =>
      rw [hrun] at hcaptured
      cases hcaptured
  | ok u s =>
      rw [hrun] at hcaptured
      refine ⟨s, rfl, (captured_output_iff _ checksPass failsLater repeatedTest runModePassthrough s
        (by decide) hrun).1.mpr ?_⟩
      intro i call hcall _ _
      have hmem : (call.unflushed, call.captured) ∈ s.calls.map fun call =>
          (call.unflushed, call.captured) := List.mem_map_of_mem (List.mem_of_getElem? hcall)
      rw [show s.calls.map (fun call => (call.unflushed, call.captured)) = _ from hcaptured] at hmem
      rcases List.mem_cons.mp hmem with hfirst | hsecond
      · exact congrArg Prod.fst hfirst
      · exact congrArg Prod.fst (List.mem_singleton.mp hsecond)

/-- Where stdout is a file, the mark of the first test is captured as output of the second. -/
theorem failed_exec_captures_mark :
    ¬ ∀ (env : Surroundings) (host : Nat → Host) (exec : Nat → Exec) (suites : List TestSuite)
      (runMode : UInt32) (s : TestSession),
      runSuites (env.forking host exec) suites runMode .start = .ok () s → s.CapturesOwn exec := by
  intro hown
  have hcaptured : capturedIn (runSuites
      ((plainOutput (.fullyBuffered 4096)).forking checksPass failsLater) repeatedTest
      runModePassthrough .start) =
        [([], some ⟨⟨ascii "hi", .none⟩, ⟨[], .none⟩⟩),
          (ascii ".", some ⟨⟨ascii ".", .none⟩, ⟨[], .none⟩⟩)] := by
    decide +kernel
  cases hrun : runSuites ((plainOutput (.fullyBuffered 4096)).forking checksPass failsLater)
      repeatedTest runModePassthrough .start with
  | error halt s =>
      rw [hrun] at hcaptured
      cases hcaptured
  | ok u s =>
      rw [hrun] at hcaptured
      have hsecond := congrArg (fun captured => captured[1]?.map Prod.snd) hcaptured
      cases hcall : s.calls[1]? with
      | none => simp [capturedIn, hcall] at hsecond
      | some call =>
          have hmark : call.captured = some ⟨⟨ascii ".", .none⟩, ⟨[], .none⟩⟩ := by
            simpa [capturedIn, hcall] using hsecond
          have hsame := hown _ checksPass failsLater repeatedTest runModePassthrough s hrun 1 call _
            hcall hmark
          cases hsame

end Example

end JCUnit
