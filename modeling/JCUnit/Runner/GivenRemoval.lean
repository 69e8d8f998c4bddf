import JCUnit.Runner.ArgumentWords
import JCUnit.Runner.Verdict

/-!
# The removal of a given file

The runner unlinks the file of a `given` behind its call of `try_to_run_program`. A fatal error
in this call or in `child_process_run` ends the process before that, and the file stays. So does
an exchange with the child that does not come to its end.
-/

namespace JCUnit

open StateError

section Checks

variable {α β : Type} {P Q : Prop} {events added : List HostEvent}

/-- The program comes to its end, unless the exchange with the child does not. -/
def endedAs (ending : Option Halt) (a : α) (events : List HostEvent) :
    EStateM.Result Halt (List HostEvent) α :=
  match ending with
  | none => .ok a events
  | some halt => .error halt events

/-- Under a condition the program adds to the trace, and returns a value unless an exchange keeps
it. Otherwise it ends with a fatal error and adds nothing. -/
def FatalUnless (P : Prop) (x : RunM α) (events : List HostEvent) (ending : Option Halt) (a : α)
    (added : List HostEvent) : Prop :=
  (P → x events = endedAs ending a (events ++ added)) ∧
    (¬ P → ∃ message, x events = .error (.fatal message) events)

theorem FatalUnless.congr {x : RunM α} {ending : Option Halt} {a : α}
    (h : FatalUnless P x events ending a added) (hiff : P ↔ Q) :
    FatalUnless Q x events ending a added :=
  ⟨fun hQ => h.1 (hiff.mpr hQ), fun hQ => h.2 fun hP => hQ (hiff.mp hP)⟩

theorem FatalUnless.return (a : α) : FatalUnless True (pure a : RunM α) events none a [] := by
  constructor
  · intro _
    rw [List.append_nil]
    rfl
  · intro hfalse
    exact absurd trivial hfalse

/-- A check in front of the rest adds a condition. -/
theorem FatalUnless.check {x : RunM α} {f : α → RunM β} {ending : Option Halt} {a : α} {b : β}
    (hx : FatalUnless P x events none a []) (hf : P → FatalUnless Q (f a) events ending b added) :
    FatalUnless (P ∧ Q) (x >>= f) events ending b added := by
  have hpass : P → x events = .ok a events := fun hP => by
    rw [hx.1 hP, List.append_nil]
    rfl
  constructor
  · rintro ⟨hP, hQ⟩
    rw [bind_of_ok (hpass hP)]
    exact (hf hP).1 hQ
  · intro hfails
    by_cases hP : P
    · rw [bind_of_ok (hpass hP)]
      exact (hf hP).2 fun hQ => hfails ⟨hP, hQ⟩
    · obtain ⟨message, hmessage⟩ := hx.2 hP
      exact ⟨message, bind_of_error hmessage f⟩

/-- A value that is made of the result is returned where the result is. -/
theorem FatalUnless.map {x : RunM α} {ending : Option Halt} {a : α} (f : α → β)
    (hx : FatalUnless P x events ending a added) :
    FatalUnless P (x >>= fun a => pure (f a)) events ending (f a) added := by
  constructor
  · intro hP
    have hrun := hx.1 hP
    cases ending with
    | none => exact bind_of_ok hrun _
    | some halt => exact bind_of_error hrun _
  · intro hP
    obtain ⟨message, hmessage⟩ := hx.2 hP
    exact ⟨message, bind_of_error hmessage _⟩

theorem fatalUnless_checkCall (failed : Option Bytes) (what : Bytes) (events : List HostEvent) :
    FatalUnless (failed = none) (checkCall failed what) events none () [] := by
  cases failed with
  | none => exact (FatalUnless.return ()).congr (iff_of_true trivial rfl)
  | some text =>
      constructor
      · intro hnone
        cases hnone
      · intro _
        exact ⟨_, rfl⟩

end Checks

section Start

variable {host : Host} {program : CString} {filename extraArgs : Option CString}
  {stdinInput : Option Bytes}

/-- The system gives `child_process_run` its pipes and the child. -/
structure Host.StartsChild (host : Host) (stdinInput : Option Bytes) : Prop where
  stdinPipe : stdinInput.isSome = true → host.stdinPipeError = none
  stdoutPipe : host.stdoutPipeError = none
  stderrPipe : host.stderrPipeError = none
  fork : host.forkError = none

/-- The arguments are within the limits, and a program that is there and executable is started. -/
structure Host.RunsThrough (host : Host) (program : CString) (filename extraArgs : Option CString)
    (stdinInput : Option Bytes) : Prop where
  shortArgs : (expandedArgs filename extraArgs).length < extraArgsBufSize
  fewArgs : (exactArgs program filename extraArgs).length < maxArgs
  starts : host.programExists = true → host.programExecutable = true → host.StartsChild stdinInput

theorem fatalUnless_childProcessRun (host : Host) (path : CString) (argv : List Bytes)
    (stdinInput : Option Bytes) (events : List HostEvent) :
    FatalUnless (host.StartsChild stdinInput) (childProcessRun host path argv stdinInput) events
      (host.exchange.halt stdinInput) host.child [.started path argv stdinInput] := by
  have hstarted : FatalUnless True (do
        perform (.started path argv stdinInput)
        match host.exchange.halt stdinInput with
        | none => return host.child
        | some halt => throw halt)
      events (host.exchange.halt stdinInput) host.child [.started path argv stdinInput] := by
    constructor
    · intro _
      cases host.exchange.halt stdinInput <;> rfl
    · intro hfalse
      exact absurd trivial hfalse
  refine FatalUnless.congr (P := (if stdinInput.isSome then host.stdinPipeError else none) = none ∧
    host.stdoutPipeError = none ∧ host.stderrPipeError = none ∧ host.forkError = none ∧ True) ?_ ?_
  · refine (fatalUnless_checkCall _ _ events).check fun _ => ?_
    refine (fatalUnless_checkCall _ _ events).check fun _ => ?_
    refine (fatalUnless_checkCall _ _ events).check fun _ => ?_
    exact (fatalUnless_checkCall _ _ events).check fun _ => hstarted
  · rw [ite_eq_right_iff]
    constructor
    · rintro ⟨hstdin, hstdout, hstderr, hfork, -⟩
      exact ⟨hstdin, hstdout, hstderr, hfork⟩
    · rintro ⟨hstdin, hstdout, hstderr, hfork⟩
      exact ⟨hstdin, hstdout, hstderr, hfork, trivial⟩

theorem fatalUnless_buildArgs (program : CString) (filename extraArgs : Option CString)
    (events : List HostEvent) :
    FatalUnless ((expandedArgs filename extraArgs).length < extraArgsBufSize ∧
        (exactArgs program filename extraArgs).length < maxArgs)
      (ofExcept (buildArgs program filename extraArgs)) events none
      (exactArgs program filename extraArgs) [] := by
  rw [buildArgs_eq]
  split
  case isTrue hlong =>
    refine ⟨fun hfits => absurd hfits.1 (Nat.not_lt.mpr hlong), fun _ => ?_⟩
    rw [argsTooLong]
    split <;> exact ⟨_, rfl⟩
  case isFalse hshort =>
    split
    case isTrue hmany =>
      exact ⟨fun hfits => absurd hfits.2 (Nat.not_lt.mpr hmany), fun _ => ⟨_, rfl⟩⟩
    case isFalse hfew =>
      apply (FatalUnless.return _).congr
      exact iff_of_true trivial ⟨Nat.not_le.mp hshort, Nat.not_le.mp hfew⟩

/-- What `try_to_run_program` adds to the trace. -/
def Host.programStart (host : Host) (program : CString) (filename extraArgs : Option CString)
    (stdinInput : Option Bytes) : List HostEvent :=
  if host.programExists && host.programExecutable then
    [.started program (exactArgs program filename extraArgs) stdinInput]
  else []

/-- What keeps `try_to_run_program` from returning once its arguments are built. -/
def Host.ending (host : Host) (stdinInput : Option Bytes) : Option Halt :=
  if host.programExists && host.programExecutable then host.exchange.halt stdinInput else none

/-- An exchange never ends in a fatal error. -/
theorem Host.ending_ne_fatal (host : Host) (stdinInput : Option Bytes) (message : Bytes) :
    host.ending stdinInput ≠ some (.fatal message) := by
  unfold Host.ending ExchangeEnd.halt
  split
  · cases host.exchange with
    | finished => exact nofun
    | endless => exact nofun
    | sigpipe =>
        dsimp only
        split <;> exact nofun
  · exact nofun

theorem fatalUnless_tryToRunProgram (host : Host) (program : CString)
    (filename extraArgs : Option CString) (stdinInput : Option Bytes) (events : List HostEvent) :
    FatalUnless (host.RunsThrough program filename extraArgs stdinInput)
      (tryToRunProgram host program filename extraArgs stdinInput) events (host.ending stdinInput)
      host.programRun (host.programStart program filename extraArgs stdinInput) := by
  have hrest : FatalUnless (host.programExists = true → host.programExecutable = true →
        host.StartsChild stdinInput)
      (if !host.programExists then return notStarted .fileNotFound
       else if !host.programExecutable then return notStarted .notExecutable
       else do
         let child ← childProcessRun host program (exactArgs program filename extraArgs) stdinInput
         return ⟨child.output .stdout, child.output .stderr, child.exitCode⟩)
      events (host.ending stdinInput) host.programRun
      (host.programStart program filename extraArgs stdinInput) := by
    unfold Host.programRun Host.programStart Host.ending
    cases host.programExists with
    | false =>
        apply (FatalUnless.return _).congr
        exact iff_of_true trivial fun hexists => absurd hexists Bool.false_ne_true
    | true =>
        cases host.programExecutable with
        | false =>
            apply (FatalUnless.return _).congr
            exact iff_of_true trivial fun _ hexecutable => absurd hexecutable Bool.false_ne_true
        | true =>
            have hchild := fatalUnless_childProcessRun host program
              (exactArgs program filename extraArgs) stdinInput events
            refine FatalUnless.congr (P := host.StartsChild stdinInput) ?_ ?_
            · exact hchild.map fun child =>
                ({ stdout := child.output .stdout
                   stderr := child.output .stderr
                   exitCode := child.exitCode } : ProgramRun)
            · exact ⟨fun hstarts _ _ => hstarts, fun hstarts => hstarts rfl rfl⟩
  apply ((fatalUnless_buildArgs program filename extraArgs events).check fun _ => hrest).congr
  constructor
  · rintro ⟨⟨hshort, hfew⟩, hstarts⟩
    exact ⟨hshort, hfew, hstarts⟩
  · rintro ⟨hshort, hfew, hstarts⟩
    exact ⟨⟨hshort, hfew⟩, hstarts⟩

end Start

section Removal

variable {host : Host} {test : ProgramRunnerTest} {start created : List HostEvent} {path : CString}
  {executable : Bytes}

/-- The file has been unlinked after these first events, and has not been created again. -/
def UnlinkedSince (path : CString) (created events : List HostEvent) : Prop :=
  ∃ between after, events = created ++ between ++ .unlinked path :: after ∧
    ∀ content, .created path content ∉ after

/-- Whether the runner returns or the process exits: the given file has been unlinked by then. -/
structure GivenFileRemoved (host : Host) (test : ProgramRunnerTest)
    (start created : List HostEvent) (path : CString) : Prop where
  returns : ∀ result events, programRunnerTestRunner host test start = .ok result events →
    UnlinkedSince path created events
  exits : ∀ message events,
    programRunnerTestRunner host test start = .error (.fatal message) events →
      UnlinkedSince path created events

theorem not_unlinkedSince_self : ¬ UnlinkedSince path created created := by
  rintro ⟨between, after, hcreated, -⟩
  have hlength := congrArg List.length hcreated
  rw [List.length_append, List.length_append, List.length_cons] at hlength
  omega

/-- Once the file is there, the runner goes through to the removal, is kept in the exchange with
the child, or ends with a fatal error that leaves the file. -/
theorem fatalUnless_programRunnerTestRunner (htype : test.givenType = givenTypeFile)
    (hcreated : prepareGiven host test start = .ok (some path.bytes) created)
    (hprogram : test.programPath = some executable) :
    let runsThrough := host.RunsThrough (CString.ofBuffer executable) (some path)
      (test.programArgs.map CString.ofBuffer) (stdinInput test)
    let started := created ++ host.programStart (CString.ofBuffer executable) (some path)
      (test.programArgs.map CString.ofBuffer) (stdinInput test)
    (runsThrough → programRunnerTestRunner host test start =
        match host.ending (stdinInput test) with
        | none => .ok (judge test (some path.bytes) host.programRun) (started ++ [.unlinked path])
        | some halt => .error halt started) ∧
      (¬ runsThrough → ∃ message,
        programRunnerTestRunner host test start = .error (.fatal message) created) := by
  intro runsThrough started
  have hrun := fatalUnless_tryToRunProgram host (CString.ofBuffer executable) (some path)
    (test.programArgs.map CString.ofBuffer) (stdinInput test) created
  have hpath : CString.ofBuffer path.bytes = path := CString.ofBuffer_bytes path
  have hremove : ∀ events, removeGivenFile test (some path.bytes) events =
      .ok () (events ++ [.unlinked path]) := by
    intro events
    rw [removeGivenFile, if_pos htype, Option.getD_some, hpath]
    rfl
  unfold programRunnerTestRunner
  rw [bind_of_ok hcreated, hprogram]
  dsimp only
  rw [Option.map_some, hpath]
  constructor
  · intro hthrough
    have htry := hrun.1 hthrough
    cases hending : host.ending (stdinInput test) with
    | none =>
        rw [hending] at htry
        rw [bind_of_ok htry, bind_of_ok (hremove _)]
        rfl
    | some halt =>
        rw [hending] at htry
        exact bind_of_error htry _
  · intro hfails
    obtain ⟨message, hmessage⟩ := hrun.2 hfails
    exact ⟨message, bind_of_error hmessage _⟩

/-- A file that has been created is removed if and only if nothing keeps the runner from going
on to the end of the program's run. -/
theorem given_removed_iff (htype : test.givenType = givenTypeFile)
    (hcreated : prepareGiven host test start = .ok (some path.bytes) created) :
    GivenFileRemoved host test start created path ↔
      ∀ executable ∈ test.programPath, host.RunsThrough (CString.ofBuffer executable) (some path)
        (test.programArgs.map CString.ofBuffer) (stdinInput test) := by
  constructor
  · intro hremoved executable hprogram
    have hends := fatalUnless_programRunnerTestRunner htype hcreated hprogram
    by_contra hfails
    obtain ⟨message, hmessage⟩ := hends.2 hfails
    exact not_unlinkedSince_self (hremoved.exits message created hmessage)
  · intro hthrough
    cases hprogram : test.programPath with
    | none =>
        have hundefined : programRunnerTestRunner host test start = .error .undefined created := by
          unfold programRunnerTestRunner
          rw [bind_of_ok hcreated, hprogram]
          rfl
        constructor
        · intro result events hrun
          rw [hundefined] at hrun
          cases hrun
        · intro message events hrun
          rw [hundefined] at hrun
          cases hrun
    | some executable =>
        have hends := fatalUnless_programRunnerTestRunner htype hcreated hprogram
        have hok := hends.1 (hthrough executable hprogram)
        cases hending : host.ending (stdinInput test) with
        | none =>
            rw [hending] at hok
            constructor
            · intro result events hrun
              rw [hok] at hrun
              cases hrun
              exact ⟨_, [], rfl, fun content hmem => absurd hmem List.not_mem_nil⟩
            · intro message events hrun
              rw [hok] at hrun
              cases hrun
        | some halt =>
            -- the runner neither returns nor ends with a fatal error
            rw [hending] at hok
            constructor
            · intro result events hrun
              rw [hok] at hrun
              cases hrun
            · intro message events hrun
              rw [hok] at hrun
              cases hrun
              exact absurd hending (host.ending_ne_fatal _ message)

/-- A test with a given file. -/
def inputTest : ProgramRunnerTest :=
  { anythingTest with
    givenType := givenTypeFile
    givenFilename := some (ascii "input.txt")
    givenFileContent := some (ascii "x") }

def inputPath : CString := ⟨ascii "/tmp/input.txt", by decide⟩

theorem given_removed_iff_input :
    GivenFileRemoved (Host.obliging someSuffix ⟨false, some 0, fun _ => []⟩) inputTest []
      [.created inputPath (ascii "x")] inputPath := by
  have hcreated :
      prepareGiven (Host.obliging someSuffix ⟨false, some 0, fun _ => []⟩) inputTest [] =
        .ok (some inputPath.bytes) [.created inputPath (ascii "x")] := rfl
  apply (given_removed_iff rfl hcreated).mpr
  intro executable _
  have htwo : 2 < maxArgs := by decide
  have hexpanded : expandedArgs (some inputPath) none = [] := Replacement.replaceAll_nil
  refine ⟨?_, ?_, fun _ _ => ⟨fun _ => rfl, rfl, rfl, rfl⟩⟩
  · change (expandedArgs (some inputPath) none).length < _
    rw [hexpanded]
    decide
  · change (exactArgs (CString.ofBuffer executable) (some inputPath) none).length < _
    rw [exactArgs, hexpanded, Words.words_nil]
    exact htwo

/-- Thirty words behind the path of the file are one too many. -/
def crowdedTest : ProgramRunnerTest :=
  { inputTest with programArgs := some (List.replicate 30 (ascii "a ")).flatten }

theorem given_file_left :
    let host := Host.obliging someSuffix ⟨false, some 0, fun _ => []⟩
    let created : List HostEvent := [.created inputPath (ascii "x")]
    prepareGiven host crowdedTest [] = .ok (some inputPath.bytes) created ∧
      programRunnerTestRunner host crowdedTest [] = .error tooManyArgs created ∧
      ¬ GivenFileRemoved host crowdedTest [] created inputPath := by
  intro host created
  have hcreated : prepareGiven host crowdedTest [] = .ok (some inputPath.bytes) created := rfl
  have hargs : buildArgs (CString.ofBuffer (ascii "./tool"))
      (some (CString.ofBuffer inputPath.bytes)) (crowdedTest.programArgs.map CString.ofBuffer) =
        .error tooManyArgs := by
    decide +kernel
  have hexit : programRunnerTestRunner host crowdedTest [] = .error tooManyArgs created := by
    unfold programRunnerTestRunner
    rw [bind_of_ok hcreated]
    apply bind_of_error
    unfold tryToRunProgram
    apply bind_of_error
    rw [Option.map_some, hargs]
    rfl
  exact ⟨hcreated, hexit, fun hremoved =>
    not_unlinkedSince_self (hremoved.exits _ created hexit)⟩

end Removal

end JCUnit
