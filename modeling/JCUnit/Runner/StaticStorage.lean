import JCUnit.Foundation.Buffers
import JCUnit.Foundation.Projection
import JCUnit.Runner.Verdict

/-!
# The static variables of the runner

`runner.c` keeps the outputs, the name of the given file, the argument vector and the
split arguments in static variables, which the next test finds as they were left. The
programs here go through them; each ends as the program without them does.
-/

namespace JCUnit

open StateError Projection Buffers

/-- The static variables of `runner.c` and of `try_to_run_program`. -/
structure StaticStorage where
  stdoutOutputBuffer : Buffer Byte maxProcessOutputBufferLen
  stderrOutputBuffer : Buffer Byte maxProcessOutputBufferLen
  givenFilename : Buffer Byte maxTestGivenFilenameLen
  args : Buffer (Option Bytes) maxArgs
  extraArgsBuf : Buffer Byte extraArgsBufSize
deriving DecidableEq

def StaticStorage.zeroed : StaticStorage where
  stdoutOutputBuffer := ⟨List.replicate _ 0, List.length_replicate⟩
  stderrOutputBuffer := ⟨List.replicate _ 0, List.length_replicate⟩
  givenFilename := ⟨List.replicate _ 0, List.length_replicate⟩
  args := ⟨List.replicate _ none, List.length_replicate⟩
  extraArgsBuf := ⟨List.replicate _ 0, List.length_replicate⟩

/-- The outputs of a child. -/
structure CapturedOutput where
  stdout : ProcessOutput
  stderr : ProcessOutput
deriving DecidableEq

/-- The static variables, what has been done to the system, and what was captured of the
child if one was started. -/
structure RunState where
  storage : StaticStorage
  events : List HostEvent
  captured : Option CapturedOutput
deriving DecidableEq

abbrev StaticM := EStateM Halt RunState

/-- What does not go through a static variable. -/
def onEvents {α : Type} (x : RunM α) : StaticM α :=
  lifted RunState.events (fun events s => { s with events }) x

section CStrings

variable {size : Nat}

/-- The text with its NUL and what is written behind it. -/
def storeCString (buffer : Buffer Byte size) (text behind : Bytes) :
    Except Halt (Buffer Byte size) :=
  if h : 0 + (text ++ 0 :: behind).length ≤ size then .ok (buffer.write 0 (text ++ 0 :: behind) h)
  else .error .undefined

def loadCString (buffer : Buffer Byte size) : CString := CString.ofBuffer buffer.contents

/-- A C string is read back as it was stored. -/
theorem loadCString_store (buffer : Buffer Byte size) {text : Bytes} (behind : Bytes) (htext : 0 ∉ text)
    (h : text.length + 1 + behind.length ≤ size) :
    ∃ stored, storeCString buffer text behind = .ok stored ∧ (loadCString stored).bytes = text := by
  have hroom : 0 + (text ++ 0 :: behind).length ≤ size := by
    rw [List.length_append, List.length_cons]
    omega
  refine ⟨buffer.write 0 (text ++ 0 :: behind) hroom, ?_, ?_⟩
  · unfold storeCString
    rw [dif_pos hroom]
  · apply Buffer.takeWhile_write hroom
    · intro b hb
      simpa using ne_of_mem_of_not_mem hb htext
    · rfl

end CStrings

section Capturing

/-- A `struct process_output` whose buffer is a static one. -/
structure FilledBuffer where
  buffer : Buffer Byte maxProcessOutputBufferLen
  len : Nat
  errorCode : ErrorCode
deriving DecidableEq

def FilledBuffer.output (filled : FilledBuffer) : ProcessOutput :=
  ⟨filled.buffer.contents.take filled.len, filled.errorCode⟩

/-- After the loop: a full buffer is an error. -/
def FilledBuffer.finish (filled : FilledBuffer) : FilledBuffer :=
  if maxProcessOutputBufferLen ≤ filled.len then { filled with len := 0, errorCode := .outputTooLong }
  else filled

theorem room_for_chunk {len : Nat} (hroom : len < maxProcessOutputBufferLen) (chunk : Bytes) :
    len + (chunk.take (maxProcessOutputBufferLen - len)).length ≤ maxProcessOutputBufferLen := by
  have hle := List.length_take_le (maxProcessOutputBufferLen - len) chunk
  omega

/-- The loop over the results of `read`, each of which is written behind the others. -/
def captureInto (buffer : Buffer Byte maxProcessOutputBufferLen) (len : Nat) :
    List (Option Bytes) → FilledBuffer
  | [] => FilledBuffer.finish ⟨buffer, len, .none⟩
  | result :: results =>
      if hroom : len < maxProcessOutputBufferLen then
        match result with
        | none => FilledBuffer.finish ⟨buffer, 0, .readChildData⟩
        | some [] => FilledBuffer.finish ⟨buffer, len, .none⟩
        | some (b :: chunk) =>
            captureInto (buffer.write len _ (room_for_chunk hroom (b :: chunk)))
              (len + ((b :: chunk).take (maxProcessOutputBufferLen - len)).length) results
      else FilledBuffer.finish ⟨buffer, len, .none⟩

theorem FilledBuffer.output_finish (filled : FilledBuffer)
    (h : filled.len ≤ maxProcessOutputBufferLen) :
    filled.finish.output = filled.output.finish := by
  have hlength : filled.output.bytes.length = filled.len := by
    unfold FilledBuffer.output
    rw [List.length_take, filled.buffer.length_eq, Nat.min_eq_left h]
  unfold FilledBuffer.finish ProcessOutput.finish
  rw [hlength]
  split
  · rfl
  · rfl

/-- What was in the buffer before does not show in the output. -/
theorem output_captureInto (buffer : Buffer Byte maxProcessOutputBufferLen) (len : Nat)
    (hlen : len ≤ maxProcessOutputBufferLen) (results : List (Option Bytes)) :
    (captureInto buffer len results).output = capture (buffer.contents.take len) results := by
  induction results generalizing buffer len with
  | nil => exact FilledBuffer.output_finish _ hlen
  | cons result results ih =>
      have hlength : (buffer.contents.take len).length = len := by
        rw [List.length_take, buffer.length_eq, Nat.min_eq_left hlen]
      unfold captureInto capture
      rw [hlength]
      by_cases hroom : len < maxProcessOutputBufferLen
      · rw [dif_pos hroom, if_pos hroom]
        cases result with
        | none => exact FilledBuffer.output_finish _ (Nat.zero_le _)
        | some chunk =>
            cases chunk with
            | nil => exact FilledBuffer.output_finish _ hlen
            | cons b chunk =>
                dsimp only
                rw [ih _ _ (room_for_chunk hroom (b :: chunk)), Buffer.take_write]
      · rw [dif_neg hroom, if_neg hroom]
        exact FilledBuffer.output_finish _ hlen

end Capturing

namespace Static

section Programs

/-- `sprintf` or `strncpy` to `given_filename`, as `make_string` reads it. -/
def throughGivenFilename (path : CString) (behind : Bytes) : StaticM CString := do
  let s ← get
  let buffer ← onEvents (ofExcept (storeCString s.storage.givenFilename path.bytes behind))
  set { s with storage := { s.storage with givenFilename := buffer } }
  return loadCString buffer

/-- The NULs `strncpy` fills the buffer with. -/
def strncpyPadding (path : CString) : Bytes :=
  List.replicate (maxTestGivenFilenameLen - (path.bytes.length + 1)) 0

def resolveGivenFilename (host : Host) (test : ProgramRunnerTest) : StaticM CString := do
  let path ← onEvents (JCUnit.resolveGivenFilename host test)
  throughGivenFilename path (if test.givenFilename.isSome then [] else strncpyPadding path)

def prepareGiven (host : Host) (test : ProgramRunnerTest) : StaticM (Option Bytes) := do
  if test.givenType = givenTypeFile then
    let filename ← resolveGivenFilename host test
    onEvents (makeGivenFile host filename test.givenFileContent)
    return some filename.bytes
  else if test.givenType = givenTypeReference then return test.givenPath
  else return none

/-- `memcpy` of the arguments to `extra_args_buf`, as `strtok` reads them. -/
def throughExtraArgsBuf (text : Bytes) : StaticM Bytes := do
  let s ← get
  let buffer ← onEvents (ofExcept (storeCString s.storage.extraArgsBuf text []))
  set { s with storage := { s.storage with extraArgsBuf := buffer } }
  return (loadCString buffer).bytes

/-- The entries of `args` with their `NULL`, as `execv` reads them. -/
def throughArgs (args : List Bytes) : StaticM (List Bytes) := do
  let s ← get
  if h : 0 + (args.map some ++ [none]).length ≤ maxArgs then
    let buffer := s.storage.args.write 0 (args.map some ++ [none]) h
    set { s with storage := { s.storage with args := buffer } }
    return (buffer.contents.takeWhile Option.isSome).filterMap id
  else throw .undefined

def buildArgs (program : CString) (filename extraArgs : Option CString) :
    StaticM (List Bytes) := do
  match extraArgs with
  | none => throughArgs (program.bytes :: (filename.map CString.bytes).toList)
  | some extra =>
      if strstr extra.bytes filePlaceholder then
        let buf ← onEvents (ofExcept
          (substituteLoop ((filename.map CString.bytes).getD []) extra.bytes []))
        let buf ← throughExtraArgsBuf buf
        let args ← onEvents (ofExcept ((strtokAll buf).foldlM addArg [program.bytes]))
        throughArgs args
      else if extraArgsBufSize ≤ extra.bytes.length then
        onEvents (ofExcept (testFatal (ascii "The args string is too long (max 1023 bytes)!")))
      else
        let buf ← throughExtraArgsBuf extra.bytes
        let args ← onEvents (ofExcept ((strtokAll buf).foldlM addArg
          (program.bytes :: (filename.map CString.bytes).toList)))
        throughArgs args

/-- The two loops over the results of `read`, which fill the static buffers. -/
def captureOutputs (child : ChildOutcome) : StaticM CapturedOutput := do
  let s ← get
  let stdout := captureInto s.storage.stdoutOutputBuffer 0 (child.reads .stdout)
  let stderr := captureInto s.storage.stderrOutputBuffer 0 (child.reads .stderr)
  let captured := ⟨stdout.output, stderr.output⟩
  set { s with
    storage := { s.storage with
      stdoutOutputBuffer := stdout.buffer
      stderrOutputBuffer := stderr.buffer }
    captured := some captured }
  return captured

def tryToRunProgram (host : Host) (program : CString) (filename extraArgs : Option CString)
    (stdinInput : Option Bytes) : StaticM ProgramRun := do
  let args ← buildArgs program filename extraArgs
  if !host.programExists then return notStarted .fileNotFound
  else if !host.programExecutable then return notStarted .notExecutable
  else
    let child ← onEvents (childProcessRun host program args stdinInput)
    let captured ← captureOutputs child
    return ⟨captured.stdout, captured.stderr, child.exitCode⟩

def programRunnerTestRunner (host : Host) (test : ProgramRunnerTest) :
    StaticM ProgramRunnerTestResult := do
  let givenFilename ← prepareGiven host test
  match test.programPath with
  | none => throw .undefined
  | some executable =>
      let run ← tryToRunProgram host (CString.ofBuffer executable)
        (givenFilename.map CString.ofBuffer) (test.programArgs.map CString.ofBuffer)
        (stdinInput test)
      onEvents (removeGivenFile test givenFilename)
      return judge test givenFilename run

def testRun (host : Host) (test : ProgramRunnerTest) : StaticM TestResult := do
  if test.isIncomplete then return .plain (runIncompleteTest test)
  else if test.isSkipped then return .plain (runSkippedTest test)
  else if test.kind = testKindProgramRunner then
    return .programRunner (← programRunnerTestRunner host test)
  else
    match test.name with
    | some name => onEvents (runFatal (ascii "There is no any runner to run the test \"" ++ cstr name ++ ascii "\"!"))
    | none => throw .undefined

end Programs

section Simulation

variable {host : Host} {test : ProgramRunnerTest}

theorem projects_onEvents {α : Type} (x : RunM α) : Projects RunState.events (onEvents x) x :=
  Projects.lifted (fun _ _ => rfl) x

theorem projects_throughGivenFilename {path : CString} {behind : Bytes}
    (h : path.bytes.length + 1 + behind.length ≤ maxTestGivenFilenameLen) :
    Projects RunState.events (throughGivenFilename path behind) (pure path) := by
  intro s
  obtain ⟨stored, hstore, hload⟩ := loadCString_store s.storage.givenFilename behind path.nulFree h
  have hpath : loadCString stored = path := CString.ext hload
  have hget : (get : StaticM RunState) s = .ok s s := rfl
  have hbuffer : onEvents (ofExcept (storeCString s.storage.givenFilename path.bytes behind)) s =
      .ok stored s := by
    rw [hstore]
    rfl
  rw [throughGivenFilename, bind_of_ok hget, bind_of_ok hbuffer, hpath]
  rfl

theorem projects_throughExtraArgsBuf {text : Bytes} (htext : 0 ∉ text)
    (h : text.length < extraArgsBufSize) :
    Projects RunState.events (throughExtraArgsBuf text) (pure text) := by
  intro s
  obtain ⟨stored, hstore, hload⟩ := loadCString_store s.storage.extraArgsBuf [] htext h
  have hget : (get : StaticM RunState) s = .ok s s := rfl
  have hbuffer : onEvents (ofExcept (storeCString s.storage.extraArgsBuf text [])) s =
      .ok stored s := by
    rw [hstore]
    rfl
  rw [throughExtraArgsBuf, bind_of_ok hget, bind_of_ok hbuffer, hload]
  rfl

theorem projects_throughArgs {args : List Bytes} (h : args.length < maxArgs) :
    Projects RunState.events (throughArgs args) (pure args) := by
  intro s
  have hroom : 0 + (args.map some ++ [none]).length ≤ maxArgs := by
    rw [List.length_append, List.length_map, List.length_singleton]
    omega
  have hread : (s.storage.args.write 0 (args.map some ++ [none]) hroom).contents.takeWhile
      Option.isSome = args.map some := by
    apply Buffer.takeWhile_write hroom
    · intro arg harg
      obtain ⟨bytes, -, rfl⟩ := List.mem_map.mp harg
      rfl
    · rfl
  have hget : (get : StaticM RunState) s = .ok s s := rfl
  rw [throughArgs, bind_of_ok hget, dif_pos hroom, hread, List.filterMap_map]
  exact congrArg (EStateM.Result.ok · s.events) List.filterMap_some

theorem captureOutputs_eq (child : ChildOutcome) (s : RunState) :
    ∃ storage, captureOutputs child s = .ok ⟨child.output .stdout, child.output .stderr⟩
      ⟨storage, s.events, some ⟨child.output .stdout, child.output .stderr⟩⟩ := by
  have hstdout := output_captureInto s.storage.stdoutOutputBuffer 0 (Nat.zero_le _)
    (child.reads .stdout)
  have hstderr := output_captureInto s.storage.stderrOutputBuffer 0 (Nat.zero_le _)
    (child.reads .stderr)
  have hget : (get : StaticM RunState) s = .ok s s := rfl
  rw [captureOutputs, bind_of_ok hget]
  dsimp only
  rw [hstdout, hstderr]
  exact ⟨_, rfl⟩

theorem projects_captureOutputs (child : ChildOutcome) :
    Projects RunState.events (captureOutputs child)
      (pure ⟨child.output .stdout, child.output .stderr⟩) := by
  intro s
  obtain ⟨storage, hrun⟩ := captureOutputs_eq child s
  rw [hrun]
  rfl

/-- The path of a given file fits the buffer it is put into. -/
theorem resolveGivenFilename_fits {path : CString} {events events' : List HostEvent}
    (h : JCUnit.resolveGivenFilename host test events = .ok path events') :
    path.bytes.length + 1 ≤ maxTestGivenFilenameLen := by
  unfold JCUnit.resolveGivenFilename at h
  cases hname : test.givenFilename with
  | some filename =>
      simp only [hname] at h
      split at h
      · cases h
      split at h
      · cases h
      · rename_i hfits
        obtain ⟨rfl, -⟩ := pure_eq_ok.mp h
        rw [cstr_append (by decide), List.length_append]
        omega
  | none =>
      simp only [hname] at h
      cases hmkstemp : host.mkstemp with
      | error text =>
          rw [hmkstemp] at h
          cases h
      | ok suffix =>
          rw [hmkstemp] at h
          obtain ⟨_, _, -, h⟩ := bind_eq_ok h
          obtain ⟨rfl, -⟩ := pure_eq_ok.mp h
          have hlength := (List.takeWhile_prefix (l := givenFileTemplate ++ suffix.bytes)
            fun b => b ≠ 0).length_le
          have htemplate : givenFileTemplate.length = 21 := by decide
          rw [List.length_append, suffix.six, htemplate] at hlength
          exact Nat.succ_le_of_lt (Nat.lt_of_le_of_lt hlength (by decide))

theorem projects_resolveGivenFilename (host : Host) (test : ProgramRunnerTest) :
    Projects RunState.events (resolveGivenFilename host test)
      (JCUnit.resolveGivenFilename host test) := by
  apply Projects.through (projects_onEvents _)
  intro path events events' hpath
  have hfits := resolveGivenFilename_fits hpath
  apply projects_throughGivenFilename
  split
  · exact hfits
  · rw [strncpyPadding, List.length_replicate]
    omega

theorem projects_prepareGiven (host : Host) (test : ProgramRunnerTest) :
    Projects RunState.events (prepareGiven host test) (JCUnit.prepareGiven host test) := by
  unfold prepareGiven JCUnit.prepareGiven
  split
  · apply Projects.bind (projects_resolveGivenFilename host test)
    intro filename
    apply Projects.bind (projects_onEvents _)
    intro _
    exact Projects.pure _
  split
  · exact Projects.pure _
  · exact Projects.pure _

theorem nulFree_take {text : Bytes} (h : 0 ∉ text) (n : Nat) : 0 ∉ text.take n :=
  fun hmem => h (List.take_subset n text hmem)

theorem nulFree_drop {text : Bytes} (h : 0 ∉ text) (n : Nat) : 0 ∉ text.drop n :=
  fun hmem => h (List.drop_subset n text hmem)

theorem nulFree_append {text more : Bytes} (htext : 0 ∉ text) (hmore : 0 ∉ more) :
    0 ∉ text ++ more := by
  rw [List.mem_append, not_or]
  exact ⟨htext, hmore⟩

/-- What the placeholders are replaced in fits the buffer and is a C string. -/
theorem substituteLoop_fits {filename src dst buf : Bytes} (hfilename : 0 ∉ filename)
    (hsrc : 0 ∉ src) (hdst : 0 ∉ dst) (h : substituteLoop filename src dst = .ok buf) :
    0 ∉ buf ∧ buf.length < extraArgsBufSize := by
  induction src, dst using substituteLoop.induct filename with
  | case1 src dst found hfound hlong =>
      rw [substituteLoop_of_some hfound, if_pos hlong] at h
      cases h
  | case2 src dst found hfound hshort ih =>
      rw [substituteLoop_of_some hfound, if_neg hshort] at h
      have hdst' := nulFree_append (nulFree_append hdst (nulFree_take hsrc found)) hfilename
      exact ih (nulFree_drop hsrc _) hdst' h
  | case3 src dst hfound hlong =>
      rw [substituteLoop_of_none hfound, if_pos hlong] at h
      cases h
  | case4 src dst hfound hshort =>
      rw [substituteLoop_of_none hfound, if_neg hshort] at h
      cases h
      rw [List.length_append]
      exact ⟨nulFree_append hdst hsrc, Nat.not_le.mp hshort⟩

/-- The vector never gets longer than its last place before the `NULL`. -/
theorem foldlM_addArg_fits {tokens args args' : List Bytes} (hargs : args.length < maxArgs)
    (h : tokens.foldlM addArg args = .ok args') : args'.length < maxArgs := by
  apply foldlM_invariant (P := fun args : List Bytes => args.length < maxArgs) ?_ hargs h
  intro args token args' _ hadd
  unfold addArg at hadd
  split at hadd
  · cases hadd
  · rename_i hroom
    cases hadd
    rw [List.length_append, List.length_singleton]
    have hmax : maxArgs = 32 := rfl
    omega

theorem ofExcept_bind {α β : Type} (x : Except Halt α) (f : α → Except Halt β) :
    ofExcept (x >>= f) = ofExcept x >>= fun a => ofExcept (f a) := by
  cases x <;> rfl

theorem ofExcept_eq_ok {α : Type} {x : Except Halt α} {a : α} {events events' : List HostEvent}
    (h : ofExcept x events = .ok a events') : x = .ok a := by
  cases x with
  | ok b => exact congrArg Except.ok (pure_eq_ok.mp h).1
  | error halt => cases h

/-- The split arguments go through the static vector as they are. -/
theorem projects_addArgs {args : List Bytes} (hargs : args.length < maxArgs) (buf : Bytes) :
    Projects RunState.events
      (do let args ← onEvents (ofExcept ((strtokAll buf).foldlM addArg args)); throughArgs args)
      (ofExcept ((strtokAll buf).foldlM addArg args)) := by
  apply Projects.through (projects_onEvents _)
  intro args' events events' hrun
  exact projects_throughArgs (foldlM_addArg_fits hargs (ofExcept_eq_ok hrun))

theorem projects_buildArgs (program : CString) (filename extraArgs : Option CString) :
    Projects RunState.events (buildArgs program filename extraArgs)
      (ofExcept (JCUnit.buildArgs program filename extraArgs)) := by
  have hstart := length_programAndFile program filename
  unfold buildArgs JCUnit.buildArgs
  cases extraArgs with
  | none => exact projects_throughArgs hstart
  | some extra =>
      dsimp only
      split
      · rw [ofExcept_bind]
        apply Projects.bind_of (projects_onEvents _)
        intro buf events events' hrun
        have hfilename : 0 ∉ (filename.map CString.bytes).getD [] := by
          cases filename with
          | none => exact List.not_mem_nil
          | some filename => exact filename.nulFree
        obtain ⟨hnul, hfits⟩ := substituteLoop_fits hfilename extra.nulFree List.not_mem_nil
          (ofExcept_eq_ok hrun)
        apply Projects.skip (projects_throughExtraArgsBuf hnul hfits)
        have hone : [program.bytes].length < maxArgs := length_programAndFile program none
        exact projects_addArgs hone buf
      split
      · exact projects_onEvents _
      · rename_i hfits
        apply Projects.skip
          (projects_throughExtraArgsBuf extra.nulFree (Nat.not_le.mp hfits))
        exact projects_addArgs hstart extra.bytes

theorem projects_tryToRunProgram (host : Host) (program : CString)
    (filename extraArgs : Option CString) (stdinInput : Option Bytes) :
    Projects RunState.events (tryToRunProgram host program filename extraArgs stdinInput)
      (JCUnit.tryToRunProgram host program filename extraArgs stdinInput) := by
  apply Projects.bind (projects_buildArgs program filename extraArgs)
  intro args
  split
  · exact Projects.pure _
  split
  · exact Projects.pure _
  · apply Projects.bind (projects_onEvents _)
    intro child
    exact Projects.skip (projects_captureOutputs child) (Projects.pure _)

theorem projects_programRunnerTestRunner (host : Host) (test : ProgramRunnerTest) :
    Projects RunState.events (programRunnerTestRunner host test)
      (JCUnit.programRunnerTestRunner host test) := by
  apply Projects.bind (projects_prepareGiven host test)
  intro givenFilename
  cases test.programPath with
  | none => exact Projects.throw _
  | some executable =>
      apply Projects.bind (projects_tryToRunProgram _ _ _ _ _)
      intro run
      apply Projects.bind (projects_onEvents _)
      intro _
      exact Projects.pure _

/-- What a test finds in the static variables makes no difference to it. -/
theorem projects_testRun (host : Host) (test : ProgramRunnerTest) :
    Projects RunState.events (testRun host test) (JCUnit.testRun host test) := by
  unfold testRun JCUnit.testRun
  split
  · exact Projects.pure _
  split
  · exact Projects.pure _
  split
  · apply Projects.bind (projects_programRunnerTestRunner host test)
    intro result
    exact Projects.pure _
  · cases test.name with
    | some name => exact projects_onEvents _
    | none => exact Projects.throw _

end Simulation

section Captured

variable {host : Host} {test : ProgramRunnerTest} {α : Type}

/-- Nothing has been captured, or what the reads of the child give. -/
def CapturedFrom (host : Host) (s : RunState) : Prop :=
  ∀ captured ∈ s.captured,
    captured = ⟨host.child.output .stdout, host.child.output .stderr⟩

theorem onEvents_eq_ok {x : RunM α} {s s' : RunState} {a : α} (h : onEvents x s = .ok a s') :
    ∃ events, x s.events = .ok a events ∧ s' = { s with events } := by
  unfold onEvents lifted at h
  split at h
  · rename_i hrun
    cases h
    exact ⟨_, hrun, rfl⟩
  · cases h

theorem keeps_onEvents (x : RunM α) :
    Keeps (CapturedFrom host) (onEvents x) fun _ => True := by
  intro s a s' hs hrun
  obtain ⟨events, -, rfl⟩ := onEvents_eq_ok hrun
  exact ⟨hs, trivial⟩

theorem keeps_set {s : RunState} (h : CapturedFrom host s) :
    Keeps (CapturedFrom host) (set s : StaticM PUnit) fun _ => True := by
  intro _ _ s' _ hrun
  cases hrun
  exact ⟨h, trivial⟩

theorem keeps_prepareGiven :
    Keeps (CapturedFrom host) (prepareGiven host test) fun _ => True := by
  unfold prepareGiven
  split
  · apply Keeps.bind (P := fun _ => True)
    · apply Keeps.bind (keeps_onEvents _)
      intro path _
      apply Keeps.bind Keeps.get
      intro s hs
      apply Keeps.bind (keeps_onEvents _)
      intro buffer _
      have hstored : CapturedFrom host
          { s with storage := { s.storage with givenFilename := buffer } } := hs
      apply Keeps.bind (keeps_set hstored)
      intro _ _
      exact Keeps.pure trivial
    · intro filename _
      apply Keeps.bind (keeps_onEvents _)
      intro _ _
      exact Keeps.pure trivial
  split
  · exact Keeps.pure trivial
  · exact Keeps.pure trivial

theorem keeps_throughExtraArgsBuf (text : Bytes) :
    Keeps (CapturedFrom host) (throughExtraArgsBuf text) fun _ => True := by
  apply Keeps.bind Keeps.get
  intro s hs
  apply Keeps.bind (keeps_onEvents _)
  intro buffer _
  have hstored : CapturedFrom host
      { s with storage := { s.storage with extraArgsBuf := buffer } } := hs
  apply Keeps.bind (keeps_set hstored)
  intro _ _
  exact Keeps.pure trivial

theorem keeps_throughArgs (args : List Bytes) :
    Keeps (CapturedFrom host) (throughArgs args) fun _ => True := by
  apply Keeps.bind Keeps.get
  intro s hs
  split
  · rename_i hroom
    have hstored : CapturedFrom host { s with storage := { s.storage with
        args := s.storage.args.write 0 (args.map some ++ [none]) hroom } } := hs
    apply Keeps.bind (keeps_set hstored)
    intro _ _
    exact Keeps.pure trivial
  · exact Keeps.throw _

theorem keeps_addArgs (buf : Bytes) (args : List Bytes) :
    Keeps (CapturedFrom host)
      (do let args ← onEvents (ofExcept ((strtokAll buf).foldlM addArg args)); throughArgs args)
      fun _ => True := by
  apply Keeps.bind (keeps_onEvents _)
  intro args _
  exact keeps_throughArgs args

theorem keeps_buildArgs (program : CString) (filename extraArgs : Option CString) :
    Keeps (CapturedFrom host) (buildArgs program filename extraArgs) fun _ => True := by
  unfold buildArgs
  cases extraArgs with
  | none => exact keeps_throughArgs _
  | some extra =>
      dsimp only
      split
      · apply Keeps.bind (keeps_onEvents _)
        intro buf _
        apply Keeps.bind (keeps_throughExtraArgsBuf buf)
        intro buf _
        exact keeps_addArgs buf _
      split
      · exact keeps_onEvents _
      · apply Keeps.bind (keeps_throughExtraArgsBuf extra.bytes)
        intro buf _
        exact keeps_addArgs buf _

/-- The child that is started is the one of the host. -/
theorem keeps_childProcessRun (path : CString) (argv : List Bytes) (input : Option Bytes) :
    Keeps (CapturedFrom host) (onEvents (childProcessRun host path argv input))
      fun child => child = host.child := by
  intro s child s' hs hrun
  obtain ⟨events, hchild, rfl⟩ := onEvents_eq_ok hrun
  exact ⟨hs, childProcessRun_eq_ok hchild⟩

theorem keeps_captureOutputs :
    Keeps (CapturedFrom host) (captureOutputs host.child) fun _ => True := by
  intro s a s' _ hrun
  obtain ⟨storage, hcaptured⟩ := captureOutputs_eq host.child s
  rw [hcaptured] at hrun
  cases hrun
  refine ⟨?_, trivial⟩
  intro captured hmem
  exact (Option.some_inj.mp hmem).symm

theorem keeps_tryToRunProgram (program : CString) (filename extraArgs : Option CString)
    (input : Option Bytes) :
    Keeps (CapturedFrom host) (tryToRunProgram host program filename extraArgs input)
      fun _ => True := by
  apply Keeps.bind (keeps_buildArgs program filename extraArgs)
  intro args _
  split
  · exact Keeps.pure trivial
  split
  · exact Keeps.pure trivial
  · apply Keeps.bind (keeps_childProcessRun program args input)
    rintro child rfl
    apply Keeps.bind keeps_captureOutputs
    intro captured _
    exact Keeps.pure trivial

theorem keeps_testRun : Keeps (CapturedFrom host) (testRun host test) fun _ => True := by
  unfold testRun
  split
  · exact Keeps.pure trivial
  split
  · exact Keeps.pure trivial
  split
  · apply Keeps.bind (P := fun _ => True)
    · apply Keeps.bind keeps_prepareGiven
      intro givenFilename _
      cases test.programPath with
      | none => exact Keeps.throw _
      | some executable =>
          apply Keeps.bind (keeps_tryToRunProgram _ _ _ _)
          intro run _
          apply Keeps.bind (keeps_onEvents _)
          intro _ _
          exact Keeps.pure trivial
    · intro result _
      exact Keeps.pure trivial
  · cases test.name with
    | some name => exact keeps_onEvents _
    | none => exact Keeps.throw _

end Captured

end Static

end JCUnit
