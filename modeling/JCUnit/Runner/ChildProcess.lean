import JCUnit.Compile.TestSuite
import JCUnit.Text.FatalError

/-!
# The output of a child process

What the two loops of `child_process_run` keep of the results of `read`, and the
exit code the function returns.
-/

namespace JCUnit

/-- `ERROR_CODE_NONE` to `ERROR_CODE_OUTPUT_TOO_LONG`. -/
inductive ErrorCode
  | none
  | fileNotFound
  | notExecutable
  | readChildData
  | outputTooLong
deriving DecidableEq

/-- `MAX_PROCESS_OUTPUT_BUFFER_LEN`, the size of both buffers. -/
def maxProcessOutputBufferLen : Nat := 8192

/-- A `struct process_output`: the first `len` bytes of its buffer, and its error code. -/
structure ProcessOutput where
  bytes : Bytes
  errorCode : ErrorCode
deriving DecidableEq

/-- After the loop: a full buffer is an error. -/
def ProcessOutput.finish (output : ProcessOutput) : ProcessOutput :=
  if maxProcessOutputBufferLen ≤ output.bytes.length then ⟨[], .outputTooLong⟩ else output

/-- The loop over the results of `read`, with the bytes kept so far; a failed `read` is `none`,
and the end of the file gives no bytes. -/
def capture (got : Bytes) : List (Option Bytes) → ProcessOutput
  | [] => ProcessOutput.finish ⟨got, .none⟩
  | result :: results =>
      if got.length < maxProcessOutputBufferLen then
        match result with
        | none => ProcessOutput.finish ⟨[], .readChildData⟩
        | some [] => ProcessOutput.finish ⟨got, .none⟩
        | some (b :: chunk) =>
            capture (got ++ (b :: chunk).take (maxProcessOutputBufferLen - got.length)) results
      else ProcessOutput.finish ⟨got, .none⟩

/-- What the parent sees of a child: whether its `execv` returned, the status it exited with
unless a signal ended it, and the results of the reads from its two streams. -/
structure ChildOutcome where
  execReturned : Bool
  exited : Option UInt8
  reads : Stream → List (Option Bytes)

/-- How the exchange with a child ends: both are through with it, or the child has gone before it is
given its input. It has no end where the child has none, or where the two wait for each other. -/
inductive ExchangeEnd
  | finished
  | sigpipe
  | endless
deriving DecidableEq

/-- What keeps `child_process_run` from returning. Only a write of input can raise `SIGPIPE`, for
which there is no handler. -/
def ExchangeEnd.halt (exchange : ExchangeEnd) (stdinInput : Option Bytes) : Option Halt :=
  match exchange with
  | .finished => none
  | .sigpipe => if stdinInput.getD [] = [] then none else some .killed
  | .endless => some .blocked

/-- The result of `child_process_run`; a child whose `execv` returns exits with 127. -/
def ChildOutcome.exitCode (child : ChildOutcome) : Int :=
  if child.execReturned then 127
  else
    match child.exited with
    | some code => code.toNat
    | none => -1

def ChildOutcome.output (child : ChildOutcome) (stream : Stream) : ProcessOutput :=
  capture [] (child.reads stream)

section Capture

/-- The bytes that come before the end of the file or a failed `read`. -/
def delivered : List (Option Bytes) → Bytes
  | some (b :: chunk) :: results => (b :: chunk) ++ delivered results
  | _ => []

/-- A `read` fails before the end of the file. -/
def readFails : List (Option Bytes) → Bool
  | none :: _ => true
  | some (_ :: _) :: results => readFails results
  | _ => false

/-- The loop keeps what the reads deliver, unless they deliver too much or fail. -/
theorem capture_eq (got : Bytes) (results : List (Option Bytes)) :
    capture got results =
      if maxProcessOutputBufferLen ≤ (got ++ delivered results).length then ⟨[], .outputTooLong⟩
      else if readFails results then ⟨[], .readChildData⟩
      else ⟨got ++ delivered results, .none⟩ := by
  have hempty : ¬ maxProcessOutputBufferLen ≤ 0 := by decide
  induction got, results using capture.induct with
  | case1 got => simp [capture, ProcessOutput.finish, delivered, readFails]
  | case2 got results hroom =>
      unfold capture
      simp [hroom, ProcessOutput.finish, delivered, readFails, hempty, Nat.not_le.mpr hroom]
  | case3 got results hroom =>
      unfold capture
      simp [hroom, ProcessOutput.finish, delivered, readFails]
  | case4 got results hroom b chunk ih =>
      have hdelivered : delivered (some (b :: chunk) :: results) =
          (b :: chunk) ++ delivered results := rfl
      have hfails : readFails (some (b :: chunk) :: results) = readFails results := rfl
      rw [capture, if_pos hroom, ih, hdelivered, hfails]
      by_cases hfits : (b :: chunk).length ≤ maxProcessOutputBufferLen - got.length
      · rw [List.take_of_length_le hfits, List.append_assoc]
      · have hleft : maxProcessOutputBufferLen ≤
            ((got ++ (b :: chunk).take (maxProcessOutputBufferLen - got.length)) ++
              delivered results).length := by
          rw [List.length_append, List.length_append, List.length_take]
          omega
        have hright : maxProcessOutputBufferLen ≤
            (got ++ ((b :: chunk) ++ delivered results)).length := by
          rw [List.length_append, List.length_append]
          omega
        rw [if_pos hleft, if_pos hright]
  | case5 got result results hfull =>
      unfold capture
      have hlong : maxProcessOutputBufferLen ≤ (got ++ delivered (result :: results)).length := by
        rw [List.length_append]
        omega
      rw [if_neg hfull, if_pos hlong]
      exact if_pos (Nat.not_lt.mp hfull)

/-- The capture of a stream ends in an error. -/
def ChildOutcome.CaptureError (child : ChildOutcome) (stream : Stream) : Prop :=
  maxProcessOutputBufferLen ≤ (delivered (child.reads stream)).length ∨
    readFails (child.reads stream) = true

theorem errorCode_ne_none_iff (child : ChildOutcome) (stream : Stream) :
    (child.output stream).errorCode ≠ .none ↔ child.CaptureError stream := by
  unfold ChildOutcome.output ChildOutcome.CaptureError
  rw [capture_eq, List.nil_append]
  split
  case isTrue hlong => simp [hlong]
  case isFalse hshort =>
    split
    case isTrue hfails => simp [hfails]
    case isFalse hends => simp [hshort, hends]

end Capture

end JCUnit
