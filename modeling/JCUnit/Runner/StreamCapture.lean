import JCUnit.Runner.StaticStorage
import JCUnit.Runner.Verdict

/-!
# The capture of the two streams

However the system splits what the child writes into the results of `read`, each stream is
captured as it was written or found to be too long for its buffer.
-/

namespace JCUnit

open StateError Static

/-- What the reads of a loop that has kept `len` bytes may return while `rest` is still to be
read: at least one byte while there are some, never more than requested, and nothing at the end.
A full buffer is not read into. -/
inductive ReadResults : Nat → Bytes → List (Option Bytes) → Prop
  | full {len : Nat} {rest : Bytes} (hfull : maxProcessOutputBufferLen ≤ len) :
      ReadResults len rest []
  | ends {len : Nat} (hroom : len < maxProcessOutputBufferLen) : ReadResults len [] [some []]
  | chunk {len : Nat} {chunk rest : Bytes} {results : List (Option Bytes)}
      (hroom : len < maxProcessOutputBufferLen) (hnonempty : chunk ≠ [])
      (hrequested : chunk.length ≤ maxProcessOutputBufferLen - len)
      (hresults : ReadResults (len + chunk.length) rest results) :
      ReadResults len (chunk ++ rest) (some chunk :: results)

/-- What is captured of a stream with this text: the text if it leaves a byte of the buffer
free. -/
def exactOutput (text : Bytes) : ProcessOutput :=
  if text.length < maxProcessOutputBufferLen then ⟨text, .none⟩ else ⟨[], .outputTooLong⟩

theorem finish_eq_exactOutput (text : Bytes) :
    ProcessOutput.finish ⟨text, .none⟩ = exactOutput text := by
  unfold ProcessOutput.finish exactOutput
  by_cases hroom : text.length < maxProcessOutputBufferLen
  · rw [if_neg (Nat.not_le.mpr hroom), if_pos hroom]
  · rw [if_pos (Nat.not_lt.mp hroom), if_neg hroom]

/-- The loop ends with the text, or with a buffer that the text overflows. -/
theorem ReadResults.capture_eq {len : Nat} {rest : Bytes} {results : List (Option Bytes)}
    (h : ReadResults len rest results) {got : Bytes} (hgot : got.length = len) :
    capture got results = exactOutput (got ++ rest) := by
  induction h generalizing got with
  | @full len rest hfull =>
      have hlong : ¬ (got ++ rest).length < maxProcessOutputBufferLen := by
        rw [List.length_append, hgot, Nat.not_lt]
        exact Nat.le_add_right_of_le hfull
      rw [exactOutput, if_neg hlong]
      exact if_pos (hgot ▸ hfull)
  | ends hroom =>
      rw [capture, if_pos (hgot ▸ hroom), List.append_nil]
      exact finish_eq_exactOutput got
  | @chunk len chunk rest results hroom hnonempty hrequested _ ih =>
      obtain ⟨b, chunk, rfl⟩ := List.exists_cons_of_ne_nil hnonempty
      have hlength : (got ++ b :: chunk).length = len + (b :: chunk).length := by
        rw [List.length_append, hgot]
      rw [capture, if_pos (hgot ▸ hroom), hgot, List.take_of_length_le hrequested, ih hlength,
        List.append_assoc]

/-- When `child_process_run` returns, each stream has been captured exactly, whatever the other
one was. -/
theorem childProcessRun_captures {host : Host} {o e : Bytes}
    (hstdout : ReadResults 0 o (host.child.reads .stdout))
    (hstderr : ReadResults 0 e (host.child.reads .stderr)) {path : CString} {argv : List Bytes}
    {stdinInput : Option Bytes} {s s' : RunState} {captured : CapturedOutput}
    (hreturns : (onEvents (childProcessRun host path argv stdinInput) >>= captureOutputs) s =
      .ok captured s') :
    captured.stdout = exactOutput o ∧ captured.stderr = exactOutput e := by
  obtain ⟨child, s₁, hchild, hcaptured⟩ := bind_eq_ok hreturns
  obtain ⟨events, hrun, rfl⟩ := onEvents_eq_ok hchild
  obtain rfl := childProcessRun_eq_ok hrun
  obtain ⟨storage, houtputs⟩ := captureOutputs_eq host.child { s with events }
  rw [houtputs] at hcaptured
  cases hcaptured
  exact ⟨hstdout.capture_eq rfl, hstderr.capture_eq rfl⟩

/-- A child that writes `hello` in two pieces, and nothing to stderr. -/
def helloReads : Stream → List (Option Bytes)
  | .stdout => [some (ascii "hel"), some (ascii "lo"), some []]
  | .stderr => [some []]

theorem childProcessRun_captures_hello :
    ∃ captured s', (onEvents (childProcessRun (Host.obliging someSuffix ⟨false, some 0, helloReads⟩)
        ⟨ascii "./tool", by decide⟩ [ascii "./tool"] none) >>= captureOutputs)
          ⟨.zeroed, [], none⟩ = .ok captured s' ∧
      captured.stdout = exactOutput (ascii "hello") ∧ captured.stderr = exactOutput [] := by
  have hlo : ReadResults 3 (ascii "lo" ++ []) [some (ascii "lo"), some []] :=
    .chunk (by decide) (by decide) (by decide) (.ends (by decide))
  have hstdout : ReadResults 0 (ascii "hel" ++ (ascii "lo" ++ [])) (helloReads .stdout) :=
    .chunk (by decide) (by decide) (by decide) hlo
  have hstderr : ReadResults 0 [] (helloReads .stderr) := .ends (by decide)
  obtain ⟨storage, houtputs⟩ := captureOutputs_eq ⟨false, some 0, helloReads⟩ ⟨.zeroed,
    [.started ⟨ascii "./tool", by decide⟩ [ascii "./tool"] none], none⟩
  have hreturns : (onEvents (childProcessRun (Host.obliging someSuffix ⟨false, some 0, helloReads⟩)
      ⟨ascii "./tool", by decide⟩ [ascii "./tool"] none) >>= captureOutputs)
        ⟨.zeroed, [], none⟩ = _ := houtputs
  exact ⟨_, _, hreturns, childProcessRun_captures hstdout hstderr hreturns⟩

end JCUnit
