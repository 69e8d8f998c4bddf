import JCUnit.Foundation.Transitions
import JCUnit.Runner.ChildProcess
import Mathlib.Logic.Function.Basic

/-!
# The parent and its child

The steps of `child_process_run` and of the child it has started, over three pipes of
finite capacity. A write moves as many bytes as it likes into the room there is and
blocks on a full pipe; a read takes some of the bytes there are, blocks on an empty pipe
while the child runs, and gives nothing after that. Where no step is left, the exchange has
come to one of the ends that `child_process_run` is given.
-/

namespace JCUnit

open Transitions

/-- A call of `child_process_run`, for a child that makes these writes and exits. -/
structure Exchange where
  capacity : Nat
  capacity_pos : 0 < capacity
  stdinInput : Option Bytes
  writes : List (Stream × Bytes)

/-- The parent writes what is left of the input, reads one stream or the other, waits for the
child, has returned, or has been ended by `SIGPIPE`. -/
inductive ParentPhase
  | writing (rest : Bytes)
  | reading (stream : Stream)
  | waiting
  | returned
  | killed
deriving DecidableEq

/-- The read ends of the child's two streams are open. -/
def ParentPhase.listens : ParentPhase → Bool
  | .writing _ => true
  | .reading _ => true
  | _ => false

structure PipeState where
  parent : ParentPhase
  /-- The writes a running child has still to make. -/
  child : Option (List (Stream × Bytes))
  stdin : Bytes
  pipe : Stream → Bytes
  /-- The results of the reads so far. -/
  reads : Stream → List Bytes

def PipeState.captured (s : PipeState) (stream : Stream) : Bytes :=
  (s.reads stream).flatten

def Exchange.start (e : Exchange) : PipeState where
  parent :=
    match e.stdinInput with
    | some data => .writing data
    | none => .reading .stdout
  child := some e.writes
  stdin := []
  pipe _ := []
  reads _ := []

inductive PipeAction
  | parentWrite (size : Nat)
  | parentBroken (killed : Bool)
  | parentRead (size : Nat)
  | parentNext
  | childWrite (size : Nat)
  | childBroken (killed : Bool)
  | childNext
  | childExit
deriving DecidableEq

def afterReading : Stream → ParentPhase
  | .stdout => .reading .stderr
  | .stderr => .waiting

def PipeState.put (s : PipeState) (stream : Stream) (chunk : Bytes) : PipeState :=
  { s with pipe := Function.update s.pipe stream (s.pipe stream ++ chunk) }

def PipeState.receive (s : PipeState) (stream : Stream) (size : Nat) : PipeState :=
  { s with
    pipe := Function.update s.pipe stream ((s.pipe stream).drop size)
    reads := Function.update s.reads stream (s.reads stream ++ [(s.pipe stream).take size]) }

/-- The loop over this stream has read what it wants, or `read` has returned 0. -/
def PipeState.readingEnds (s : PipeState) (stream : Stream) : Prop :=
  maxProcessOutputBufferLen ≤ (s.captured stream).length ∨ (s.pipe stream = [] ∧ s.child = none)

instance (s : PipeState) (stream : Stream) : Decidable (s.readingEnds stream) :=
  inferInstanceAs (Decidable (_ ∨ _))

def parentStep (e : Exchange) (s : PipeState) : PipeAction → Option PipeState
  | .parentWrite size =>
      match s.parent with
      | .writing rest =>
          if 0 < size ∧ size ≤ rest.length ∧ s.stdin.length + size ≤ e.capacity ∧ s.child.isSome then
            some { s with parent := .writing (rest.drop size), stdin := s.stdin ++ rest.take size }
          else none
      | _ => none
  | .parentBroken killed =>
      match s.parent with
      | .writing rest =>
          -- the result of this `write` is ignored
          if rest ≠ [] ∧ s.child = none then
            some { s with parent := if killed then .killed else .reading .stdout }
          else none
      | _ => none
  | .parentRead size =>
      match s.parent with
      | .reading stream =>
          if 0 < size ∧ size ≤ (s.pipe stream).length ∧
              (s.captured stream).length + size ≤ maxProcessOutputBufferLen then
            some (s.receive stream size)
          else none
      | _ => none
  | .parentNext =>
      match s.parent with
      | .writing rest => if rest = [] then some { s with parent := .reading .stdout } else none
      | .reading stream =>
          if s.readingEnds stream then some { s with parent := afterReading stream } else none
      | .waiting => if s.child = none then some { s with parent := .returned } else none
      | _ => none
  | _ => none

def childStep (e : Exchange) (s : PipeState) : PipeAction → Option PipeState
  | .childWrite size =>
      match s.child with
      | some ((stream, bytes) :: rest) =>
          if 0 < size ∧ size ≤ bytes.length ∧ (s.pipe stream).length + size ≤ e.capacity ∧
              s.parent.listens then
            some { s.put stream (bytes.take size) with child := some ((stream, bytes.drop size) :: rest) }
          else none
      | _ => none
  | .childBroken killed =>
      match s.child with
      | some ((_, bytes) :: rest) =>
          if bytes ≠ [] ∧ s.parent.listens = false then
            some { s with child := if killed then none else some rest }
          else none
      | _ => none
  | .childNext =>
      match s.child with
      | some ((_, bytes) :: rest) => if bytes = [] then some { s with child := some rest } else none
      | _ => none
  | .childExit =>
      match s.child with
      | some [] => some { s with child := none }
      | _ => none
  | _ => none

def pipeStep (e : Exchange) (s : PipeState) (action : PipeAction) : Option PipeState :=
  match parentStep e s action with
  | some t => some t
  | none => childStep e s action

/-- The parent is in a call that blocks. -/
def PipeState.parentBlocked (e : Exchange) (s : PipeState) : Prop :=
  match s.parent with
  | .writing rest => rest ≠ [] ∧ s.child.isSome ∧ e.capacity ≤ s.stdin.length
  | .reading stream => (s.captured stream).length < maxProcessOutputBufferLen ∧
      s.pipe stream = [] ∧ s.child.isSome
  | .waiting => s.child.isSome
  | _ => False

/-- The child is in a write that blocks. -/
def PipeState.childBlocked (e : Exchange) (s : PipeState) : Prop :=
  match s.child with
  | some ((stream, bytes) :: _) =>
      bytes ≠ [] ∧ s.parent.listens ∧ e.capacity ≤ (s.pipe stream).length
  | _ => False

def PipeState.Deadlocked (e : Exchange) (s : PipeState) : Prop :=
  s.parentBlocked e ∧ s.childBlocked e

section Condition

/-- The streams of the bytes that are still to be written, in order. -/
def pendingStreams (child : Option (List (Stream × Bytes))) : List Stream :=
  (child.getD []).flatMap fun write => List.replicate write.2.length write.1

def Exchange.emitted (e : Exchange) : List Stream :=
  pendingStreams (some e.writes)

def Exchange.stdinLength (e : Exchange) : Nat :=
  (e.stdinInput.getD []).length

/-- The input fits its pipe, or both outputs fit theirs. -/
def Exchange.Fits (e : Exchange) : Prop :=
  e.stdinLength ≤ e.capacity ∨ ∀ stream, e.emitted.count stream ≤ e.capacity

/-- At this point of the child's output, stderr fits its pipe or the parent has filled its
stdout buffer; and the rest of stdout fits its pipe or the parent has filled both buffers. -/
def Exchange.Copes (e : Exchange) (written : List Stream) : Prop :=
  (written.count .stderr ≤ e.capacity ∨ maxProcessOutputBufferLen ≤ written.count .stdout) ∧
    (written.count .stdout ≤ maxProcessOutputBufferLen + e.capacity ∨
      maxProcessOutputBufferLen ≤ written.count .stderr)

/-- The order in which the parent writes and reads never leaves both stuck. -/
structure Exchange.KeepsUp (e : Exchange) : Prop where
  fits : e.Fits
  copes : ∀ written, written <+: e.emitted → e.Copes written

end Condition

section Moves

variable {e : Exchange} {s s' : PipeState} {action : PipeAction}

/-- What a step of the parent does. -/
inductive ParentMoves (e : Exchange) (s : PipeState) : PipeState → Prop
  | write {rest : Bytes} {size : Nat} (hphase : s.parent = .writing rest) (hpos : 0 < size)
      (hsize : size ≤ rest.length) (hroom : s.stdin.length + size ≤ e.capacity) :
      ParentMoves e s
        { s with parent := .writing (rest.drop size), stdin := s.stdin ++ rest.take size }
  | broken {rest : Bytes} (hphase : s.parent = .writing rest) (hrest : rest ≠ [])
      (hchild : s.child = none) (killed : Bool) :
      ParentMoves e s { s with parent := if killed then .killed else .reading .stdout }
  | read {stream : Stream} {size : Nat} (hphase : s.parent = .reading stream) (hpos : 0 < size)
      (hsize : size ≤ (s.pipe stream).length)
      (hroom : (s.captured stream).length + size ≤ maxProcessOutputBufferLen) :
      ParentMoves e s (s.receive stream size)
  | written (hphase : s.parent = .writing []) :
      ParentMoves e s { s with parent := .reading .stdout }
  | drained {stream : Stream} (hphase : s.parent = .reading stream)
      (hends : s.readingEnds stream) : ParentMoves e s { s with parent := afterReading stream }
  | reaped (hphase : s.parent = .waiting) (hchild : s.child = none) :
      ParentMoves e s { s with parent := .returned }

/-- What a step of the child does. -/
inductive ChildMoves (e : Exchange) (s : PipeState) : PipeState → Prop
  | write {stream : Stream} {bytes : Bytes} {rest : List (Stream × Bytes)} {size : Nat}
      (hchild : s.child = some ((stream, bytes) :: rest)) (hpos : 0 < size)
      (hsize : size ≤ bytes.length) (hroom : (s.pipe stream).length + size ≤ e.capacity)
      (hlistens : s.parent.listens) :
      ChildMoves e s
        { s.put stream (bytes.take size) with child := some ((stream, bytes.drop size) :: rest) }
  | broken {stream : Stream} {bytes : Bytes} {rest : List (Stream × Bytes)}
      (hchild : s.child = some ((stream, bytes) :: rest)) (hlistens : s.parent.listens = false)
      (killed : Bool) : ChildMoves e s { s with child := if killed then none else some rest }
  | next {stream : Stream} {rest : List (Stream × Bytes)}
      (hchild : s.child = some ((stream, []) :: rest)) :
      ChildMoves e s { s with child := some rest }
  | exit (hchild : s.child = some []) : ChildMoves e s { s with child := none }

theorem parentMoves_of_step (h : parentStep e s action = some s') : ParentMoves e s s' := by
  cases action with
  | parentWrite size =>
      simp only [parentStep] at h
      split at h
      case h_1 rest hphase =>
        obtain ⟨hif, heq⟩ := Option.ite_none_right_eq_some.mp h
        cases heq
        exact .write hphase hif.1 hif.2.1 hif.2.2.1
      case h_2 => cases h
  | parentBroken killed =>
      simp only [parentStep] at h
      split at h
      case h_1 rest hphase =>
        obtain ⟨hif, heq⟩ := Option.ite_none_right_eq_some.mp h
        cases heq
        exact .broken hphase hif.1 hif.2 killed
      case h_2 => cases h
  | parentRead size =>
      simp only [parentStep] at h
      split at h
      case h_1 stream hphase =>
        obtain ⟨hif, heq⟩ := Option.ite_none_right_eq_some.mp h
        cases heq
        exact .read hphase hif.1 hif.2.1 hif.2.2
      case h_2 => cases h
  | parentNext =>
      simp only [parentStep] at h
      split at h
      case h_1 rest hphase =>
        obtain ⟨rfl, heq⟩ := Option.ite_none_right_eq_some.mp h
        cases heq
        exact .written hphase
      case h_2 stream hphase =>
        obtain ⟨hif, heq⟩ := Option.ite_none_right_eq_some.mp h
        cases heq
        exact .drained hphase hif
      case h_3 hphase =>
        obtain ⟨hif, heq⟩ := Option.ite_none_right_eq_some.mp h
        cases heq
        exact .reaped hphase hif
      case h_4 => cases h
  | _ => cases h

theorem childMoves_of_step (h : childStep e s action = some s') : ChildMoves e s s' := by
  cases action with
  | childWrite size =>
      simp only [childStep] at h
      split at h
      case h_1 stream bytes rest hchild =>
        obtain ⟨hif, heq⟩ := Option.ite_none_right_eq_some.mp h
        cases heq
        exact .write hchild hif.1 hif.2.1 hif.2.2.1 hif.2.2.2
      case h_2 => cases h
  | childBroken killed =>
      simp only [childStep] at h
      split at h
      case h_1 stream bytes rest hchild =>
        obtain ⟨hif, heq⟩ := Option.ite_none_right_eq_some.mp h
        cases heq
        exact .broken hchild hif.2 killed
      case h_2 => cases h
  | childNext =>
      simp only [childStep] at h
      split at h
      case h_1 stream bytes rest hchild =>
        obtain ⟨rfl, heq⟩ := Option.ite_none_right_eq_some.mp h
        cases heq
        exact .next hchild
      case h_2 => cases h
  | childExit =>
      simp only [childStep] at h
      split at h
      case h_1 hchild =>
        cases h
        exact .exit hchild
      case h_2 => cases h
  | _ => cases h

theorem moves_of_step (h : pipeStep e s action = some s') :
    ParentMoves e s s' ∨ ChildMoves e s s' := by
  cases hparent : parentStep e s action with
  | some t =>
      simp only [pipeStep, hparent] at h
      cases h
      exact Or.inl (parentMoves_of_step hparent)
  | none =>
      simp only [pipeStep, hparent] at h
      exact Or.inr (childMoves_of_step h)

end Moves

section Termination

def ParentPhase.rank : ParentPhase → Nat
  | .writing rest => rest.length + 4
  | .reading .stdout => 3
  | .reading .stderr => 2
  | .waiting => 1
  | _ => 0

def childRank : Option (List (Stream × Bytes)) → Nat
  | none => 0
  | some writes => 1 + (writes.map fun write => 2 * write.2.length + 1).sum

/-- What is left to do, which every step lowers. -/
def PipeState.rank (s : PipeState) : Nat :=
  s.parent.rank + childRank s.child + (s.pipe .stdout).length + (s.pipe .stderr).length

variable {e : Exchange} {s s' : PipeState} {action : PipeAction}

theorem parentMoves_rank (h : ParentMoves e s s') : s'.rank < s.rank := by
  cases h with
  | write hphase hpos hsize hroom =>
      simp only [PipeState.rank, hphase, ParentPhase.rank, List.length_drop]
      omega
  | broken hphase _ hchild killed =>
      simp only [PipeState.rank, hphase, ParentPhase.rank]
      cases killed <;> simp
  | @read stream size hphase hpos hsize hroom =>
      cases stream <;>
        simp [PipeState.rank, PipeState.receive, Function.update, ParentPhase.rank] <;> omega
  | written hphase =>
      simp only [PipeState.rank, hphase, ParentPhase.rank]
      omega
  | @drained stream hphase hends =>
      simp only [PipeState.rank, hphase]
      cases stream <;> simp [afterReading, ParentPhase.rank]
  | reaped hphase hchild =>
      simp only [PipeState.rank, hphase, ParentPhase.rank]
      omega

theorem childMoves_rank (h : ChildMoves e s s') : s'.rank < s.rank := by
  cases h with
  | @write stream bytes rest size hchild hpos hsize hroom hlistens =>
      cases stream <;>
        simp [PipeState.rank, PipeState.put, Function.update, hchild, childRank] <;> omega
  | @broken stream bytes rest hchild hlistens killed =>
      have hlower : childRank (if killed then none else some rest) < childRank s.child := by
        rw [hchild]
        cases killed <;>
          simp only [Bool.false_eq_true, if_false, if_true, childRank, List.map_cons,
            List.sum_cons] <;>
          omega
      unfold PipeState.rank
      dsimp only
      omega
  | next hchild =>
      simp [PipeState.rank, hchild, childRank]
  | exit hchild =>
      simp [PipeState.rank, hchild, childRank]

end Termination

section Soundness

/-- The child has written to these streams, and the parent has read all that is not in a pipe. -/
structure Written (e : Exchange) (s : PipeState) (written : List Stream) : Prop where
  emitted : e.emitted = written ++ pendingStreams s.child
  count : ∀ stream, written.count stream = (s.captured stream).length + (s.pipe stream).length
  room : ∀ stream, (s.pipe stream).length ≤ e.capacity
  captured : ∀ stream, (s.captured stream).length ≤ maxProcessOutputBufferLen
  copes : ∀ sofar, sofar <+: written → e.Copes sofar

/-- The invariant of the two processes. -/
def PipeSound (e : Exchange) (s : PipeState) : Prop :=
  match s.parent with
  | .writing rest => (∃ written, Written e s written) ∧ (∀ stream, s.captured stream = []) ∧
      s.stdin.length + rest.length = e.stdinLength ∧ s.stdin.length ≤ e.capacity
  | .reading .stdout => (∃ written, Written e s written) ∧ e.Fits ∧ s.captured .stderr = []
  | .reading .stderr => (∃ written, Written e s written) ∧ e.Fits ∧
      (s.child.isSome → maxProcessOutputBufferLen ≤ (s.captured .stdout).length)
  | _ => e.KeepsUp

variable {e : Exchange} {s s' : PipeState} {written : List Stream}

theorem captured_receive (s : PipeState) (stream other : Stream) (size : Nat) :
    (s.receive stream size).captured other =
      if other = stream then s.captured stream ++ (s.pipe stream).take size
      else s.captured other := by
  unfold PipeState.captured PipeState.receive
  by_cases h : other = stream
  · rw [if_pos h, h]
    simp
  · rw [if_neg h]
    simp [h]

theorem Written.receive (h : Written e s written) {stream : Stream} {size : Nat}
    (hsize : size ≤ (s.pipe stream).length)
    (hroom : (s.captured stream).length + size ≤ maxProcessOutputBufferLen) :
    Written e (s.receive stream size) written where
  emitted := h.emitted
  count := by
    intro other
    have hcount := h.count other
    rw [captured_receive]
    by_cases heq : other = stream
    · subst heq
      simp only [PipeState.receive, Function.update_self, if_pos, List.length_append,
        List.length_take, List.length_drop]
      omega
    · simp only [PipeState.receive, Function.update_of_ne heq, if_neg heq]
      exact hcount
  room := by
    intro other
    have hother := h.room other
    by_cases heq : other = stream
    · subst heq
      simp only [PipeState.receive, Function.update_self, List.length_drop]
      omega
    · simp only [PipeState.receive, Function.update_of_ne heq]
      exact hother
  captured := by
    intro other
    rw [captured_receive]
    split
    · rw [List.length_append, List.length_take]
      omega
    · exact h.captured other
  copes := h.copes

/-- While the parent has not touched stderr, or has filled its stdout buffer, the child keeps
within what the parent copes with. -/
theorem Written.emit (h : Written e s written) {stream : Stream} {bytes : Bytes}
    {rest : List (Stream × Bytes)} {size : Nat} (hchild : s.child = some ((stream, bytes) :: rest))
    (hsize : size ≤ bytes.length) (hroom : (s.pipe stream).length + size ≤ e.capacity)
    (hturn : s.captured .stderr = [] ∨ maxProcessOutputBufferLen ≤ (s.captured .stdout).length) :
    Written e { s.put stream (bytes.take size) with child := some ((stream, bytes.drop size) :: rest) }
      (written ++ List.replicate size stream) := by
  have hcount : ∀ other, (written ++ List.replicate size stream).count other =
      (s.captured other).length + ((s.put stream (bytes.take size)).pipe other).length := by
    intro other
    rw [List.count_append, h.count other, List.count_replicate]
    by_cases heq : other = stream
    · subst heq
      simp [PipeState.put, hsize, Nat.add_assoc]
    · simp [PipeState.put, Function.update_of_ne heq, Ne.symm heq]
  have hpipe : ∀ other, ((s.put stream (bytes.take size)).pipe other).length ≤ e.capacity := by
    intro other
    by_cases heq : other = stream
    · subst heq
      simpa [PipeState.put, hsize] using hroom
    · simpa [PipeState.put, Function.update_of_ne heq] using h.room other
  refine ⟨?_, hcount, hpipe, h.captured, ?_⟩
  · rw [h.emitted, hchild]
    have hreplicate : List.replicate bytes.length stream =
        List.replicate size stream ++ List.replicate (bytes.length - size) stream := by
      rw [← List.replicate_add, Nat.add_sub_cancel' hsize]
    simp only [pendingStreams, Option.getD_some, List.flatMap_cons, List.length_drop, hreplicate,
      List.append_assoc]
  · intro sofar hsofar
    have hle : ∀ other, sofar.count other ≤
        (s.captured other).length + ((s.put stream (bytes.take size)).pipe other).length := by
      intro other
      rw [← hcount other]
      exact hsofar.sublist.count_le other
    constructor
    · cases hturn with
      | inl hnone =>
          apply Or.inl
          have hstderr := hle .stderr
          rw [hnone, List.length_nil, Nat.zero_add] at hstderr
          exact hstderr.trans (hpipe .stderr)
      | inr hfull =>
          cases List.prefix_or_prefix_of_prefix hsofar (List.prefix_append written _) with
          | inl hold => exact (h.copes sofar hold).1
          | inr hnew =>
              apply Or.inr
              have hmore := hnew.sublist.count_le .stdout
              rw [h.count .stdout] at hmore
              omega
    · apply Or.inl
      have hstdout := hle .stdout
      have hbound := h.captured .stdout
      have hheld := hpipe .stdout
      omega

/-- A child that has ended while the parent listens has written everything. -/
theorem Written.ended (h : Written e s written) (hchild : s.child = none) :
    written = e.emitted := by
  rw [h.emitted, hchild]
  simp [pendingStreams]

theorem Written.congr (h : Written e s written) (hpipe : s'.pipe = s.pipe)
    (hreads : s'.reads = s.reads) (hpending : pendingStreams s'.child = pendingStreams s.child) :
    Written e s' written := by
  have hcaptured : s'.captured = s.captured := by
    unfold PipeState.captured
    rw [hreads]
  refine ⟨?_, ?_, ?_, ?_, h.copes⟩
  · rw [hpending]
    exact h.emitted
  · rw [hcaptured, hpipe]
    exact h.count
  · rw [hpipe]
    exact h.room
  · rw [hcaptured]
    exact h.captured

theorem pipeSound_start (e : Exchange) : PipeSound e e.start := by
  have hwritten : Written e e.start [] := by
    refine ⟨rfl, fun _ => rfl, fun _ => Nat.zero_le _, fun _ => Nat.zero_le _, ?_⟩
    intro sofar hsofar
    rw [List.prefix_nil.mp hsofar]
    exact ⟨Or.inl (Nat.zero_le _), Or.inl (Nat.zero_le _)⟩
  unfold PipeSound
  cases hstdin : e.stdinInput with
  | none =>
      simp only [Exchange.start, hstdin] at hwritten ⊢
      refine ⟨⟨[], hwritten⟩, Or.inl ?_, rfl⟩
      simp [Exchange.stdinLength, hstdin]
  | some data =>
      simp only [Exchange.start, hstdin] at hwritten ⊢
      refine ⟨⟨[], hwritten⟩, fun _ => rfl, ?_, Nat.zero_le _⟩
      simp [Exchange.stdinLength, hstdin]

/-- A child that has ended before the parent reads has fitted everything in its pipes. -/
theorem Written.fits_of_ended (h : Written e s written) (hchild : s.child = none)
    (hnone : ∀ stream, s.captured stream = []) : e.Fits := by
  apply Or.inr
  intro stream
  calc e.emitted.count stream
      = written.count stream := by rw [h.ended hchild]
    _ = (s.pipe stream).length := by rw [h.count stream, hnone stream]; simp
    _ ≤ e.capacity := h.room stream

/-- The parent copes with all of the output once the child has ended or both buffers are full. -/
theorem Written.copes_drained (h : Written e s written) (hends : s.readingEnds .stderr)
    (hfull : s.child.isSome → maxProcessOutputBufferLen ≤ (s.captured .stdout).length) :
    ∀ sofar, sofar <+: e.emitted → e.Copes sofar := by
  intro sofar hsofar
  cases hchild : s.child with
  | none =>
      rw [← h.ended hchild] at hsofar
      exact h.copes sofar hsofar
  | some writes =>
      have hstdout := hfull (by rw [hchild]; rfl)
      have hstderr : maxProcessOutputBufferLen ≤ (s.captured .stderr).length := by
        apply hends.resolve_right
        intro hended
        rw [hchild] at hended
        cases hended.2
      have hprefix : written <+: e.emitted := ⟨_, h.emitted.symm⟩
      cases List.prefix_or_prefix_of_prefix hsofar hprefix with
      | inl hold => exact h.copes sofar hold
      | inr hnew =>
          have hout := hnew.sublist.count_le .stdout
          have herr := hnew.sublist.count_le .stderr
          rw [h.count] at hout herr
          constructor
          · exact Or.inr (by omega)
          · exact Or.inr (by omega)

theorem PipeSound.parentMoves (hs : PipeSound e s) (h : ParentMoves e s s') : PipeSound e s' := by
  cases h with
  | write hphase hpos hsize hroom =>
      simp only [PipeSound, hphase] at hs
      obtain ⟨⟨written, hwritten⟩, hnone, hstdin, _⟩ := hs
      refine ⟨⟨written, hwritten.congr rfl rfl rfl⟩, hnone, ?_, ?_⟩
      · rw [List.length_append, List.length_take, List.length_drop]
        omega
      · rw [List.length_append, List.length_take]
        omega
  | broken hphase _ hchild killed =>
      simp only [PipeSound, hphase] at hs
      obtain ⟨⟨written, hwritten⟩, hnone, _, _⟩ := hs
      have hfits := hwritten.fits_of_ended hchild hnone
      cases killed with
      | false => exact ⟨⟨written, hwritten.congr rfl rfl rfl⟩, hfits, hnone .stderr⟩
      | true =>
          refine ⟨hfits, ?_⟩
          rw [← hwritten.ended hchild]
          exact hwritten.copes
  | @read stream size hphase hpos hsize hroom =>
      cases stream with
      | stdout =>
          simp only [PipeSound, hphase] at hs
          obtain ⟨⟨written, hwritten⟩, hfits, hnone⟩ := hs
          have hparent : (s.receive .stdout size).parent = .reading .stdout := hphase
          simp only [PipeSound, hparent]
          refine ⟨⟨written, hwritten.receive hsize hroom⟩, hfits, ?_⟩
          rw [captured_receive, if_neg (by decide)]
          exact hnone
      | stderr =>
          simp only [PipeSound, hphase] at hs
          obtain ⟨⟨written, hwritten⟩, hfits, hfull⟩ := hs
          have hparent : (s.receive .stderr size).parent = .reading .stderr := hphase
          simp only [PipeSound, hparent]
          refine ⟨⟨written, hwritten.receive hsize hroom⟩, hfits, ?_⟩
          rw [captured_receive, if_neg (by decide)]
          exact hfull
  | written hphase =>
      simp only [PipeSound, hphase] at hs
      obtain ⟨⟨written, hwritten⟩, hnone, hstdin, hroom⟩ := hs
      rw [List.length_nil, Nat.add_zero] at hstdin
      rw [hstdin] at hroom
      exact ⟨⟨written, hwritten.congr rfl rfl rfl⟩, Or.inl hroom, hnone .stderr⟩
  | @drained stream hphase hends =>
      cases stream with
      | stdout =>
          simp only [PipeSound, hphase] at hs
          obtain ⟨⟨written, hwritten⟩, hfits, _⟩ := hs
          refine ⟨⟨written, hwritten.congr rfl rfl rfl⟩, hfits, ?_⟩
          intro halive
          cases hends with
          | inl hfull => exact hfull
          | inr hended => simp [hended.2] at halive
      | stderr =>
          simp only [PipeSound, hphase] at hs
          obtain ⟨⟨written, hwritten⟩, hfits, hfull⟩ := hs
          exact ⟨hfits, hwritten.copes_drained hends hfull⟩
  | reaped hphase hchild =>
      simp only [PipeSound, hphase] at hs
      exact hs

/-- A step of the child keeps what holds of the bytes written so far. -/
theorem Written.childMoves (h : Written e s written) (hmoves : ChildMoves e s s')
    (hlistens : s.parent.listens) (hturn : s.child.isSome → s.captured .stderr = [] ∨
      maxProcessOutputBufferLen ≤ (s.captured .stdout).length) :
    ∃ written', Written e s' written' := by
  cases hmoves with
  | @write stream bytes rest size hchild hpos hsize hroom =>
      exact ⟨_, h.emit hchild hsize hroom (hturn (by rw [hchild]; rfl))⟩
  | broken hchild hclosed killed =>
      rw [hclosed] at hlistens
      cases hlistens
  | next hchild =>
      refine ⟨written, h.congr rfl rfl ?_⟩
      rw [hchild]
      simp [pendingStreams]
  | exit hchild =>
      refine ⟨written, h.congr rfl rfl ?_⟩
      rw [hchild]
      rfl

theorem childMoves_frame (h : ChildMoves e s s') : s'.parent = s.parent ∧ s'.stdin = s.stdin ∧
    s'.captured = s.captured ∧ (s'.child.isSome → s.child.isSome) := by
  cases h with
  | write hchild => exact ⟨rfl, rfl, rfl, fun _ => by rw [hchild]; rfl⟩
  | broken hchild => exact ⟨rfl, rfl, rfl, fun _ => by rw [hchild]; rfl⟩
  | next hchild => exact ⟨rfl, rfl, rfl, fun _ => by rw [hchild]; rfl⟩
  | exit hchild => exact ⟨rfl, rfl, rfl, fun _ => by rw [hchild]; rfl⟩

theorem PipeSound.childMoves (hs : PipeSound e s) (h : ChildMoves e s s') : PipeSound e s' := by
  obtain ⟨hparent, hstdin, hcaptured, halive⟩ := childMoves_frame h
  cases hphase : s.parent with
  | writing rest =>
      simp only [PipeSound, hphase] at hs
      simp only [PipeSound, hparent, hphase, hstdin, hcaptured]
      obtain ⟨⟨written, hwritten⟩, hnone, hfed⟩ := hs
      exact ⟨hwritten.childMoves h (by rw [hphase]; rfl) (fun _ => Or.inl (hnone .stderr)), hnone, hfed⟩
  | reading stream =>
      cases stream with
      | stdout =>
          simp only [PipeSound, hphase] at hs
          simp only [PipeSound, hparent, hphase, hcaptured]
          obtain ⟨⟨written, hwritten⟩, hfits, hnone⟩ := hs
          exact ⟨hwritten.childMoves h (by rw [hphase]; rfl) (fun _ => Or.inl hnone), hfits, hnone⟩
      | stderr =>
          simp only [PipeSound, hphase] at hs
          simp only [PipeSound, hparent, hphase, hcaptured]
          obtain ⟨⟨written, hwritten⟩, hfits, hfull⟩ := hs
          exact ⟨hwritten.childMoves h (by rw [hphase]; rfl) (fun hsome => Or.inr (hfull hsome)),
            hfits, fun hsome => hfull (halive hsome)⟩
  | _ =>
      simp only [PipeSound, hphase] at hs
      simp only [PipeSound, hparent, hphase]
      exact hs

theorem pipeSound_reaches (h : Reaches (pipeStep e) e.start s) : PipeSound e s := by
  apply Reaches.invariant (I := PipeSound e) ?_ (pipeSound_start e) h
  intro t action t' ht hstep
  cases moves_of_step hstep with
  | inl hparent => exact ht.parentMoves hparent
  | inr hchild => exact ht.childMoves hchild

end Soundness

section Deadlock

variable {e : Exchange} {s : PipeState}

/-- Where the child is stuck, the byte it cannot write is one more than its pipe holds. -/
theorem Written.blocked {written : List Stream} (h : Written e s written)
    (hblocked : s.childBlocked e) : ∃ stream, written ++ [stream] <+: e.emitted ∧
      (written ++ [stream]).count stream = (s.captured stream).length + e.capacity + 1 ∧
      (s.pipe stream).length = e.capacity := by
  unfold PipeState.childBlocked at hblocked
  cases hchild : s.child with
  | none => simp [hchild] at hblocked
  | some writes =>
      cases writes with
      | nil => simp [hchild] at hblocked
      | cons write rest =>
          obtain ⟨stream, bytes⟩ := write
          simp only [hchild] at hblocked
          obtain ⟨hbytes, _, hfull⟩ := hblocked
          have hpipe := Nat.le_antisymm (h.room stream) hfull
          refine ⟨stream, ?_, ?_, hpipe⟩
          · rw [h.emitted, hchild, List.prefix_append_right_inj]
            obtain ⟨b, tail, rfl⟩ := List.exists_cons_of_ne_nil hbytes
            simp [pendingStreams, List.replicate_succ]
          · rw [List.count_append, h.count stream, List.count_singleton_self, hpipe]

theorem Written.overflows_unread {written : List Stream} (h : Written e s written)
    (hblocked : s.childBlocked e) (hnone : ∀ stream, s.captured stream = []) :
    ∃ stream, e.capacity < e.emitted.count stream := by
  obtain ⟨stream, hprefix, hcount, _⟩ := h.blocked hblocked
  refine ⟨stream, ?_⟩
  have hmore := hprefix.sublist.count_le stream
  rw [hcount, hnone stream, List.length_nil] at hmore
  omega

/-- A child that is stuck while stdout is drained is stuck on stderr. -/
theorem Written.overflows_stderr {written : List Stream} (h : Written e s written)
    (hblocked : s.childBlocked e) (hempty : s.pipe .stdout = [])
    (hshort : (s.captured .stdout).length < maxProcessOutputBufferLen) :
    ∃ sofar, sofar <+: e.emitted ∧ ¬ e.Copes sofar := by
  obtain ⟨stream, hprefix, hcount, hfull⟩ := h.blocked hblocked
  refine ⟨written ++ [stream], hprefix, ?_⟩
  intro hcopes
  have hpos := e.capacity_pos
  have hout := h.count .stdout
  rw [hempty, List.length_nil] at hout
  cases stream with
  | stdout =>
      rw [hempty, List.length_nil] at hfull
      omega
  | stderr =>
      have hturn := hcopes.1
      rw [hcount, List.count_append, hout] at hturn
      simp at hturn
      omega

/-- A child that is stuck while stderr is drained, with a full stdout buffer, is stuck on
stdout. -/
theorem Written.overflows_stdout {written : List Stream} (h : Written e s written)
    (hblocked : s.childBlocked e) (hempty : s.pipe .stderr = [])
    (hshort : (s.captured .stderr).length < maxProcessOutputBufferLen)
    (hfilled : maxProcessOutputBufferLen ≤ (s.captured .stdout).length) :
    ∃ sofar, sofar <+: e.emitted ∧ ¬ e.Copes sofar := by
  obtain ⟨stream, hprefix, hcount, hfull⟩ := h.blocked hblocked
  refine ⟨written ++ [stream], hprefix, ?_⟩
  intro hcopes
  have hpos := e.capacity_pos
  have herr := h.count .stderr
  rw [hempty, List.length_nil] at herr
  cases stream with
  | stderr =>
      rw [hempty, List.length_nil] at hfull
      omega
  | stdout =>
      have hturn := hcopes.2
      rw [hcount, List.count_append, herr] at hturn
      simp at hturn
      omega

theorem not_deadlocked_of_keepsUp (hkeeps : e.KeepsUp) (hreach : Reaches (pipeStep e) e.start s) :
    ¬ s.Deadlocked e := by
  intro ⟨hparent, hchild⟩
  have hs := pipeSound_reaches hreach
  cases hphase : s.parent with
  | writing rest =>
      simp only [PipeSound, hphase] at hs
      simp only [PipeState.parentBlocked, hphase] at hparent
      obtain ⟨⟨written, hwritten⟩, hnone, hfed, _⟩ := hs
      obtain ⟨stream, hoverflow⟩ := hwritten.overflows_unread hchild hnone
      have hrest := List.length_pos_of_ne_nil hparent.1
      cases hkeeps.fits with
      | inl hinput => omega
      | inr houtputs => exact Nat.not_le.mpr hoverflow (houtputs stream)
  | reading stream =>
      simp only [PipeState.parentBlocked, hphase] at hparent
      obtain ⟨hshort, hempty, halive⟩ := hparent
      cases stream with
      | stdout =>
          simp only [PipeSound, hphase] at hs
          obtain ⟨⟨written, hwritten⟩, _⟩ := hs
          obtain ⟨sofar, hsofar, hlost⟩ := hwritten.overflows_stderr hchild hempty hshort
          exact hlost (hkeeps.copes sofar hsofar)
      | stderr =>
          simp only [PipeSound, hphase] at hs
          obtain ⟨⟨written, hwritten⟩, _, hfilled⟩ := hs
          obtain ⟨sofar, hsofar, hlost⟩ :=
            hwritten.overflows_stdout hchild hempty hshort (hfilled halive)
          exact hlost (hkeeps.copes sofar hsofar)
  | _ =>
      unfold PipeState.childBlocked at hchild
      split at hchild
      · rw [hphase] at hchild
        cases hchild.2.1
      · exact hchild

theorem pipeStep_eq_none {action : PipeAction} (h : pipeStep e s action = none) :
    parentStep e s action = none ∧ childStep e s action = none := by
  cases hparent : parentStep e s action with
  | none =>
      simp only [pipeStep, hparent] at h
      exact ⟨rfl, h⟩
  | some t =>
      simp only [pipeStep, hparent] at h
      cases h

theorem parentBlocked_of_stuck (hstuck : ∀ action, parentStep e s action = none)
    (hreturned : s.parent ≠ .returned) (hkilled : s.parent ≠ .killed) :
    s.parentBlocked e ∧ s.child.isSome := by
  have hnext := hstuck .parentNext
  cases hphase : s.parent with
  | writing rest =>
      have hbroken := hstuck (.parentBroken false)
      have hwrite := hstuck (.parentWrite 1)
      simp only [parentStep, hphase, ite_eq_right_iff, reduceCtorEq, imp_false] at hnext hbroken hwrite
      have halive := Option.isSome_iff_ne_none.mpr (fun hnone => hbroken ⟨hnext, hnone⟩)
      have hrest := List.length_pos_of_ne_nil hnext
      simp only [PipeState.parentBlocked, hphase]
      refine ⟨⟨hnext, halive, ?_⟩, halive⟩
      by_contra hroom
      exact hwrite ⟨by decide, by omega, by omega, halive⟩
  | reading stream =>
      have hread := hstuck (.parentRead 1)
      simp only [parentStep, hphase, ite_eq_right_iff, reduceCtorEq, imp_false] at hnext hread
      have hshort : (s.captured stream).length < maxProcessOutputBufferLen :=
        not_le.mp fun hfull => hnext (Or.inl hfull)
      have hempty : s.pipe stream = [] := by
        by_contra hdata
        have hpos := List.length_pos_of_ne_nil hdata
        exact hread ⟨by decide, hpos, hshort⟩
      have halive := Option.isSome_iff_ne_none.mpr (fun hnone => hnext (Or.inr ⟨hempty, hnone⟩))
      simp only [PipeState.parentBlocked, hphase]
      exact ⟨⟨hshort, hempty, halive⟩, halive⟩
  | waiting =>
      simp only [parentStep, hphase, ite_eq_right_iff, reduceCtorEq, imp_false] at hnext
      have halive := Option.isSome_iff_ne_none.mpr hnext
      simp only [PipeState.parentBlocked, hphase]
      exact ⟨halive, halive⟩
  | returned => exact absurd hphase hreturned
  | killed => exact absurd hphase hkilled

theorem childBlocked_of_stuck (hstuck : ∀ action, childStep e s action = none)
    (halive : s.child.isSome) : s.childBlocked e := by
  obtain ⟨writes, hchild⟩ := Option.isSome_iff_exists.mp halive
  cases writes with
  | nil =>
      have hexit := hstuck .childExit
      simp only [childStep, hchild, reduceCtorEq] at hexit
  | cons write rest =>
      obtain ⟨stream, bytes⟩ := write
      have hnext := hstuck .childNext
      have hbroken := hstuck (.childBroken false)
      have hwrite := hstuck (.childWrite 1)
      simp only [childStep, hchild, ite_eq_right_iff, reduceCtorEq, imp_false] at hnext hbroken hwrite
      have hlistens : s.parent.listens = true := by
        rw [← Bool.not_eq_false]
        exact fun hclosed => hbroken ⟨hnext, hclosed⟩
      have hbytes := List.length_pos_of_ne_nil hnext
      simp only [PipeState.childBlocked, hchild]
      refine ⟨hnext, hlistens, ?_⟩
      by_contra hroom
      exact hwrite ⟨by decide, by omega, by omega, hlistens⟩

/-- The exchange has come to this end. -/
def PipeState.EndsAs (e : Exchange) (s : PipeState) : ExchangeEnd → Prop
  | .finished => s.parent = .returned
  | .sigpipe => s.parent = .killed
  | .endless => s.Deadlocked e

/-- Where no step is left, the exchange has come to one of the ends that `child_process_run` can
be given. -/
theorem exists_endsAs (hstuck : ∀ action, pipeStep e s action = none) :
    ∃ exchange, s.EndsAs e exchange := by
  by_cases hreturned : s.parent = .returned
  · exact ⟨.finished, hreturned⟩
  by_cases hkilled : s.parent = .killed
  · exact ⟨.sigpipe, hkilled⟩
  have hparent := fun action => (pipeStep_eq_none (hstuck action)).1
  have hchild := fun action => (pipeStep_eq_none (hstuck action)).2
  obtain ⟨hblocked, halive⟩ := parentBlocked_of_stuck hparent hreturned hkilled
  exact ⟨.endless, hblocked, childBlocked_of_stuck hchild halive⟩

/-- Every run can be carried on to a deadlock or to the end of the parent, and a parent that
has ended has kept up. -/
theorem keepsUp_of_no_deadlock (hfree : ∀ s, Reaches (pipeStep e) e.start s → ¬ s.Deadlocked e) :
    e.KeepsUp := by
  have hrank : ∀ s action s', pipeStep e s action = some s' → s'.rank < s.rank := by
    intro s action s' hstep
    cases moves_of_step hstep with
    | inl hparent => exact parentMoves_rank hparent
    | inr hchild => exact childMoves_rank hchild
  obtain ⟨t, hreach, hstuck⟩ := exists_reaches_stuck PipeState.rank hrank e.start
  have ht := pipeSound_reaches hreach
  obtain ⟨exchange, hends⟩ := exists_endsAs hstuck
  cases exchange with
  | finished =>
      have hphase : t.parent = .returned := hends
      simp only [PipeSound, hphase] at ht
      exact ht
  | sigpipe =>
      have hphase : t.parent = .killed := hends
      simp only [PipeSound, hphase] at ht
      exact ht
  | endless => exact absurd hends (hfree t hreach)

/-- The calls in which no order of steps leaves both processes blocked. -/
theorem no_deadlock_iff (e : Exchange) :
    (∀ s, Reaches (pipeStep e) e.start s → ¬ s.Deadlocked e) ↔ e.KeepsUp := by
  constructor
  · exact keepsUp_of_no_deadlock
  · intro hkeeps s hreach
    exact not_deadlocked_of_keepsUp hkeeps hreach

/-- A child that writes 65537 bytes to stderr, over pipes of 65536 bytes. -/
theorem deadlock_on_stderr :
    let e : Exchange := ⟨65536, by decide, none, [(.stderr, List.replicate 65537 101)]⟩
    ∃ s, Reaches (pipeStep e) e.start s ∧ s.Deadlocked e := by
  intro e
  by_contra hnone
  have hkeeps : e.KeepsUp := by
    apply keepsUp_of_no_deadlock
    intro s hreach hdead
    exact hnone ⟨s, hreach, hdead⟩
  have hemitted : e.emitted = List.replicate 65537 .stderr := by
    unfold Exchange.emitted pendingStreams
    simp only [e, Option.getD_some, List.flatMap_cons, List.flatMap_nil, List.append_nil,
      List.length_replicate]
  have hcopes := (hkeeps.copes e.emitted List.prefix_rfl).1
  rw [hemitted, List.count_replicate, List.count_replicate] at hcopes
  exact absurd hcopes (by decide)

end Deadlock

section Feeding

variable {e : Exchange} {s s' : PipeState}

/-- The parent writes no more than its input, and is killed in a write of something. -/
def PipeState.Feeds (e : Exchange) (s : PipeState) : Prop :=
  match s.parent with
  | .writing rest => rest.length ≤ e.stdinLength
  | .killed => 0 < e.stdinLength
  | _ => True

theorem feeds_start (e : Exchange) : e.start.Feeds e := by
  unfold PipeState.Feeds Exchange.start Exchange.stdinLength
  cases e.stdinInput with
  | none => trivial
  | some data => exact Nat.le_refl _

theorem PipeState.Feeds.parentMoves (h : s.Feeds e) (hmoves : ParentMoves e s s') :
    s'.Feeds e := by
  unfold PipeState.Feeds at h ⊢
  cases hmoves with
  | @write rest size hphase _ _ _ =>
      rw [hphase] at h
      exact (List.drop_sublist size rest).length_le.trans h
  | broken hphase hrest _ killed =>
      rw [hphase] at h
      cases killed with
      | false => trivial
      | true => exact Nat.lt_of_lt_of_le (List.length_pos_of_ne_nil hrest) h
  | read _ _ _ _ => exact h
  | written _ => trivial
  | @drained stream _ _ => cases stream <;> trivial
  | reaped _ _ => trivial

theorem feeds_reaches (h : Reaches (pipeStep e) e.start s) : s.Feeds e := by
  apply Reaches.invariant (I := PipeState.Feeds e) ?_ (feeds_start e) h
  intro t action t' ht hstep
  cases moves_of_step hstep with
  | inl hparent => exact ht.parentMoves hparent
  | inr hchild =>
      unfold PipeState.Feeds at ht ⊢
      rw [(childMoves_frame hchild).1]
      exact ht

/-- With the end that an exchange comes to, `child_process_run` returns where its parent does. -/
theorem returns_iff_of_endsAs (hreach : Reaches (pipeStep e) e.start s) {exchange : ExchangeEnd}
    (hends : s.EndsAs e exchange) :
    exchange.halt e.stdinInput = none ↔ s.parent = .returned := by
  cases exchange with
  | finished => exact iff_of_true rfl hends
  | sigpipe =>
      have hphase : s.parent = .killed := hends
      have hfeeds := feeds_reaches hreach
      unfold PipeState.Feeds Exchange.stdinLength at hfeeds
      rw [hphase] at hfeeds ⊢
      unfold ExchangeEnd.halt
      dsimp only
      rw [if_neg (List.ne_nil_of_length_pos hfeeds)]
      exact iff_of_false nofun nofun
  | endless =>
      refine iff_of_false nofun ?_
      intro hphase
      have hblocked : s.parentBlocked e := hends.1
      simp only [PipeState.parentBlocked, hphase] at hblocked

end Feeding

end JCUnit
