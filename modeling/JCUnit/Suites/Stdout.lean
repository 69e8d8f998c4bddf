import JCUnit.Text.Bytes

/-!
# jcunit's own standard output

A buffered stream: bytes that are printed stay in the buffer until it is written out.
When that happens depends on what kind of file the stream is.
-/

namespace JCUnit

/-- The kinds of buffering a stream can have, with the size of the buffer. -/
inductive Buffering
  | unbuffered
  | lineBuffered (size : Nat)
  | fullyBuffered (size : Nat)
deriving DecidableEq

/-- The buffer has no room for another byte. -/
def Buffering.isFull (buffering : Buffering) (unflushed : Bytes) : Bool :=
  match buffering with
  | .unbuffered => false
  | .lineBuffered size => size ≤ unflushed.length
  | .fullyBuffered size => size ≤ unflushed.length

/-- Whether the buffer is written out behind this byte. -/
def Buffering.writesOut (buffering : Buffering) (last : Byte) : Bool :=
  match buffering with
  | .unbuffered => true
  | .lineBuffered _ => last = 10
  | .fullyBuffered _ => false

/-- The bytes that are written out, and those in the buffer. -/
structure Stdout where
  flushed : Bytes
  unflushed : Bytes
deriving DecidableEq

def Stdout.empty : Stdout := ⟨[], []⟩

def Stdout.fflush (out : Stdout) : Stdout := ⟨out.flushed ++ out.unflushed, []⟩

/-- A full buffer is kept until the next byte comes. -/
def Stdout.putc (buffering : Buffering) (out : Stdout) (b : Byte) : Stdout :=
  let out := if buffering.isFull out.unflushed then out.fflush else out
  let out := { out with unflushed := out.unflushed ++ [b] }
  if buffering.writesOut b then out.fflush else out

def Stdout.print (buffering : Buffering) (out : Stdout) (text : Bytes) : Stdout :=
  text.foldl (Stdout.putc buffering) out

/-- Everything that has been printed, written out or not. -/
def Stdout.printed (out : Stdout) : Bytes := out.flushed ++ out.unflushed

@[simp] theorem Stdout.printed_fflush (out : Stdout) : out.fflush.printed = out.printed :=
  List.append_nil _

theorem Stdout.printed_putc (buffering : Buffering) (out : Stdout) (b : Byte) :
    (out.putc buffering b).printed = out.printed ++ [b] := by
  have hroom : (if buffering.isFull out.unflushed then out.fflush else out).printed =
      out.printed := by
    split
    · exact Stdout.printed_fflush out
    · rfl
  unfold Stdout.putc
  dsimp only
  rw [← hroom]
  split
  · rw [Stdout.printed_fflush]
    exact (List.append_assoc _ _ _).symm
  · exact (List.append_assoc _ _ _).symm

/-- Buffering loses and reorders nothing. -/
@[simp] theorem Stdout.printed_print (buffering : Buffering) (out : Stdout) (text : Bytes) :
    (out.print buffering text).printed = out.printed ++ text := by
  unfold Stdout.print
  induction text generalizing out with
  | nil => exact (List.append_nil _).symm
  | cons b text ih =>
      rw [List.foldl_cons, ih, Stdout.printed_putc, List.append_assoc]
      rfl

end JCUnit
