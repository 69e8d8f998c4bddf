import Mathlib.Data.List.Basic

/-!
# Buffers that are used again

A buffer has a fixed size and keeps what was last written at each of its places. Bytes
written into it are read back from where they were written, whatever it held before.
-/

namespace Buffers

/-- An array of `size` places. -/
structure Buffer (α : Type) (size : Nat) where
  contents : List α
  length_eq : contents.length = size
deriving DecidableEq

variable {α : Type} {size : Nat}

/-- The buffer after a write of a piece that fits behind `start`. -/
def Buffer.write (buffer : Buffer α size) (start : Nat) (piece : List α)
    (h : start + piece.length ≤ size) : Buffer α size where
  contents := buffer.contents.take start ++ piece ++ buffer.contents.drop (start + piece.length)
  length_eq := by
    have hlength := buffer.length_eq
    rw [List.length_append, List.length_append, List.length_take, List.length_drop]
    omega

variable {buffer : Buffer α size} {start : Nat} {piece : List α}
  (h : start + piece.length ≤ size)

/-- What was in front of a piece is kept, and the piece follows it. -/
theorem Buffer.take_write :
    (buffer.write start piece h).contents.take (start + piece.length) =
      buffer.contents.take start ++ piece := by
  have hlength := buffer.length_eq
  apply List.take_left'
  rw [List.length_append, List.length_take]
  omega

/-- What is in front of a piece is kept. -/
theorem Buffer.take_write_of_le {n : Nat} (hn : n ≤ start) :
    (buffer.write start piece h).contents.take n = buffer.contents.take n := by
  have hlonger := congrArg (List.take n) (buffer.take_write h)
  rw [List.take_take, Nat.min_eq_left (Nat.le_add_right_of_le hn)] at hlonger
  have hlength := buffer.length_eq
  rw [hlonger, List.take_append_of_le_length, List.take_take, Nat.min_eq_left hn]
  rw [List.length_take]
  omega

/-- What is behind a piece is kept. -/
theorem Buffer.drop_write :
    (buffer.write start piece h).contents.drop (start + piece.length) =
      buffer.contents.drop (start + piece.length) := by
  have hlength := buffer.length_eq
  apply List.drop_left'
  rw [List.length_append, List.length_take]
  omega

/-- A scan for an end mark does not see what is behind a text with such a mark. -/
theorem Buffer.takeWhile_write {p : α → Bool} {text behind : List α} {mark : α}
    (hroom : 0 + (text ++ mark :: behind).length ≤ size) (htext : ∀ a ∈ text, p a = true)
    (hmark : p mark = false) :
    (buffer.write 0 (text ++ mark :: behind) hroom).contents.takeWhile p = text := by
  have hcontents : (buffer.write 0 (text ++ mark :: behind) hroom).contents =
      text ++ mark :: (behind ++ buffer.contents.drop (0 + (text ++ mark :: behind).length)) := by
    simp only [Buffer.write, List.take_zero, List.nil_append, List.append_assoc, List.cons_append]
  have hstop : ¬ p mark = true := by
    rw [hmark]
    exact Bool.false_ne_true
  rw [hcontents, List.takeWhile_append_of_pos htext, List.takeWhile_cons_of_neg hstop,
    List.append_nil]

end Buffers
