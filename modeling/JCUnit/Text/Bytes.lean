import Mathlib.Algebra.Ring.Nat
import Mathlib.Data.List.Basic
import Mathlib.Data.List.TakeWhile

/-!
# Byte strings and the C library functions on them

A `struct string` is its bytes: `len` is the length of the list, and the NUL
that `make_string` stores behind the bytes is what ends the C string a caller
reads from `value`. An embedded NUL therefore ends the C string early.
-/

namespace JCUnit

abbrev Byte := UInt8

abbrev Bytes := List Byte

/-- The bytes of a C string literal. -/
def ascii (s : String) : Bytes :=
  s.toList.map fun c => c.toNat.toUInt8

/-- What a `const char *` points to: the bytes before the NUL. -/
@[ext] structure CString where
  bytes : Bytes
  nulFree : 0 ∉ bytes
deriving DecidableEq

/-- The C string in a buffer that has a NUL behind its last byte. -/
def CString.ofBuffer (buffer : Bytes) : CString where
  bytes := buffer.takeWhile fun b => b ≠ 0
  nulFree := by
    intro hmem
    have hb := List.mem_takeWhile_imp hmem
    simp at hb

@[simp] theorem CString.ofBuffer_bytes (s : CString) : CString.ofBuffer s.bytes = s := by
  ext1
  apply List.takeWhile_eq_self_iff.mpr
  intro b hb
  simpa using ne_of_mem_of_not_mem hb s.nulFree

/-- A sum or difference computed in `unsigned int`. -/
def u32 (n : Nat) : Nat :=
  n % 2 ^ 32

theorem u32_of_lt {n : Nat} (h : n < 2 ^ 32) : u32 n = n :=
  Nat.mod_eq_of_lt h

/-- `memcmp(a, b, n) == 0`. -/
def memcmpEq (a b : Bytes) (n : Nat) : Bool :=
  a.take n == b.take n

/-- `memchr(buf + start, c, n)`, as the index of the byte in `buf`. -/
def memchr (buf : Bytes) (start : Nat) (c : Byte) (n : Nat) : Option Nat :=
  (((buf.drop start).take n).findIdx? (· == c)).map (start + ·)

theorem memchr_bounds {buf : Bytes} {start n found : Nat} {c : Byte}
    (h : memchr buf start c n = some found) : start ≤ found ∧ found < buf.length := by
  simp only [memchr, Option.map_eq_some_iff] at h
  obtain ⟨i, hi, rfl⟩ := h
  have hlt := (List.findIdx?_eq_some_iff_getElem.mp hi).1
  simp at hlt
  omega

end JCUnit
