import Mathlib.Algebra.Ring.Nat
import Mathlib.Data.Nat.Basic

/-!
# Fixed-width words, least significant byte first

A number below `256 ^ width` and its `width` bytes determine each other.
-/

namespace LittleEndian

/-- The `width` low bytes of a number. -/
def encode : Nat → Nat → List UInt8
  | 0, _ => []
  | width + 1, n => UInt8.ofNat n :: encode width (n / 256)

def decode : List UInt8 → Nat
  | [] => 0
  | b :: bytes => b.toNat + 256 * decode bytes

@[simp] theorem length_encode (width n : Nat) : (encode width n).length = width := by
  induction width generalizing n with
  | zero => rfl
  | succ width ih => exact congrArg Nat.succ (ih (n / 256))

theorem decode_encode {width n : Nat} (h : n < 256 ^ width) : decode (encode width n) = n := by
  induction width generalizing n with
  | zero =>
      have hzero : n = 0 := Nat.lt_one_iff.mp h
      exact hzero.symm
  | succ width ih =>
      have hdiv : n / 256 < 256 ^ width := by
        apply Nat.div_lt_of_lt_mul
        rwa [Nat.mul_comm, ← Nat.pow_succ]
      calc decode (encode (width + 1) n)
          = n % 256 + 256 * decode (encode width (n / 256)) := rfl
        _ = n % 256 + 256 * (n / 256) := by rw [ih hdiv]
        _ = n := Nat.mod_add_div n 256

theorem decode_lt (bytes : List UInt8) : decode bytes < 256 ^ bytes.length := by
  induction bytes with
  | nil => exact Nat.one_pos
  | cons b bytes ih =>
      have hb : b.toNat < 256 := b.toNat_lt
      calc decode (b :: bytes)
          = b.toNat + 256 * decode bytes := rfl
        _ < 256 * (decode bytes + 1) := by omega
        _ ≤ 256 * 256 ^ bytes.length := Nat.mul_le_mul_left 256 ih
        _ = 256 ^ (b :: bytes).length := by rw [List.length_cons, Nat.pow_succ, Nat.mul_comm]

end LittleEndian
