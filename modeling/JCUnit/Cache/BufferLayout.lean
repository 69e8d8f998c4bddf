import JCUnit.Cache.RoundTrip
import JCUnit.Foundation.Recognition

/-!
# What the decoder accepts

The layouts of a buffer that `deserialize_test_suite` turns into a suite, and those for which
it returns `NULL`. A string field that does not fit into the buffer is passed over like an
absent one, so that the suite of an accepted buffer may lack what the buffer announces.
-/

namespace JCUnit

open StateError Recognition

section Layouts

variable (total : Nat) (lenient : Bool)

end Layouts

section Readers

variable {total : Nat} {buf : ReadBuffer} {r : Bytes}

/-- A buffer of this size with the rest that is still to be read. -/
def LeftOf (total : Nat) (buf : ReadBuffer) (r : Bytes) : Prop :=
  BufRemaining buf r ∧ buf.data.length = total

theorem LeftOf.pos_eq (h : LeftOf total buf r) : buf.pos.toNat + r.length = total :=
  h.1.pos_eq.trans h.2

/-- A piece that is there is taken. -/
theorem LeftOf.bufTake {size : UInt32} {s : Bytes} (h : LeftOf total buf (s ++ r))
    (hs : s.length = size.toNat) : ∃ buf', bufTake size buf = .ok s buf' ∧ LeftOf total buf' r := by
  obtain ⟨buf', hrun, hleft⟩ := bufTake_readsBack hs.symm buf r h.1
  refine ⟨buf', hrun, hleft, ?_⟩
  unfold JCUnit.bufTake at hrun
  split at hrun
  · cases hrun
    exact h.2
  · cases hrun

end Readers

end JCUnit
