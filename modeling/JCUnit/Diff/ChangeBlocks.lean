import JCUnit.Diff.EditScript
import Mathlib.Data.List.Chain

/-!
# The order in a block of changes

The walk back through the table prefers an addition where the cells beside it are equal, so it
takes a removal only where the table is smaller on the other side. As the table grows in both
directions, no addition can follow before two lines match. The printed order is the reverse of
the walk's.
-/

namespace JCUnit

open OrderedPairing

section Blocks

variable {α : Type*}

/-- No addition stands directly before a removal. -/
def RemovalsFirst (s : List (EditAction × α)) : Prop :=
  s.IsChain fun e f => e.1 = .add → f.1 ≠ .remove

/-- A run of changes is split into its removals and its additions. -/
theorem RemovalsFirst.split {run : List (EditAction × α)} (h : RemovalsFirst run)
    (hchanges : ∀ e ∈ run, e.1 ≠ .keep) :
    ∃ removals additions, run = removals ++ additions ∧
      (∀ e ∈ removals, e.1 = .remove) ∧ ∀ e ∈ additions, e.1 = .add := by
  induction run with
  | nil => exact ⟨[], [], rfl, nofun, nofun⟩
  | cons e run ih =>
      obtain ⟨hnext, hrun⟩ := List.isChain_cons.mp h
      obtain ⟨hchange, hothers⟩ := List.forall_mem_cons.mp hchanges
      obtain ⟨removals, additions, rfl, hremovals, hadditions⟩ := ih hrun hothers
      cases haction : e.1 with
      | keep => exact absurd haction hchange
      | remove =>
          exact ⟨e :: removals, additions, rfl, List.forall_mem_cons.mpr ⟨haction, hremovals⟩,
            hadditions⟩
      | add =>
          cases removals with
          | nil => exact ⟨[], e :: additions, rfl, nofun, List.forall_mem_cons.mpr ⟨haction, hadditions⟩⟩
          | cons f removals =>
              exact absurd (hremovals f List.mem_cons_self) (hnext f rfl haction)

end Blocks

section Walk

variable {equal : Nat → Nat → Bool} {m n : Nat} {table : Nat → Nat}

/-- Behind a removal that the walk has taken, the table is smaller one column before. -/
def SmallerBefore (equal : Nat → Nat → Bool) (i j : Nat) (stack : List (EditAction × Nat)) : Prop :=
  ∀ e ∈ stack.head?, e.1 = .remove → j = 0 ∨ best equal (i + 1) (j - 1) < best equal i j

/-- Where the table is smaller one row and one column away, the walk does not take an addition. -/
theorem not_add_of_smaller {i j : Nat} (hj : 0 < j)
    (hdifferent : ¬ (0 < i ∧ 0 < j ∧ equal (i - 1) (j - 1) = true))
    (hside : i = 0 ∨ best equal (i - 1) j ≤ best equal i (j - 1))
    (hsmaller : best equal (i + 1) (j - 1) < best equal i j) : False := by
  obtain ⟨j, rfl⟩ := Nat.exists_eq_succ_of_ne_zero (Nat.ne_of_gt hj)
  cases i with
  | zero =>
      rw [best_zero_left] at hsmaller
      exact Nat.not_lt_zero _ hsmaller
  | succ i =>
      have hnot : ¬ equal i j = true := fun h => hdifferent ⟨Nat.succ_pos i, hj, h⟩
      have hle : best equal i (j + 1) ≤ best equal (i + 1) j := by
        obtain hzero | hle := hside
        · exact absurd hzero (Nat.succ_ne_zero i)
        · exact hle
      have hcell : best equal (i + 1) (j + 1) = best equal (i + 1) j := by
        rw [best_succ_succ, if_neg hnot, Nat.max_eq_right hle]
      have hgrows : best equal (i + 1) j ≤ best equal (i + 1 + 1) j :=
        best_mono (Nat.le_succ _) (Nat.le_refl j)
      rw [hcell] at hsmaller
      exact Nat.not_lt.mpr hgrows hsmaller

/-- Every step of the walk keeps removals in front of additions on the stack. -/
theorem walkBack_removalsFirst
    (htable : ∀ a b, a ≤ m → b ≤ n → table (tableIndex (n + 1) a b) = best equal a b)
    {i j : Nat} (hi : i ≤ m) (hj : j ≤ n) {stack : List (EditAction × Nat)}
    (hstack : RemovalsFirst stack) (hhead : SmallerBefore equal i j stack) :
    RemovalsFirst (walkBack equal (n + 1) table i j stack) := by
  induction i, j, stack using walkBack.induct equal (n + 1) table with
  | case1 i j stack hmore hkeep ih =>
      rw [walkBack, if_pos hmore, if_pos hkeep]
      apply ih (by omega) (by omega)
      · apply hstack.cons
        intro e _ hadd
        cases hadd
      · intro e he hremove
        obtain rfl := Option.some.inj he
        cases hremove
  | case2 i j stack hmore hkeep hadd ih =>
      rw [walkBack, if_pos hmore, if_neg hkeep, if_pos hadd]
      obtain ⟨hpositive, hside⟩ := hadd
      rw [htable i (j - 1) hi (by omega), htable (i - 1) j (by omega) hj] at hside
      apply ih hi (by omega)
      · -- the removal in front of which the addition would stand rules the addition out
        apply hstack.cons
        intro e he _ hremove
        obtain hzero | hsmaller := hhead e he hremove
        · exact absurd hzero (Nat.ne_of_gt hpositive)
        · exact not_add_of_smaller hpositive hkeep hside hsmaller
      · intro e he hremove
        obtain rfl := Option.some.inj he
        cases hremove
  | case3 i j stack hmore hkeep hadd ih =>
      rw [walkBack, if_pos hmore, if_neg hkeep, if_neg hadd]
      have hpositive : 0 < i := by omega
      apply ih (by omega) hj
      · apply hstack.cons
        intro e _ hadd
        cases hadd
      · intro e _ _
        rw [htable i (j - 1) hi (by omega), htable (i - 1) j (by omega) hj] at hadd
        rw [Nat.sub_add_cancel hpositive]
        omega
  | case4 i j stack hmore =>
      rw [walkBack, if_neg hmore]
      exact hstack

end Walk

/-- The lines that are printed, read from the entries of the stack. -/
theorem walkedLines_removalsFirst (expected actual : Option Bytes)
    (hbound : ((textLines (expected.getD [])).length + 1) *
      ((textLines (actual.getD [])).length + 1) < 2 ^ 32) :
    RemovalsFirst (walkedLines expected actual) := by
  obtain ⟨table, htable, hemitted⟩ := walkedLines_eq_walk expected actual hbound
  rw [hemitted]
  apply (List.isChain_map _).mpr
  exact walkBack_removalsFirst htable (Nat.le_refl _) (Nat.le_refl _) List.isChain_nil nofun

/-- In every run of changed lines the removals come first. -/
def BlocksOrdered (emitted : List (EditAction × Bytes)) : Prop :=
  ∀ front run behind, emitted = front ++ run ++ behind → (∀ e ∈ run, e.1 ≠ .keep) →
    ∃ removals additions, run = removals ++ additions ∧
      (∀ e ∈ removals, e.1 = .remove) ∧ ∀ e ∈ additions, e.1 = .add

/-- `print_diff` emits removals before additions for exactly the texts whose table and lines fit a
blob of the memory pool. -/
theorem removals_before_additions_iff (expected actual : Option Bytes) :
    (∃ emitted, diffLines expected actual = .ok emitted ∧ BlocksOrdered emitted) ↔
      DiffFits (expected.getD []) (actual.getD []) := by
  rw [exists_diffLines_iff]
  constructor
  · rintro ⟨hfits, -⟩
    exact hfits
  · intro hfits
    refine ⟨hfits, ?_⟩
    intro front run behind hemitted hchanges
    have hchain := walkedLines_removalsFirst expected actual hfits.bound
    rw [hemitted] at hchain
    exact RemovalsFirst.split hchain.left_of_append.right_of_append hchanges

/-- Two texts of 512 lines of which none is common. -/
theorem removals_not_printed_512 :
    ¬∀ expected actual : Option Bytes, ((textLines (expected.getD [])).length + 1) *
        ((textLines (actual.getD [])).length + 1) < 2 ^ 32 →
      ∃ emitted, diffLines expected actual = .ok emitted ∧ BlocksOrdered emitted := by
  intro h
  have hemitted := h (some (repeatedLine 97 511 [97])) (some (repeatedLine 98 512 [])) (by
    rw [Option.getD_some, Option.getD_some, length_textLines_512.1, length_textLines_512.2]
    decide)
  exact not_diffFits_512 (exists_diffLines_iff.mp hemitted).1

end JCUnit
