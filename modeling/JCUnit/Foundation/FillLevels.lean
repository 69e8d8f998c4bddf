import Mathlib.Order.CompletePartialOrder
import Mathlib.Order.Interval.Set.Basic
import Mathlib.Data.Set.Disjoint
import Mathlib.Order.Interval.Set.Disjoint

/-!
# Ranges issued below fill levels

Regions are filled upwards: a range is issued at or above its region's fill level,
and the level then rises to at least the end of the range. All ranges issued in
this way are pairwise disjoint.
-/

namespace FillLevels

variable {ι : Type}

/-- The half-open range from `start` to `stop` in one of the regions. -/
structure Range (ι : Type) where
  region : ι
  start : Nat
  stop : Nat

/-- Two ranges share no position. -/
def Range.Apart (a b : Range ι) : Prop :=
  a.region = b.region → Disjoint (Set.Ico a.start a.stop) (Set.Ico b.start b.stop)

/-- Every range ends at or below the fill level of its region. -/
def Below (level : ι → Nat) (ranges : List (Range ι)) : Prop :=
  ∀ r ∈ ranges, r.stop ≤ level r.region

theorem Below.append {level level' : ι → Nat} {ranges : List (Range ι)} {new : Range ι}
    (h : Below level ranges) (hrise : ∀ i, level i ≤ level' i)
    (hnew : new.stop ≤ level' new.region) : Below level' (ranges ++ [new]) := by
  intro r hr
  rcases List.mem_append.mp hr with hold | hlast
  · exact le_trans (h r hold) (hrise r.region)
  · obtain rfl := List.mem_singleton.mp hlast
    exact hnew

/-- A range that starts at or above the fill level is apart from all earlier ones. -/
theorem Below.pairwise_append {level : ι → Nat} {ranges : List (Range ι)} {new : Range ι}
    (h : Below level ranges) (hpair : ranges.Pairwise Range.Apart)
    (hstart : level new.region ≤ new.start) : (ranges ++ [new]).Pairwise Range.Apart := by
  apply List.pairwise_append.mpr
  refine ⟨hpair, List.pairwise_singleton _ _, ?_⟩
  intro r hr s hs
  obtain rfl := List.mem_singleton.mp hs
  intro hregion
  apply Set.disjoint_left.mpr
  intro position hr' hs'
  have hend : r.stop ≤ level s.region := hregion ▸ h r hr
  exact absurd (hr'.2.trans_le hend) (not_lt.mpr (le_trans hstart hs'.1))

end FillLevels
