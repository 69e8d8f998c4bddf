import Mathlib.Data.List.Basic
import Mathlib.Data.List.Range
import Mathlib.Order.Basic

/-!
# Order-preserving pairings and edit scripts

Two sequences of `m` and `n` items are compared by an arbitrary relation on
their positions. It need not be symmetric or transitive, and the two item types
need not agree. The table recursion gives the largest order-preserving pairing,
and a script of keeps, removals and additions that keeps that many positions is
a smallest one.
-/

namespace OrderedPairing

/-- Strictly increasing in both positions, inside `m` by `n`, and related. -/
structure IsPairing (rel : Nat → Nat → Bool) (m n : Nat) (ps : List (Nat × Nat)) : Prop where
  increasing : ps.Pairwise fun p q => p.1 < q.1 ∧ p.2 < q.2
  inside : ∀ p ∈ ps, p.1 < m ∧ p.2 < n
  related : ∀ p ∈ ps, rel p.1 p.2 = true

/-- The table recursion: the diagonal where the last positions are related,
otherwise the larger of the two neighbours. -/
def best (rel : Nat → Nat → Bool) : Nat → Nat → Nat
  | 0, _ => 0
  | _ + 1, 0 => 0
  | i + 1, j + 1 =>
      if rel i j then best rel i j + 1 else max (best rel i (j + 1)) (best rel (i + 1) j)

variable {rel : Nat → Nat → Bool}

@[simp] theorem best_zero_left (j : Nat) : best rel 0 j = 0 := by
  rw [best]

@[simp] theorem best_zero_right (i : Nat) : best rel i 0 = 0 := by
  cases i <;> rw [best]

theorem best_succ_succ (i j : Nat) : best rel (i + 1) (j + 1) =
    if rel i j then best rel i j + 1 else max (best rel i (j + 1)) (best rel (i + 1) j) := by
  rw [best]

/-- Every pair before the last one stays below both positions of the last one. -/
theorem IsPairing.initial {m n : Nat} {ps : List (Nat × Nat)} {last : Nat × Nat}
    (h : IsPairing rel m n (ps ++ [last])) : IsPairing rel last.1 last.2 ps := by
  obtain ⟨hinc, -, hbelow⟩ := List.pairwise_append.mp h.increasing
  exact ⟨hinc, fun p hp => hbelow p hp last (by simp), fun p hp => h.related p (by simp [hp])⟩

theorem IsPairing.mono {m n m' n' : Nat} {ps : List (Nat × Nat)} (h : IsPairing rel m n ps)
    (hm : m ≤ m') (hn : n ≤ n') : IsPairing rel m' n' ps :=
  ⟨h.increasing, fun p hp => ⟨Nat.lt_of_lt_of_le (h.inside p hp).1 hm,
    Nat.lt_of_lt_of_le (h.inside p hp).2 hn⟩, h.related⟩

/-- A pairing whose last pair stays below other bounds lies inside them as a whole. -/
theorem IsPairing.inside_of_last {m n m' n' : Nat} {ps : List (Nat × Nat)} {last : Nat × Nat}
    (h : IsPairing rel m n (ps ++ [last])) (hm : last.1 < m') (hn : last.2 < n') :
    IsPairing rel m' n' (ps ++ [last]) := by
  refine ⟨h.increasing, fun p hp => ?_, h.related⟩
  rcases List.mem_append.mp hp with hp | hp
  · have hbelow := h.initial.inside p hp
    omega
  · rw [List.mem_singleton.mp hp]
    exact ⟨hm, hn⟩

/-- No order-preserving pairing is longer than the table value. -/
theorem IsPairing.length_le_best {m n : Nat} {ps : List (Nat × Nat)} (h : IsPairing rel m n ps) :
    ps.length ≤ best rel m n := by
  induction m, n using best.induct rel generalizing ps with
  | case1 n =>
      cases ps with
      | nil => simp
      | cons p ps => exact absurd (h.inside p (by simp)).1 (Nat.not_lt_zero _)
  | case2 m =>
      cases ps with
      | nil => simp
      | cons p ps => exact absurd (h.inside p (by simp)).2 (Nat.not_lt_zero _)
  | case3 i j hrel ih =>
      rw [best_succ_succ, if_pos hrel]
      rcases List.eq_nil_or_concat' ps with rfl | ⟨ps', last, rfl⟩
      · simp
      · have hlast := h.inside last (by simp)
        have hle := ih (h.initial.mono (by omega) (by omega))
        simpa using hle
  | case4 i j hrel ihup ihleft =>
      rw [best_succ_succ, if_neg hrel]
      rcases List.eq_nil_or_concat' ps with rfl | ⟨ps', last, rfl⟩
      · simp
      · have hlast := h.inside last (by simp)
        -- the last pair misses the last row or the last column, because these two are unrelated
        by_cases hrow : last.1 < i
        · exact Nat.le_trans (ihup (h.inside_of_last hrow hlast.2)) (Nat.le_max_left _ _)
        · have hcol : last.2 < j := by
            have hr := h.related last (by simp)
            by_contra hcol
            have hi : last.1 = i := by omega
            have hj : last.2 = j := by omega
            exact hrel (by rw [← hi, ← hj, hr])
          exact Nat.le_trans (ihleft (h.inside_of_last hlast.1 hcol)) (Nat.le_max_right _ _)

/-- The table value is the length of a pairing. -/
theorem exists_pairing (rel : Nat → Nat → Bool) (m n : Nat) :
    ∃ ps, IsPairing rel m n ps ∧ ps.length = best rel m n := by
  have hempty : ∀ m n, IsPairing rel m n [] := fun m n => ⟨.nil, nofun, nofun⟩
  induction m, n using best.induct rel with
  | case1 n => exact ⟨[], hempty 0 n, (best_zero_left n).symm⟩
  | case2 m => exact ⟨[], hempty (m + 1) 0, (best_zero_right (m + 1)).symm⟩
  | case3 i j hrel ih =>
      obtain ⟨ps, hps, hlength⟩ := ih
      refine ⟨ps ++ [(i, j)], ⟨?_, ?_, ?_⟩, ?_⟩
      · rw [List.pairwise_append]
        refine ⟨hps.increasing, List.pairwise_singleton _ _, ?_⟩
        intro p hp q hq
        rw [List.mem_singleton.mp hq]
        exact hps.inside p hp
      · intro p hp
        rcases List.mem_append.mp hp with hp | hp
        · have hinside := hps.inside p hp
          omega
        · rw [List.mem_singleton.mp hp]
          exact ⟨Nat.lt_succ_self i, Nat.lt_succ_self j⟩
      · intro p hp
        rcases List.mem_append.mp hp with hp | hp
        · exact hps.related p hp
        · rw [List.mem_singleton.mp hp]
          exact hrel
      · rw [best_succ_succ, if_pos hrel, List.length_append, hlength, List.length_singleton]
  | case4 i j hrel ihup ihleft =>
      rw [best_succ_succ, if_neg hrel]
      rcases Nat.le_total (best rel i (j + 1)) (best rel (i + 1) j) with hle | hle
      · obtain ⟨ps, hps, hlength⟩ := ihleft
        rw [Nat.max_eq_right hle]
        exact ⟨ps, hps.mono (Nat.le_refl _) (Nat.le_succ j), hlength⟩
      · obtain ⟨ps, hps, hlength⟩ := ihup
        rw [Nat.max_eq_left hle]
        exact ⟨ps, hps.mono (Nat.le_succ i) (Nat.le_refl _), hlength⟩

/-- The table grows in both directions. -/
theorem best_mono {m n m' n' : Nat} (hm : m ≤ m') (hn : n ≤ n') : best rel m n ≤ best rel m' n' := by
  obtain ⟨ps, hps, hlength⟩ := exists_pairing rel m n
  rw [← hlength]
  exact (hps.mono hm hn).length_le_best

/-- What a script does with one position: keep it on both sides, remove it
from the first sequence, or add it from the second. -/
inductive EditAction
  | keep
  | remove
  | add
deriving DecidableEq

/-- A script for the first `i` and `j` positions. A kept or removed entry names
its position in the first sequence, an added one that in the second. The last
argument lists the partners of the kept positions. -/
inductive Script (rel : Nat → Nat → Bool) :
    Nat → Nat → List (EditAction × Nat) → List Nat → Prop
  | nil : Script rel 0 0 [] []
  | keep {i j s ps} (hrel : rel i j = true) (prev : Script rel i j s ps) :
      Script rel (i + 1) (j + 1) (s ++ [(.keep, i)]) (ps ++ [j])
  | remove {i j s ps} (prev : Script rel i j s ps) :
      Script rel (i + 1) j (s ++ [(.remove, i)]) ps
  | add {i j s ps} (prev : Script rel i j s ps) :
      Script rel i (j + 1) (s ++ [(.add, j)]) ps

namespace Script
variable {i j : Nat} {s : List (EditAction × Nat)} {ps : List Nat}

/-- Kept and removed positions are all positions of the first sequence, in order. -/
theorem source_eq (h : Script rel i j s ps) :
    (s.filter fun e => e.1 ≠ .add).map Prod.snd = List.range i := by
  induction h with
  | nil => rfl
  | keep _ _ ih => simpa [List.filter_append, List.range_succ] using ih
  | remove _ ih => simpa [List.filter_append, List.range_succ] using ih
  | add _ ih => simpa [List.filter_append] using ih

theorem partners_lt (h : Script rel i j s ps) : ∀ p ∈ ps, p < j := by
  induction h with
  | nil => simp
  | keep _ _ ih =>
      intro p hp
      rcases List.mem_append.mp hp with hp | hp
      · exact Nat.lt_succ_of_lt (ih p hp)
      · rw [List.mem_singleton.mp hp]
        exact Nat.lt_succ_self _
  | remove _ ih => exact ih
  | add _ ih => exact fun p hp => Nat.lt_succ_of_lt (ih p hp)

theorem partners_increasing (h : Script rel i j s ps) : ps.Pairwise (· < ·) := by
  induction h with
  | nil => simp
  | keep _ prev ih =>
      refine List.pairwise_append.mpr ⟨ih, by simp, fun p hp q hq => ?_⟩
      rw [List.mem_singleton.mp hq]
      exact prev.partners_lt p hp
  | remove _ ih => exact ih
  | add _ ih => exact ih

/-- The kept positions are related to their partners, in order. -/
theorem kept_related (h : Script rel i j s ps) :
    List.Forall₂ (fun a b => rel a b = true)
      ((s.filter fun e => e.1 = .keep).map Prod.snd) ps := by
  induction h with
  | nil => simp
  | keep hrel _ ih => simpa [List.filter_append] using List.rel_append ih (by simpa using hrel)
  | remove _ ih => simpa [List.filter_append] using ih
  | add _ ih => simpa [List.filter_append] using ih

/-- The added positions are those of the second sequence that are no partner, in order. -/
theorem added_eq (h : Script rel i j s ps) :
    (s.filter fun e => e.1 = .add).map Prod.snd = (List.range j).filter fun k => k ∉ ps := by
  induction h with
  | nil => simp
  | @keep i j s ps _ prev ih =>
      have hsame : (List.range j).filter (fun k => k ∉ ps ++ [j]) =
          (List.range j).filter fun k => k ∉ ps := by
        refine List.filter_congr fun k hk => ?_
        have hne : k ≠ j := Nat.ne_of_lt (List.mem_range.mp hk)
        simp [hne]
      rw [List.filter_append, List.map_append, ih, List.range_succ, List.filter_append, hsame]
      simp
  | remove _ ih => simpa [List.filter_append] using ih
  | @add i j s ps prev ih =>
      have hnew : j ∉ ps := fun hj => Nat.lt_irrefl j (prev.partners_lt j hj)
      simpa [List.filter_append, List.range_succ, hnew] using ih

theorem length_kept (h : Script rel i j s ps) :
    (s.filter fun e => e.1 = .keep).length = ps.length := by
  simpa using h.kept_related.length_eq

theorem length_target (h : Script rel i j s ps) :
    (s.filter fun e => e.1 ≠ .remove).length = j := by
  induction h with
  | nil => rfl
  | keep _ _ ih => simpa [List.filter_append] using ih
  | remove _ ih => simpa [List.filter_append] using ih
  | add _ ih => simpa [List.filter_append] using ih

/-- A script that keeps everything pairs each position with itself. -/
theorem diagonal (h : Script rel i j s ps) (hkeep : ∀ e ∈ s, e.1 = .keep) :
    i = j ∧ ∀ k < i, rel k k = true := by
  induction h with
  | nil => simp
  | @keep i j s ps hrel _ ih =>
      obtain ⟨rfl, hall⟩ := ih fun e he => hkeep e (List.mem_append_left _ he)
      refine ⟨rfl, ?_⟩
      intro k hk
      rcases Nat.lt_succ_iff_lt_or_eq.mp hk with hlt | rfl
      · exact hall k hlt
      · exact hrel
  | @remove i j s ps _ _ => cases hkeep (.remove, i) (by simp)
  | @add i j s ps _ _ => cases hkeep (.add, j) (by simp)

/-- A script that keeps as many positions as both sequences have keeps everything. -/
theorem all_keep {n : Nat} (h : Script rel n n s ps) (hlen : ps.length = n) :
    ∀ e ∈ s, e.1 = .keep := by
  have hkept := h.length_kept
  have hsource := congrArg List.length h.source_eq
  rw [List.length_map, List.length_range] at hsource
  have hwithout (other : EditAction) (hother : other ≠ .keep)
      (hcount : (s.filter fun e => e.1 ≠ other).length = n) :
      ∀ e ∈ s, e.1 ≠ other → e.1 = .keep := by
    have hfilter : ((s.filter fun e => e.1 ≠ other).filter fun e => e.1 = .keep)
        = s.filter fun e => e.1 = .keep := by
      rw [List.filter_filter]
      apply List.filter_congr
      intro e _
      by_cases hkeep : e.1 = .keep
      · simp [hkeep, Ne.symm hother]
      · simp [hkeep]
    have hall : ∀ e ∈ s.filter fun e => e.1 ≠ other, decide (e.1 = .keep) = true := by
      apply List.length_filter_eq_length_iff.mp
      rw [hfilter, hkept, hcount, hlen]
    intro e he hne
    exact of_decide_eq_true (hall e (List.mem_filter.mpr ⟨he, decide_eq_true hne⟩))
  intro e he
  by_cases hadd : e.1 = .add
  · apply hwithout .remove (by decide) h.length_target e he
    rw [hadd]
    decide
  · exact hwithout .add (by decide) hsource e he hadd

end Script

theorem isPairing_diagonal {n : Nat} (h : ∀ k < n, rel k k = true) :
    IsPairing rel n n ((List.range n).map fun k => (k, k)) where
  increasing := by
    rw [List.pairwise_map]
    exact List.pairwise_lt_range.imp fun hlt => ⟨hlt, hlt⟩
  inside := by
    intro p hp
    obtain ⟨k, hk, rfl⟩ := List.mem_map.mp hp
    exact ⟨List.mem_range.mp hk, List.mem_range.mp hk⟩
  related := by
    intro p hp
    obtain ⟨k, hk, rfl⟩ := List.mem_map.mp hp
    exact h k (List.mem_range.mp hk)

end OrderedPairing
