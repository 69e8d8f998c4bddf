import JCUnit.Foundation.GapPattern
import Mathlib.Order.Bounds.Basic

/-!
# Positions at which a piece stands

The first occurrence of a piece is the one at the least position.
-/

namespace GapPattern

variable {α : Type*}

/-- The piece stands in the word at this position. -/
def OccursAt (piece word : List α) (p : Nat) : Prop :=
  p + piece.length ≤ word.length ∧ (word.drop p).take piece.length = piece

variable {piece word rest : List α} {p : Nat}

theorem occursAt_iff_starts (hp : p ≤ word.length) :
    OccursAt piece word p ↔ piece <+: word.drop p := by
  rw [OccursAt, List.prefix_iff_eq_take, eq_comm (a := piece)]
  constructor
  · exact And.right
  · intro h
    refine ⟨?_, h⟩
    have hlen := congrArg List.length h
    rw [List.length_take, List.length_drop] at hlen
    omega

theorem occursAt_zero_iff : OccursAt piece word 0 ↔ piece <+: word :=
  occursAt_iff_starts (Nat.zero_le _)

theorem occursAt_drop_iff {start : Nat} (hstart : start ≤ word.length) :
    OccursAt piece (word.drop start) p ↔ OccursAt piece word (start + p) := by
  rw [OccursAt, OccursAt, List.drop_drop, List.length_drop]
  constructor
  · rintro ⟨hfits, htext⟩
    exact ⟨by omega, htext⟩
  · rintro ⟨hfits, htext⟩
    exact ⟨by omega, htext⟩

/-- Positions from a start on are positions in the rest. -/
theorem occursAt_from_iff {start q : Nat} (hstart : start ≤ word.length) :
    start ≤ q ∧ OccursAt piece word q ↔
      ∃ p, q = start + p ∧ OccursAt piece (word.drop start) p := by
  constructor
  · rintro ⟨hle, hq⟩
    obtain ⟨p, rfl⟩ := Nat.exists_eq_add_of_le hle
    exact ⟨p, rfl, (occursAt_drop_iff hstart).mpr hq⟩
  · rintro ⟨p, rfl, hp⟩
    exact ⟨Nat.le_add_right _ _, (occursAt_drop_iff hstart).mp hp⟩

theorem isLeast_from {start : Nat} (hstart : start ≤ word.length)
    (h : IsLeast {p | OccursAt piece (word.drop start) p} p) :
    IsLeast {q | start ≤ q ∧ OccursAt piece word q} (start + p) := by
  refine ⟨(occursAt_from_iff hstart).mpr ⟨p, rfl, h.1⟩, ?_⟩
  intro q hq
  obtain ⟨p', rfl, hp'⟩ := (occursAt_from_iff hstart).mp hq
  exact Nat.add_le_add_left (h.2 hp') start

/-- Behind the first letter the places are counted one lower. -/
theorem occursAt_cons_succ_iff {a : α} :
    OccursAt piece (a :: word) (p + 1) ↔ OccursAt piece word p := by
  rw [OccursAt, OccursAt, List.drop_succ_cons, List.length_cons]
  constructor
  · rintro ⟨hfits, htext⟩
    exact ⟨by omega, htext⟩
  · rintro ⟨hfits, htext⟩
    exact ⟨by omega, htext⟩

variable [DecidableEq α]

/-- What is left behind the first occurrence is left behind the least position. -/
theorem afterFirst_eq_some_iff : afterFirst piece word = some rest ↔
    ∃ p, IsLeast {p | OccursAt piece word p} p ∧ rest = word.drop (p + piece.length) := by
  induction word with
  | nil =>
      by_cases hpiece : piece = []
      · subst hpiece
        constructor
        · intro h
          exact ⟨0, ⟨occursAt_zero_iff.mpr List.nil_prefix, fun _ _ => Nat.zero_le _⟩, by
            simpa [eq_comm] using h⟩
        · rintro ⟨p, -, rfl⟩
          simp
      · have hlen : 0 < piece.length := List.length_pos_iff.mpr hpiece
        constructor
        · intro h
          rw [afterFirst, if_neg hpiece] at h
          cases h
        · rintro ⟨p, ⟨⟨hfits, -⟩, -⟩, -⟩
          rw [List.length_nil] at hfits
          omega
  | cons a word ih =>
      by_cases hhere : piece <+: a :: word
      · have hleast : IsLeast {p | OccursAt piece (a :: word) p} 0 :=
          ⟨occursAt_zero_iff.mpr hhere, fun _ _ => Nat.zero_le _⟩
        rw [afterFirst_of_starts hhere, Option.some.injEq]
        constructor
        · rintro rfl
          exact ⟨0, hleast, by rw [Nat.zero_add]⟩
        · rintro ⟨p, hp, rfl⟩
          rw [hp.unique hleast, Nat.zero_add]
      · rw [afterFirst_of_not_starts hhere, List.tail_cons, ih]
        constructor
        · rintro ⟨p, ⟨hp, hleast⟩, rfl⟩
          refine ⟨p + 1, ⟨occursAt_cons_succ_iff.mpr hp, ?_⟩, by
            rw [Nat.add_right_comm, List.drop_succ_cons]⟩
          rintro (_ | q) hq
          · exact absurd (occursAt_zero_iff.mp hq) hhere
          · exact Nat.succ_le_succ (hleast (occursAt_cons_succ_iff.mp hq))
        · rintro ⟨_ | p, ⟨hp, hleast⟩, rfl⟩
          · exact absurd (occursAt_zero_iff.mp hp) hhere
          · refine ⟨p, ⟨occursAt_cons_succ_iff.mp hp, ?_⟩, by
              rw [Nat.add_right_comm, List.drop_succ_cons]⟩
            intro q hq
            exact Nat.le_of_succ_le_succ (hleast (occursAt_cons_succ_iff.mpr hq))

/-- A piece that stands somewhere has a first occurrence. -/
theorem afterFirst_isSome_iff : (afterFirst piece word).isSome ↔ ∃ p, OccursAt piece word p := by
  rw [Option.isSome_iff_exists]
  constructor
  · rintro ⟨rest, hrest⟩
    obtain ⟨p, hp, -⟩ := afterFirst_eq_some_iff.mp hrest
    exact ⟨p, hp.1⟩
  · rintro ⟨p, hfits, htext⟩
    have hword : word = word.take p ++ piece ++ word.drop (p + piece.length) := by
      conv_lhs =>
        rw [← List.take_append_drop p word, ← List.take_append_drop piece.length (word.drop p)]
      rw [htext, List.drop_drop, List.append_assoc]
    obtain ⟨rest, hrest, -⟩ := afterFirst_longest (word.take p) piece (word.drop (p + piece.length))
    rw [← hword] at hrest
    exact ⟨rest, hrest⟩

end GapPattern
