import JCUnit.Matching.GreedyScan

/-!
# Outputs a pattern accepts

Every pattern accepts an output no longer than itself, and the empty pattern is the
only one that accepts nothing but the empty output.
-/

namespace JCUnit

open GapPattern

variable {pattern : Bytes}

theorem patternMatch_nil {actual : Bytes} (hbound : actual.length < 2 ^ 32)
    (h : patternMatch [] actual = true) : actual = [] := by
  have hpieces : literalPieces [] = [[]] := cut_nil _
  have hinstance := ((patternMatch_eq_true_iff (by simpa using hbound)).mp h).1
  rw [hpieces] at hinstance
  exact isInstance_singleton.mp hinstance

/-- The literal pieces of a pattern without anything between them. -/
theorem patternMatch_flatten (hbound : 2 * pattern.length < 2 ^ 32) :
    patternMatch pattern (literalPieces pattern).flatten = true := by
  have hlength : (literalPieces pattern).flatten.length ≤ pattern.length :=
    length_flatten_cut_le placeholderAnyStr pattern
  apply (patternMatch_eq_true_iff (by omega)).mpr
  obtain ⟨piece, pieces, hcut⟩ := exists_literalPieces_eq_cons pattern
  rw [hcut]
  constructor
  · exact isInstance_flatten piece pieces
  · apply Or.inr
    intro p rest hsplit hp
    exact rest_eq_nil_of_flatten hsplit hp

/-- A pattern that is not empty accepts an output that is not empty. -/
theorem exists_patternMatch_ne_nil (hpattern : pattern ≠ []) (hbound : 2 * pattern.length < 2 ^ 32) :
    ∃ actual, actual ≠ [] ∧ actual.length ≤ pattern.length ∧ patternMatch pattern actual = true := by
  have hpositive := List.length_pos_of_ne_nil hpattern
  by_cases hflatten : (literalPieces pattern).flatten = []
  · refine ⟨[120], List.cons_ne_nil _ _, hpositive, ?_⟩
    apply (patternMatch_eq_true_iff (by rw [List.length_singleton]; omega)).mpr
    obtain ⟨piece, pieces, hcut⟩ := exists_literalPieces_eq_cons pattern
    cases pieces with
    | nil =>
        have hwhole := intercalate_cut placeholderAnyStr_ne_nil pattern
        rw [show cut placeholderAnyStr pattern = [piece] from hcut] at hwhole
        have hpiece : piece = pattern := by simpa [List.intercalate] using hwhole
        rw [hcut] at hflatten
        exact absurd (hpiece.symm.trans (by simpa using hflatten)) hpattern
    | cons next pieces =>
        rw [hcut] at hflatten ⊢
        rw [List.flatten_cons, List.append_eq_nil_iff] at hflatten
        obtain ⟨rfl, hrest⟩ := hflatten
        constructor
        · apply isInstance_cons_cons.mpr
          refine ⟨[120], [], rfl, ?_⟩
          rw [← hrest]
          exact isInstance_flatten next pieces
        · exact Or.inl (endsInGap_of_flatten_eq_nil hrest)
  · exact ⟨_, hflatten, length_flatten_cut_le placeholderAnyStr pattern, patternMatch_flatten hbound⟩

end JCUnit
