import JCUnit.Matching.GreedyScan

/-!
# What the matcher's verdict says about a pattern and an output

An accepted output is an instance of the pattern. The converse fails where the
last literal piece has an earlier place: the scan takes it and then finds bytes
left over.
-/

namespace JCUnit
open GapPattern

/-- An accepted output is the pattern's literal pieces with one filler per placeholder,
with nothing left over at either end. -/
theorem patternMatch_sound (pattern actual : Bytes)
    (hbound : pattern.length + actual.length < 2 ^ 32) (h : patternMatch pattern actual = true) :
    ∃ ws : List Bytes, ws.length + 1 = (literalPieces pattern).length ∧
      actual = weave (literalPieces pattern) ws :=
  ((patternMatch_eq_true_iff hbound).mp h).1

theorem patternMatch_sound_abc :
    ∃ ws : List Bytes, ws.length + 1 = (literalPieces (ascii "a\x7b\x7bany\x7d\x7dc")).length ∧
      ascii "abbc" = weave (literalPieces (ascii "a\x7b\x7bany\x7d\x7dc")) ws :=
  patternMatch_sound _ _ (by decide) (by decide +kernel)

/-- Instances are accepted exactly for the pairs where the pattern ends in a placeholder,
or the output is no instance, or no shorter prefix of the output is one. -/
theorem patternMatch_complete_iff (pattern actual : Bytes)
    (hbound : pattern.length + actual.length < 2 ^ 32) :
    ((∃ ws : List Bytes, ws.length + 1 = (literalPieces pattern).length ∧
        actual = weave (literalPieces pattern) ws) → patternMatch pattern actual = true) ↔
      (EndsInGap (literalPieces pattern) ∨ ¬ IsInstance (literalPieces pattern) actual ∨
        ∀ p rest, actual = p ++ rest → rest ≠ [] → ¬ IsInstance (literalPieces pattern) p) := by
  have hexact := patternMatch_eq_true_iff hbound
  constructor
  · intro hcomplete
    by_cases hinst : IsInstance (literalPieces pattern) actual
    · rcases (hexact.mp (hcomplete hinst)).2 with hend | hmin
      · exact Or.inl hend
      · exact Or.inr (Or.inr fun p rest hsplit hrest hp => hrest (hmin p rest hsplit hp))
    · exact Or.inr (Or.inl hinst)
  · intro hcond hinst
    refine hexact.mpr ⟨hinst, ?_⟩
    rcases hcond with hend | hnot | hmin
    · exact Or.inl hend
    · exact absurd hinst hnot
    · refine Or.inr fun p rest hsplit hp => ?_
      by_contra hrest
      exact hmin p rest hsplit hrest hp

/-- A pattern that starts with its placeholder, on an output where the bound holds. -/
theorem patternMatch_complete_iff_any_a :
    ((∃ ws : List Bytes, ws.length + 1 = (literalPieces (ascii "\x7b\x7bany\x7d\x7da")).length ∧
        ascii "ba" = weave (literalPieces (ascii "\x7b\x7bany\x7d\x7da")) ws) →
      patternMatch (ascii "\x7b\x7bany\x7d\x7da") (ascii "ba") = true) ↔
      (EndsInGap (literalPieces (ascii "\x7b\x7bany\x7d\x7da")) ∨
        ¬ IsInstance (literalPieces (ascii "\x7b\x7bany\x7d\x7da")) (ascii "ba") ∨
        ∀ p rest, ascii "ba" = p ++ rest → rest ≠ [] →
          ¬ IsInstance (literalPieces (ascii "\x7b\x7bany\x7d\x7da")) p) :=
  patternMatch_complete_iff _ _ (by decide)

/-- The output `aa` is the pattern's last piece `a` behind the filler `a`, but the scan
stops at the first `a` and rejects it. -/
theorem patternMatch_incomplete_at_aa :
    (ascii "\x7b\x7bany\x7d\x7da").length + (ascii "aa").length < 2 ^ 32 ∧
      (∃ ws : List Bytes, ws.length + 1 = (literalPieces (ascii "\x7b\x7bany\x7d\x7da")).length ∧
        ascii "aa" = weave (literalPieces (ascii "\x7b\x7bany\x7d\x7da")) ws) ∧
      patternMatch (ascii "\x7b\x7bany\x7d\x7da") (ascii "aa") = false :=
  ⟨by decide, ⟨[ascii "a"], by decide +kernel, by decide +kernel⟩, by decide +kernel⟩

end JCUnit
