import JCUnit.Foundation.Occurrences
import JCUnit.Matching.GreedyScan

/-!
# The accelerated search is the plain one

The plain search tries one position after the other and stops at the first at which
the segment stands. Jumping with `memchr` from one occurrence of the first byte to the
next finds the same position.
-/

namespace JCUnit

open GapPattern

/-- The bytes of the pattern that are searched for. -/
def segment (pattern : Bytes) (segStart segLen : Nat) : Bytes :=
  (pattern.drop segStart).take segLen

theorem length_segment {pattern : Bytes} {segStart segLen : Nat}
    (h : segStart + segLen ≤ pattern.length) :
    (segment pattern segStart segLen).length = segLen := by
  rw [segment, List.length_take, List.length_drop]
  omega

/-- The search reports an occurrence from its start on, and stops behind the least one. -/
theorem skipToSegment_least {pattern actual : Bytes} {segStart segLen actualPos : Nat}
    (hlen : 1 ≤ segLen) (hseg : segStart + segLen ≤ pattern.length)
    (hpos : actualPos ≤ actual.length) (hbound : actual.length + segLen < 2 ^ 32) :
    ((skipToSegment pattern segStart segLen actual actualPos).1 = true ↔
        ∃ p, actualPos ≤ p ∧ OccursAt (segment pattern segStart segLen) actual p) ∧
      ((skipToSegment pattern segStart segLen actual actualPos).1 = true →
        ∃ p, IsLeast {p | actualPos ≤ p ∧ OccursAt (segment pattern segStart segLen) actual p} p ∧
          (skipToSegment pattern segStart segLen actual actualPos).2 = p + segLen) := by
  have hsegment := length_segment hseg
  have hnonempty : segment pattern segStart segLen ≠ [] := List.ne_nil_of_length_pos (by omega)
  have hsearch := skipToSegment_eq hnonempty (List.take_append_drop _ _).symm hpos (by omega)
  rw [hsegment] at hsearch
  cases hfirst : afterFirst (segment pattern segStart segLen) (actual.drop actualPos) with
  | none =>
      rw [hfirst] at hsearch
      have hnowhere :
          ¬ ∃ p, OccursAt (segment pattern segStart segLen) (actual.drop actualPos) p := by
        rw [← afterFirst_isSome_iff, hfirst]
        simp
      rw [hsearch]
      constructor
      · constructor
        · intro h
          cases h
        · rintro ⟨q, hq⟩
          obtain ⟨p, -, hp⟩ := (occursAt_from_iff hpos).mp hq
          exact absurd ⟨p, hp⟩ hnowhere
      · intro h
        cases h
  | some rest =>
      rw [hfirst] at hsearch
      obtain ⟨last, hmove, hlast, hrest⟩ := hsearch
      obtain ⟨p, hp, hbehind⟩ := afterFirst_eq_some_iff.mp hfirst
      have hleast := isLeast_from hpos hp
      have hlastEq : last = actualPos + p + segLen := by
        have hrests : actual.drop last = actual.drop (actualPos + (p + segLen)) := by
          rw [hrest, hbehind, List.drop_drop, hsegment]
        have hlengths := congrArg List.length hrests
        rw [List.length_drop, List.length_drop] at hlengths
        have hfits := hleast.1.2.1
        rw [hsegment] at hfits
        omega
      rw [hmove]
      constructor
      · exact ⟨fun _ => ⟨_, hleast.1⟩, fun _ => rfl⟩
      · intro _
        exact ⟨actualPos + p, hleast, hlastEq⟩

/-- An occurrence that overlaps the start of a failed one, and touches the end. -/
theorem skipToSegment_overlapping :
    (skipToSegment (ascii "aab") 0 3 (ascii "aaab") 0).1 = true ∧
      ∃ p, IsLeast {p | 0 ≤ p ∧ OccursAt (segment (ascii "aab") 0 3) (ascii "aaab") p} p ∧
        (skipToSegment (ascii "aab") 0 3 (ascii "aaab") 0).2 = p + 3 := by
  have hfound : (skipToSegment (ascii "aab") 0 3 (ascii "aaab") 0).1 = true :=
    (skipToSegment_least (by decide) (by decide) (by decide) (by decide)).1.mpr
      ⟨1, by decide, by decide, by decide⟩
  exact ⟨hfound, (skipToSegment_least (by decide) (by decide) (by decide) (by decide)).2 hfound⟩

end JCUnit
