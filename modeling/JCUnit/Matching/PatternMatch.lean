import JCUnit.Text.Bytes

/-!
# The output matcher

The matcher moves two positions, one in the pattern and one in the actual
output. A position is an index into its byte string, and a pointer such as
`pattern + pattern_pos` is the rest of the bytes from that index on. Both
lengths are the lengths of the byte strings.
-/

namespace JCUnit

inductive PlaceholderKind
  | none
  | any
deriving DecidableEq, Repr

structure Placeholder where
  kind : PlaceholderKind
  len : Nat
deriving DecidableEq, Repr

def placeholderAnyLen : Nat := 7

def placeholderAnyStr : Bytes := ascii "\x7b\x7bany\x7d\x7d"

def detectPlaceholder (input : Bytes) (remaining : Nat) : Placeholder :=
  if remaining ≥ placeholderAnyLen ∧ memcmpEq input placeholderAnyStr placeholderAnyLen then
    ⟨.any, placeholderAnyLen⟩
  else ⟨.none, 0⟩

/-- The loop of `literal_segment_len`, entered with `len` bytes already counted. -/
def literalSegmentLoop (pattern : Bytes) (start len : Nat) : Nat :=
  if start + len < pattern.length then
    if (detectPlaceholder (pattern.drop (start + len)) (pattern.length - start - len)).kind
        ≠ .none then len
    else literalSegmentLoop pattern start (len + 1)
  else len
termination_by pattern.length - (start + len)

def literalSegmentLen (pattern : Bytes) (start : Nat) : Nat :=
  literalSegmentLoop pattern start 0

/-- Skip the actual output forward until the literal segment is found. The
second component is the value left in `actual_pos`. -/
def skipToSegment (pattern : Bytes) (segStart segLen : Nat) (actual : Bytes) (actualPos : Nat) :
    Bool × Nat :=
  if u32 (actualPos + segLen) ≤ actual.length then
    match h : memchr actual actualPos (pattern.getD segStart 0) (u32 (actual.length - actualPos)) with
    | none => (false, actualPos)
    | some found =>
        if u32 (found + segLen) > actual.length then (false, found)
        else if memcmpEq (actual.drop found) (pattern.drop segStart) segLen then
          (true, u32 (found + segLen))
        else skipToSegment pattern segStart segLen actual (found + 1)
  else (false, actualPos)
termination_by actual.length - actualPos
decreasing_by
  have := memchr_bounds h
  omega

theorem skipToSegment_of_long {pattern actual : Bytes} {segStart segLen actualPos : Nat}
    (h : ¬ u32 (actualPos + segLen) ≤ actual.length) :
    skipToSegment pattern segStart segLen actual actualPos = (false, actualPos) := by
  rw [skipToSegment, if_neg h]

theorem skipToSegment_of_absent {pattern actual : Bytes} {segStart segLen actualPos : Nat}
    (h : memchr actual actualPos (pattern.getD segStart 0) (u32 (actual.length - actualPos)) = none) :
    skipToSegment pattern segStart segLen actual actualPos = (false, actualPos) := by
  rw [skipToSegment]
  split
  · split <;> simp_all
  · rfl

theorem skipToSegment_of_found {pattern actual : Bytes} {segStart segLen actualPos found : Nat}
    (hfits : u32 (actualPos + segLen) ≤ actual.length)
    (h : memchr actual actualPos (pattern.getD segStart 0) (u32 (actual.length - actualPos)) =
      some found) :
    skipToSegment pattern segStart segLen actual actualPos =
      if u32 (found + segLen) > actual.length then (false, found)
      else if memcmpEq (actual.drop found) (pattern.drop segStart) segLen then
        (true, u32 (found + segLen))
      else skipToSegment pattern segStart segLen actual (found + 1) := by
  rw [skipToSegment, if_pos hfits]
  split
  · simp_all
  · next heq =>
      rw [h, Option.some.injEq] at heq
      subst heq
      rfl

structure MatchState where
  patternPos : Nat
  actualPos : Nat
deriving DecidableEq, Repr

/-- Called with `pattern_pos` behind a placeholder. -/
def matchPlaceholderAny (pattern actual : Bytes) (s : MatchState) : Bool × MatchState :=
  let segStart := s.patternPos
  let segLen := literalSegmentLen pattern segStart
  if segLen = 0 then
    -- a placeholder at the end takes the rest, one before another takes nothing
    if s.patternPos ≥ pattern.length then (true, { s with actualPos := actual.length })
    else (true, s)
  else
    match skipToSegment pattern segStart segLen actual s.actualPos with
    | (false, actualPos) => (false, { s with actualPos })
    | (true, actualPos) => (true, ⟨s.patternPos + segLen, actualPos⟩)

/-- What one round of the main loop ends in. -/
inductive MatchStep
  | verdict (result : Bool)
  | next (s : MatchState)
deriving DecidableEq, Repr

/-- The loop test of `pattern_match` and one round of its body. -/
def matchStep (pattern actual : Bytes) (s : MatchState) : MatchStep :=
  if s.patternPos < pattern.length then
    let holder := detectPlaceholder (pattern.drop s.patternPos) (pattern.length - s.patternPos)
    match holder.kind with
    | .any =>
        match matchPlaceholderAny pattern actual { s with patternPos := s.patternPos + holder.len } with
        | (false, _) => .verdict false
        | (true, s') => .next s'
    | .none =>
        if s.actualPos ≥ actual.length ∨
            pattern.getD s.patternPos 0 ≠ actual.getD s.actualPos 0 then .verdict false
        else .next ⟨s.patternPos + 1, s.actualPos + 1⟩
  else .verdict (s.actualPos == actual.length)

theorem detectPlaceholder_cases (input : Bytes) (remaining : Nat) :
    detectPlaceholder input remaining = ⟨.any, placeholderAnyLen⟩ ∨
      detectPlaceholder input remaining = ⟨.none, 0⟩ := by
  unfold detectPlaceholder
  split
  · exact Or.inl rfl
  · exact Or.inr rfl

theorem matchPlaceholderAny_patternPos_le (pattern actual : Bytes) (s : MatchState) :
    s.patternPos ≤ (matchPlaceholderAny pattern actual s).2.patternPos := by
  simp only [matchPlaceholderAny]
  split
  · split <;> exact Nat.le_refl _
  · split
    · exact Nat.le_refl _
    · exact Nat.le_add_right _ _

/-- A round that does not decide moves the pattern position forward. -/
theorem matchStep_next {pattern actual : Bytes} {s s' : MatchState}
    (h : matchStep pattern actual s = .next s') :
    s.patternPos < pattern.length ∧ s.patternPos < s'.patternPos := by
  by_cases hlt : s.patternPos < pattern.length
  · refine ⟨hlt, ?_⟩
    rw [matchStep, if_pos hlt] at h
    rcases detectPlaceholder_cases (pattern.drop s.patternPos) (pattern.length - s.patternPos) with
      hd | hd
    · have hle := matchPlaceholderAny_patternPos_le pattern actual
        { s with patternPos := s.patternPos + placeholderAnyLen }
      simp only [hd] at h
      cases hm : matchPlaceholderAny pattern actual
          { s with patternPos := s.patternPos + placeholderAnyLen } with
      | mk found s'' =>
          rw [hm] at h hle
          cases found with
          | false => cases h
          | true =>
              cases h
              exact Nat.lt_of_lt_of_le (Nat.lt_add_of_pos_right (by decide)) hle
    · simp only [hd] at h
      split at h
      · cases h
      · cases h
        exact Nat.lt_succ_self _
  · rw [matchStep, if_neg hlt] at h
    cases h

/-- The main loop of `pattern_match`, entered with the given positions. -/
def patternMatchLoop (pattern actual : Bytes) (s : MatchState) : Bool :=
  match _h : matchStep pattern actual s with
  | .verdict result => result
  | .next s' => patternMatchLoop pattern actual s'
termination_by pattern.length - s.patternPos
decreasing_by
  have := matchStep_next _h
  omega

theorem patternMatchLoop_verdict {pattern actual : Bytes} {s : MatchState} {result : Bool}
    (h : matchStep pattern actual s = .verdict result) :
    patternMatchLoop pattern actual s = result := by
  rw [patternMatchLoop]
  split <;> simp_all

theorem patternMatchLoop_next {pattern actual : Bytes} {s s' : MatchState}
    (h : matchStep pattern actual s = .next s') :
    patternMatchLoop pattern actual s = patternMatchLoop pattern actual s' := by
  rw [patternMatchLoop]
  split <;> simp_all

def patternMatch (pattern actual : Bytes) : Bool :=
  patternMatchLoop pattern actual ⟨0, 0⟩

example : patternMatch (ascii "a\x7b\x7bany\x7d\x7dc") (ascii "abbc") = true := by decide +kernel

end JCUnit
