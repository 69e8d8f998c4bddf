import JCUnit.Foundation.Traced
import JCUnit.Matching.GreedyScan

/-!
# What the matcher reads and computes

The matcher once more, listing the bytes it reads, the sums and differences of lengths it
computes, every change of its two positions and the rounds of its main loop. Where it
compares or searches a run of bytes, all of them count as read.
-/

namespace JCUnit

open Traced

/-- The positions are those of `pattern_pos` and `actual_pos`; reads have a start and a length. -/
inductive MatchEvent
  | round
  | moved (s : MatchState)
  | added (a b : Nat)
  | subtracted (a b : Nat)
  | readPattern (start len : Nat)
  | readActual (start len : Nat)
deriving DecidableEq, Repr

/-- The positions stay within the lengths, no `unsigned int` wraps, and reads end in time. -/
def MatchEvent.Safe (pattern actual : Bytes) : MatchEvent → Prop
  | .round => True
  | .moved s => s.patternPos ≤ pattern.length ∧ s.actualPos ≤ actual.length
  | .added a b => a + b < 2 ^ 32
  | .subtracted a b => b ≤ a
  | .readPattern start len => start + len ≤ pattern.length
  | .readActual start len => start + len ≤ actual.length

namespace TracedMatcher

abbrev Run := Traced MatchEvent

/-- The pointer is `pattern + start`. -/
def detectPlaceholder (pattern : Bytes) (start remaining : Nat) : Run Placeholder := do
  if remaining ≥ placeholderAnyLen then tell (.readPattern start placeholderAnyLen)
  return JCUnit.detectPlaceholder (pattern.drop start) remaining

def literalSegmentLoop (pattern : Bytes) (start len : Nat) : Run Nat := do
  tell (.added start len)
  if start + len < pattern.length then
    tell (.subtracted pattern.length start)
    tell (.subtracted (pattern.length - start) len)
    let holder ← detectPlaceholder pattern (start + len) (pattern.length - start - len)
    if holder.kind ≠ .none then return len
    else literalSegmentLoop pattern start (len + 1)
  else return len
termination_by pattern.length - (start + len)

def literalSegmentLen (pattern : Bytes) (start : Nat) : Run Nat :=
  literalSegmentLoop pattern start 0

/-- `pattern_pos` is the start of the segment all the while. -/
def skipToSegment (pattern : Bytes) (segStart segLen : Nat) (actual : Bytes) (actualPos : Nat) :
    Run (Bool × Nat) := do
  tell (.added actualPos segLen)
  if u32 (actualPos + segLen) ≤ actual.length then
    tell (.readPattern segStart 1)
    tell (.subtracted actual.length actualPos)
    tell (.readActual actualPos (actual.length - actualPos))
    match h : memchr actual actualPos (pattern.getD segStart 0) (u32 (actual.length - actualPos)) with
    | none => return (false, actualPos)
    | some found =>
        tell (.moved ⟨segStart, found⟩)
        tell (.added found segLen)
        if u32 (found + segLen) > actual.length then return (false, found)
        else
          tell (.readActual found segLen)
          tell (.readPattern segStart segLen)
          if memcmpEq (actual.drop found) (pattern.drop segStart) segLen then
            tell (.moved ⟨segStart, u32 (found + segLen)⟩)
            return (true, u32 (found + segLen))
          else
            tell (.moved ⟨segStart, found + 1⟩)
            skipToSegment pattern segStart segLen actual (found + 1)
  else return (false, actualPos)
termination_by actual.length - actualPos
decreasing_by
  have := memchr_bounds h
  omega

def matchPlaceholderAny (pattern actual : Bytes) (s : MatchState) : Run (Bool × MatchState) := do
  let segStart := s.patternPos
  let segLen ← literalSegmentLen pattern segStart
  if segLen = 0 then
    if s.patternPos ≥ pattern.length then
      tell (.moved { s with actualPos := actual.length })
      return (true, { s with actualPos := actual.length })
    else return (true, s)
  else
    match ← skipToSegment pattern segStart segLen actual s.actualPos with
    | (false, actualPos) => return (false, { s with actualPos })
    | (true, actualPos) =>
        tell (.added s.patternPos segLen)
        tell (.moved ⟨s.patternPos + segLen, actualPos⟩)
        return (true, ⟨s.patternPos + segLen, actualPos⟩)

/-- The bytes are compared only where the actual output has one left. -/
def matchStep (pattern actual : Bytes) (s : MatchState) : Run MatchStep := do
  if s.patternPos < pattern.length then
    tell .round
    tell (.subtracted pattern.length s.patternPos)
    let holder ← detectPlaceholder pattern s.patternPos (pattern.length - s.patternPos)
    match holder.kind with
    | .any =>
        tell (.added s.patternPos holder.len)
        tell (.moved { s with patternPos := s.patternPos + holder.len })
        match ← matchPlaceholderAny pattern actual { s with patternPos := s.patternPos + holder.len } with
        | (false, _) => return .verdict false
        | (true, s') => return .next s'
    | .none =>
        if s.actualPos ≥ actual.length then return .verdict false
        else
          tell (.readPattern s.patternPos 1)
          tell (.readActual s.actualPos 1)
          if pattern.getD s.patternPos 0 ≠ actual.getD s.actualPos 0 then return .verdict false
          else
            tell (.moved ⟨s.patternPos + 1, s.actualPos⟩)
            tell (.moved ⟨s.patternPos + 1, s.actualPos + 1⟩)
            return .next ⟨s.patternPos + 1, s.actualPos + 1⟩
  else return .verdict (s.actualPos == actual.length)

section Values

theorem value_detectPlaceholder (pattern : Bytes) (start remaining : Nat) :
    (detectPlaceholder pattern start remaining).value =
      JCUnit.detectPlaceholder (pattern.drop start) remaining := by
  unfold detectPlaceholder
  split <;> rfl

theorem value_literalSegmentLoop (pattern : Bytes) (start len : Nat) :
    (literalSegmentLoop pattern start len).value = JCUnit.literalSegmentLoop pattern start len := by
  fun_induction JCUnit.literalSegmentLoop pattern start len with
  | case1 len hlt hholder =>
      rw [literalSegmentLoop, value_bind, if_pos hlt]
      simp only [value_bind, value_detectPlaceholder]
      rw [if_pos hholder]
      rfl
  | case2 len hlt hholder ih =>
      rw [literalSegmentLoop, value_bind, if_pos hlt]
      simp only [value_bind, value_detectPlaceholder]
      rw [if_neg hholder, ih]
  | case3 len hdone =>
      rw [literalSegmentLoop, value_bind, if_neg hdone]
      rfl

theorem value_literalSegmentLen (pattern : Bytes) (start : Nat) :
    (literalSegmentLen pattern start).value = JCUnit.literalSegmentLen pattern start :=
  value_literalSegmentLoop pattern start 0

theorem value_skipToSegment (pattern : Bytes) (segStart segLen : Nat) (actual : Bytes)
    (actualPos : Nat) : (skipToSegment pattern segStart segLen actual actualPos).value =
      JCUnit.skipToSegment pattern segStart segLen actual actualPos := by
  induction hn : actual.length - actualPos using Nat.strong_induction_on generalizing actualPos with
  | _ n ih =>
      by_cases hfits : u32 (actualPos + segLen) ≤ actual.length
      · rw [skipToSegment, value_bind, if_pos hfits]
        simp only [value_bind]
        split
        · rename_i habsent
          rw [skipToSegment_of_absent habsent]
          rfl
        · rename_i found hfound
          have hbounds := memchr_bounds hfound
          rw [skipToSegment_of_found hfits hfound]
          simp only [value_bind]
          split
          · rfl
          simp only [value_bind]
          split
          · rfl
          · simp only [value_bind]
            exact ih _ (by omega) _ rfl
      · rw [skipToSegment, value_bind, if_neg hfits, skipToSegment_of_long hfits]
        rfl

theorem value_matchPlaceholderAny (pattern actual : Bytes) (s : MatchState) :
    (matchPlaceholderAny pattern actual s).value = JCUnit.matchPlaceholderAny pattern actual s := by
  rw [matchPlaceholderAny, JCUnit.matchPlaceholderAny, value_bind, value_literalSegmentLen]
  split
  · split <;> rfl
  · rw [value_bind, value_skipToSegment]
    cases JCUnit.skipToSegment pattern s.patternPos (JCUnit.literalSegmentLen pattern s.patternPos)
        actual s.actualPos with
    | mk found actualPos => cases found <;> rfl

/-- The listing round is the round. -/
theorem value_matchStep (pattern actual : Bytes) (s : MatchState) :
    (matchStep pattern actual s).value = JCUnit.matchStep pattern actual s := by
  by_cases hlt : s.patternPos < pattern.length
  · rw [matchStep, JCUnit.matchStep, if_pos hlt, if_pos hlt]
    simp only [value_bind, value_detectPlaceholder]
    rcases detectPlaceholder_cases (pattern.drop s.patternPos) (pattern.length - s.patternPos) with
      hholder | hholder
    · rw [hholder]
      simp only [value_bind, value_matchPlaceholderAny]
      cases JCUnit.matchPlaceholderAny pattern actual
          { s with patternPos := s.patternPos + placeholderAnyLen } with
      | mk found s' => cases found <;> rfl
    · rw [hholder]
      by_cases hend : s.actualPos ≥ actual.length
      · simp only [hend, if_true, true_or, value_pure]
      · by_cases hbyte : pattern.getD s.patternPos 0 ≠ actual.getD s.actualPos 0
        · rw [if_pos (Or.inr hbyte)]
          simp only [if_neg hend, if_pos hbyte, value_bind, value_pure]
        · rw [if_neg (not_or_intro hend hbyte)]
          simp only [if_neg hend, if_neg hbyte, value_bind, value_pure]
  · rw [matchStep, JCUnit.matchStep, if_neg hlt, if_neg hlt]
    rfl

end Values

/-- The main loop, entered with the given positions. -/
def patternMatchLoop (pattern actual : Bytes) (s : MatchState) : Run Bool :=
  let step := matchStep pattern actual s
  match _h : step.value with
  | .verdict result => ⟨result, step.trace⟩
  | .next s' =>
      let rest := patternMatchLoop pattern actual s'
      ⟨rest.value, step.trace ++ rest.trace⟩
termination_by pattern.length - s.patternPos
decreasing_by
  have := matchStep_next ((value_matchStep pattern actual s).symm.trans _h)
  omega

def patternMatch (pattern actual : Bytes) : Run Bool := do
  tell (.moved ⟨0, 0⟩)
  patternMatchLoop pattern actual ⟨0, 0⟩

section Loop

variable {pattern actual : Bytes} {s : MatchState}

theorem patternMatchLoop_verdict {result : Bool}
    (h : JCUnit.matchStep pattern actual s = .verdict result) :
    patternMatchLoop pattern actual s = ⟨result, (matchStep pattern actual s).trace⟩ := by
  rw [← value_matchStep] at h
  rw [patternMatchLoop]
  split <;> simp_all

theorem patternMatchLoop_next {s' : MatchState}
    (h : JCUnit.matchStep pattern actual s = .next s') :
    patternMatchLoop pattern actual s = ⟨(patternMatchLoop pattern actual s').value,
      (matchStep pattern actual s).trace ++ (patternMatchLoop pattern actual s').trace⟩ := by
  rw [← value_matchStep] at h
  rw [patternMatchLoop]
  split <;> simp_all

theorem value_patternMatchLoop (pattern actual : Bytes) (s : MatchState) :
    (patternMatchLoop pattern actual s).value = JCUnit.patternMatchLoop pattern actual s := by
  induction hn : pattern.length - s.patternPos using Nat.strong_induction_on generalizing s with
  | _ n ih =>
      cases hstep : JCUnit.matchStep pattern actual s with
      | verdict result =>
          rw [patternMatchLoop_verdict hstep, JCUnit.patternMatchLoop_verdict hstep]
      | next s' =>
          have hforward := matchStep_next hstep
          rw [patternMatchLoop_next hstep, JCUnit.patternMatchLoop_next hstep]
          exact ih _ (by omega) _ rfl

end Loop

/-- The listing matcher is the matcher. -/
theorem value_patternMatch (pattern actual : Bytes) :
    (patternMatch pattern actual).value = JCUnit.patternMatch pattern actual :=
  value_patternMatchLoop pattern actual ⟨0, 0⟩

section Safety

variable {pattern actual : Bytes}

/-- What the helpers list: nothing unsafe, and no round of the main loop. -/
def Inner (pattern actual : Bytes) : MatchEvent → Prop
  | .round => False
  | event => event.Safe pattern actual

theorem Inner.safe {event : MatchEvent} (h : Inner pattern actual event) :
    event.Safe pattern actual := by
  cases event with
  | round => exact trivial
  | _ => exact h

theorem Inner.ne_round {event : MatchEvent} (h : Inner pattern actual event) : event ≠ .round := by
  rintro rfl
  exact h

theorem inner_detectPlaceholder {start remaining : Nat}
    (hfits : start + remaining ≤ pattern.length) :
    Emits (Inner pattern actual) (detectPlaceholder pattern start remaining) := by
  unfold detectPlaceholder
  split
  · have hread : start + placeholderAnyLen ≤ pattern.length := by omega
    exact Emits.tell hread (Emits.pure _)
  · exact Emits.bind (Emits.pure _) (Emits.pure _)

theorem inner_literalSegmentLoop (hbound : pattern.length < 2 ^ 32) {start len : Nat}
    (hfits : start + len ≤ pattern.length) :
    Emits (Inner pattern actual) (literalSegmentLoop pattern start len) := by
  induction hn : pattern.length - (start + len) using Nat.strong_induction_on generalizing len with
  | _ n ih =>
      have hsum : start + len < 2 ^ 32 := by omega
      have hstart : start ≤ pattern.length := by omega
      have hlen : len ≤ pattern.length - start := by omega
      rw [literalSegmentLoop]
      refine Emits.tell hsum ?_
      split
      · refine Emits.tell hstart ?_
        refine Emits.tell hlen ?_
        apply Emits.bind (inner_detectPlaceholder (by omega))
        split
        · exact Emits.pure _
        · exact ih _ (by omega) (by omega) rfl
      · exact Emits.pure _

/-- The search stays behind its start and before the end. -/
theorem inner_skipToSegment {segStart segLen actualPos : Nat} (hlen : 1 ≤ segLen)
    (hseg : segStart + segLen ≤ pattern.length) (hpos : actualPos ≤ actual.length)
    (hbound : pattern.length + actual.length < 2 ^ 32) :
    Emits (Inner pattern actual) (skipToSegment pattern segStart segLen actual actualPos) := by
  induction hn : actual.length - actualPos using Nat.strong_induction_on generalizing actualPos with
  | _ n ih =>
      have hsum : actualPos + segLen < 2 ^ 32 := by omega
      have hfirst : segStart + 1 ≤ pattern.length := by omega
      have hrest : actualPos + (actual.length - actualPos) ≤ actual.length := by omega
      have hstart : segStart ≤ pattern.length := by omega
      rw [skipToSegment]
      refine Emits.tell hsum ?_
      split
      · refine Emits.tell hfirst ?_
        refine Emits.tell hpos ?_
        refine Emits.tell hrest ?_
        split
        · exact Emits.pure _
        · rename_i found hfound
          have hbounds := memchr_bounds hfound
          have hhere : segStart ≤ pattern.length ∧ found ≤ actual.length := by omega
          have hwrap : found + segLen < 2 ^ 32 := by omega
          refine Emits.tell hhere ?_
          refine Emits.tell hwrap ?_
          split
          · exact Emits.pure _
          · rename_i hroom
            rw [u32_of_lt hwrap] at hroom
            have hcompared : found + segLen ≤ actual.length := by omega
            refine Emits.tell hcompared ?_
            refine Emits.tell hseg ?_
            split
            · have hbehind : segStart ≤ pattern.length ∧ u32 (found + segLen) ≤ actual.length := by
                rw [u32_of_lt hwrap]
                exact ⟨hstart, hcompared⟩
              exact Emits.tell hbehind (Emits.pure _)
            · have hnext : segStart ≤ pattern.length ∧ found + 1 ≤ actual.length := by omega
              refine Emits.tell hnext ?_
              exact ih _ (by omega) hnext.2 rfl
      · exact Emits.pure _

theorem inner_matchPlaceholderAny (hbound : pattern.length + actual.length < 2 ^ 32)
    {s : MatchState} (hpp : s.patternPos ≤ pattern.length) (hap : s.actualPos ≤ actual.length) :
    Emits (Inner pattern actual) (matchPlaceholderAny pattern actual s) := by
  obtain ⟨piece, pieces, hcut⟩ := exists_literalPieces_eq_cons (pattern.drop s.patternPos)
  have hlen : (literalSegmentLen pattern s.patternPos).value = piece.length :=
    (value_literalSegmentLen _ _).trans (literalSegmentLen_eq hcut)
  have hseg : s.patternPos + piece.length ≤ pattern.length := by
    have hbehind := (literalPieces_behind hcut).2
    rwa [Nat.max_eq_right hpp] at hbehind
  have hcount : Emits (Inner pattern actual) (literalSegmentLen pattern s.patternPos) :=
    inner_literalSegmentLoop (by omega) hpp
  apply hcount.bind
  rw [hlen]
  split
  · split
    · have hend : s.patternPos ≤ pattern.length ∧ actual.length ≤ actual.length :=
        ⟨hpp, Nat.le_refl _⟩
      exact Emits.tell hend (Emits.pure _)
    · exact Emits.pure _
  · rename_i hpiece
    have hnext := matchPlaceholderAny_eq hbound hpp hap rfl
    rw [JCUnit.matchPlaceholderAny, literalSegmentLen_eq hcut] at hnext
    apply Emits.bind (inner_skipToSegment (by omega) hseg hap hbound)
    rw [value_skipToSegment]
    cases hskip : JCUnit.skipToSegment pattern s.patternPos piece.length actual s.actualPos with
    | mk found actualPos =>
        cases found with
        | false => exact Emits.pure _
        | true =>
            simp only [hskip, if_neg hpiece] at hnext
            have hsum : s.patternPos + piece.length < 2 ^ 32 := by omega
            have hbehind : s.patternPos + piece.length ≤ pattern.length ∧
                actualPos ≤ actual.length := ⟨hnext.1, hnext.2.1⟩
            refine Emits.tell hsum ?_
            exact Emits.tell hbehind (Emits.pure _)

/-- A round lists itself first and otherwise what its helpers list. -/
theorem matchStep_trace (hbound : pattern.length + actual.length < 2 ^ 32) {s : MatchState}
    (hap : s.actualPos ≤ actual.length) :
    (matchStep pattern actual s).trace = [] ∨ s.patternPos < pattern.length ∧
      ∃ inner, (matchStep pattern actual s).trace = .round :: inner ∧
        ∀ event ∈ inner, Inner pattern actual event := by
  by_cases hlt : s.patternPos < pattern.length
  · right
    rw [matchStep, if_pos hlt]
    refine ⟨hlt, _, rfl, ?_⟩
    have hpp : s.patternPos ≤ pattern.length := Nat.le_of_lt hlt
    refine Emits.tell hpp ?_
    apply Emits.bind (inner_detectPlaceholder (by omega))
    rw [value_detectPlaceholder]
    by_cases hprefix : placeholderAnyStr <+: pattern.drop s.patternPos
    · have hdetect := detectPlaceholder_of_starts hprefix
      have hroom := hprefix.length_le
      rw [length_placeholderAnyStr, List.length_drop] at hroom
      rw [List.length_drop] at hdetect
      rw [hdetect]
      have hsum : s.patternPos + placeholderAnyLen < 2 ^ 32 := by omega
      have hbehind : s.patternPos + placeholderAnyLen ≤ pattern.length ∧
          s.actualPos ≤ actual.length := by omega
      refine Emits.tell hsum ?_
      refine Emits.tell hbehind ?_
      have hholder := inner_matchPlaceholderAny hbound
        (s := { s with patternPos := s.patternPos + placeholderAnyLen }) hbehind.1 hbehind.2
      apply hholder.bind
      cases (matchPlaceholderAny pattern actual
          { s with patternPos := s.patternPos + placeholderAnyLen }).value with
      | mk found s' => cases found <;> exact Emits.pure _
    · have hdetect := detectPlaceholder_of_not_starts hprefix
      rw [List.length_drop] at hdetect
      rw [hdetect]
      dsimp only
      split
      · exact Emits.pure _
      · rename_i hleft
        have hroom : s.patternPos + 1 ≤ pattern.length := hlt
        have hmore : s.actualPos + 1 ≤ actual.length := by omega
        refine Emits.tell hroom ?_
        refine Emits.tell hmore ?_
        split
        · exact Emits.pure _
        · have hfirst : s.patternPos + 1 ≤ pattern.length ∧ s.actualPos ≤ actual.length :=
            ⟨hroom, hap⟩
          have hboth : s.patternPos + 1 ≤ pattern.length ∧ s.actualPos + 1 ≤ actual.length :=
            ⟨hroom, hmore⟩
          refine Emits.tell hfirst ?_
          exact Emits.tell hboth (Emits.pure _)
  · left
    rw [matchStep, if_neg hlt]
    rfl

/-- Every round of the loop is within the lengths, and moves on in the pattern. -/
theorem patternMatchLoop_trace (hbound : pattern.length + actual.length < 2 ^ 32) {s : MatchState}
    (hap : s.actualPos ≤ actual.length) :
    Emits (MatchEvent.Safe pattern actual) (patternMatchLoop pattern actual s) ∧
      (patternMatchLoop pattern actual s).trace.count .round ≤ pattern.length - s.patternPos := by
  induction hn : pattern.length - s.patternPos using Nat.strong_induction_on generalizing s with
  | _ n ih =>
      have hround : Emits (MatchEvent.Safe pattern actual) (matchStep pattern actual s) ∧
          (matchStep pattern actual s).trace.count .round ≤ min 1 n := by
        rcases matchStep_trace hbound hap with htrace | ⟨hlt, inner, htrace, hinner⟩
        · unfold Emits
          rw [htrace]
          exact ⟨List.forall_mem_nil _, Nat.zero_le _⟩
        · have hnone : inner.count .round = 0 :=
            List.count_eq_zero.mpr fun hmem => (hinner _ hmem).ne_round rfl
          unfold Emits
          rw [htrace, List.count_cons_self, hnone]
          refine ⟨?_, by omega⟩
          intro event hevent
          rcases List.mem_cons.mp hevent with rfl | hevent
          · exact trivial
          · exact (hinner event hevent).safe
      cases hstep : JCUnit.matchStep pattern actual s with
      | verdict result =>
          rw [patternMatchLoop_verdict hstep]
          exact ⟨hround.1, Nat.le_trans hround.2 (Nat.min_le_right _ _)⟩
      | next s' =>
          have hforward := matchStep_next hstep
          have hnext := matchStep_eq hbound hap
          rw [hstep] at hnext
          obtain ⟨hrest, hcount⟩ := ih _ (by omega) hnext.2.1 rfl
          rw [patternMatchLoop_next hstep]
          constructor
          · intro event hevent
            rcases List.mem_append.mp hevent with hevent | hevent
            · exact hround.1 event hevent
            · exact hrest event hevent
          · rw [List.count_append]
            omega

end Safety

end TracedMatcher

/-- Along the whole of `pattern_match` the positions stay within the lengths, no sum or difference
of lengths wraps, every read ends in time, and the main loop has no more rounds than the pattern
bytes. -/
theorem patternMatch_stays_in_bounds {pattern actual : Bytes}
    (hbound : pattern.length + actual.length < 2 ^ 32) :
    (TracedMatcher.patternMatch pattern actual).value = patternMatch pattern actual ∧
      (∀ event ∈ (TracedMatcher.patternMatch pattern actual).trace, event.Safe pattern actual) ∧
      (TracedMatcher.patternMatch pattern actual).trace.count .round ≤ pattern.length := by
  obtain ⟨hsafe, hrounds⟩ :=
    TracedMatcher.patternMatchLoop_trace hbound (s := ⟨0, 0⟩) (Nat.zero_le actual.length)
  refine ⟨TracedMatcher.value_patternMatch pattern actual, ?_, ?_⟩
  · have hstart : 0 ≤ pattern.length ∧ 0 ≤ actual.length := ⟨Nat.zero_le _, Nat.zero_le _⟩
    exact Emits.tell hstart hsafe
  · exact hrounds

theorem patternMatch_stays_in_bounds_after_placeholder :
    (TracedMatcher.patternMatch (ascii "\x7b\x7bany\x7d\x7db") (ascii "ab")).trace ≠ [] ∧
      ∀ event ∈ (TracedMatcher.patternMatch (ascii "\x7b\x7bany\x7d\x7db") (ascii "ab")).trace,
        event.Safe (ascii "\x7b\x7bany\x7d\x7db") (ascii "ab") :=
  ⟨List.cons_ne_nil _ _, (patternMatch_stays_in_bounds (by decide)).2.1⟩

end JCUnit
