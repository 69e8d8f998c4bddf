import JCUnit.Foundation.GapPattern
import JCUnit.Matching.PatternMatch

/-!
# The position loops compute the greedy placement

The matcher's positions stand for two remaining texts. On these it agrees with
the one-pass matcher on the pattern's literal pieces, as long as the two
lengths together stay below the range of `unsigned int`.
-/

namespace JCUnit
open GapPattern

/-- The literal pieces of a pattern: the texts between its placeholders. -/
def literalPieces (pattern : Bytes) : List Bytes :=
  cut placeholderAnyStr pattern

theorem placeholderAnyStr_ne_nil : placeholderAnyStr ≠ [] := by decide

@[simp] theorem length_placeholderAnyStr : placeholderAnyStr.length = placeholderAnyLen := by decide

theorem exists_literalPieces_eq_cons (pattern : Bytes) :
    ∃ piece pieces, literalPieces pattern = piece :: pieces :=
  exists_cut_eq_cons _ _

theorem memcmpEq_iff_starts {input seg : Bytes} :
    memcmpEq input seg seg.length = true ↔ seg <+: input := by
  rw [memcmpEq, beq_iff_eq, List.take_length, List.prefix_iff_eq_take, eq_comm]

theorem detectPlaceholder_of_starts {input : Bytes} (h : placeholderAnyStr <+: input) :
    detectPlaceholder input input.length = ⟨.any, placeholderAnyLen⟩ := by
  have hlen := h.length_le
  rw [length_placeholderAnyStr] at hlen
  rw [detectPlaceholder, if_pos ⟨hlen, by simpa using memcmpEq_iff_starts.mpr h⟩]

theorem detectPlaceholder_of_not_starts {input : Bytes} (h : ¬ placeholderAnyStr <+: input) :
    detectPlaceholder input input.length = ⟨.none, 0⟩ := by
  rw [detectPlaceholder, if_neg]
  rintro ⟨-, hcmp⟩
  exact h (memcmpEq_iff_starts.mp (by simpa using hcmp))

/-- Counting stops behind exactly the first literal piece of the remaining pattern. -/
theorem literalSegmentLoop_eq {pattern piece : Bytes} {pieces : List Bytes} {start len : Nat}
    (h : literalPieces (pattern.drop (start + len)) = piece :: pieces) :
    literalSegmentLoop pattern start len = len + piece.length := by
  induction piece generalizing len with
  | nil =>
      rw [literalSegmentLoop]
      split
      · next hlt =>
          have hprefix : placeholderAnyStr <+: pattern.drop (start + len) := by
            rcases cut_eq_cons placeholderAnyStr_ne_nil h with ⟨htext, -⟩ | ⟨rest, htext, -⟩
            · have := congrArg List.length htext
              simp at this
              omega
            · rw [htext]
              exact List.prefix_append _ _
          have hdetect := detectPlaceholder_of_starts hprefix
          rw [List.length_drop, ← Nat.sub_sub] at hdetect
          simp [hdetect]
      · rfl
  | cons b piece ih =>
      obtain ⟨text, htext⟩ : ∃ text, pattern.drop (start + len) = b :: text := by
        rcases cut_eq_cons placeholderAnyStr_ne_nil h with ⟨htext, -⟩ | ⟨rest, htext, -⟩
        · exact ⟨_, htext⟩
        · exact ⟨_, htext⟩
      have hlt : start + len < pattern.length := by
        have := congrArg List.length htext
        simp at this
        omega
      have hnot : ¬ placeholderAnyStr <+: pattern.drop (start + len) := by
        rintro ⟨rest, hrest⟩
        rw [literalPieces, ← hrest, cut_separator placeholderAnyStr_ne_nil] at h
        simp at h
      have hnext : literalPieces (pattern.drop (start + (len + 1))) = piece :: pieces := by
        obtain ⟨piece', pieces', hcut⟩ := exists_literalPieces_eq_cons text
        rw [htext] at h hnot
        rw [literalPieces, cut_cons hnot, show cut _ text = _ from hcut] at h
        have hdrop : pattern.drop (start + (len + 1)) = text := by
          rw [← Nat.add_assoc, ← List.drop_drop, htext, List.drop_one, List.tail_cons]
        rw [hdrop, hcut]
        simpa using h
      have hdetect := detectPlaceholder_of_not_starts hnot
      rw [List.length_drop, ← Nat.sub_sub] at hdetect
      rw [literalSegmentLoop, if_pos hlt, hdetect, if_neg (by simp), ih hnext, List.length_cons]
      omega

theorem literalSegmentLen_eq {pattern piece : Bytes} {pieces : List Bytes} {start : Nat}
    (h : literalPieces (pattern.drop start) = piece :: pieces) :
    literalSegmentLen pattern start = piece.length := by
  rw [literalSegmentLen, literalSegmentLoop_eq (by simpa using h), Nat.zero_add]

/-- `memchr` over the whole rest of a buffer finds the first occurrence of the byte. -/
theorem memchr_rest (buf : Bytes) (start : Nat) (c : Byte) :
    (memchr buf start c (buf.length - start) = none ∧ c ∉ buf.drop start) ∨
      ∃ found front, memchr buf start c (buf.length - start) = some found ∧
        buf.drop start = front ++ buf.drop found ∧ c ∉ front := by
  have htake : (buf.drop start).take (buf.length - start) = buf.drop start :=
    List.take_of_length_le (by simp)
  rw [memchr, htake]
  cases hfind : (buf.drop start).findIdx? (· == c) with
  | none =>
      refine Or.inl ⟨rfl, fun hmem => ?_⟩
      simpa using List.findIdx?_eq_none_iff.mp hfind c hmem
  | some i =>
      obtain ⟨hlt, -, hbefore⟩ := List.findIdx?_eq_some_iff_getElem.mp hfind
      refine Or.inr ⟨start + i, (buf.drop start).take i, rfl, ?_, ?_⟩
      · rw [← List.drop_drop, List.take_append_drop]
      · intro hmem
        obtain ⟨j, hj, hget⟩ := List.mem_iff_getElem.mp hmem
        rw [List.getElem_take] at hget
        have hji : j < i := by
          rw [List.length_take] at hj
          omega
        simpa [hget] using hbefore j hji

theorem afterFirst_skip {c : Byte} {front : Bytes} (hfront : c ∉ front) (seg word : Bytes) :
    afterFirst (c :: seg) (front ++ word) = afterFirst (c :: seg) word := by
  induction front with
  | nil => rfl
  | cons b front ih =>
      simp only [List.mem_cons, not_or] at hfront
      have hnot : ¬ (c :: seg) <+: b :: (front ++ word) := by
        rw [List.cons_prefix_cons]
        exact fun h => hfront.1 h.1
      rw [List.cons_append, afterFirst_of_not_starts hnot, List.tail_cons, ih hfront.2]

theorem afterFirst_eq_none_of_short {seg word : Bytes} (h : word.length < seg.length) :
    afterFirst seg word = none := by
  cases hfirst : afterFirst seg word with
  | none => rfl
  | some rest =>
      obtain ⟨w, rfl⟩ := afterFirst_eq_some hfirst
      simp at h
      omega

/-- The search moves to behind the leftmost occurrence of the segment. -/
theorem skipToSegment_eq {pattern actual seg tail : Bytes} {segStart actualPos : Nat}
    (hseg : seg ≠ []) (hpat : pattern.drop segStart = seg ++ tail)
    (hpos : actualPos ≤ actual.length) (hbound : actual.length + seg.length < 2 ^ 32) :
    match afterFirst seg (actual.drop actualPos) with
    | none => (skipToSegment pattern segStart seg.length actual actualPos).1 = false
    | some rest =>
        ∃ p, skipToSegment pattern segStart seg.length actual actualPos = (true, p) ∧
          p ≤ actual.length ∧ actual.drop p = rest := by
  obtain ⟨c, seg', rfl⟩ := List.exists_cons_of_ne_nil hseg
  have hc : pattern.getD segStart 0 = c := by
    have hget : (pattern.drop segStart)[0]? = some c := by rw [hpat]; rfl
    rw [List.getElem?_drop, Nat.add_zero] at hget
    simp [List.getD, hget]
  induction hn : actual.length - actualPos using Nat.strong_induction_on generalizing actualPos with
  | _ n ih =>
      have hsum : u32 (actualPos + (c :: seg').length) = actualPos + (c :: seg').length :=
        u32_of_lt (by omega)
      have hrest : u32 (actual.length - actualPos) = actual.length - actualPos :=
        u32_of_lt (by omega)
      by_cases hfits : actualPos + (c :: seg').length ≤ actual.length
      · rcases memchr_rest actual actualPos c with
          ⟨hnone, habsent⟩ | ⟨found, front, hsome, hfront, habsent⟩
        · have hafter : afterFirst (c :: seg') (actual.drop actualPos) = none := by
            simpa [afterFirst] using afterFirst_skip habsent seg' []
          rw [hafter, skipToSegment_of_absent (by rw [hc, hrest, hnone])]
        · have hbounds := memchr_bounds hsome
          have hwrap : u32 (found + (c :: seg').length) = found + (c :: seg').length :=
            u32_of_lt (by omega)
          have hcmp : memcmpEq (actual.drop found) (pattern.drop segStart) (c :: seg').length = true ↔
              (c :: seg') <+: actual.drop found := by
            rw [hpat, ← memcmpEq_iff_starts, memcmpEq, memcmpEq, List.take_left, List.take_length]
          rw [hfront, afterFirst_skip habsent,
            skipToSegment_of_found (by rwa [hsum]) (by rw [hc, hrest, hsome]), hwrap]
          by_cases hlong : found + (c :: seg').length > actual.length
          · rw [if_pos hlong, afterFirst_eq_none_of_short (by rw [List.length_drop]; omega)]
          · rw [if_neg hlong]
            by_cases hhere : (c :: seg') <+: actual.drop found
            · rw [if_pos (hcmp.mpr hhere), afterFirst_of_starts hhere]
              exact ⟨_, rfl, by omega, by rw [List.drop_drop]⟩
            · have htail : (actual.drop found).tail = actual.drop (found + 1) := by
                rw [List.tail_drop]
              rw [if_neg (mt hcmp.mp hhere), afterFirst_of_not_starts hhere, htail]
              exact ih (actual.length - (found + 1)) (by omega) (by omega) rfl
      · rw [skipToSegment_of_long (by rwa [hsum]), afterFirst_eq_none_of_short]
        rw [List.length_drop]
        omega

/-- Behind a literal piece the remaining pattern has an empty first piece. -/
theorem literalPieces_behind {pattern piece : Bytes} {pieces : List Bytes} {start : Nat}
    (h : literalPieces (pattern.drop start) = piece :: pieces) :
    literalPieces (pattern.drop (start + piece.length)) = [] :: pieces ∧
      start + piece.length ≤ max start pattern.length := by
  rw [← List.drop_drop]
  rcases cut_eq_cons placeholderAnyStr_ne_nil h with ⟨htext, rfl⟩ | ⟨rest, htext, rfl⟩
  · refine ⟨by simp [htext, literalPieces], ?_⟩
    have := congrArg List.length htext
    simp at this
    omega
  · refine ⟨by rw [htext, List.drop_left, literalPieces, cut_separator placeholderAnyStr_ne_nil], ?_⟩
    have := congrArg List.length htext
    simp at this
    omega

/-- An empty first piece is the last one exactly at the end of the pattern. -/
theorem pieces_eq_nil_iff {pattern : Bytes} {pieces : List Bytes} {start : Nat}
    (h : literalPieces (pattern.drop start) = [] :: pieces) :
    pieces = [] ↔ pattern.length ≤ start := by
  rcases cut_eq_cons placeholderAnyStr_ne_nil h with ⟨htext, rfl⟩ | ⟨rest, htext, rfl⟩
  · simpa using htext
  · obtain ⟨piece, pieces, hcut⟩ := exists_literalPieces_eq_cons rest
    have hlen := congrArg List.length htext
    simp [placeholderAnyLen] at hlen
    rw [show cut placeholderAnyStr rest = _ from hcut]
    simp
    omega

section Loop
variable {pattern actual : Bytes}

/-- The placeholder step is one round of the scan: either no place is left for the
next piece, or the scan goes on with what remains behind it. -/
theorem matchPlaceholderAny_eq (hbound : pattern.length + actual.length < 2 ^ 32)
    {s : MatchState} (hpp : s.patternPos ≤ pattern.length) (hap : s.actualPos ≤ actual.length)
    {pieces : List Bytes} (h : literalPieces (pattern.drop s.patternPos) = pieces) :
    match matchPlaceholderAny pattern actual s with
    | (false, _) => scan pieces (actual.drop s.actualPos) = false
    | (true, s') => s'.patternPos ≤ pattern.length ∧ s'.actualPos ≤ actual.length ∧
        scan pieces (actual.drop s.actualPos) =
          greedyMatch (literalPieces (pattern.drop s'.patternPos)) (actual.drop s'.actualPos) := by
  obtain ⟨piece, pieces, rfl⟩ : ∃ piece more, pieces = piece :: more := by
    rw [← h]
    exact exists_literalPieces_eq_cons _
  have hlen := literalSegmentLen_eq h
  obtain ⟨hbehind, hfits⟩ := literalPieces_behind h
  by_cases hpiece : piece = []
  · subst hpiece
    have hend := pieces_eq_nil_iff h
    simp only [matchPlaceholderAny, hlen, List.length_nil, if_true]
    by_cases hlast : pieces = []
    · subst hlast
      rw [if_pos (hend.mp rfl)]
      exact ⟨hpp, Nat.le_refl _, by simp [h, scan]⟩
    · rw [if_neg (mt hend.mpr hlast)]
      exact ⟨hpp, hap, by rw [h, greedyMatch_nil_cons, scan, if_neg (by simp [hlast]), afterFirst_nil]⟩
  · have hpos : piece.length ≠ 0 := by simpa using hpiece
    obtain ⟨tail, hpat⟩ : ∃ tail, pattern.drop s.patternPos = piece ++ tail := by
      rcases cut_eq_cons placeholderAnyStr_ne_nil h with ⟨htext, -⟩ | ⟨rest, htext, -⟩
      · exact ⟨[], by simpa using htext⟩
      · exact ⟨_, htext⟩
    have hskip := skipToSegment_eq hpiece hpat hap (by omega)
    simp only [matchPlaceholderAny, hlen, if_neg hpos]
    rw [scan, if_neg (by simp [hpiece])]
    cases hfirst : afterFirst piece (actual.drop s.actualPos) with
    | none =>
        rw [hfirst] at hskip
        cases hmove : skipToSegment pattern s.patternPos piece.length actual s.actualPos with
        | mk found p =>
            rw [hmove] at hskip
            simp only at hskip
            subst hskip
            rfl
    | some rest =>
        rw [hfirst] at hskip
        obtain ⟨p, hmove, hp, hrest⟩ := hskip
        rw [hmove]
        exact ⟨by simpa using Nat.le_trans hfits (by omega), hp, by
          rw [hbehind, greedyMatch_nil_cons, hrest]⟩

/-- A position inside a text stands before its byte. -/
theorem drop_eq_getD_cons {text : Bytes} {n : Nat} (h : n < text.length) :
    text.drop n = text.getD n 0 :: text.drop (n + 1) := by
  rw [List.drop_eq_getElem_cons h, List.getD_eq_getElem?_getD, List.getElem?_eq_getElem h]
  rfl

/-- One round of the main loop, on the texts the two positions leave. -/
theorem matchStep_eq (hbound : pattern.length + actual.length < 2 ^ 32)
    {s : MatchState} (hap : s.actualPos ≤ actual.length) :
    match matchStep pattern actual s with
    | .verdict result =>
        greedyMatch (literalPieces (pattern.drop s.patternPos)) (actual.drop s.actualPos) = result
    | .next s' => s'.patternPos ≤ pattern.length ∧ s'.actualPos ≤ actual.length ∧
        greedyMatch (literalPieces (pattern.drop s.patternPos)) (actual.drop s.actualPos) =
          greedyMatch (literalPieces (pattern.drop s'.patternPos)) (actual.drop s'.actualPos) := by
  by_cases hlt : s.patternPos < pattern.length
  · by_cases hprefix : placeholderAnyStr <+: pattern.drop s.patternPos
    · have hdetect := detectPlaceholder_of_starts hprefix
      obtain ⟨rest, hrest⟩ := hprefix
      have hnext : pattern.drop (s.patternPos + placeholderAnyLen) = rest := by
        rw [← List.drop_drop, ← hrest, ← length_placeholderAnyStr, List.drop_left]
      have hroom : s.patternPos + placeholderAnyLen ≤ pattern.length := by
        have := congrArg List.length hrest
        simp at this
        omega
      have hround := matchPlaceholderAny_eq hbound
        (s := { s with patternPos := s.patternPos + placeholderAnyLen }) hroom hap rfl
      rw [List.length_drop] at hdetect
      rw [← hrest, literalPieces, cut_separator placeholderAnyStr_ne_nil, greedyMatch_nil_cons]
      simp only [hnext] at hround
      simp only [matchStep, if_pos hlt, hdetect]
      cases hm : matchPlaceholderAny pattern actual
          { s with patternPos := s.patternPos + placeholderAnyLen } with
      | mk found s' =>
          rw [hm] at hround
          cases found with
          | false => exact hround
          | true => exact hround
    · have hdetect := detectPlaceholder_of_not_starts hprefix
      rw [List.length_drop] at hdetect
      simp only [matchStep, if_pos hlt, hdetect]
      rw [drop_eq_getD_cons hlt] at hprefix ⊢
      by_cases hend : s.actualPos ≥ actual.length
      · rw [if_pos (Or.inl hend), List.drop_of_length_le hend]
        exact greedyMatch_cut_nil hprefix
      · have hmore := Nat.lt_of_not_le hend
        rw [drop_eq_getD_cons hmore, literalPieces, greedyMatch_cut_cons hprefix]
        by_cases hbyte : pattern.getD s.patternPos 0 = actual.getD s.actualPos 0
        · rw [if_neg (not_or.mpr ⟨hend, not_not.mpr hbyte⟩)]
          refine ⟨hlt, hmore, ?_⟩
          rw [decide_eq_true hbyte, Bool.true_and]
          rfl
        · rw [if_pos (Or.inr hbyte)]
          change (decide _ && _) = false
          rw [decide_eq_false hbyte, Bool.false_and]
  · have hdone : pattern.drop s.patternPos = [] := by simpa using hlt
    simp only [matchStep, if_neg hlt]
    rw [hdone, literalPieces, cut_nil, greedyMatch_nil_cons, scan, Bool.eq_iff_iff]
    simp
    omega

theorem patternMatchLoop_eq (hbound : pattern.length + actual.length < 2 ^ 32)
    {s : MatchState} (hap : s.actualPos ≤ actual.length) :
    patternMatchLoop pattern actual s =
      greedyMatch (literalPieces (pattern.drop s.patternPos)) (actual.drop s.actualPos) := by
  induction hn : pattern.length - s.patternPos using Nat.strong_induction_on generalizing s with
  | _ n ih =>
      have hround := matchStep_eq hbound hap
      cases hstep : matchStep pattern actual s with
      | verdict result =>
          rw [hstep] at hround
          rw [patternMatchLoop_verdict hstep, hround]
      | next s' =>
          rw [hstep] at hround
          obtain ⟨-, hap', hsame⟩ := hround
          have hforward := matchStep_next hstep
          rw [patternMatchLoop_next hstep, hsame]
          exact ih (pattern.length - s'.patternPos) (by omega) hap' rfl

/-- The matcher is the one-pass matcher on the pattern's literal pieces. -/
theorem patternMatch_eq_greedyMatch (hbound : pattern.length + actual.length < 2 ^ 32) :
    patternMatch pattern actual = greedyMatch (literalPieces pattern) actual := by
  simpa [patternMatch] using patternMatchLoop_eq hbound (s := ⟨0, 0⟩) (Nat.zero_le _)

/-- The matcher accepts an instance that ends in a gap or has no shorter instance as a prefix. -/
theorem patternMatch_eq_true_iff (hbound : pattern.length + actual.length < 2 ^ 32) :
    patternMatch pattern actual = true ↔
      IsInstance (literalPieces pattern) actual ∧
        (EndsInGap (literalPieces pattern) ∨
          ∀ p rest, actual = p ++ rest → IsInstance (literalPieces pattern) p → rest = []) := by
  obtain ⟨piece, pieces, hcut⟩ := exists_literalPieces_eq_cons pattern
  rw [patternMatch_eq_greedyMatch hbound, hcut, greedyMatch_eq_true_iff]

end Loop

end JCUnit
