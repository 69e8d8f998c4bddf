import JCUnit.Diff.EditScript
import JCUnit.Foundation.GapText
import JCUnit.Matching.GreedyScan

/-!
# Mismatches that the diff does not show

The verdict matches two whole texts and the diff their lines, from which the final
newline is gone. Where the lines match one by one, the whole texts match unless one
of them ends in a newline and the other does not.
-/

namespace JCUnit
open GapPattern OrderedPairing

/-- The text is one of the pattern's words, wherever its placeholders are filled. -/
abbrev FitsText (pattern actual : Bytes) : Prop := Fits placeholderAnyStr pattern actual

theorem newline_not_mem_placeholder : newline ∉ placeholderAnyStr := by decide

theorem endsInGap_literalPieces_iff {pattern : Bytes} :
    EndsInGap (literalPieces pattern) ↔ placeholderAnyStr <:+ pattern := by
  have hborder : ∀ k < 7, 0 < k → ¬ placeholderAnyStr.drop k <+: placeholderAnyStr := by decide
  apply endsInGap_cut_iff placeholderAnyStr_ne_nil
  intro k hpos hlt
  rw [length_placeholderAnyStr] at hlt
  exact hborder k hlt hpos

/-- The matcher on texts: some filling matches, and the last line of text is not met early. -/
theorem patternMatch_iff_fitsText {pattern actual : Bytes}
    (hbound : pattern.length + actual.length < 2 ^ 32) :
    patternMatch pattern actual = true ↔
      FitsText pattern actual ∧ (placeholderAnyStr <:+ pattern ∨
        ∀ p rest, actual = p ++ rest → FitsText pattern p → rest = []) := by
  rw [patternMatch_eq_true_iff hbound, endsInGap_literalPieces_iff]
  simp only [FitsText, fits_iff_isInstance placeholderAnyStr_ne_nil]
  rfl

/-! ## Texts, line by line -/

theorem endsLine_line_append {line str : Bytes} : EndsLine (line ++ newline :: str) ↔ EndsLine str := by
  rw [endsLine_iff_getLast?, endsLine_iff_getLast?, List.getLast?_append, List.getLast?_cons]
  simp

theorem not_endsLine_open {line : Bytes} (hline : line ≠ []) (h : newline ∉ line) :
    ¬ EndsLine line := by
  rintro (rfl | ⟨front, rfl⟩)
  · exact hline rfl
  · exact h (List.mem_append_right _ (List.mem_singleton_self _))

theorem placeholder_suffix_line_append {line str : Bytes} :
    placeholderAnyStr <:+ line ++ newline :: str ↔ placeholderAnyStr <:+ str := by
  constructor
  · intro h
    rw [← List.reverse_prefix, List.reverse_append, List.reverse_cons, List.append_assoc] at h
    rw [← List.reverse_prefix]
    apply starts_before ?_ h
    decide
  · intro h
    exact h.trans ((List.suffix_cons _ _).trans (List.suffix_append _ _))

/-- A text that starts with a line is one open line, or has the line finished. -/
theorem eq_of_textLines_cons {str line : Bytes} {lines : List Bytes}
    (h : textLines str = line :: lines) :
    (str = line ∧ newline ∉ line ∧ line ≠ [] ∧ lines = []) ∨
      ∃ rest, str = line ++ newline :: rest ∧ newline ∉ line ∧ textLines rest = lines := by
  rcases text_cases str with rfl | ⟨hnil, hopen⟩ | ⟨front, rest, hfront, rfl⟩
  · cases h
  · rw [textLines_open hnil hopen] at h
    obtain ⟨rfl, rfl⟩ := List.cons.inj h
    exact Or.inl ⟨rfl, hopen, hnil, rfl⟩
  · rw [textLines_line_append hfront] at h
    obtain ⟨rfl, rfl⟩ := List.cons.inj h
    exact Or.inr ⟨rest, rfl, hfront, rfl⟩

theorem count_newline_eq {first second : Bytes}
    (hlines : (textLines first).length = (textLines second).length)
    (hend : EndsLine first ↔ EndsLine second) : first.count newline = second.count newline := by
  rw [length_textLines, length_textLines] at hlines
  rw [endsLine_iff_getLast?, endsLine_iff_getLast?] at hend
  by_cases h : first.getLast?.getD newline = newline
  · rw [if_pos h, if_pos (hend.mp h)] at hlines
    omega
  · rw [if_neg h, if_neg (mt hend.mpr h)] at hlines
    omega

/-! ## Lines that match one by one -/

/-- Every expected line fills the actual line at its place. -/
abbrev LinesFit (expected actual : Bytes) : Prop :=
  List.Forall₂ FitsText (textLines expected) (textLines actual)

theorem linesFit_line_append {line expected actual : Bytes} (hline : newline ∉ line)
    (h : LinesFit (line ++ newline :: expected) actual) :
    ∃ front lines, textLines actual = front :: lines ∧ FitsText line front ∧
      List.Forall₂ FitsText (textLines expected) lines := by
  rw [LinesFit, textLines_line_append hline] at h
  obtain ⟨front, lines, hfront, hlines, heq⟩ := List.forall₂_cons_left_iff.mp h
  exact ⟨front, lines, heq, hfront, hlines⟩

/-- Lines that fit make texts that fit, if their ends agree or a placeholder is at the end. -/
theorem fitsText_of_linesFit {expected actual : Bytes} (h : LinesFit expected actual)
    (hend : (EndsLine expected ↔ EndsLine actual) ∨ placeholderAnyStr <:+ expected) :
    FitsText expected actual := by
  induction expected using text_induction generalizing actual with
  | nil =>
      have hnil : actual = [] := textLines_eq_nil_iff.mp (List.forall₂_nil_left_iff.mp h)
      rw [hnil]
      exact Fits.nil
  | last line hline hopen =>
      rw [LinesFit, textLines_open hline hopen] at h
      obtain ⟨front, lines, hfront, hlines, heq⟩ := List.forall₂_cons_left_iff.mp h
      rw [List.forall₂_nil_left_iff.mp hlines] at heq
      rcases eq_of_textLines_cons heq with ⟨rfl, -⟩ | ⟨rest, rfl, -, hrest⟩
      · exact hfront
      · rw [textLines_eq_nil_iff.mp hrest] at hend ⊢
        have hgap : placeholderAnyStr <:+ line := by
          apply hend.resolve_left
          intro hsame
          exact not_endsLine_open hline hopen (hsame.mpr (Or.inr ⟨front, rfl⟩))
        exact hfront.absorb placeholderAnyStr_ne_nil (endsInGap_literalPieces_iff.mpr hgap) _
  | finished line expected hline ih =>
      obtain ⟨front, lines, heq, hfront, hlines⟩ := linesFit_line_append hline h
      rw [endsLine_line_append, placeholder_suffix_line_append] at hend
      rcases eq_of_textLines_cons heq with ⟨rfl, hopen, hnil, rfl⟩ | ⟨rest, rfl, hopen, rfl⟩
      · -- nothing is left to expect behind the line, so the ends differ
        have hempty := textLines_eq_nil_iff.mp (List.forall₂_nil_right_iff.mp hlines)
        subst hempty
        rcases hend with hsame | hgap
        · exact absurd (hsame.mp (Or.inl rfl)) (not_endsLine_open hnil hopen)
        · exact absurd (List.suffix_nil.mp hgap) placeholderAnyStr_ne_nil
      · rw [endsLine_line_append] at hend
        exact hfront.append newline_not_mem_placeholder placeholderAnyStr_ne_nil (ih hlines hend)

/-- Texts that fit without a placeholder at the end agree in their ends. -/
theorem endsLine_iff_of_fitsText {expected actual : Bytes} (h : FitsText expected actual)
    (hend : ¬ placeholderAnyStr <:+ expected) : EndsLine expected ↔ EndsLine actual := by
  by_cases hnil : expected = []
  · subst hnil
    rw [(fits_nil_iff placeholderAnyStr_ne_nil).mp h]
  · rw [endsLine_iff_getLast?, endsLine_iff_getLast?,
      h.getLast?_eq placeholderAnyStr_ne_nil hnil hend]

/-- No line of the actual text is met early, the last one included. -/
def LinesFitWhole (expected actual : Bytes) : Prop :=
  List.Forall₂ (fun e a => FitsText e a ∧ (placeholderAnyStr <:+ e ∨
    ∀ p rest, a = p ++ rest → FitsText e p → rest = [])) (textLines expected) (textLines actual)

/-- A text whose lines fit and whose end agrees has no shorter prefix that fits. -/
theorem rest_eq_nil_of_linesFit {expected actual p rest : Bytes}
    (h : LinesFitWhole expected actual) (hsame : EndsLine expected ↔ EndsLine actual)
    (hend : ¬ placeholderAnyStr <:+ expected) (hsplit : actual = p ++ rest)
    (hp : FitsText expected p) : rest = [] := by
  induction expected using text_induction generalizing actual p with
  | nil =>
      have hnil : actual = [] := textLines_eq_nil_iff.mp (List.forall₂_nil_left_iff.mp h)
      exact (List.append_eq_nil_iff.mp (hsplit.symm.trans hnil)).2
  | last line hline hopen =>
      rw [LinesFitWhole, textLines_open hline hopen] at h
      obtain ⟨front, lines, ⟨-, hwhole⟩, hlines, heq⟩ := List.forall₂_cons_left_iff.mp h
      rw [List.forall₂_nil_left_iff.mp hlines] at heq
      rcases eq_of_textLines_cons heq with ⟨rfl, -⟩ | ⟨behind, rfl, -, hbehind⟩
      · exact hwhole.resolve_left hend p rest hsplit hp
      · rw [textLines_eq_nil_iff.mp hbehind] at hsame
        exact absurd (hsame.mpr (Or.inr ⟨front, rfl⟩)) (not_endsLine_open hline hopen)
  | finished line expected hline ih =>
      have hcount := count_newline_eq h.length_eq hsame
      rw [LinesFitWhole, textLines_line_append hline] at h
      obtain ⟨front, lines, ⟨hfront, -⟩, hlines, heq⟩ := List.forall₂_cons_left_iff.mp h
      rw [endsLine_line_append] at hsame
      rw [placeholder_suffix_line_append] at hend
      rcases eq_of_textLines_cons heq with ⟨rfl, hopen, hnil, rfl⟩ | ⟨behind, rfl, hopen, rfl⟩
      · have hempty := textLines_eq_nil_iff.mp (List.forall₂_nil_right_iff.mp hlines)
        subst hempty
        exact absurd (hsame.mp (Or.inl rfl)) (not_endsLine_open hnil hopen)
      · rw [endsLine_line_append] at hsame
        have hfew : p.count newline ≤ (line ++ newline :: expected).count newline := by
          rw [hcount, hsplit, List.count_append]
          exact Nat.le_add_right _ _
        obtain ⟨start, back, rfl, hstart, -, hback⟩ :=
          hp.split newline_not_mem_placeholder hline hfew
        -- the first newlines of the text and of its prefix are the same one
        have hcut : front = start ∧ behind = back ++ rest := by
          rw [List.append_assoc, List.cons_append] at hsplit
          exact append_cons_inj_first hopen hstart hsplit
        exact ih hlines hsame hend hcut.2 hback

/-! ## The verdict and the diff -/

/-- Each expected line matches the actual line at its place, and no line is left. -/
def linesMatch (expected actual : Bytes) : Prop :=
  List.Forall₂ (fun e a => patternMatch e a = true) (textLines expected) (textLines actual)

theorem length_le_of_mem_textLines {str line : Bytes} (h : line ∈ textLines str) :
    line.length ≤ str.length := by
  induction str using text_induction with
  | nil => cases h
  | last str hline hopen =>
      rw [textLines_open hline hopen, List.mem_singleton] at h
      rw [h]
  | finished front rest hfront ih =>
      rw [textLines_line_append hfront, List.mem_cons] at h
      rw [List.length_append, List.length_cons]
      rcases h with rfl | hrest
      · omega
      · have hle := ih hrest
        omega

theorem linesMatch_iff {expected actual : Bytes}
    (hbound : expected.length + actual.length < 2 ^ 32) :
    linesMatch expected actual ↔ LinesFitWhole expected actual := by
  rw [linesMatch, LinesFitWhole, List.forall₂_iff_get, List.forall₂_iff_get]
  apply and_congr_right
  intro _
  constructor
  · intro h i h₁ h₂
    have he := length_le_of_mem_textLines (List.get_mem (textLines expected) ⟨i, h₁⟩)
    have ha := length_le_of_mem_textLines (List.get_mem (textLines actual) ⟨i, h₂⟩)
    exact (patternMatch_iff_fitsText (by omega)).mp (h i h₁ h₂)
  · intro h i h₁ h₂
    have he := length_le_of_mem_textLines (List.get_mem (textLines expected) ⟨i, h₁⟩)
    have ha := length_le_of_mem_textLines (List.get_mem (textLines actual) ⟨i, h₂⟩)
    exact (patternMatch_iff_fitsText (by omega)).mpr (h i h₁ h₂)

/-- Where the lines match one by one, the whole texts match if their ends agree or the expected
text ends in a placeholder, and only then. -/
theorem patternMatch_iff_of_linesMatch {expected actual : Bytes}
    (hbound : expected.length + actual.length < 2 ^ 32) (h : linesMatch expected actual) :
    patternMatch expected actual = true ↔
      (EndsLine expected ↔ EndsLine actual) ∨ placeholderAnyStr <:+ expected := by
  have hwhole := (linesMatch_iff hbound).mp h
  have hfit : LinesFit expected actual := hwhole.imp fun _ _ hline => hline.1
  rw [patternMatch_iff_fitsText hbound]
  constructor
  · rintro ⟨hfits, -⟩
    by_cases hgap : placeholderAnyStr <:+ expected
    · exact Or.inr hgap
    · exact Or.inl (endsLine_iff_of_fitsText hfits hgap)
  · intro hend
    refine ⟨fitsText_of_linesFit hfit hend, ?_⟩
    by_cases hgap : placeholderAnyStr <:+ expected
    · exact Or.inl hgap
    · right
      intro p rest hsplit hp
      exact rest_eq_nil_of_linesFit hwhole (hend.resolve_right hgap) hgap hsplit hp

theorem linesMatch_iff_lineMatches {expected actual : Bytes} :
    linesMatch expected actual ↔ (textLines expected).length = (textLines actual).length ∧
      ∀ k < (textLines expected).length,
        lineMatches (textLines expected) (textLines actual) k k = true := by
  rw [linesMatch, List.forall₂_iff_get]
  apply and_congr_right
  intro hlength
  constructor
  · intro h k hk
    have hline := h k hk (hlength ▸ hk)
    simpa [lineMatches, List.getElem?_eq_getElem hk, List.getElem?_eq_getElem (hlength ▸ hk)]
      using hline
  · intro h k h₁ h₂
    have hline := h k h₁
    simpa [lineMatches, List.getElem?_eq_getElem h₁, List.getElem?_eq_getElem h₂] using hline

/-- The walk keeps every line for exactly the texts whose lines match one by one. -/
theorem walkedLines_all_keep_iff {expected actual : Bytes}
    (hbound : ((textLines expected).length + 1) * ((textLines actual).length + 1) < 2 ^ 32) :
    (∀ line ∈ walkedLines (some expected) (some actual), line.1 = .keep) ↔
      linesMatch expected actual := by
  obtain ⟨s, ps, hemitted, hscript, hlen⟩ :=
    walkedLines_eq_script (some expected) (some actual) hbound
  simp only [Option.getD_some] at hscript hlen
  have hactions : (∀ line ∈ walkedLines (some expected) (some actual), line.1 = .keep) ↔
      ∀ e ∈ s, e.1 = .keep := by
    rw [hemitted, List.forall_mem_map]
    exact Iff.rfl
  rw [hactions, linesMatch_iff_lineMatches]
  constructor
  · exact hscript.diagonal
  · rintro ⟨hsame, hall⟩
    rw [← hsame] at hscript hlen
    apply hscript.all_keep
    have hbest := (isPairing_diagonal hall).length_le_best
    rw [List.length_map, List.length_range] at hbest
    have hkept := hscript.length_kept
    have hfew : (s.filter fun e => e.1 = .keep).length ≤ (s.filter fun e => e.1 ≠ .add).length := by
      rw [← List.countP_eq_length_filter, ← List.countP_eq_length_filter]
      apply List.countP_mono_left
      intro e _ hkeep
      rw [of_decide_eq_true hkeep]
      decide
    have hsource := congrArg List.length hscript.source_eq
    rw [List.length_map, List.length_range] at hsource
    omega

/-- A mismatch is visible if and only if the diff fits a blob of the memory pool and the texts
differ in more than a newline at the end: they hide where their lines match one by one, one of the
two ends in a newline and the other does not, and the expected text does not end in a placeholder.
The texts the runner compares have fewer than 8192 bytes. -/
theorem mismatch_visible_iff {expected actual : Bytes}
    (hlength : expected.length + actual.length < 2 ^ 32)
    (hmismatch : patternMatch expected actual = false) :
    (∃ emitted, diffLines (some expected) (some actual) = .ok emitted ∧
      ∃ line ∈ emitted, line.1 = .add ∨ line.1 = .remove) ↔
    DiffFits expected actual ∧
      ((EndsLine expected ↔ EndsLine actual) ∨ placeholderAnyStr <:+ expected ∨
        ¬ linesMatch expected actual) := by
  rw [exists_diffLines_iff, Option.getD_some, Option.getD_some]
  apply and_congr_right
  intro hfits
  have hvisible : (∃ line ∈ walkedLines (some expected) (some actual),
      line.1 = .add ∨ line.1 = .remove) ↔ ¬ linesMatch expected actual := by
    rw [← walkedLines_all_keep_iff hfits.bound, not_forall]
    apply exists_congr
    intro line
    rw [Classical.not_imp]
    apply and_congr_right
    intro _
    cases line.1 <;> simp
  rw [hvisible]
  by_cases hlines : linesMatch expected actual
  · have hwhole := patternMatch_iff_of_linesMatch hlength hlines
    rw [hmismatch] at hwhole
    tauto
  · simp [hlines]

theorem mismatch_visible_iff_changed_line :
    ∃ emitted, diffLines (some (ascii "a\nb")) (some (ascii "a\nc")) = .ok emitted ∧
      ∃ line ∈ emitted, line.1 = .add ∨ line.1 = .remove := by
  have hends : EndsLine (ascii "a\nb") ↔ EndsLine (ascii "a\nc") := by
    rw [endsLine_iff_getLast?, endsLine_iff_getLast?]
    decide
  exact (mismatch_visible_iff (by decide) (by decide +kernel)).mpr
    ⟨by decide +kernel, Or.inl hends⟩

/-- The lost newline at the end of the output. -/
theorem final_newline_mismatch_hidden :
    ¬ ∀ expected actual : Bytes, expected.length + actual.length < 2 ^ 32 →
      patternMatch expected actual = false →
      ∃ emitted, diffLines (some expected) (some actual) = .ok emitted ∧
        ∃ line ∈ emitted, line.1 = .add ∨ line.1 = .remove := by
  intro h
  obtain ⟨emitted, hemitted, line, hmem, haction⟩ :=
    h (ascii "a\n") (ascii "a") (by decide) (by decide +kernel)
  have hlines : diffLines (some (ascii "a\n")) (some (ascii "a")) = .ok [(.keep, ascii "a")] := by
    decide +kernel
  cases hlines.symm.trans hemitted
  obtain rfl := List.mem_singleton.mp hmem
  revert haction
  decide

end JCUnit
