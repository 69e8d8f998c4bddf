import JCUnit.Foundation.GapPattern

/-!
# Words of a text with gaps, read from the left

A text in which every occurrence of a separator is a gap, read letter by letter: the
same words as the instances of its pieces. Around a letter that no separator contains,
texts and words can be put together, and be taken apart where the word has no more of
these letters than the text.
-/

namespace GapPattern

variable {α : Type*} {sep text word : List α}

/-- The word is the text with a filler for each separator. -/
inductive Fits (sep : List α) : List α → List α → Prop
  | nil : Fits sep [] []
  | gap {text word : List α} (filler : List α) (h : Fits sep text word) :
      Fits sep (sep ++ text) (filler ++ word)
  | letter {a : α} {text word : List α} (hstart : ¬ sep <+: a :: text) (h : Fits sep text word) :
      Fits sep (a :: text) (a :: word)

/-! ## The pieces of the text -/

theorem isInstance_letter {a : α} {piece : List α} {pieces : List (List α)} :
    IsInstance ((a :: piece) :: pieces) (a :: word) ↔ IsInstance (piece :: pieces) word := by
  cases pieces with
  | nil => simp [isInstance_singleton]
  | cons next pieces => simp [isInstance_cons_cons]

theorem exists_letter_of_isInstance {a : α} {piece : List α} {pieces : List (List α)}
    (h : IsInstance ((a :: piece) :: pieces) word) : ∃ rest, word = a :: rest := by
  cases pieces with
  | nil => exact ⟨piece, isInstance_singleton.mp h⟩
  | cons next pieces =>
      obtain ⟨w, tail, rfl, -⟩ := isInstance_cons_cons.mp h
      exact ⟨piece ++ w ++ tail, by simp⟩

theorem isInstance_gap {piece : List α} {pieces : List (List α)} :
    IsInstance ([] :: piece :: pieces) word ↔
      ∃ filler rest, word = filler ++ rest ∧ IsInstance (piece :: pieces) rest := by
  simp [isInstance_cons_cons]

section Pieces
variable [DecidableEq α]

/-- Reading the text from the left gives the instances of its pieces. -/
theorem fits_iff_isInstance (hsep : sep ≠ []) :
    Fits sep text word ↔ IsInstance (cut sep text) word := by
  constructor
  · intro h
    induction h with
    | nil => simp [isInstance_singleton]
    | @gap text word filler h ih =>
        obtain ⟨piece, pieces, hcut⟩ := exists_cut_eq_cons sep text
        rw [cut_separator hsep, hcut]
        exact isInstance_gap.mpr ⟨filler, word, rfl, hcut ▸ ih⟩
    | @letter a text word hstart h ih =>
        obtain ⟨piece, pieces, hcut⟩ := exists_cut_eq_cons sep text
        rw [cut_cons hstart, hcut]
        exact isInstance_letter.mpr (hcut ▸ ih)
  · intro h
    induction hn : text.length using Nat.strong_induction_on generalizing text word with
    | _ n ih =>
        cases text with
        | nil =>
            rw [cut_nil] at h
            rw [isInstance_singleton.mp h]
            exact Fits.nil
        | cons a text =>
            by_cases hstart : sep <+: a :: text
            · obtain ⟨rest, hrest⟩ := hstart
              obtain ⟨piece, pieces, hcut⟩ := exists_cut_eq_cons sep rest
              have hshort : rest.length < n := by
                have hpos := List.length_pos_iff.mpr hsep
                rw [← hn, ← hrest, List.length_append]
                omega
              rw [← hrest, cut_separator hsep, hcut] at h
              obtain ⟨filler, tail, rfl, htail⟩ := isInstance_gap.mp h
              rw [← hrest]
              exact Fits.gap filler (ih rest.length hshort (hcut ▸ htail) rfl)
            · obtain ⟨piece, pieces, hcut⟩ := exists_cut_eq_cons sep text
              rw [cut_cons hstart, hcut] at h
              obtain ⟨rest, rfl⟩ := exists_letter_of_isInstance h
              apply Fits.letter hstart
              apply ih text.length ?_ ?_ rfl
              · rw [← hn, List.length_cons]
                exact Nat.lt_succ_self _
              · rw [hcut]
                exact isInstance_letter.mp h

end Pieces

/-! ## Around a letter outside of the separator -/

variable {c : α}

/-- A separator in front of the letter ends before it. -/
theorem starts_before (hc : c ∉ sep) {behind : List α} (h : sep <+: text ++ c :: behind) :
    sep <+: text := by
  rcases List.prefix_or_prefix_of_prefix h (List.prefix_append text (c :: behind)) with
    hinside | ⟨rest, rfl⟩
  · exact hinside
  · rw [List.prefix_append_right_inj] at h
    cases rest with
    | nil => simp
    | cons b rest =>
        obtain rfl := (List.cons_prefix_cons.mp h).1
        exact absurd (List.mem_append_right _ List.mem_cons_self) hc

theorem not_starts_letter (hc : c ∉ sep) (hsep : sep ≠ []) : ¬ sep <+: c :: text := by
  intro h
  cases sep with
  | nil => exact hsep rfl
  | cons a sep =>
      obtain rfl := (List.cons_prefix_cons.mp h).1
      exact hc List.mem_cons_self

/-- Two texts with the letter between them fit two words with the letter between them. -/
theorem Fits.append (hc : c ∉ sep) (hsep : sep ≠ []) {behind behindWord : List α}
    (h : Fits sep text word) (hbehind : Fits sep behind behindWord) :
    Fits sep (text ++ c :: behind) (word ++ c :: behindWord) := by
  induction h with
  | nil => exact Fits.letter (not_starts_letter hc hsep) hbehind
  | gap filler _ ih =>
      rw [List.append_assoc, List.append_assoc]
      exact Fits.gap filler ih
  | letter hstart _ ih =>
      apply Fits.letter ?_ ih
      intro hbegins
      exact hstart (starts_before hc hbegins)

/-- The part before the first of these letters, and the part behind it. -/
theorem append_cons_inj_first {front back front' back' : List α} (hfront : c ∉ front)
    (hfront' : c ∉ front') (h : front ++ c :: back = front' ++ c :: back') :
    front = front' ∧ back = back' := by
  induction front generalizing front' with
  | nil =>
      cases front' with
      | nil => exact ⟨rfl, (List.cons.inj h).2⟩
      | cons a front' => exact absurd ((List.cons.inj h).1 ▸ List.mem_cons_self) hfront'
  | cons b front ih =>
      cases front' with
      | nil => exact absurd ((List.cons.inj h).1 ▸ List.mem_cons_self) hfront
      | cons a front' =>
          obtain ⟨rfl, hrest⟩ := List.cons.inj h
          obtain ⟨rfl, rfl⟩ := ih (fun hmem => hfront (List.mem_cons_of_mem _ hmem))
            (fun hmem => hfront' (List.mem_cons_of_mem _ hmem)) hrest
          exact ⟨rfl, rfl⟩

section Count
variable [DecidableEq α]

/-- A word has at least the letters of its text. -/
theorem Fits.count_le (hc : c ∉ sep) (h : Fits sep text word) : text.count c ≤ word.count c := by
  induction h with
  | nil => exact le_rfl
  | gap filler _ ih =>
      rw [List.count_append, List.count_append, List.count_eq_zero.mpr hc, Nat.zero_add]
      exact ih.trans (Nat.le_add_left _ _)
  | letter _ _ ih =>
      rw [List.count_cons, List.count_cons]
      exact Nat.add_le_add_right ih _

/-- A word with no more of these letters than its text has its first one where the text has it. -/
theorem Fits.split (hc : c ∉ sep) {line behind : List α} (hline : c ∉ line)
    (h : Fits sep (line ++ c :: behind) word)
    (hcount : word.count c ≤ (line ++ c :: behind).count c) :
    ∃ front back, word = front ++ c :: back ∧ c ∉ front ∧ Fits sep line front ∧
      Fits sep behind back := by
  generalize htext : line ++ c :: behind = text at h hcount
  induction h generalizing line with
  | nil => simp at htext
  | @gap text word filler h ih =>
      have hstart : sep <+: line := starts_before hc (htext ▸ List.prefix_append sep text)
      obtain ⟨rest, rfl⟩ := hstart
      rw [List.append_assoc, List.append_cancel_left_eq] at htext
      have hrest : c ∉ rest := fun hmem => hline (List.mem_append_right _ hmem)
      have hmore := h.count_le hc
      rw [List.count_append, List.count_append, List.count_eq_zero.mpr hc] at hcount
      have hfiller : c ∉ filler := List.count_eq_zero.mp (by omega)
      obtain ⟨front, back, rfl, hfront, hfits, hback⟩ := ih hrest htext (by omega)
      refine ⟨filler ++ front, back, (List.append_assoc _ _ _).symm, ?_, Fits.gap filler hfits, hback⟩
      intro hmem
      exact (List.mem_append.mp hmem).elim hfiller hfront
  | @letter a text word hstart h ih =>
      cases line with
      | nil =>
          rw [List.nil_append, List.cons.injEq] at htext
          obtain ⟨rfl, rfl⟩ := htext
          exact ⟨[], word, rfl, List.not_mem_nil, Fits.nil, h⟩
      | cons b line =>
          rw [List.cons_append, List.cons.injEq] at htext
          obtain ⟨rfl, rfl⟩ := htext
          have hrest : c ∉ line := fun hmem => hline (List.mem_cons_of_mem _ hmem)
          have hb : b ≠ c := fun heq => hline (heq ▸ List.mem_cons_self)
          rw [List.count_cons_of_ne hb, List.count_cons_of_ne hb] at hcount
          obtain ⟨front, back, rfl, hfront, hfits, hback⟩ := ih hrest rfl hcount
          refine ⟨b :: front, back, rfl, ?_, Fits.letter ?_ hfits, hback⟩
          · intro hmem
            exact (List.mem_cons.mp hmem).elim (fun heq => hb heq.symm) hfront
          · intro hbegins
            exact hstart (hbegins.trans (List.prefix_append _ _))

end Count

/-! ## The end of the text -/

theorem fits_nil_iff (hsep : sep ≠ []) : Fits sep [] word ↔ word = [] := by
  constructor
  · intro h
    generalize htext : ([] : List α) = text at h
    cases h with
    | nil => rfl
    | gap filler h => exact absurd (List.append_eq_nil_iff.mp htext.symm).1 hsep
    | letter hstart h => cases htext
  · rintro rfl
    exact Fits.nil

/-- A text that does not end in a gap ends like each of its words. -/
theorem Fits.getLast?_eq (hsep : sep ≠ []) (h : Fits sep text word) (htext : text ≠ [])
    (hend : ¬ sep <:+ text) : word.getLast? = text.getLast? := by
  induction h with
  | nil => exact absurd rfl htext
  | @gap text word filler h ih =>
      have hmore : text ≠ [] := by
        rintro rfl
        exact hend (by simp)
      have hlast := ih hmore fun hsuffix => hend (hsuffix.trans (List.suffix_append _ _))
      have hword : word ≠ [] := by
        rintro rfl
        exact hmore (List.getLast?_eq_none_iff.mp hlast.symm)
      rw [List.getLast?_append_of_ne_nil _ hword, List.getLast?_append_of_ne_nil _ hmore, hlast]
  | @letter a text word hstart h ih =>
      by_cases hmore : text = []
      · subst hmore
        rw [(fits_nil_iff hsep).mp h]
      · have hlast := ih hmore fun hsuffix => hend (hsuffix.trans (List.suffix_cons _ _))
        have hword : word ≠ [] := by
          rintro rfl
          exact hmore (List.getLast?_eq_none_iff.mp hlast.symm)
        obtain ⟨b, text, rfl⟩ := List.exists_cons_of_ne_nil hmore
        obtain ⟨d, word, rfl⟩ := List.exists_cons_of_ne_nil hword
        rw [List.getLast?_cons_cons, List.getLast?_cons_cons, hlast]

theorem endsInGap_letter {a : α} {piece : List α} {pieces : List (List α)} :
    EndsInGap ((a :: piece) :: pieces) ↔ EndsInGap (piece :: pieces) := by
  cases pieces with
  | nil => exact Iff.rfl
  | cons next pieces => cases pieces <;> exact Iff.rfl

section Absorb
variable [DecidableEq α]

theorem endsInGap_gap (hsep : sep ≠ []) :
    EndsInGap ([] :: cut sep text) ↔ text = [] ∨ EndsInGap (cut sep text) := by
  obtain ⟨piece, pieces, hcut⟩ := exists_cut_eq_cons sep text
  rw [hcut]
  cases pieces with
  | nil =>
      have hwhole := intercalate_cut hsep text
      rw [hcut] at hwhole
      have hpiece : piece = text := by simpa [List.intercalate] using hwhole
      rw [hpiece]
      simp [EndsInGap]
  | cons next pieces =>
      have htext : text ≠ [] := by
        rintro rfl
        rw [cut_nil] at hcut
        cases hcut
      constructor
      · exact Or.inr
      · intro h
        exact h.resolve_left htext

/-- A separator that does not overlap itself ends a text exactly where its pieces end in a gap. -/
theorem endsInGap_cut_iff (hsep : sep ≠ [])
    (hborder : ∀ k, 0 < k → k < sep.length → ¬ sep.drop k <+: sep) :
    EndsInGap (cut sep text) ↔ sep <:+ text := by
  induction text using cut.induct sep with
  | case1 => simp [EndsInGap, hsep]
  | case2 a text hstart ih =>
      obtain ⟨rest, hrest⟩ := hstart
      have hdrop : text.drop (sep.length - 1) = rest := by
        cases sep with
        | nil => exact absurd rfl hsep
        | cons b sep =>
            obtain ⟨-, rfl⟩ := List.cons.inj hrest
            simp
      rw [hdrop] at ih
      rw [← hrest, cut_separator hsep, endsInGap_gap hsep, ih]
      constructor
      · rintro (rfl | hsuffix)
        · simp
        · exact hsuffix.trans (List.suffix_append _ _)
      · intro hsuffix
        rcases List.suffix_or_suffix_of_suffix hsuffix (List.suffix_append sep rest) with
          hinside | ⟨front, hfront⟩
        · exact Or.inr hinside
        by_cases hnil : rest = []
        · exact Or.inl hnil
        by_cases hfrontNil : front = []
        · rw [hfrontNil, List.nil_append] at hfront
          exact Or.inr (hfront ▸ List.suffix_refl _)
        -- the separator at the end would overlap the one in front
        obtain ⟨before, hbefore⟩ := hsuffix
        have hlength := congrArg List.length hbefore
        rw [List.length_append, List.length_append] at hlength
        have hfrontLength := congrArg List.length hfront
        rw [List.length_append] at hfrontLength
        have hpos := List.length_pos_iff.mpr hnil
        have hfrontPos := List.length_pos_iff.mpr hfrontNil
        exfalso
        apply hborder before.length (by omega) (by omega)
        have hshift := congrArg (List.drop before.length) hbefore
        rw [List.drop_left, List.drop_append_of_le_length (by omega)] at hshift
        exact ⟨rest, hshift.symm⟩
  | case3 a text hstart ih =>
      obtain ⟨piece, pieces, hcut⟩ := exists_cut_eq_cons sep text
      rw [cut_cons hstart, hcut, List.modifyHead_cons, endsInGap_letter, ← hcut, ih]
      constructor
      · intro hsuffix
        exact hsuffix.trans (List.suffix_cons _ _)
      · intro hsuffix
        rcases List.suffix_cons_iff.mp hsuffix with hwhole | hinside
        · exact absurd (hwhole ▸ List.prefix_refl _) hstart
        · exact hinside

/-- A gap at the end takes whatever follows. -/
theorem Fits.absorb (hsep : sep ≠ []) (hend : EndsInGap (cut sep text)) (h : Fits sep text word)
    (rest : List α) : Fits sep text (word ++ rest) := by
  rw [fits_iff_isInstance hsep] at h ⊢
  obtain ⟨piece, pieces, hcut⟩ := exists_cut_eq_cons sep text
  rw [hcut] at h hend ⊢
  obtain ⟨tail, htail, hleaves⟩ := exists_instance_prefix_iff.mp ⟨word, h, rfl⟩
  exact isInstance_iff_leaves_nil.mpr ⟨tail, htail, hleaves.absorb hend⟩

end Absorb

end GapPattern
