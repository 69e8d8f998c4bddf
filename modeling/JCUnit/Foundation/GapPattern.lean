import Mathlib.Data.List.Basic
import Mathlib.Data.List.Infix

/-!
# Literal pieces separated by gaps, and leftmost placement

A pattern is a nonempty list of literal pieces. A word is an instance when it
is the pieces in order with one arbitrary filler word in each gap. The greedy
scan puts every piece after the first at its leftmost place and never moves it
again. It reaches the shortest instance among the prefixes of the word.
-/

namespace GapPattern

variable {α : Type*}

/-- Write the pieces in order, with one filler word between two neighbours. -/
def weave : List (List α) → List (List α) → List α
  | [], _ => []
  | piece :: _, [] => piece
  | piece :: pieces, w :: ws => piece ++ w ++ weave pieces ws

/-- The word is the pieces in order with one filler for each gap. -/
def IsInstance (pieces : List (List α)) (word : List α) : Prop :=
  ∃ ws, ws.length + 1 = pieces.length ∧ word = weave pieces ws

/-- Every piece preceded by a gap: the word starts with such a text and `rest` remains. -/
def LeavesAfterGaps : List (List α) → List α → List α → Prop
  | [], word, rest => word = rest
  | piece :: pieces, word, rest =>
      ∃ w tail, word = w ++ piece ++ tail ∧ LeavesAfterGaps pieces tail rest

/-- The pattern's last piece is empty and stands behind a gap. -/
def EndsInGap : List (List α) → Prop
  | [] => False
  | [_] => False
  | [_, last] => last = []
  | _ :: piece :: pieces => EndsInGap (piece :: pieces)

theorem isInstance_singleton {piece word : List α} :
    IsInstance [piece] word ↔ word = piece := by
  constructor
  · rintro ⟨ws, hlen, rfl⟩
    have hws : ws = [] := List.length_eq_zero_iff.mp (by simpa using hlen)
    simp [hws, weave]
  · rintro rfl
    exact ⟨[], rfl, rfl⟩

theorem isInstance_cons_cons {piece next word : List α} {pieces : List (List α)} :
    IsInstance (piece :: next :: pieces) word ↔
      ∃ w tail, word = piece ++ w ++ tail ∧ IsInstance (next :: pieces) tail := by
  constructor
  · rintro ⟨ws, hlen, rfl⟩
    cases ws with
    | nil => simp at hlen
    | cons w ws => exact ⟨w, weave (next :: pieces) ws, rfl, ws, by simpa using hlen, rfl⟩
  · rintro ⟨w, tail, rfl, ws, hlen, rfl⟩
    exact ⟨w :: ws, by simpa using hlen, rfl⟩

/-- With nothing in the gaps, the pieces alone are an instance. -/
theorem isInstance_flatten (piece : List α) (pieces : List (List α)) :
    IsInstance (piece :: pieces) (piece :: pieces).flatten := by
  induction pieces generalizing piece with
  | nil => simp [isInstance_singleton]
  | cons next pieces ih =>
      apply isInstance_cons_cons.mpr
      exact ⟨[], (next :: pieces).flatten, by simp, ih next⟩

theorem IsInstance.length_flatten_le {piece word : List α} {pieces : List (List α)}
    (h : IsInstance (piece :: pieces) word) : (piece :: pieces).flatten.length ≤ word.length := by
  induction pieces generalizing piece word with
  | nil =>
      obtain rfl := isInstance_singleton.mp h
      simp
  | cons next pieces ih =>
      obtain ⟨w, tail, rfl, htail⟩ := isInstance_cons_cons.mp h
      have hlength := ih htail
      rw [List.flatten_cons, List.length_append, List.length_append, List.length_append]
      omega

/-- The shortest instance is no longer if something remains behind an instance before it. -/
theorem rest_eq_nil_of_flatten {piece p rest : List α} {pieces : List (List α)}
    (hsplit : (piece :: pieces).flatten = p ++ rest) (hp : IsInstance (piece :: pieces) p) :
    rest = [] := by
  have hlength := hp.length_flatten_le
  rw [hsplit, List.length_append] at hlength
  exact List.eq_nil_of_length_eq_zero (by omega)

theorem endsInGap_of_flatten_eq_nil {piece next : List α} {pieces : List (List α)}
    (h : (next :: pieces).flatten = []) : EndsInGap (piece :: next :: pieces) := by
  induction pieces generalizing piece next with
  | nil => simpa [EndsInGap] using h
  | cons last pieces ih =>
      have hrest : (last :: pieces).flatten = [] := by
        rw [List.flatten_cons, List.append_eq_nil_iff] at h
        exact h.2
      exact ih hrest

/-- A prefix of the word is an instance, told by the text that remains behind it. -/
theorem exists_instance_prefix_iff {piece word rest : List α} {pieces : List (List α)} :
    (∃ p, IsInstance (piece :: pieces) p ∧ word = p ++ rest) ↔
      ∃ tail, word = piece ++ tail ∧ LeavesAfterGaps pieces tail rest := by
  induction pieces generalizing piece word with
  | nil => simp [isInstance_singleton, LeavesAfterGaps]
  | cons next pieces ih =>
      constructor
      · rintro ⟨p, hp, rfl⟩
        obtain ⟨w, tail, rfl, ht⟩ := isInstance_cons_cons.mp hp
        obtain ⟨u, hu, hrest⟩ := ih.mp ⟨tail, ht, rfl⟩
        exact ⟨w ++ (tail ++ rest), by simp, w, u, by simp [hu], hrest⟩
      · rintro ⟨_, rfl, w, u, rfl, hrest⟩
        obtain ⟨p, hp, hu⟩ := ih.mpr ⟨u, rfl, hrest⟩
        exact ⟨piece ++ w ++ p, isInstance_cons_cons.mpr ⟨w, p, rfl, hp⟩, by simp [← hu]⟩

theorem isInstance_iff_leaves_nil {piece word : List α} {pieces : List (List α)} :
    IsInstance (piece :: pieces) word ↔
      ∃ tail, word = piece ++ tail ∧ LeavesAfterGaps pieces tail [] := by
  rw [← exists_instance_prefix_iff]
  simp

/-- An empty last piece lets its gap absorb whatever remained. -/
theorem LeavesAfterGaps.absorb {pieces : List (List α)} {piece word rest : List α}
    (hend : EndsInGap (piece :: pieces)) (h : LeavesAfterGaps pieces word rest) :
    LeavesAfterGaps pieces word [] := by
  induction pieces generalizing piece word with
  | nil => exact hend.elim
  | cons next pieces ih =>
      obtain ⟨w, tail, rfl, ht⟩ := h
      cases pieces with
      | nil =>
          have hnil : next = [] := hend
          exact ⟨w ++ tail, [], by simp [hnil], rfl⟩
      | cons next' pieces => exact ⟨w, tail, rfl, ih hend ht⟩

section Cut
variable [DecidableEq α]

/-- Cut a text at every occurrence of a separator, read from the left. -/
def cut (sep : List α) : List α → List (List α)
  | [] => [[]]
  | a :: text =>
      if sep <+: a :: text then [] :: cut sep (text.drop (sep.length - 1))
      else (cut sep text).modifyHead (a :: ·)
termination_by text => text.length

@[simp] theorem cut_nil (sep : List α) : cut sep [] = [[]] := by
  rw [cut]

theorem cut_separator {sep : List α} (hsep : sep ≠ []) (text : List α) :
    cut sep (sep ++ text) = [] :: cut sep text := by
  cases sep with
  | nil => exact absurd rfl hsep
  | cons a sep =>
      rw [List.cons_append, cut, if_pos (by simp)]
      simp

theorem cut_cons {sep : List α} {a : α} {text : List α} (h : ¬ sep <+: a :: text) :
    cut sep (a :: text) = (cut sep text).modifyHead (a :: ·) := by
  rw [cut, if_neg h]

theorem exists_cut_eq_cons (sep text : List α) : ∃ piece pieces, cut sep text = piece :: pieces := by
  induction text with
  | nil => exact ⟨[], [], cut_nil sep⟩
  | cons a text ih =>
      by_cases h : sep <+: a :: text
      · exact ⟨_, _, by rw [cut, if_pos h]⟩
      · obtain ⟨piece, pieces, hcut⟩ := ih
        exact ⟨a :: piece, pieces, by rw [cut_cons h, hcut]; rfl⟩

/-- The first piece runs up to the end of the text or up to a separator. -/
theorem cut_eq_cons {sep text piece : List α} {pieces : List (List α)} (hsep : sep ≠ [])
    (h : cut sep text = piece :: pieces) :
    (text = piece ∧ pieces = []) ∨
      ∃ rest, text = piece ++ (sep ++ rest) ∧ pieces = cut sep rest := by
  induction text generalizing piece with
  | nil =>
      rw [cut_nil, List.cons.injEq] at h
      exact Or.inl ⟨h.1, h.2.symm⟩
  | cons a text ih =>
      by_cases hp : sep <+: a :: text
      · obtain ⟨rest, hrest⟩ := hp
        rw [← hrest, cut_separator hsep, List.cons.injEq] at h
        exact Or.inr ⟨rest, by simp [← h.1, hrest], h.2.symm⟩
      · obtain ⟨piece', pieces', hcut⟩ := exists_cut_eq_cons sep text
        rw [cut_cons hp, hcut, List.modifyHead_cons, List.cons.injEq] at h
        obtain ⟨rfl, rfl⟩ := h
        rcases ih hcut with ⟨rfl, hnil⟩ | ⟨rest, rfl, hrest⟩
        · exact Or.inl ⟨rfl, hnil⟩
        · exact Or.inr ⟨rest, rfl, hrest⟩

/-- Writing the separator back between the pieces restores the text. -/
theorem intercalate_cut {sep : List α} (hsep : sep ≠ []) (text : List α) :
    sep.intercalate (cut sep text) = text := by
  induction hn : text.length using Nat.strong_induction_on generalizing text with
  | _ n ih =>
      obtain ⟨piece, pieces, hcut⟩ := exists_cut_eq_cons sep text
      rcases cut_eq_cons hsep hcut with ⟨rfl, rfl⟩ | ⟨rest, htext, rfl⟩
      · simp [hcut, List.intercalate]
      · have hlen : rest.length < n := by
          have := List.length_pos_iff.mpr hsep
          simp [← hn, htext]
          omega
        obtain ⟨next, more, hrest⟩ := exists_cut_eq_cons sep rest
        have hjoin := ih rest.length hlen rest rfl
        rw [hrest] at hjoin
        rw [hcut, htext, hrest]
        simp only [List.intercalate, List.intersperse_cons_cons, List.flatten_cons] at hjoin ⊢
        rw [hjoin]

theorem length_flatten_cut_le (sep text : List α) :
    (cut sep text).flatten.length ≤ text.length := by
  induction text using cut.induct sep with
  | case1 => simp
  | case2 a text hstarts ih =>
      rw [cut, if_pos hstarts, List.flatten_cons, List.nil_append, List.length_cons]
      rw [List.length_drop] at ih
      omega
  | case3 a text hstarts ih =>
      obtain ⟨piece, pieces, hcut⟩ := exists_cut_eq_cons sep text
      rw [cut_cons hstarts, hcut, List.modifyHead_cons, List.flatten_cons, List.cons_append,
        List.length_cons, List.length_cons, ← List.flatten_cons, ← hcut]
      omega

end Cut

section Greedy
variable [DecidableEq α]

/-- What remains behind the leftmost occurrence of a piece. -/
def afterFirst (piece : List α) : List α → Option (List α)
  | [] => if piece = [] then some [] else none
  | a :: word =>
      if piece <+: a :: word then some ((a :: word).drop piece.length)
      else afterFirst piece word

@[simp] theorem afterFirst_nil (word : List α) : afterFirst [] word = some word := by
  cases word <;> simp [afterFirst]

theorem afterFirst_of_starts {piece word : List α} (h : piece <+: word) :
    afterFirst piece word = some (word.drop piece.length) := by
  cases word with
  | nil => simp [List.prefix_nil.mp h]
  | cons a word => simp [afterFirst, h]

theorem afterFirst_of_not_starts {piece word : List α} (h : ¬ piece <+: word) :
    afterFirst piece word = afterFirst piece word.tail := by
  cases word with
  | nil => rfl
  | cons a word => simp [afterFirst, h]

theorem afterFirst_eq_some {piece word rest : List α} (h : afterFirst piece word = some rest) :
    ∃ w, word = w ++ piece ++ rest := by
  induction word with
  | nil =>
      by_cases hp : piece = []
      · exact ⟨[], by simp_all [afterFirst]⟩
      · simp [afterFirst, hp] at h
  | cons a word ih =>
      by_cases hp : piece <+: a :: word
      · rw [afterFirst_of_starts hp, Option.some.injEq] at h
        exact ⟨[], by simpa [h] using List.prefix_append_drop hp⟩
      · obtain ⟨w, hw⟩ := ih (by simpa [afterFirst, hp] using h)
        exact ⟨a :: w, by simp [hw]⟩

/-- Any other occurrence of the piece leaves a suffix of what the leftmost one leaves. -/
theorem afterFirst_longest (w piece rest : List α) :
    ∃ longest, afterFirst piece (w ++ piece ++ rest) = some longest ∧ rest <:+ longest := by
  induction w with
  | nil => exact ⟨rest, by simp [afterFirst_of_starts (List.prefix_append piece rest)], by simp⟩
  | cons a w ih =>
      by_cases hp : piece <+: (a :: w) ++ piece ++ rest
      · refine ⟨_, afterFirst_of_starts hp, ?_⟩
        rw [List.drop_append_of_le_length (by simp; omega)]
        exact List.suffix_append _ _
      · obtain ⟨longest, hl, hs⟩ := ih
        exact ⟨longest, by rw [afterFirst_of_not_starts hp]; simpa using hl, hs⟩

/-- Place every piece at its leftmost position behind the previous one. -/
def greedyRest : List (List α) → List α → Option (List α)
  | [], word => some word
  | piece :: pieces, word => (afterFirst piece word).bind (greedyRest pieces)

theorem greedyRest_leaves {pieces : List (List α)} {word rest : List α}
    (h : greedyRest pieces word = some rest) : LeavesAfterGaps pieces word rest := by
  induction pieces generalizing word with
  | nil => exact Option.some.inj h
  | cons piece pieces ih =>
      obtain ⟨tail, hfirst, htail⟩ := Option.bind_eq_some_iff.mp h
      obtain ⟨w, hw⟩ := afterFirst_eq_some hfirst
      exact ⟨w, tail, hw, ih htail⟩

/-- The greedy placement leaves the longest remainder, from any longer starting text too. -/
theorem greedyRest_longest {pieces : List (List α)} {word rest : List α}
    (h : LeavesAfterGaps pieces word rest) (front : List α) :
    ∃ longest, greedyRest pieces (front ++ word) = some longest ∧ rest <:+ longest := by
  induction pieces generalizing word front with
  | nil => exact ⟨front ++ word, rfl, by rw [← show word = rest from h]; exact List.suffix_append _ _⟩
  | cons piece pieces ih =>
      obtain ⟨w, tail, rfl, htail⟩ := h
      obtain ⟨after, hafter, more, rfl⟩ := afterFirst_longest (front ++ w) piece tail
      obtain ⟨longest, hl, hs⟩ := ih htail more
      refine ⟨longest, ?_, hs⟩
      have hshape : front ++ (w ++ piece ++ tail) = front ++ w ++ piece ++ tail := by simp
      rw [greedyRest, hshape, hafter, Option.bind_some, hl]

/-- Decide a text that starts behind a gap: an empty last piece takes all the rest,
any other last piece has to end the text. -/
def scan : List (List α) → List α → Bool
  | [], word => word.isEmpty
  | piece :: pieces, word =>
      if piece = [] ∧ pieces = [] then true
      else
        match afterFirst piece word with
        | none => false
        | some tail => scan pieces tail

theorem scan_eq_true_iff (piece : List α) {word : List α} {pieces : List (List α)} :
    scan pieces word = true ↔
      ∃ rest, greedyRest pieces word = some rest ∧ (rest = [] ∨ EndsInGap (piece :: pieces)) := by
  induction pieces generalizing piece word with
  | nil => simp [scan, greedyRest, EndsInGap]
  | cons next pieces ih =>
      by_cases hlast : next = [] ∧ pieces = []
      · obtain ⟨rfl, rfl⟩ := hlast
        simp [scan, greedyRest, EndsInGap]
      · have hend : EndsInGap (piece :: next :: pieces) ↔ EndsInGap (next :: pieces) := by
          cases pieces with
          | nil => simpa [EndsInGap] using hlast
          | cons next' pieces => rfl
        rw [scan, if_neg hlast, hend, greedyRest]
        cases hfirst : afterFirst next word with
        | none => simp
        | some tail => simpa using ih next

/-- The one-pass matcher: the first piece is anchored, the others are scanned for. -/
def greedyMatch : List (List α) → List α → Bool
  | [], word => word.isEmpty
  | piece :: pieces, word => piece <+: word ∧ scan pieces (word.drop piece.length)

theorem greedyMatch_cons (piece : List α) (pieces : List (List α)) (word : List α) :
    greedyMatch (piece :: pieces) word = true ↔
      ∃ tail, word = piece ++ tail ∧ scan pieces tail = true := by
  simp only [greedyMatch, decide_eq_true_eq]
  constructor
  · rintro ⟨⟨tail, rfl⟩, hscan⟩
    exact ⟨tail, rfl, by simpa using hscan⟩
  · rintro ⟨tail, rfl, hscan⟩
    exact ⟨List.prefix_append _ _, by simpa using hscan⟩

@[simp] theorem greedyMatch_nil_cons (pieces : List (List α)) (word : List α) :
    greedyMatch ([] :: pieces) word = scan pieces word := by
  simp [greedyMatch]

theorem greedyMatch_letter_nil (a : α) (piece : List α) (pieces : List (List α)) :
    greedyMatch ((a :: piece) :: pieces) [] = false := by
  simp [greedyMatch]

theorem greedyMatch_letter_cons (a b : α) (piece : List α) (pieces : List (List α))
    (word : List α) :
    greedyMatch ((a :: piece) :: pieces) (b :: word) =
      (decide (a = b) && greedyMatch (piece :: pieces) word) := by
  simp [greedyMatch, List.cons_prefix_cons, and_assoc, Bool.decide_and]

theorem greedyMatch_cut_nil {sep : List α} {a : α} {text : List α} (h : ¬ sep <+: a :: text) :
    greedyMatch (cut sep (a :: text)) [] = false := by
  obtain ⟨piece, pieces, hcut⟩ := exists_cut_eq_cons sep text
  rw [cut_cons h, hcut, List.modifyHead_cons, greedyMatch_letter_nil]

/-- A letter of the pattern at which no separator starts matches one letter of the word. -/
theorem greedyMatch_cut_cons {sep : List α} {a : α} {text : List α} (h : ¬ sep <+: a :: text)
    (b : α) (word : List α) :
    greedyMatch (cut sep (a :: text)) (b :: word) =
      (decide (a = b) && greedyMatch (cut sep text) word) := by
  obtain ⟨piece, pieces, hcut⟩ := exists_cut_eq_cons sep text
  rw [cut_cons h, hcut, List.modifyHead_cons, greedyMatch_letter_cons]

/-- Exactness of the one-pass matcher: it accepts an instance when the pattern ends
in a gap, and otherwise when no shorter prefix of the word is an instance. -/
theorem greedyMatch_eq_true_iff {piece word : List α} {pieces : List (List α)} :
    greedyMatch (piece :: pieces) word = true ↔
      IsInstance (piece :: pieces) word ∧
        (EndsInGap (piece :: pieces) ∨
          ∀ p rest, word = p ++ rest → IsInstance (piece :: pieces) p → rest = []) := by
  rw [greedyMatch_cons]
  constructor
  · rintro ⟨tail, rfl, hscan⟩
    obtain ⟨rest, hgreedy, hrest⟩ := (scan_eq_true_iff piece).mp hscan
    have hleaves := greedyRest_leaves hgreedy
    rcases hrest with rfl | hend
    · refine ⟨isInstance_iff_leaves_nil.mpr ⟨tail, rfl, hleaves⟩, Or.inr ?_⟩
      intro p rest hsplit hp
      obtain ⟨tail', htail, hleft⟩ := exists_instance_prefix_iff.mp ⟨p, hp, hsplit⟩
      have hsame : tail' = tail := (List.append_cancel_left htail).symm
      subst hsame
      obtain ⟨longest, hlongest, hsuffix⟩ := greedyRest_longest hleft []
      rw [List.nil_append, hgreedy, Option.some.injEq] at hlongest
      subst hlongest
      exact List.suffix_nil.mp hsuffix
    · exact ⟨isInstance_iff_leaves_nil.mpr ⟨tail, rfl, hleaves.absorb hend⟩, Or.inl hend⟩
  · rintro ⟨hinst, hshort⟩
    obtain ⟨tail, rfl, hleaves⟩ := isInstance_iff_leaves_nil.mp hinst
    obtain ⟨longest, hlongest, -⟩ := greedyRest_longest hleaves []
    refine ⟨tail, rfl, (scan_eq_true_iff piece).mpr ⟨longest, hlongest, ?_⟩⟩
    rcases hshort with hend | hmin
    · exact Or.inr hend
    · obtain ⟨p, hp, hsplit⟩ := exists_instance_prefix_iff.mpr
        ⟨tail, rfl, greedyRest_leaves hlongest⟩
      exact Or.inl (hmin p longest hsplit hp)

end Greedy

end GapPattern
