import JCUnit.Text.Bytes
import Mathlib.Logic.Function.Basic

/-!
# Splitting a text into lines

`split_lines` counts the lines in one pass and fills that many descriptors in a
second one. A descriptor is an offset into the text and a length. The allocated
array is read as a memory of optional entries, so that an entry which is never
written, or written beyond the count, would be visible.
-/

namespace JCUnit

def newline : Byte := 10

structure DiffLine where
  start : Nat
  len : Nat
deriving DecidableEq

structure DiffLines where
  lines : Nat → Option DiffLine
  count : Nat

/-- The bytes a descriptor stands for. -/
def DiffLine.text (str : Bytes) (line : DiffLine) : Bytes :=
  (str.drop line.start).take line.len

def countLines (str : Bytes) : Nat :=
  if str.length = 0 then 0
  else
    let count := str.foldl (fun count b => if b = newline then count + 1 else count) 0
    if str.length > 0 ∧ str.getD (str.length - 1) 0 ≠ newline then count + 1 else count

/-- The variables of the loop in `split_lines`. -/
structure SplitState where
  lines : Nat → Option DiffLine
  lineIdx : Nat
  lineStart : Nat

def splitStep (str : Bytes) (st : SplitState) (i : Nat) : SplitState :=
  if str.getD i 0 = newline then
    { lines := Function.update st.lines st.lineIdx (some ⟨st.lineStart, i - st.lineStart⟩)
      lineIdx := st.lineIdx + 1
      lineStart := i + 1 }
  else st

/-- The loop after its first `n` rounds. -/
def splitLoop (str : Bytes) (n : Nat) : SplitState :=
  (List.range n).foldl (splitStep str) ⟨fun _ => none, 0, 0⟩

def splitLines (str : Bytes) : DiffLines :=
  let lineCount := countLines str
  if lineCount = 0 then ⟨fun _ => none, lineCount⟩
  else
    let st := splitLoop str str.length
    if st.lineStart < str.length then
      ⟨Function.update st.lines st.lineIdx (some ⟨st.lineStart, str.length - st.lineStart⟩), lineCount⟩
    else ⟨st.lines, lineCount⟩

/-- The lines of a text: the texts between its newlines, where a final newline
ends the last line and starts no new one. -/
def textLines : Bytes → List Bytes
  | [] => []
  | b :: str =>
      if b = newline then [] :: textLines str
      else
        match textLines str with
        | [] => [[b]]
        | line :: lines => (b :: line) :: lines

/-- A text that is empty or ends in a newline has no open line. -/
def EndsLine (str : Bytes) : Prop :=
  str = [] ∨ ∃ front, str = front ++ [newline]

theorem textLines_newline_cons (str : Bytes) : textLines (newline :: str) = [] :: textLines str := by
  simp [textLines]

theorem textLines_open {line : Bytes} (hline : line ≠ []) (h : newline ∉ line) :
    textLines line = [line] := by
  induction line with
  | nil => exact absurd rfl hline
  | cons b line ih =>
      simp only [List.mem_cons, not_or] at h
      cases line with
      | nil => simp [textLines, Ne.symm h.1]
      | cons c line => rw [textLines, if_neg (Ne.symm h.1), ih (by simp) h.2]

theorem textLines_line_append {line : Bytes} (h : newline ∉ line) (str : Bytes) :
    textLines (line ++ newline :: str) = line :: textLines str := by
  induction line with
  | nil => exact textLines_newline_cons str
  | cons b line ih =>
      simp only [List.mem_cons, not_or] at h
      rw [List.cons_append, textLines, if_neg (Ne.symm h.1), ih h.2]

theorem textLines_append {front : Bytes} (h : EndsLine front) (str : Bytes) :
    textLines (front ++ str) = textLines front ++ textLines str := by
  rcases h with rfl | ⟨front, rfl⟩
  · rfl
  · induction front with
    | nil => simp [textLines_newline_cons, textLines]
    | cons b front ih =>
        by_cases hb : b = newline
        · subst hb
          simp only [List.cons_append, textLines_newline_cons]
          rw [ih]
        · have hne : textLines (front ++ [newline]) ≠ [] := by
            cases front with
            | nil => simp [textLines_newline_cons]
            | cons c front =>
                simp only [List.cons_append, textLines]
                split
                · simp
                · split <;> simp
          obtain ⟨line, lines, hlines⟩ := List.exists_cons_of_ne_nil hne
          simp only [List.cons_append, textLines, if_neg hb]
          rw [ih, hlines]
          rfl

theorem textLines_eq_nil_iff {str : Bytes} : textLines str = [] ↔ str = [] := by
  cases str with
  | nil => simp [textLines]
  | cons b str =>
      simp only [textLines]
      split
      · simp
      · split <;> simp

theorem length_textLines (str : Bytes) : (textLines str).length =
    str.count newline + if str.getLast?.getD newline = newline then 0 else 1 := by
  induction str with
  | nil => rfl
  | cons b str ih =>
      rw [List.getLast?_cons, List.count_cons]
      by_cases hb : b = newline
      · subst hb
        rw [textLines_newline_cons, List.length_cons, ih]
        simp
        omega
      · cases hstr : textLines str with
        | nil =>
            have hnil := textLines_eq_nil_iff.mp hstr
            subst hnil
            simp [textLines, hb]
        | cons line lines =>
            have hne : str ≠ [] := fun h => by simp [h, textLines] at hstr
            rw [hstr, List.getLast?_eq_some_getLast hne] at ih
            simp [textLines, hb, hstr, List.getLast?_eq_some_getLast hne] at ih ⊢
            exact ih

theorem endsLine_iff_getLast? {str : Bytes} :
    EndsLine str ↔ str.getLast?.getD newline = newline := by
  constructor
  · rintro (rfl | ⟨front, rfl⟩)
    · rfl
    · simp
  · intro h
    rcases List.eq_nil_or_concat' str with rfl | ⟨front, b, rfl⟩
    · exact Or.inl rfl
    · right
      rw [List.getLast?_concat, Option.getD_some] at h
      exact ⟨front, by rw [h]⟩

/-- A text is empty, or one open line, or starts with a finished line. -/
theorem text_cases (str : Bytes) : str = [] ∨ (str ≠ [] ∧ newline ∉ str) ∨
    ∃ line rest, newline ∉ line ∧ str = line ++ newline :: rest := by
  by_cases hmem : newline ∈ str
  · obtain ⟨line, rest, rfl, hline⟩ := List.eq_append_cons_of_mem hmem
    exact Or.inr (Or.inr ⟨line, rest, hline, rfl⟩)
  · by_cases hnil : str = []
    · exact Or.inl hnil
    · exact Or.inr (Or.inl ⟨hnil, hmem⟩)

/-- Induction over the lines of a text. -/
theorem text_induction {P : Bytes → Prop} (nil : P [])
    (last : ∀ line, line ≠ [] → newline ∉ line → P line)
    (finished : ∀ line rest, newline ∉ line → P rest → P (line ++ newline :: rest))
    (str : Bytes) : P str := by
  induction hn : str.length using Nat.strong_induction_on generalizing str with
  | _ n ih =>
      rcases text_cases str with rfl | ⟨hnil, hopen⟩ | ⟨line, rest, hline, rfl⟩
      · exact nil
      · exact last str hnil hopen
      · apply finished line rest hline
        apply ih rest.length ?_ rest rfl
        rw [← hn, List.length_append, List.length_cons]
        omega

theorem countLines_eq (str : Bytes) : countLines str = (textLines str).length := by
  have hloop : ∀ (str : Bytes) (count : Nat),
      str.foldl (fun count b => if b = newline then count + 1 else count) count =
        count + str.count newline := by
    intro str
    induction str with
    | nil => simp
    | cons b str ih =>
        intro count
        by_cases hb : b = newline
        · simp [hb, ih]
          omega
        · simp [hb, ih]
  by_cases hnil : str = []
  · simp [hnil, countLines, textLines]
  · have hlen : str.length ≠ 0 := by simpa using hnil
    have hlast : str.getD (str.length - 1) 0 = str.getLast?.getD newline := by
      rw [List.getLast?_eq_getElem?, List.getD_eq_getElem?_getD,
        List.getElem?_eq_getElem (by omega)]
      rfl
    rw [countLines, if_neg hlen, length_textLines, hloop, hlast, Nat.zero_add]
    by_cases hend : str.getLast?.getD newline = newline
    · simp [hend]
    · simp [hend, List.length_pos_iff.mpr hnil]

theorem getElem?_append_of_ne {α : Type*} {l : List α} {a : α} {k : Nat} (h : k ≠ l.length) :
    (l ++ [a])[k]? = l[k]? := by
  rcases Nat.lt_or_gt_of_ne h with hlt | hgt
  · exact List.getElem?_append_left hlt
  · rw [List.getElem?_eq_none (by simp; omega), List.getElem?_eq_none (by omega)]

/-- Writing the next descriptor appends its line to the lines set so far. -/
theorem update_lines_eq {str : Bytes} {lines : Nat → Option DiffLine} {texts : List Bytes}
    {idx : Nat} (hidx : idx = texts.length)
    (hlines : ∀ k, (lines k).map (DiffLine.text str) = texts[k]?) (line : DiffLine) (k : Nat) :
    (Function.update lines idx (some line) k).map (DiffLine.text str) =
      (texts ++ [line.text str])[k]? := by
  by_cases hk : k = idx
  · rw [hk, Function.update_self, hidx, List.getElem?_concat_length, Option.map_some]
  · rw [Function.update_of_ne hk, hlines k, getElem?_append_of_ne (by rwa [← hidx])]

/-- What the loop has established after `n` rounds: a descriptor for each finished
line, and an open line without a newline behind them. -/
structure SplitInv (str : Bytes) (n : Nat) (st : SplitState) : Prop where
  start_le : st.lineStart ≤ n
  closed : EndsLine (str.take st.lineStart)
  pending : newline ∉ (str.take n).drop st.lineStart
  idx_eq : st.lineIdx = (textLines (str.take st.lineStart)).length
  lines_eq : ∀ k, (st.lines k).map (DiffLine.text str) = (textLines (str.take st.lineStart))[k]?

theorem splitLoop_inv (str : Bytes) {n : Nat} (hn : n ≤ str.length) :
    SplitInv str n (splitLoop str n) := by
  induction n with
  | zero =>
      exact ⟨Nat.le_refl _, Or.inl (by simp [splitLoop]), by simp, by simp [splitLoop, textLines],
        by simp [splitLoop, textLines]⟩
  | succ n ih =>
      have hinv := ih (by omega)
      have hloop : splitLoop str (n + 1) = splitStep str (splitLoop str n) n := by
        simp [splitLoop, List.range_succ]
      have hget : str.getD n 0 = str[n] := by
        rw [List.getD_eq_getElem?_getD, List.getElem?_eq_getElem hn]
        rfl
      have htake : str.take (n + 1) = str.take n ++ [str[n]] :=
        List.take_succ_eq_append_getElem hn
      rw [hloop, splitStep, hget]
      generalize splitLoop str n = st at hinv ⊢
      obtain ⟨hstart, hclosed, hpending, hidx, hlines⟩ := hinv
      by_cases hb : str[n] = newline
      · have hline : str.take (n + 1) =
            str.take st.lineStart ++ ((str.take n).drop st.lineStart ++ [newline]) := by
          rw [htake, hb, ← List.append_assoc]
          congr 1
          conv_lhs => rw [← List.take_append_drop st.lineStart (str.take n)]
          rw [List.take_take, Nat.min_eq_left hstart]
        have htext : DiffLine.text str ⟨st.lineStart, n - st.lineStart⟩ =
            (str.take n).drop st.lineStart := by
          simp [DiffLine.text, List.drop_take]
        have hnew : textLines (str.take (n + 1)) = textLines (str.take st.lineStart) ++
            [DiffLine.text str ⟨st.lineStart, n - st.lineStart⟩] := by
          rw [hline, htext, textLines_append hclosed, textLines_line_append hpending]
          rfl
        rw [if_pos hb]
        exact ⟨Nat.le_refl _, Or.inr ⟨str.take n, by rw [htake, hb]⟩, by simp,
          by simp [hnew, hidx], fun k => by rw [hnew]; exact update_lines_eq hidx hlines _ k⟩
      · have hdrop : (str.take (n + 1)).drop st.lineStart =
            (str.take n).drop st.lineStart ++ [str[n]] := by
          rw [htake, List.drop_append_of_le_length (by simp; omega)]
        rw [if_neg hb]
        exact ⟨by omega, hclosed, by simp [hdrop, hpending, Ne.symm hb], hidx, hlines⟩

/-- The second pass sets exactly the counted descriptors, each to its line. -/
theorem splitLines_spec (str : Bytes) :
    (splitLines str).count = (textLines str).length ∧
      ∀ k, ((splitLines str).lines k).map (DiffLine.text str) = (textLines str)[k]? := by
  by_cases hnil : str = []
  · subst hnil
    simp [splitLines, countLines, textLines]
  · have hcount : countLines str ≠ 0 := by
      rw [countLines_eq, ne_eq, List.length_eq_zero_iff, textLines_eq_nil_iff]
      exact hnil
    have hinv := splitLoop_inv str (Nat.le_refl str.length)
    rw [← countLines_eq]
    simp only [splitLines, if_neg hcount]
    generalize splitLoop str str.length = st at hinv ⊢
    obtain ⟨hstart, hclosed, hpending, hidx, hlines⟩ := hinv
    rw [List.take_length] at hpending
    by_cases hopen : st.lineStart < str.length
    · have htext : DiffLine.text str ⟨st.lineStart, str.length - st.lineStart⟩ =
          str.drop st.lineStart := List.take_of_length_le (by simp)
      have hlast : textLines str = textLines (str.take st.lineStart) ++
          [DiffLine.text str ⟨st.lineStart, str.length - st.lineStart⟩] := by
        conv_lhs => rw [← List.take_append_drop st.lineStart str]
        rw [htext, textLines_append hclosed, textLines_open (by simpa using hopen) hpending]
      rw [if_pos hopen]
      exact ⟨rfl, fun k => by rw [hlast]; exact update_lines_eq hidx hlines _ k⟩
    · rw [if_neg hopen]
      have hall : str.take st.lineStart = str := List.take_of_length_le (by omega)
      exact ⟨rfl, fun k => by rw [hlines k, hall]⟩

end JCUnit
