import JCUnit.Diff.Lines
import Mathlib.Data.List.Induction

/-!
# Splitting loses nothing

Every counted descriptor is set and no other one, and the lines they stand for give the
text back when they are joined.
-/

namespace JCUnit

/-- The lines that the descriptors of an array stand for, up to its count. -/
def DiffLines.texts (str : Bytes) (result : DiffLines) : List Bytes :=
  (List.range result.count).filterMap fun k => (result.lines k).map (DiffLine.text str)

/-- Lines with a newline between any two of them. -/
def joinLines (lines : List Bytes) : Bytes := List.intercalate [newline] lines

/-- The newline that ends the last line, where there is one. -/
def finalNewline (str : Bytes) : Bytes :=
  if str.getLast? = some newline then [newline] else []

theorem newline_not_mem_textLines {str line : Bytes} (h : line ∈ textLines str) :
    newline ∉ line := by
  induction str using text_induction with
  | nil => cases h
  | last str hne hopen =>
      rw [textLines_open hne hopen, List.mem_singleton] at h
      rwa [h]
  | finished first rest hfirst ih =>
      rw [textLines_line_append hfirst, List.mem_cons] at h
      rcases h with rfl | h
      · exact hfirst
      · exact ih h

/-- The lines, joined, and the final newline are the text. -/
theorem joinLines_textLines (str : Bytes) :
    joinLines (textLines str) ++ finalNewline str = str := by
  induction str using text_induction with
  | nil => rfl
  | last str hne hopen =>
      have hlast : str.getLast? ≠ some newline := fun h => hopen (List.mem_of_getLast? h)
      rw [textLines_open hne hopen, joinLines, List.intercalate_singleton, finalNewline,
        if_neg hlast, List.append_nil]
  | finished line rest hline ih =>
      rw [textLines_line_append hline]
      by_cases hrest : rest = []
      · subst hrest
        simp [textLines, joinLines, finalNewline]
      · have hlines : textLines rest ≠ [] := mt textLines_eq_nil_iff.mp hrest
        have hfinal : finalNewline (line ++ newline :: rest) = finalNewline rest := by
          rw [finalNewline, finalNewline, List.getLast?_append_of_ne_nil _ (List.cons_ne_nil _ _),
            List.getLast?_cons_of_ne_nil hrest]
        calc joinLines (line :: textLines rest) ++ finalNewline (line ++ newline :: rest)
            = line ++ newline :: (joinLines (textLines rest) ++ finalNewline rest) := by
              rw [hfinal, joinLines, List.intercalate_cons_of_ne_nil hlines]
              simp [joinLines]
          _ = line ++ newline :: rest := by rw [ih]

/-- A set descriptor is the one just written, or was set before. -/
theorem eq_or_of_update_eq_some {lines : Nat → Option DiffLine} {idx k : Nat} {new line : DiffLine}
    (h : Function.update lines idx (some new) k = some line) :
    line = new ∨ lines k = some line := by
  by_cases hk : k = idx
  · rw [hk, Function.update_self, Option.some.injEq] at h
    exact Or.inl h.symm
  · rw [Function.update_of_ne hk] at h
    exact Or.inr h

/-- The descriptors that the first rounds have set end within the bytes they have looked at. -/
theorem splitLoop_within (str : Bytes) {n : Nat} (hn : n ≤ str.length) {k : Nat} {line : DiffLine}
    (h : (splitLoop str n).lines k = some line) : line.start + line.len ≤ n := by
  induction n with
  | zero => cases h
  | succ n ih =>
      have hstart := (splitLoop_inv str (show n ≤ str.length by omega)).start_le
      have hloop : splitLoop str (n + 1) = splitStep str (splitLoop str n) n := by
        simp [splitLoop, List.range_succ]
      rw [hloop, splitStep] at h
      split at h
      · rcases eq_or_of_update_eq_some h with rfl | hbefore
        · dsimp only
          omega
        · exact Nat.le_succ_of_le (ih (by omega) hbefore)
      · exact Nat.le_succ_of_le (ih (by omega) h)

theorem splitLines_within {str : Bytes} {k : Nat} {line : DiffLine}
    (h : (splitLines str).lines k = some line) : line.start + line.len ≤ str.length := by
  have hstart := (splitLoop_inv str (Nat.le_refl str.length)).start_le
  unfold splitLines at h
  dsimp only at h
  split at h
  · cases h
  split at h
  · rcases eq_or_of_update_eq_some h with rfl | hbefore
    · dsimp only
      omega
    · exact splitLoop_within str (Nat.le_refl _) hbefore
  · exact splitLoop_within str (Nat.le_refl _) h

theorem filterMap_range_getElem? {α : Type*} (l : List α) :
    (List.range l.length).filterMap (fun k => l[k]?) = l := by
  induction l using List.reverseRecOn with
  | nil => rfl
  | append_singleton l a ih =>
      have hfront : (List.range l.length).filterMap (fun k => (l ++ [a])[k]?) = l := by
        refine (List.filterMap_congr ?_).trans ih
        intro k hk
        exact List.getElem?_append_left (List.mem_range.mp hk)
      rw [List.length_append, List.length_singleton, List.range_succ, List.filterMap_append, hfront]
      simp

/-- The lines of the array are the lines of the text. -/
theorem texts_splitLines (str : Bytes) : (splitLines str).texts str = textLines str := by
  obtain ⟨hcount, hlines⟩ := splitLines_spec str
  rw [DiffLines.texts, hcount]
  simp only [hlines]
  exact filterMap_range_getElem? _

/-- The counted descriptors are the ones that are set, each within the text; their lines have no
newline and, joined, give the text back. -/
theorem splitLines_lossless (str : Bytes) :
    (splitLines str).count = countLines str ∧
      (∀ k, ((splitLines str).lines k).isSome ↔ k < countLines str) ∧
      (∀ k line, (splitLines str).lines k = some line →
        line.start + line.len ≤ str.length ∧ newline ∉ line.text str) ∧
      joinLines ((splitLines str).texts str) ++ finalNewline str = str := by
  obtain ⟨hcount, hlines⟩ := splitLines_spec str
  rw [texts_splitLines, countLines_eq]
  refine ⟨hcount, ?_, ?_, joinLines_textLines str⟩
  · intro k
    rw [← Option.isSome_map (f := DiffLine.text str), hlines k, Option.isSome_iff_ne_none, ne_eq,
      List.getElem?_eq_none_iff, Nat.not_le]
  · intro k line hline
    have hmem : line.text str ∈ textLines str := by
      apply List.mem_of_getElem? (i := k)
      rw [← hlines k, hline, Option.map_some]
    exact ⟨splitLines_within hline, newline_not_mem_textLines hmem⟩

example : (splitLines (ascii "a\n\nb")).texts (ascii "a\n\nb") = [ascii "a", [], ascii "b"] := by
  decide

end JCUnit
