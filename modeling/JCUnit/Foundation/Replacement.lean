import Mathlib.Data.List.Basic
import Mathlib.Data.List.Infix

/-!
# Occurrences that are replaced

Going through a text from the left, every occurrence of a needle is replaced, and the next one
is looked for behind it. What is put in is not looked at again.
-/

namespace Replacement

variable {α : Type} [BEq α]

def replaceAll (needle replacement : List α) : List α → List α
  | [] => []
  | a :: text =>
      if needle.isPrefixOf (a :: text) then
        replacement ++ replaceAll needle replacement (text.drop (needle.length - 1))
      else a :: replaceAll needle replacement text
termination_by text => text.length
decreasing_by
  · rw [List.length_drop, List.length_cons]
    omega
  · exact Nat.lt_succ_self _

variable {needle replacement text : List α} {a : α}

theorem replaceAll_nil : replaceAll needle replacement [] = [] := by
  rw [replaceAll]

theorem replaceAll_cons (h : ¬ needle.isPrefixOf (a :: text)) :
    replaceAll needle replacement (a :: text) = a :: replaceAll needle replacement text := by
  rw [replaceAll, if_neg h]

/-- An occurrence at the front is replaced. -/
theorem replaceAll_of_isPrefixOf (hneedle : needle ≠ []) (h : needle.isPrefixOf text) :
    replaceAll needle replacement text =
      replacement ++ replaceAll needle replacement (text.drop needle.length) := by
  obtain ⟨first, needle, rfl⟩ := List.exists_cons_of_ne_nil hneedle
  cases text with
  | nil => cases h
  | cons a text =>
      rw [replaceAll, if_pos h]
      rfl

/-- The first occurrence is replaced, and then those behind it. -/
theorem replaceAll_of_found (hneedle : needle ≠ []) {found : Nat}
    (h : text.tails.findIdx? (fun tail => needle.isPrefixOf tail) = some found) :
    replaceAll needle replacement text = text.take found ++ replacement ++
      replaceAll needle replacement (text.drop (found + needle.length)) := by
  induction text generalizing found with
  | nil =>
      obtain ⟨first, needle, rfl⟩ := List.exists_cons_of_ne_nil hneedle
      cases h
  | cons a text ih =>
      rw [List.tails_cons, List.findIdx?_cons] at h
      split at h
      · rename_i hfront
        obtain rfl := Option.some.inj h
        rw [replaceAll_of_isPrefixOf hneedle hfront, List.take_zero, List.nil_append, Nat.zero_add]
      · rename_i hother
        obtain ⟨found', hfound, rfl⟩ := Option.map_eq_some_iff.mp h
        rw [replaceAll_cons hother, ih hfound, List.take_succ_cons, Nat.succ_add_eq_add_succ]
        rfl

theorem replaceAll_of_not_found
    (h : text.tails.findIdx? (fun tail => needle.isPrefixOf tail) = none) :
    replaceAll needle replacement text = text := by
  induction text with
  | nil => exact replaceAll_nil
  | cons a text ih =>
      rw [List.tails_cons, List.findIdx?_cons] at h
      split at h
      · cases h
      · rename_i hother
        rw [replaceAll_cons hother, ih (Option.map_eq_none_iff.mp h)]

/-- What is in the result comes from the replacement or has been in the text. -/
theorem mem_replaceAll {b : α} (h : b ∈ replaceAll needle replacement text) :
    b ∈ replacement ∨ b ∈ text := by
  induction text using replaceAll.induct needle with
  | case1 =>
      rw [replaceAll_nil] at h
      cases h
  | case2 a text hprefix ih =>
      rw [replaceAll, if_pos hprefix] at h
      rcases List.mem_append.mp h with hput | hrest
      · exact .inl hput
      · exact (ih hrest).imp_right fun hmem => List.mem_cons_of_mem a (List.mem_of_mem_drop hmem)
  | case3 a text hnot ih =>
      rw [replaceAll_cons hnot] at h
      rcases List.mem_cons.mp h with rfl | hrest
      · exact .inr List.mem_cons_self
      · exact (ih hrest).imp_right (List.mem_cons_of_mem a)

theorem replaceAll_ne_nil (hneedle : needle ≠ []) (hreplacement : replacement ≠ [])
    (htext : text ≠ []) : replaceAll needle replacement text ≠ [] := by
  obtain ⟨a, text, rfl⟩ := List.exists_cons_of_ne_nil htext
  by_cases hprefix : needle.isPrefixOf (a :: text) = true
  · rw [replaceAll_of_isPrefixOf hneedle hprefix]
    exact List.append_ne_nil_of_left_ne_nil hreplacement _
  · rw [replaceAll_cons hprefix]
    exact List.cons_ne_nil _ _

section Lawful

variable [LawfulBEq α]

/-- A prefix ends in front of an element that it does not have. -/
theorem prefix_append_cons_iff {β : Type} {a : β} {front u v : List β} (ha : a ∉ front) :
    front <+: u ++ a :: v ↔ front <+: u := by
  refine ⟨fun h => ?_, fun h => h.trans (List.prefix_append _ _)⟩
  rcases List.prefix_or_prefix_of_prefix h (List.prefix_append u (a :: v)) with hfront | ⟨t, rfl⟩
  · exact hfront
  · rw [List.prefix_append_right_inj] at h
    cases t with
    | nil => rw [List.append_nil]
    | cons b t =>
        obtain ⟨rfl, -⟩ := List.cons_prefix_cons.mp h
        exact absurd (List.mem_append_right u List.mem_cons_self) ha

/-- The needle does not stand across an element that it does not have. -/
theorem replaceAll_append_cons (hneedle : needle ≠ []) (ha : a ∉ needle) (u v : List α) :
    replaceAll needle replacement (u ++ a :: v) =
      replaceAll needle replacement u ++ a :: replaceAll needle replacement v := by
  have hiff : ∀ u, needle.isPrefixOf (u ++ a :: v) = true ↔ needle.isPrefixOf u = true := fun u => by
    rw [List.isPrefixOf_iff_prefix, List.isPrefixOf_iff_prefix, prefix_append_cons_iff ha]
  induction u using replaceAll.induct needle with
  | case1 =>
      have hnot : ¬ needle.isPrefixOf (a :: v) := by
        rw [← List.nil_append (a :: v), hiff, List.isPrefixOf_iff_prefix, List.prefix_nil]
        exact hneedle
      rw [List.nil_append, replaceAll_cons hnot, replaceAll_nil]
      rfl
  | case2 b u hprefix ih =>
      have hlength := (List.isPrefixOf_iff_prefix.mp hprefix).length_le
      have hdrop : (b :: u).drop needle.length = u.drop (needle.length - 1) := by
        obtain ⟨n, hn⟩ := Nat.exists_eq_succ_of_ne_zero (mt List.eq_nil_of_length_eq_zero hneedle)
        rw [hn]
        rfl
      rw [replaceAll_of_isPrefixOf hneedle ((hiff _).mpr hprefix),
        replaceAll_of_isPrefixOf hneedle hprefix, List.drop_append_of_le_length hlength, hdrop, ih,
        List.append_assoc]
  | case3 b u hnot ih =>
      have hnot' : ¬ needle.isPrefixOf (b :: (u ++ a :: v)) := mt (hiff (b :: u)).mp hnot
      rw [replaceAll_cons hnot, List.cons_append, replaceAll_cons hnot', ih]
      rfl

/-- What the needle does not have is kept. -/
theorem mem_replaceAll_of_mem (hneedle : needle ≠ []) (ha : a ∉ needle) (h : a ∈ text) :
    a ∈ replaceAll needle replacement text := by
  obtain ⟨u, v, rfl⟩ := List.append_of_mem h
  rw [replaceAll_append_cons hneedle ha]
  exact List.mem_append_right _ List.mem_cons_self

/-- The first occurrence at least is replaced. -/
theorem infix_replaceAll (hneedle : needle ≠ []) (h : needle <:+: text) :
    replacement <:+: replaceAll needle replacement text := by
  induction text using replaceAll.induct needle with
  | case1 => exact absurd (List.infix_nil.mp h) hneedle
  | case2 a text hprefix ih =>
      rw [replaceAll, if_pos hprefix]
      exact (List.prefix_append _ _).isInfix
  | case3 a text hnot ih =>
      rw [replaceAll_cons hnot]
      rcases List.infix_cons_iff.mp h with hprefix | hrest
      · exact absurd (List.isPrefixOf_iff_prefix.mpr hprefix) hnot
      · exact List.infix_cons (ih hrest)

end Lawful

end Replacement
