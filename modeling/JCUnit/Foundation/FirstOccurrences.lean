import Mathlib.Data.Finset.Card

/-!
# The first occurrences in a list

A list is gone through once, and an item is kept if it has not been seen. What is kept is
every item of the list, once, in the order in which the items first occur.
-/

namespace FirstOccurrences

variable {α : Type} [DecidableEq α]

/-- Put an item at the end, unless it is there. -/
def insertNew (seen : List α) (a : α) : List α :=
  if a ∈ seen then seen else seen ++ [a]

/-- The items of a list without repetitions, in the order in which they come first. -/
def firsts (items : List α) : List α :=
  items.foldl insertNew []

/-- A list of the items of another one, in the order of their first occurrences there. An item
cannot come twice, for it would have to occur before itself. -/
structure Lists (items kept : List α) : Prop where
  mem_iff : ∀ a, a ∈ kept ↔ a ∈ items
  in_order : kept.Pairwise fun a b => items.idxOf a < items.idxOf b

/-- A list of the kept items has no repetitions. -/
theorem Lists.nodup {items kept : List α} (h : Lists items kept) : kept.Nodup :=
  h.in_order.imp fun hlt heq => Nat.ne_of_lt hlt (congrArg items.idxOf heq)

/-- One more item at the end is one more step of the loop. -/
theorem firsts_concat (items : List α) (a : α) :
    firsts (items ++ [a]) = insertNew (firsts items) a := by
  simp [firsts]

/-- By induction from the end of the list, as the loop goes. -/
theorem firsts_lists (items : List α) : Lists items (firsts items) := by
  induction items using List.reverseRecOn with
  | nil => exact ⟨fun _ => Iff.rfl, List.Pairwise.nil⟩
  | append_singleton items a ih =>
      have hidx : ∀ b, b ∈ firsts items → (items ++ [a]).idxOf b = items.idxOf b := by
        intro b hb
        exact List.idxOf_append_of_mem ((ih.mem_iff b).mp hb)
      have hkept : (firsts items).Pairwise fun b c =>
          (items ++ [a]).idxOf b < (items ++ [a]).idxOf c := by
        apply ih.in_order.imp_of_mem
        intro b c hb hc hlt
        rwa [hidx b hb, hidx c hc]
      rw [firsts_concat, insertNew]
      split
      · rename_i ha
        refine ⟨fun b => ?_, hkept⟩
        rw [ih.mem_iff, List.mem_append, List.mem_singleton]
        constructor
        · exact Or.inl
        · rintro (hb | rfl)
          · exact hb
          · exact (ih.mem_iff b).mp ha
      · rename_i ha
        constructor
        · intro b
          rw [List.mem_append, List.mem_append, ih.mem_iff]
        · rw [List.pairwise_append]
          refine ⟨hkept, List.pairwise_singleton _ a, ?_⟩
          intro b hb c hc
          obtain rfl := List.mem_singleton.mp hc
          have hnew : c ∉ items := fun hmem => ha ((ih.mem_iff c).mpr hmem)
          rw [hidx b hb, List.idxOf_append_of_notMem hnew]
          exact Nat.lt_add_right _ (List.idxOf_lt_length_of_mem ((ih.mem_iff b).mp hb))

/-- There are as many first occurrences as there are different items. -/
theorem firsts_length (items : List α) : (firsts items).length = items.toFinset.card := by
  have h := firsts_lists items
  rw [← List.toFinset_card_of_nodup h.nodup]
  congr 1
  ext a
  rw [List.mem_toFinset, List.mem_toFinset, h.mem_iff]

/-- Nothing is lost. -/
theorem length_le_insertNew (seen : List α) (a : α) : seen.length ≤ (insertNew seen a).length := by
  unfold insertNew
  split
  · exact Nat.le_refl _
  · rw [List.length_append]
    exact Nat.le_add_right _ _

/-- The list never gets shorter in the loop. -/
theorem length_le_foldl_insertNew (seen items : List α) :
    seen.length ≤ (items.foldl insertNew seen).length := by
  induction items generalizing seen with
  | nil => exact Nat.le_refl _
  | cons a items ih => exact (length_le_insertNew seen a).trans (ih _)

end FirstOccurrences
