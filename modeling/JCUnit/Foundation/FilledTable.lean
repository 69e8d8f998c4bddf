import Mathlib.Data.List.Forall2
import JCUnit.Foundation.StateError

/-!
# Tables that are filled from the front

An array of a size that is known before its values are, and the index at which the next value is
stored. A store behind the end is an error. If the values are counted before, a loop over them
stores each of them, and every entry has a value in the end.
-/

namespace FilledTable

open StateError

variable {α β ε : Type}

structure Table (β : Type) where
  entries : List (Option β)
  position : Nat

/-- A table in which nothing has been stored. -/
def Table.ofSize (β : Type) (size : Nat) : Table β :=
  ⟨List.replicate size none, 0⟩

/-- `entries[position++] = b` -/
def Table.store (behind : ε) (table : Table β) (b : β) : Except ε (Table β) :=
  if table.position < table.entries.length then
    .ok ⟨table.entries.set table.position (some b), table.position + 1⟩
  else .error behind

/-- These values have been stored in a table of this size, and there is room for this many more. -/
structure Table.Holds (table : Table β) (size : Nat) (values : List β) (room : Nat) : Prop where
  entries : table.entries = values.map some ++ List.replicate room none
  position : table.position = values.length
  counted : values.length + room = size

theorem Table.holds_ofSize (size : Nat) : (Table.ofSize β size).Holds size [] size :=
  ⟨rfl, rfl, Nat.zero_add size⟩

variable {table : Table β} {size room : Nat} {values : List β}

theorem Table.Holds.store (h : table.Holds size values (room + 1)) (behind : ε) (b : β) :
    ∃ table', table.store behind b = .ok table' ∧ table'.Holds size (values ++ [b]) room := by
  have hroom : table.position < table.entries.length := by
    rw [h.entries, h.position, List.length_append, List.length_map, List.length_replicate]
    exact Nat.lt_add_of_pos_right (Nat.succ_pos room)
  have hlength : (values ++ [b]).length = values.length + 1 := List.length_append
  refine ⟨_, if_pos hroom, ?_, ?_, ?_⟩
  · have hmap : (values.map some).length ≤ values.length := Nat.le_of_eq (List.length_map some)
    dsimp only
    rw [h.entries, h.position, List.replicate_succ, List.set_append_right _ _ hmap]
    simp
  · dsimp only
    rw [h.position, hlength]
  · rw [hlength, Nat.add_right_comm]
    exact h.counted

theorem Table.Holds.entries_eq (h : table.Holds size values 0) :
    table.entries = values.map some := by
  rw [h.entries, List.replicate_zero, List.append_nil]

theorem Table.Holds.store_full (h : table.Holds size values 0) (behind : ε) (b : β) :
    table.store behind b = .error behind := by
  have hfull : ¬table.position < table.entries.length := by
    rw [h.entries_eq, h.position, List.length_map]
    exact Nat.lt_irrefl _
  exact if_neg hfull

/-- A loop that stores the result of each round comes to its end if there is room for all of them.
Else it stops at the first store behind the end, if no round has failed up to there. -/
theorem Table.Holds.foldlM_store {f : α → Except ε β} {behind : ε} (items : List α)
    (h : table.Holds size values room) :
    Corresponds
      (fun table results => Table.Holds table size (values ++ results) (room - items.length))
      (items.foldlM (fun table a => do
        let b ← f a
        table.store behind b) table)
      (do
        let results ← (items.take (room + 1)).mapM f
        if items.length ≤ room then .ok results else .error behind) := by
  induction items generalizing table values room with
  | nil =>
      have hroom : ([] : List α).length ≤ room := Nat.zero_le room
      rw [List.foldlM_nil, List.take_nil, List.mapM_nil, pure_bind, if_pos hroom]
      refine .ok ?_
      rw [List.append_nil]
      exact h
  | cons a items ih =>
      rw [List.foldlM_cons, List.take_succ_cons, List.mapM_cons]
      cases hf : f a with
      | error e => exact .error e
      | ok b =>
          rw [except_ok_bind, except_ok_bind]
          cases room with
          | zero =>
              rw [h.store_full behind b]
              exact .error behind
          | succ room =>
              obtain ⟨table', hstore, hholds⟩ := h.store behind b
              have hrest := ih hholds
              have hlength : (a :: items).length ≤ room + 1 ↔ items.length ≤ room :=
                Nat.succ_le_succ_iff
              simp only [hstore, except_ok_bind, bind_assoc, pure_bind, hlength]
              generalize items.foldlM (fun table a => f a >>= table.store behind) table' =
                left at hrest ⊢
              generalize (items.take (room + 1)).mapM f = results at hrest ⊢
              cases results with
              | error e =>
                  cases hrest
                  exact .error e
              | ok results =>
                  rw [except_ok_bind] at hrest ⊢
                  by_cases hroom : items.length ≤ room
                  · rw [if_pos hroom] at hrest ⊢
                    obtain ⟨table, rfl, hresults⟩ := hrest.eq_ok rfl
                    rw [List.append_assoc, ← Nat.add_sub_add_right] at hresults
                    exact .ok hresults
                  · rw [if_neg hroom] at hrest ⊢
                    cases hrest
                    exact .error behind

end FilledTable
