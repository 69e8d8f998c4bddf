import Mathlib.Data.List.Basic

/-!
# Lists that are searched by a key

Looking for a key gives the first entry that has it. Overwriting this entry by one with the same
key, or adding an entry with a new key at the end, changes what is found under that key and nothing
else.
-/

namespace KeyedEntries

variable {α κ : Type*} [DecidableEq κ]

def find (key : α → κ) (entries : List α) (k : κ) : Option α :=
  entries.find? fun a => key a = k

/-- The first entry with the key is replaced. -/
def overwrite (key : α → κ) (entries : List α) (k : κ) (a : α) : List α :=
  entries.set (entries.findIdx fun b => key b = k) a

variable {key : α → κ} {entries : List α} {k other : κ} {a : α}

theorem find_cons (b : α) :
    find key (b :: entries) k = if key b = k then some b else find key entries k := by
  unfold find
  rw [List.find?_cons]
  by_cases h : key b = k <;> simp [h]

theorem overwrite_cons (b : α) :
    overwrite key (b :: entries) k a =
      if key b = k then a :: entries else b :: overwrite key entries k a := by
  unfold overwrite
  rw [List.findIdx_cons]
  by_cases h : key b = k <;> simp [h]

theorem find_overwrite_self (ha : key a = k) (hfound : (find key entries k).isSome) :
    find key (overwrite key entries k a) k = some a := by
  induction entries with
  | nil => cases hfound
  | cons b entries ih =>
      rw [find_cons] at hfound
      rw [overwrite_cons]
      split
      next => rw [find_cons, if_pos ha]
      next hb =>
          rw [if_neg hb] at hfound
          rw [find_cons, if_neg hb]
          exact ih hfound

theorem find_overwrite_of_ne (ha : key a = k) (hother : other ≠ k) :
    find key (overwrite key entries k a) other = find key entries other := by
  induction entries with
  | nil => rfl
  | cons b entries ih =>
      have hne : key a ≠ other := by
        rw [ha]
        exact hother.symm
      rw [overwrite_cons]
      split
      next hb =>
          have hne' : key b ≠ other := by
            rw [hb]
            exact hother.symm
          rw [find_cons, find_cons, if_neg hne, if_neg hne']
      next => rw [find_cons, find_cons, ih]

theorem find_append : find key (entries ++ [a]) k =
    (find key entries k).or (if key a = k then some a else none) := by
  induction entries with
  | nil => exact find_cons a
  | cons b entries ih =>
      rw [List.cons_append, find_cons, find_cons, ih]
      split <;> rfl

theorem find_append_self (ha : key a = k) (hnone : find key entries k = none) :
    find key (entries ++ [a]) k = some a := by
  rw [find_append, hnone, if_pos ha]
  rfl

theorem find_append_of_ne (ha : key a = k) (hother : other ≠ k) :
    find key (entries ++ [a]) other = find key entries other := by
  have hne : key a ≠ other := by
    rw [ha]
    exact hother.symm
  rw [find_append, if_neg hne, Option.or_none]

/-- A change of the entries that keeps their keys. -/
theorem find_map {f : α → α} (hkey : ∀ a, key (f a) = key a) :
    find key (entries.map f) k = (find key entries k).map f := by
  induction entries with
  | nil => rfl
  | cons b entries ih =>
      rw [List.map_cons, find_cons, find_cons, hkey, ih]
      split <;> rfl

end KeyedEntries
