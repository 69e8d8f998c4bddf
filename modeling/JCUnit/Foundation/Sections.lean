import Mathlib.Data.List.Basic

/-!
# Listings with a heading for every section

A listing goes through its items one after the other. It puts a heading before an item whose
section is not that of the item before, and a footer behind an item whose section is not that of
the next one. Where every section stands in one piece, this prints the sections.
-/

namespace Sections

variable {α κ β : Type}

/-- What is mapped to sections one after the other falls into sections itself. -/
theorem exists_sections {f : α → β} {sections : List (List β)} {items : List α}
    (h : items.map f = sections.flatten) :
    ∃ groups : List (List α), groups.flatten = items ∧ groups.map (List.map f) = sections := by
  induction sections generalizing items with
  | nil => exact ⟨[], (List.map_eq_nil_iff.mp h).symm, rfl⟩
  | cons first sections ih =>
      rw [List.flatten_cons] at h
      obtain ⟨front, back, rfl, rfl, hback⟩ := List.map_eq_append_iff.mp h
      obtain ⟨groups, rfl, rfl⟩ := ih hback
      exact ⟨front :: groups, rfl, rfl⟩

section Neighbours

variable (key : α → κ)

/-- The section of the first item, or of what stands behind them all. -/
def firstKey (items : List α) (next : Option κ) : Option κ :=
  (items.head?.map key).or next

/-- The section of the last item, or of what stands before them all. -/
def lastKey (previous : Option κ) (items : List α) : Option κ :=
  (items.getLast?.map key).or previous

variable {key} {previous next : Option κ} {a : α} {items more : List α}

@[simp] theorem firstKey_nil : firstKey key [] next = next := rfl

@[simp] theorem firstKey_cons : firstKey key (a :: items) next = some (key a) := rfl

@[simp] theorem lastKey_nil : lastKey key previous [] = previous := rfl

@[simp] theorem lastKey_concat : lastKey key previous (items ++ [a]) = some (key a) := by
  simp [lastKey]

theorem lastKey_cons : lastKey key previous (a :: items) = lastKey key (some (key a)) items := by
  cases items with
  | nil => rfl
  | cons b items => simp [lastKey, List.getLast?_cons]

theorem firstKey_append :
    firstKey key (items ++ more) next = firstKey key items (firstKey key more next) := by
  cases items with
  | nil => rfl
  | cons a items => rfl

theorem exists_of_firstKey {k : κ} (h : firstKey key items none = some k) :
    ∃ a ∈ items, key a = k := by
  cases items with
  | nil => cases h
  | cons a items => exact ⟨a, List.mem_cons_self, Option.some.inj h⟩

end Neighbours

section Listings

variable [DecidableEq κ] (key : α → κ) (heading text : α → List β) (footer : List β)

/-- An item between an item of one section and an item of another, if there are any. -/
def entry (previous next : Option κ) (a : α) : List β :=
  (if previous ≠ some (key a) then heading a else []) ++ text a ++
    (if next ≠ some (key a) then footer else [])

/-- The items between what stands before and behind them. -/
def listing (next : Option κ) : Option κ → List α → List β
  | _, [] => []
  | previous, a :: items =>
      entry key heading text footer previous (firstKey key items next) a ++
        listing next (some (key a)) items

/-- A section of its own; one without items is not printed. -/
def block : List α → List β
  | [] => []
  | a :: items => heading a ++ (a :: items).flatMap text ++ footer

variable {key heading text footer} {previous next : Option κ} {a : α} {items more : List α}

theorem listing_append : listing key heading text footer next previous (items ++ more) =
    listing key heading text footer (firstKey key more next) previous items ++
      listing key heading text footer next (lastKey key previous items) more := by
  induction items generalizing previous with
  | nil => rfl
  | cons a items ih =>
      rw [List.cons_append, listing, listing, ih, firstKey_append, lastKey_cons, List.append_assoc]

theorem listing_concat : listing key heading text footer next previous (items ++ [a]) =
    listing key heading text footer (some (key a)) previous items ++
      entry key heading text footer (lastKey key previous items) next a := by
  rw [listing_append, firstKey_cons]
  congr 1
  exact List.append_nil _

/-- Inside of a section no heading is printed, and one footer at its end. -/
theorem listing_inside (hitems : ∀ b ∈ items, key b = key a) (hnext : next ≠ some (key a)) :
    listing key heading text footer next (some (key a)) (a :: items) =
      (a :: items).flatMap text ++ footer := by
  induction items generalizing a with
  | nil => simp [listing, entry, hnext]
  | cons b items ih =>
      obtain ⟨hb, hitems⟩ := List.forall_mem_cons.mp hitems
      rw [← hb] at hitems hnext
      rw [listing, ← hb, ih hitems hnext]
      simp [entry, hb]

/-- The items of one section, which neither begins before them nor goes on behind them. -/
theorem listing_block (hsame : ∀ b ∈ items, ∀ c ∈ items, key b = key c)
    (hprevious : ∀ b ∈ items, previous ≠ some (key b)) (hnext : ∀ b ∈ items, next ≠ some (key b)) :
    listing key heading text footer next previous items = block heading text footer items := by
  cases items with
  | nil => rfl
  | cons a items =>
      have hitems : ∀ b ∈ items, key b = key a :=
        fun b hb => hsame b (List.mem_cons_of_mem a hb) a List.mem_cons_self
      have hbody : listing key heading text footer next (some (key a)) (a :: items) =
          (a :: items).flatMap text ++ footer :=
        listing_inside hitems (hnext a List.mem_cons_self)
      rw [listing] at hbody ⊢
      rw [block, List.append_assoc, ← hbody]
      simp [entry, hprevious a List.mem_cons_self]

/-- Sections that all stand in one piece are printed one after the other. -/
theorem listing_flatten {groups : List (List α)}
    (hsame : ∀ group ∈ groups, ∀ b ∈ group, ∀ c ∈ group, key b = key c)
    (hdiffer : groups.Pairwise fun group other => ∀ b ∈ group, ∀ c ∈ other, key b ≠ key c)
    (hprevious : ∀ group ∈ groups, ∀ b ∈ group, previous ≠ some (key b)) :
    listing key heading text footer none previous groups.flatten =
      groups.flatMap (block heading text footer) := by
  induction groups generalizing previous with
  | nil => rfl
  | cons group groups ih =>
      obtain ⟨hgroup, hsame⟩ := List.forall_mem_cons.mp hsame
      obtain ⟨hbefore, hbehind⟩ := List.forall_mem_cons.mp hprevious
      obtain ⟨hothers, hdiffer⟩ := List.pairwise_cons.mp hdiffer
      have hnext : ∀ b ∈ group, firstKey key groups.flatten none ≠ some (key b) := by
        intro b hb hfirst
        obtain ⟨c, hc, hkey⟩ := exists_of_firstKey hfirst
        obtain ⟨other, hother, hc⟩ := List.mem_flatten.mp hc
        exact hothers other hother b hb c hc hkey.symm
      rw [List.flatten_cons, listing_append, List.flatMap_cons, listing_block hgroup hbefore hnext]
      congr 1
      apply ih hsame hdiffer
      intro other hother c hc
      rcases List.eq_nil_or_concat' group with rfl | ⟨front, b, rfl⟩
      · exact hbehind other hother c hc
      · rw [lastKey_concat]
        intro heq
        exact hothers other hother b (by simp) c hc (Option.some.inj heq)

end Listings

end Sections
