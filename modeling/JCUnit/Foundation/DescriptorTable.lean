import Mathlib.Data.Finset.Card
import Mathlib.Data.Finset.Range
import Mathlib.Data.List.Basic
import Mathlib.Data.Set.Function

/-!
# Descriptor tables

A process names its open files by numbers. A new file gets the lowest number that is free. A table
extends another one by some files when each of them has a number of its own that is free in the
other table; opening and closing these files moves between such extensions and touches nothing
else.
-/

namespace Descriptors

/-- The open file of every descriptor. -/
abbrev Table (F : Type*) := Nat → Option F

section Calls

variable {F : Type*}

def lowestFree (limit : Nat) (table : Table F) : Option Nat :=
  (List.range limit).find? fun fd => (table fd).isNone

def allocate (limit : Nat) (table : Table F) (file : F) : Option (Nat × Table F) :=
  (lowestFree limit table).map fun fd => (fd, Function.update table fd (some file))

/-- Fails on a descriptor that is not open. -/
def close (table : Table F) (fd : Nat) : Option (Table F) :=
  if (table fd).isSome then some (Function.update table fd none) else none

/-- What was open under the new descriptor is closed. -/
def dup2 (table : Table F) (old new : Nat) : Option (Table F) :=
  (table old).map fun file => Function.update table new (some file)

/-- The descriptors that can still be given out. -/
def free (limit : Nat) (table : Table F) : Finset Nat :=
  (Finset.range limit).filter fun fd => (table fd).isNone

variable {limit fd : Nat} {table table' : Table F} {file : F}

theorem mem_free : fd ∈ free limit table ↔ fd < limit ∧ table fd = none := by
  unfold free
  rw [Finset.mem_filter, Finset.mem_range, Option.isNone_iff_eq_none]

theorem mem_free_of_lowestFree (h : lowestFree limit table = some fd) : fd ∈ free limit table := by
  have hnone : (table fd).isNone = true := List.find?_some (p := fun fd => (table fd).isNone) h
  exact Finset.mem_filter.mpr
    ⟨Finset.mem_range.mpr (List.mem_range.mp (List.mem_of_find?_eq_some h)), hnone⟩

theorem allocate_eq_some (h : allocate limit table file = some (fd, table')) :
    fd ∈ free limit table ∧ table' = Function.update table fd (some file) := by
  obtain ⟨fd', hfree, heq⟩ := Option.map_eq_some_iff.mp h
  cases heq
  exact ⟨mem_free_of_lowestFree hfree, rfl⟩

end Calls

/-- The table has all that is open in the base, and the held files under descriptors of their
own. -/
structure Extends {F E : Type*} (base table : Table F) (fds : E → Nat) (file : E → F)
    (held : Set E) : Prop where
  distinct : Set.InjOn fds held
  free : ∀ e ∈ held, base (fds e) = none
  holds : ∀ e ∈ held, table (fds e) = some (file e)
  kept : ∀ fd, (∀ e ∈ held, fds e ≠ fd) → table fd = base fd

section Extensions

variable {F E : Type*} {base table table' : Table F} {fds : E → Nat} {file : E → F} {held : Set E}
  {e : E}

theorem Extends.refl (base : Table F) (fds : E → Nat) (file : E → F) :
    Extends base base fds file ∅ where
  distinct := Set.injOn_empty fds
  free := nofun
  holds := nofun
  kept _ _ := rfl

/-- Without held files the table is the base again. -/
theorem Extends.eq_base (h : Extends base table fds file ∅) : table = base := by
  funext fd
  exact h.kept fd nofun

/-- Where the table has something that the base has not, it is one of the held files. -/
theorem Extends.mem_or (h : Extends base table fds file held) {fd : Nat} {f : F}
    (hfd : table fd = some f) : base fd = some f ∨ ∃ e ∈ held, fds e = fd ∧ file e = f := by
  by_cases hheld : ∃ e ∈ held, fds e = fd
  · obtain ⟨e, he, rfl⟩ := hheld
    rw [h.holds e he] at hfd
    exact Or.inr ⟨e, he, rfl, Option.some.inj hfd⟩
  · refine Or.inl ?_
    rw [← h.kept fd fun e he heq => hheld ⟨e, he, heq⟩]
    exact hfd

section Updates

variable [DecidableEq E]

theorem Extends.allocate {limit fd : Nat} (h : Extends base table fds file held) (he : e ∉ held)
    (hcall : allocate limit table (file e) = some (fd, table')) :
    Extends base table' (Function.update fds e fd) file (insert e held) := by
  obtain ⟨hmem, rfl⟩ := allocate_eq_some hcall
  have hfree := (mem_free.mp hmem).2
  have hsame : ∀ other ∈ held, Function.update fds e fd other = fds other := by
    intro other hother
    apply Function.update_of_ne
    rintro rfl
    exact he hother
  have hapart : ∀ other ∈ held, fds other ≠ fd := by
    rintro other hother rfl
    rw [h.holds other hother] at hfree
    cases hfree
  constructor
  · have hheld : Set.InjOn (Function.update fds e fd) held :=
      h.distinct.congr fun other hother => (hsame other hother).symm
    refine (Set.injOn_insert he).mpr ⟨hheld, ?_⟩
    rintro ⟨other, hother, heq⟩
    rw [hsame other hother, Function.update_self] at heq
    exact hapart other hother heq
  · rintro other (rfl | hother)
    · rw [Function.update_self, ← h.kept fd hapart]
      exact hfree
    · rw [hsame other hother]
      exact h.free other hother
  · rintro other (rfl | hother)
    · rw [Function.update_self, Function.update_self]
    · rw [hsame other hother, Function.update_of_ne (hapart other hother)]
      exact h.holds other hother
  · intro fd' hother
    have hne : fd' ≠ fd := by
      rintro rfl
      exact hother e (Set.mem_insert e held) (Function.update_self e fd' fds)
    rw [Function.update_of_ne hne]
    apply h.kept
    intro other hmem
    rw [← hsame other hmem]
    exact hother other (Set.mem_insert_of_mem e hmem)

end Updates

theorem Extends.close (h : Extends base table fds file held) (he : e ∈ held) :
    ∃ table', close table (fds e) = some table' ∧ Extends base table' fds file (held \ {e}) := by
  refine ⟨Function.update table (fds e) none, if_pos (by rw [h.holds e he]; rfl), ?_⟩
  have hapart : ∀ other ∈ held \ {e}, fds other ≠ fds e := by
    rintro other ⟨hother, hne⟩ heq
    exact hne (h.distinct hother he heq)
  constructor
  · exact h.distinct.mono Set.sdiff_subset
  · intro other hother
    exact h.free other hother.1
  · intro other hother
    rw [Function.update_of_ne (hapart other hother)]
    exact h.holds other hother.1
  · intro fd hfd
    by_cases hself : fd = fds e
    · subst hself
      rw [Function.update_self, h.free e he]
    · rw [Function.update_of_ne hself]
      apply h.kept
      rintro other hother rfl
      exact hfd other ⟨hother, fun heq => hself (congrArg fds heq)⟩ rfl

/-- A held file is copied over one that is open in the base. -/
theorem Extends.dup2 {new : Nat} (h : Extends base table fds file held) (he : e ∈ held)
    (hopen : (base new).isSome) :
    ∃ table', dup2 table (fds e) new = some table' ∧
      Extends (Function.update base new (some (file e))) table' fds file held := by
  refine ⟨Function.update table new (some (file e)), ?_, ?_⟩
  · unfold Descriptors.dup2
    rw [h.holds e he]
    rfl
  have hapart : ∀ other ∈ held, fds other ≠ new := by
    rintro other hother rfl
    rw [h.free other hother] at hopen
    cases hopen
  constructor
  · exact h.distinct
  · intro other hother
    rw [Function.update_of_ne (hapart other hother)]
    exact h.free other hother
  · intro other hother
    rw [Function.update_of_ne (hapart other hother)]
    exact h.holds other hother
  · intro fd hfd
    by_cases hnew : fd = new
    · subst hnew
      rw [Function.update_self, Function.update_self]
    · rw [Function.update_of_ne hnew, Function.update_of_ne hnew]
      exact h.kept fd hfd

end Extensions

end Descriptors
