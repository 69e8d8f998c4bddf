import JCUnit.Foundation.LinkedRing

/-!
# Intrusive lists

The functions of `list.c` for a `struct list`, as the reads and writes of its two pointers that
they make one after the other. A list is a ring behind its head: `list_append` puts a node at
its end, `list_shift` takes the first one out.
-/

namespace JCUnit

open LinkedRing

variable {α : Type} [DecidableEq α]

section Functions

variable (memory : Memory α)

/-- A list without nodes: both links of its head lead to the head. -/
def listInit (ptr : α) : Memory α :=
  setPrev (setNext memory ptr ptr) ptr ptr

/-- The new node comes between two neighbours. -/
def doListAdd (new prev next : α) : Memory α :=
  let memory := setPrev memory next new
  let memory := setNext memory new next
  let memory := setPrev memory new prev
  setNext memory prev new

/-- The new node comes between the last one and the head. -/
def listAppend (head new : α) : Memory α :=
  doListAdd memory new (memory head).prev head

/-- The neighbours of the node are linked to each other; its own links stay. -/
def listRemove (item : α) : Memory α :=
  let memory := setPrev memory (memory item).next (memory item).prev
  setNext memory (memory item).prev (memory item).next

/-- The node that `list_shift` returns, and the links it leaves. -/
def listShift (head : α) : α × Memory α :=
  let next := (memory head).next
  (next, listRemove memory next)

/-- The head is its own successor. -/
def listIsEmpty (head : α) : Bool :=
  (memory head).next = head

end Functions

variable {memory : Memory α} {head node : α} {nodes : List α}

/-- A new list is a ring of its head alone. -/
theorem ring_listInit (memory : Memory α) (head : α) : Ring (listInit memory head) head [] := by
  apply Ring.of_self
  · simp [listInit]
  · simp [listInit]

/-- Initializing another node leaves the ring. -/
theorem ring_listInit_other (h : Ring memory head nodes) (hnode : node ∉ head :: nodes) :
    Ring (listInit memory node) head nodes := by
  apply h.frame
  intro a ha
  have hne : a ≠ node := fun heq => hnode (heq ▸ ha)
  unfold listInit setPrev setNext
  rw [Function.update_of_ne hne, Function.update_of_ne hne]

/-- A node that is not in the ring becomes its last one. -/
theorem ring_listAppend (h : Ring memory head nodes) (hnew : node ∉ head :: nodes) :
    Ring (listAppend memory head node) head (nodes ++ [node]) := by
  apply h.append hnew
  · intro a
    simp [listAppend, doListAdd]
  · intro a
    simp [listAppend, doListAdd]

/-- Only the node before the removed one gets another successor. -/
theorem listRemove_next (memory : Memory α) (item a : α) :
    (listRemove memory item a).next =
      if a = (memory item).prev then (memory item).next else (memory a).next := by
  simp [listRemove]

/-- Only the node behind the removed one gets another predecessor. -/
theorem listRemove_prev (memory : Memory α) (item a : α) :
    (listRemove memory item a).prev =
      if a = (memory item).next then (memory item).prev else (memory a).prev := by
  simp [listRemove]

/-- The first node comes out, and the others are still a ring. -/
theorem ring_listShift (h : Ring memory head (node :: nodes)) :
    (listShift memory head).1 = node ∧
      Ring (listShift memory head).2 head nodes := by
  have hnext := h.next_head
  have hprev : (memory node).prev = head := (List.isChain_cons_cons.mp h.closed).1.2
  refine ⟨hnext, h.tail ?_ ?_⟩
  · intro a
    rw [listShift, hnext, listRemove_next, hprev]
  · intro a
    rw [listShift, hnext, listRemove_prev, hprev]

/-- The test for an empty list is right on every ring. -/
theorem listIsEmpty_iff (h : Ring memory head nodes) :
    listIsEmpty memory head = true ↔ nodes = [] := by
  rw [listIsEmpty, decide_eq_true_iff]
  exact h.next_head_eq_iff

end JCUnit
