import JCUnit.Foundation.LinkedChain
import JCUnit.Text.FatalError

/-!
# Singly linked lists

The functions and macros of `list.c` and `list.h` for a `struct slist`. An end pointer is the
address of a `next` field, and is told by the node with this field. A loop over a list is given as
many rounds as there can be nodes, and ends in `diverged` if that is not enough.
-/

namespace JCUnit

open LinkedChain StateError

variable {α : Type} [DecidableEq α]

section Functions

variable (memory : Memory α)

def slistInit (ptr : α) : Memory α :=
  Function.update memory ptr ptr

/-- `slist_append`: the links it leaves, and the end pointer that it moves. -/
def slistAppend (endNode new : α) : Memory α × α :=
  (append memory endNode new, new)

/-- `list_is_empty`, for a `struct slist`. -/
def slistIsEmpty (head : α) : Bool :=
  memory head = head

def slistGetEnd (rounds : Nat) (head : α) : Except Halt α :=
  lastFrom .diverged head memory rounds head

variable {σ : Type} (links : σ → Memory α) (rounds : Nat) (head : α)
  (body : σ → α → Except Halt σ) (s : σ)

def slistForeach : Except Halt σ :=
  walk .diverged links head body rounds (links s head) s

def slistForeachSafe : Except Halt σ :=
  let iterator := links s head
  let next := links s iterator
  walkSafe .diverged links head body rounds iterator next s

/-- `slist_foreach` with a body that may return from the function around the loop. -/
def slistForeachReturn {β : Type} (body : α → Except Halt (Option β)) : Except Halt (Option β) :=
  let round : Unit → α → Except (Halt ⊕ β) Unit := fun _ iterator =>
    match body iterator with
    | .error halt => .error (.inl halt)
    | .ok (some returned) => .error (.inr returned)
    | .ok none => .ok ()
  match walk (.inl .diverged) (fun _ => memory) head round rounds (memory head) () with
  | .ok () => .ok none
  | .error (.inr returned) => .ok (some returned)
  | .error (.inl halt) => .error halt

/-- The body of the loop of `slist_count`. The count is an `unsigned int`. -/
def countNode (count : UInt32) (_iterator : α) : Except Halt UInt32 :=
  .ok (count + 1)

def slistCount : Except Halt UInt32 :=
  slistForeach (fun _ => memory) rounds head countNode 0

end Functions

variable {memory : Memory α} {head node : α} {nodes : List α}

theorem slistInit_self (memory : Memory α) (head : α) : slistInit memory head head = head :=
  Function.update_self _ _ _

theorem slistInit_of_ne (h : node ≠ head) : slistInit memory head node = memory node :=
  Function.update_of_ne h _ _

theorem slistIsEmpty_iff (h : Chain memory head nodes) :
    slistIsEmpty memory head = true ↔ nodes = [] := by
  rw [slistIsEmpty, decide_eq_true_iff]
  exact h.next_head_eq_iff

section Loops

variable {rounds : Nat}

theorem slistGetEnd_eq (h : Chain memory head nodes) (hrounds : nodes.length ≤ rounds) :
    slistGetEnd memory rounds head = .ok (last head nodes) :=
  h.lastFrom_eq hrounds

/-- A loop that only reads the links is a fold over the nodes. -/
theorem slistForeach_eq {σ : Type} {body : σ → α → Except Halt σ} {s : σ}
    (h : Chain memory head nodes) (hrounds : nodes.length ≤ rounds) :
    slistForeach (fun _ => memory) rounds head body s = nodes.foldlM body s :=
  h.walk_const_eq hrounds

/-- If the body returns at the nodes of the records that are looked for, and does not fail at the
others, the loop returns if there is such a record. -/
theorem slistForeachReturn_eq {β γ : Type} {body : α → Except Halt (Option β)} {records : List γ}
    {S : α → γ → Prop} {found : γ → Bool} (h : Chain memory head nodes)
    (hrounds : nodes.length ≤ rounds) (hrecords : List.Forall₂ S nodes records)
    (hbody : ∀ node record, S node record →
      ∃ returned, body node = .ok returned ∧ returned.isSome = found record) :
    ∃ returned, slistForeachReturn memory rounds head body = .ok returned ∧
      returned.isSome = (records.find? found).isSome := by
  unfold slistForeachReturn
  dsimp only
  rw [h.walk_const_eq hrounds]
  clear h hrounds
  induction hrecords with
  | nil => exact ⟨none, rfl, rfl⟩
  | @cons node record nodes records hrecord _ ih =>
      obtain ⟨returned, hreturned, hfound⟩ := hbody node record hrecord
      rw [List.foldlM_cons, List.find?_cons, hreturned, ← hfound]
      cases returned with
      | some returned => exact ⟨some returned, rfl, rfl⟩
      | none => exact ih

theorem slistForeachSafe_eq {σ : Type} {links : σ → Memory α} {body : σ → α → Except Halt σ}
    {s : σ} (h : Chain (links s) head nodes) (hrounds : nodes.length ≤ rounds)
    (hkeep : ∀ s a s', body s a = .ok s' → ∀ b, b ≠ a → links s' b = links s b) :
    slistForeachSafe links rounds head body s = nodes.foldlM body s :=
  h.walkSafe_eq hrounds hkeep

omit [DecidableEq α] in
theorem foldlM_countNode (nodes : List α) (count : UInt32) :
    nodes.foldlM countNode count = .ok (count + UInt32.ofNat nodes.length) := by
  induction nodes generalizing count with
  | nil => exact congrArg Except.ok (UInt32.add_zero count).symm
  | cons node nodes ih =>
      rw [List.foldlM_cons, List.length_cons]
      refine (ih (count + 1)).trans (congrArg Except.ok ?_)
      rw [UInt32.ofNat_add, UInt32.add_comm (UInt32.ofNat nodes.length), ← UInt32.add_assoc]
      rfl

theorem slistCount_eq (h : Chain memory head nodes) (hrounds : nodes.length ≤ rounds) :
    slistCount memory rounds head = .ok (UInt32.ofNat nodes.length) := by
  unfold slistCount
  rw [slistForeach_eq h hrounds, foldlM_countNode, UInt32.zero_add]

end Loops

section Records

variable {β : Type} {place : Nat → α} {count : Nat} {Holds : Nat → β → Prop} {records : List β}
  {places : List Nat}

theorem slistIsEmpty_records (h : RecordChain memory head place count Holds records places) :
    slistIsEmpty memory head = true ↔ records = [] := by
  rw [slistIsEmpty_iff h.table.chain, List.map_eq_nil_iff, ← List.length_eq_zero_iff,
    h.records.length_eq, List.length_eq_zero_iff]

theorem slistCount_records (h : RecordChain memory head place count Holds records places) :
    slistCount memory count head = .ok (UInt32.ofNat records.length) := by
  rw [slistCount_eq h.table.chain h.table.length_le, List.length_map, h.records.length_eq]

end Records

end JCUnit
