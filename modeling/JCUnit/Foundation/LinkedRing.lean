import Mathlib.Data.List.Chain
import Mathlib.Data.List.Nodup

/-!
# Rings of doubly linked nodes

Every node of a memory has a link to a next and to a previous node. A ring is a head with nodes
behind it, which the next links go through and back to the head, and the previous links the other
way round. A memory whose links differ in the places where a node goes in or out has the ring with
this node or without it.
-/

namespace LinkedRing

variable {α : Type}

structure Links (α : Type) where
  next : α
  prev : α

/-- The links of all nodes, whatever they hold where nothing has been written yet. -/
abbrev Memory (α : Type) := α → Links α

section Writes

variable [DecidableEq α]

def setNext (memory : Memory α) (node target : α) : Memory α :=
  Function.update memory node { memory node with next := target }

def setPrev (memory : Memory α) (node target : α) : Memory α :=
  Function.update memory node { memory node with prev := target }

variable (memory : Memory α) (node target a : α)

@[simp] theorem setNext_next :
    (setNext memory node target a).next = if a = node then target else (memory a).next := by
  unfold setNext
  rw [Function.update_apply]
  split <;> rfl

@[simp] theorem setNext_prev : (setNext memory node target a).prev = (memory a).prev := by
  unfold setNext
  rw [Function.update_apply]
  split
  case isTrue h => rw [h]
  case isFalse => rfl

@[simp] theorem setPrev_next : (setPrev memory node target a).next = (memory a).next := by
  unfold setPrev
  rw [Function.update_apply]
  split
  case isTrue h => rw [h]
  case isFalse => rfl

@[simp] theorem setPrev_prev :
    (setPrev memory node target a).prev = if a = node then target else (memory a).prev := by
  unfold setPrev
  rw [Function.update_apply]
  split <;> rfl

end Writes

/-- The two nodes point to one another. -/
def Joined (memory : Memory α) (a b : α) : Prop :=
  (memory a).next = b ∧ (memory b).prev = a

/-- The nodes behind the head, in the order of the next links. No node is there twice. -/
structure Ring (memory : Memory α) (head : α) (nodes : List α) : Prop where
  distinct : (head :: nodes).Nodup
  closed : (head :: (nodes ++ [head])).IsChain (Joined memory)

variable {memory memory' : Memory α} {head node : α} {nodes : List α}

/-- A path stays one if the next links of all nodes but the last and the previous links of all
nodes but the first stay. -/
theorem isChain_frame {path : List α} (h : path.IsChain (Joined memory))
    (hnext : ∀ a ∈ path.dropLast, (memory' a).next = (memory a).next)
    (hprev : ∀ a ∈ path.tail, (memory' a).prev = (memory a).prev) :
    path.IsChain (Joined memory') := by
  induction h with
  | nil => exact .nil
  | singleton a => exact .singleton a
  | @cons_cons a b path hjoined hrest ih =>
      refine .cons_cons ⟨?_, ?_⟩ (ih ?_ ?_)
      · rw [hnext a List.mem_cons_self, hjoined.1]
      · rw [hprev b List.mem_cons_self, hjoined.2]
      · intro c hc
        exact hnext c (List.mem_cons_of_mem a hc)
      · intro c hc
        exact hprev c (List.mem_cons_of_mem b hc)

theorem Ring.of_self (hnext : (memory head).next = head) (hprev : (memory head).prev = head) :
    Ring memory head [] :=
  ⟨List.nodup_singleton head, .cons_cons ⟨hnext, hprev⟩ (.singleton head)⟩

/-- Only the links of its own nodes make a ring. -/
theorem Ring.frame (h : Ring memory head nodes)
    (hsame : ∀ a ∈ head :: nodes, memory' a = memory a) : Ring memory' head nodes := by
  refine ⟨h.distinct, isChain_frame h.closed ?_ ?_⟩
  · intro a ha
    rw [← List.cons_append, List.dropLast_concat] at ha
    rw [hsame a ha]
  · intro a ha
    have hmem : a ∈ head :: nodes := by
      rcases List.mem_append.mp ha with ha | ha
      · exact List.mem_cons_of_mem head ha
      · rw [List.mem_singleton.mp ha]
        exact List.mem_cons_self
    rw [hsame a hmem]

theorem Ring.next_head (h : Ring memory head (node :: nodes)) : (memory head).next = node :=
  (List.isChain_cons_cons.mp h.closed).1.1

theorem Ring.next_head_eq_iff (h : Ring memory head nodes) :
    (memory head).next = head ↔ nodes = [] := by
  cases nodes with
  | nil => exact iff_of_true (List.isChain_cons_cons.mp h.closed).1.1 rfl
  | cons node nodes =>
      rw [h.next_head]
      constructor
      · rintro rfl
        exact absurd List.mem_cons_self (List.nodup_cons.mp h.distinct).1
      · intro hnil
        cases hnil

/-- The previous link of the head leads to the last node. -/
theorem Ring.exists_last (h : Ring memory head nodes) :
    ∃ init, head :: nodes = init ++ [(memory head).prev] ∧
      (init ++ [(memory head).prev]).IsChain (Joined memory) := by
  obtain ⟨init, last, hlast⟩ : ∃ init last, head :: nodes = init ++ [last] :=
    ⟨_, _, (List.dropLast_append_getLast (List.cons_ne_nil head nodes)).symm⟩
  have hclosed := h.closed
  rw [← List.cons_append, hlast, List.append_assoc, List.singleton_append,
    List.isChain_append_cons_cons] at hclosed
  obtain ⟨hinit, ⟨-, hprev⟩, -⟩ := hclosed
  rw [hprev]
  exact ⟨init, hlast, hinit⟩

/-- A new node goes in between the last one and the head. -/
theorem Ring.append [DecidableEq α] (h : Ring memory head nodes) (hnew : node ∉ head :: nodes)
    (hnext : ∀ a, (memory' a).next = if a = (memory head).prev then node
      else if a = node then head else (memory a).next)
    (hprev : ∀ a, (memory' a).prev = if a = node then (memory head).prev
      else if a = head then node else (memory a).prev) :
    Ring memory' head (nodes ++ [node]) := by
  obtain ⟨init, hlast, hinit⟩ := h.exists_last
  generalize (memory head).prev = last at hnext hprev hlast hinit
  obtain ⟨hnewHead, hnewNodes⟩ := not_or.mp (mt List.mem_cons.mpr hnew)
  have hnewLast : node ≠ last := by
    rintro rfl
    apply hnew
    rw [hlast]
    exact List.mem_append_right init (List.mem_singleton_self node)
  have hpath : (init ++ [last]).IsChain (Joined memory') := by
    apply isChain_frame hinit
    · intro a ha
      rw [List.dropLast_concat] at ha
      have halast : a ≠ last := by
        rintro rfl
        have hdistinct := h.distinct
        rw [hlast, List.nodup_append_comm] at hdistinct
        exact (List.nodup_cons.mp hdistinct).1 ha
      have hanew : a ≠ node := by
        rintro rfl
        exact hnew (hlast ▸ List.mem_append_left [last] ha)
      rw [hnext, if_neg halast, if_neg hanew]
    · intro a ha
      rw [← hlast, List.tail_cons] at ha
      have hanew : a ≠ node := fun heq => hnewNodes (heq ▸ ha)
      have hahead : a ≠ head := fun heq => (List.nodup_cons.mp h.distinct).1 (heq ▸ ha)
      rw [hprev, if_neg hanew, if_neg hahead]
  constructor
  · rw [← List.cons_append, List.nodup_append_comm]
    exact List.nodup_cons.mpr ⟨hnew, h.distinct⟩
  · have hring : head :: (nodes ++ [node] ++ [head]) = init ++ last :: node :: [head] := by
      rw [← List.cons_append, ← List.cons_append, hlast, List.append_assoc, List.append_assoc]
      rfl
    rw [hring, List.isChain_append_cons_cons, List.isChain_cons_cons]
    refine ⟨hpath, ⟨?_, ?_⟩, ⟨?_, ?_⟩, .singleton head⟩
    · rw [hnext, if_pos rfl]
    · rw [hprev, if_pos rfl]
    · rw [hnext, if_neg hnewLast, if_pos rfl]
    · rw [hprev, if_neg (Ne.symm hnewHead), if_pos rfl]

/-- The first node goes out, and the head and the second node are joined. -/
theorem Ring.tail [DecidableEq α] (h : Ring memory head (node :: nodes))
    (hnext : ∀ a, (memory' a).next = if a = head then (memory node).next else (memory a).next)
    (hprev : ∀ a, (memory' a).prev = if a = (memory node).next then head else (memory a).prev) :
    Ring memory' head nodes := by
  obtain ⟨hhead, hdistinct⟩ := List.nodup_cons.mp h.distinct
  have hrest : (head :: nodes).Nodup :=
    List.nodup_cons.mpr ⟨fun hmem => hhead (List.mem_cons_of_mem node hmem), hdistinct.of_cons⟩
  refine ⟨hrest, ?_⟩
  have hclosed := (List.isChain_cons_cons.mp h.closed).2
  obtain ⟨second, path, hpath⟩ := List.exists_cons_of_ne_nil (List.concat_ne_nil head nodes)
  rw [List.append_eq, hpath, List.isChain_cons_cons] at hclosed
  obtain ⟨⟨hsecond, -⟩, hpathChain⟩ := hclosed
  rw [hsecond] at hnext hprev
  rw [hpath]
  refine .cons_cons ⟨?_, ?_⟩ (isChain_frame hpathChain ?_ ?_)
  · rw [hnext, if_pos rfl]
  · rw [hprev, if_pos rfl]
  · intro a ha
    rw [← hpath, List.dropLast_concat] at ha
    have hahead : a ≠ head := fun heq => (List.nodup_cons.mp hrest).1 (heq ▸ ha)
    rw [hnext, if_neg hahead]
  · intro a ha
    have hnodup : (second :: path).Nodup := by
      rw [← hpath, List.nodup_append_comm]
      exact hrest
    have hasecond : a ≠ second := fun heq => (List.nodup_cons.mp hnodup).1 (heq ▸ ha)
    rw [hprev, if_neg hasecond]

end LinkedRing
