import JCUnit.Foundation.StateError
import Mathlib.Data.List.Nodup
import Mathlib.Logic.Relation

/-!
# Level order

A forest is given by its roots and the children of each node. The nodes of one level are the
children of those of the level above, in order. A queue that gives out the node at its front
and takes in the children of that node at its end goes through the forest level by level.
-/

namespace LevelOrder

variable {α β ε σ : Type} (children : α → List α)

/-- The nodes that are this far below. -/
def level : Nat → List α → List α
  | 0, nodes => nodes
  | n + 1, nodes => level n (nodes.flatMap children)

/-- All nodes of the first levels, level by level. -/
def levels : Nat → List α → List α
  | 0, _ => []
  | n + 1, nodes => nodes ++ levels n (nodes.flatMap children)

/-- Take the nodes off a queue, visit each and put its children behind the others. -/
def queueWalk (visit : σ → α → Except ε σ) (diverged : ε) : Nat → List α → σ → Except ε σ
  | _, [], s => .ok s
  | 0, _ :: _, _ => .error diverged
  | rounds + 1, node :: queue, s =>
      visit s node >>= queueWalk visit diverged rounds (queue ++ children node)

variable {children}

/-- A level at the front of the queue is visited in order, and the next level is put behind. -/
theorem queueWalk_append {visit : σ → α → Except ε σ} {diverged : ε} (front later : List α)
    (rounds : Nat) (s : σ) :
    queueWalk children visit diverged (front.length + rounds) (front ++ later) s =
      front.foldlM visit s >>=
        queueWalk children visit diverged rounds (later ++ front.flatMap children) := by
  induction front generalizing later s with
  | nil => simp
  | cons node front ih =>
      have hrounds : (node :: front).length + rounds = (front.length + rounds) + 1 := by
        rw [List.length_cons]
        omega
      rw [hrounds, List.cons_append, queueWalk, List.foldlM_cons, bind_assoc]
      congr 1
      funext s'
      rw [List.append_assoc, ih, List.append_assoc, List.flatMap_cons]

/-- Where nothing is below the first levels, the queue goes through exactly these. -/
theorem queueWalk_eq_foldlM {visit : σ → α → Except ε σ} {diverged : ε} {n : Nat}
    {nodes : List α} (hbottom : level children n nodes = []) (s : σ) :
    queueWalk children visit diverged (levels children n nodes).length nodes s =
      (levels children n nodes).foldlM visit s := by
  induction n generalizing nodes s with
  | zero =>
      obtain rfl : nodes = [] := hbottom
      rfl
  | succ n ih =>
      have happend : queueWalk children visit diverged
          (nodes.length + (levels children n (nodes.flatMap children)).length) (nodes ++ []) s =
            nodes.foldlM visit s >>= queueWalk children visit diverged
              (levels children n (nodes.flatMap children)).length ([] ++ nodes.flatMap children) :=
        queueWalk_append nodes [] _ s
      rw [List.append_nil, List.nil_append] at happend
      rw [levels, List.length_append, happend, List.foldlM_append]
      congr 1
      funext s'
      exact ih hbottom s'

/-- A property that the children have one step deeper holds on each level at its depth. -/
theorem forall_mem_level {P : Nat → α → Prop}
    (hchildren : ∀ k a, P k a → ∀ b ∈ children a, P (k + 1) b) {nodes : List α} {k : Nat}
    (hnodes : ∀ a ∈ nodes, P k a) (n : Nat) : ∀ a ∈ level children n nodes, P (k + n) a := by
  induction n generalizing nodes k with
  | zero => exact hnodes
  | succ n ih =>
      intro a ha
      have hnext : ∀ b ∈ nodes.flatMap children, P (k + 1) b := by
        intro b hb
        obtain ⟨c, hc, hbc⟩ := List.mem_flatMap.mp hb
        exact hchildren k c (hnodes c hc) b hbc
      have hdeep := ih hnext a ha
      rwa [Nat.add_assoc, Nat.add_comm 1 n] at hdeep

/-- The levels hold exactly what can be reached from a root. -/
theorem mem_levels {n : Nat} {nodes : List α} (hbottom : level children n nodes = []) {a : α} :
    a ∈ levels children n nodes ↔
      ∃ root ∈ nodes, Relation.ReflTransGen (fun b c => c ∈ children b) root a := by
  induction n generalizing nodes with
  | zero =>
      obtain rfl : nodes = [] := hbottom
      simp [levels]
  | succ n ih =>
      rw [levels, List.mem_append, ih hbottom]
      constructor
      · rintro (ha | ⟨b, hb, hreach⟩)
        · exact ⟨a, ha, .refl⟩
        · obtain ⟨c, hc, hbc⟩ := List.mem_flatMap.mp hb
          exact ⟨c, hc, .head hbc hreach⟩
      · rintro ⟨root, hroot, hreach⟩
        rcases hreach.cases_head with rfl | ⟨b, hb, hrest⟩
        · exact Or.inl hroot
        · exact Or.inr ⟨b, List.mem_flatMap.mpr ⟨root, hroot, hb⟩, hrest⟩

section Ranks

variable {rank : α → Nat} (hrank : ∀ a, ∀ b ∈ children a, rank b = rank a + 1)
include hrank

theorem rank_of_mem_flatMap {nodes : List α} {k : Nat} (hnodes : ∀ a ∈ nodes, rank a = k) :
    ∀ b ∈ nodes.flatMap children, rank b = k + 1 := by
  intro b hb
  obtain ⟨a, ha, hba⟩ := List.mem_flatMap.mp hb
  rw [hrank a b hba, hnodes a ha]

theorem le_rank_of_mem_levels {nodes : List α} {k : Nat} (hnodes : ∀ a ∈ nodes, rank a = k)
    (n : Nat) : ∀ a ∈ levels children n nodes, k ≤ rank a := by
  induction n generalizing nodes k with
  | zero =>
      intro a ha
      cases ha
  | succ n ih =>
      intro a ha
      rcases List.mem_append.mp ha with ha | ha
      · exact Nat.le_of_eq (hnodes a ha).symm
      · exact Nat.le_of_succ_le (ih (rank_of_mem_flatMap hrank hnodes) a ha)

/-- No node comes before one that lies higher. -/
theorem levels_pairwise_rank {nodes : List α} {k : Nat} (hnodes : ∀ a ∈ nodes, rank a = k)
    (n : Nat) : (levels children n nodes).Pairwise fun a b => rank a ≤ rank b := by
  induction n generalizing nodes k with
  | zero => exact .nil
  | succ n ih =>
      have hbelow := rank_of_mem_flatMap hrank hnodes
      refine List.pairwise_append.mpr ⟨?_, ih hbelow, ?_⟩
      · apply List.pairwise_of_forall_mem_list
        intro a ha b hb
        exact Nat.le_of_eq ((hnodes a ha).trans (hnodes b hb).symm)
      · intro a ha b hb
        rw [hnodes a ha]
        exact Nat.le_of_succ_le (le_rank_of_mem_levels hrank hbelow n b hb)

/-- In a forest, where no node is a child twice, no node comes twice. -/
theorem levels_nodup (hparent : ∀ a b, ∀ c ∈ children a, c ∈ children b → a = b)
    (hchildren : ∀ a, (children a).Nodup) {nodes : List α} {k : Nat}
    (hnodes : ∀ a ∈ nodes, rank a = k) (hnodup : nodes.Nodup) (n : Nat) :
    (levels children n nodes).Nodup := by
  induction n generalizing nodes k with
  | zero => exact .nil
  | succ n ih =>
      have hbelow := rank_of_mem_flatMap hrank hnodes
      have hnext : (nodes.flatMap children).Nodup := by
        refine List.nodup_flatMap.mpr ⟨fun a _ => hchildren a, hnodup.imp ?_⟩
        intro a b hne c hca hcb
        exact hne (hparent a b c hca hcb)
      refine hnodup.append (ih hbelow hnext) ?_
      intro a ha hdeep
      have hle := le_rank_of_mem_levels hrank hbelow n a hdeep
      rw [hnodes a ha] at hle
      omega

end Ranks

section Renaming

variable {children' : β → List β} {rename : α → β}

theorem flatMap_rename (hrename : ∀ a, children' (rename a) = (children a).map rename)
    (nodes : List α) : (nodes.map rename).flatMap children' = (nodes.flatMap children).map rename := by
  rw [List.flatMap_map, List.map_flatMap]
  congr 1
  funext a
  exact hrename a

theorem level_map (hrename : ∀ a, children' (rename a) = (children a).map rename) (n : Nat)
    (nodes : List α) :
    level children' n (nodes.map rename) = (level children n nodes).map rename := by
  induction n generalizing nodes with
  | zero => rfl
  | succ n ih => rw [level, level, flatMap_rename hrename, ih]

/-- The levels of a forest whose nodes have been renamed. -/
theorem levels_map (hrename : ∀ a, children' (rename a) = (children a).map rename) (n : Nat)
    (nodes : List α) :
    levels children' n (nodes.map rename) = (levels children n nodes).map rename := by
  induction n generalizing nodes with
  | zero => rfl
  | succ n ih => rw [levels, levels, flatMap_rename hrename, ih, List.map_append]

end Renaming

end LevelOrder
