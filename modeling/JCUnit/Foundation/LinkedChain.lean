import Mathlib.Data.List.Chain
import Mathlib.Data.List.Nodup
import Mathlib.Data.List.Perm.Subperm
import JCUnit.Foundation.StateError

/-!
# Circular chains of singly linked nodes

Every node of a memory has a link to a next one. A chain is a head with nodes behind it, which
the links go through and back to the head. A new node goes in behind the last one, whose link is
the end of the chain. A loop along the links is a fold over the nodes. If the link of a node is
read before the round that is at it, this round may change the link.
-/

namespace LinkedChain

variable {α : Type}

/-- The link of every node, whatever it is where nothing has been written yet. -/
abbrev Memory (α : Type) := α → α

/-- The links lead from each node of the path to the one behind it. -/
def Path (memory : Memory α) (path : List α) : Prop :=
  path.IsChain fun a b => memory a = b

/-- The nodes behind the head, in the order of the links. No node is there twice. -/
structure Chain (memory : Memory α) (head : α) (nodes : List α) : Prop where
  distinct : (head :: nodes).Nodup
  closed : Path memory (head :: (nodes ++ [head]))

variable {memory memory' : Memory α} {head node : α} {nodes : List α}

theorem path_singleton (memory : Memory α) (a : α) : Path memory [a] := .singleton a

theorem path_cons_cons {a b : α} {path : List α} :
    Path memory (a :: b :: path) ↔ memory a = b ∧ Path memory (b :: path) :=
  List.isChain_cons_cons

theorem path_append_cons_cons {a b : α} {front path : List α} :
    Path memory (front ++ a :: b :: path) ↔
      Path memory (front ++ [a]) ∧ memory a = b ∧ Path memory (b :: path) :=
  List.isChain_append_cons_cons

/-- A path stays one if the links of all nodes but the last stay. -/
theorem Path.frame {path : List α} (h : Path memory path)
    (hsame : ∀ a ∈ path.dropLast, memory' a = memory a) : Path memory' path := by
  induction h with
  | nil => exact .nil
  | singleton a => exact .singleton a
  | @cons_cons a b path hlink hrest ih =>
      refine .cons_cons ?_ (ih ?_)
      · rw [hsame a List.mem_cons_self, hlink]
      · intro c hc
        exact hsame c (List.mem_cons_of_mem a hc)

theorem Chain.of_self (h : memory head = head) : Chain memory head [] :=
  ⟨List.nodup_singleton head, path_cons_cons.mpr ⟨h, path_singleton memory head⟩⟩

/-- Only the links of its own nodes make a chain. -/
theorem Chain.frame (h : Chain memory head nodes)
    (hsame : ∀ a ∈ head :: nodes, memory' a = memory a) : Chain memory' head nodes := by
  refine ⟨h.distinct, h.closed.frame ?_⟩
  intro a ha
  rw [← List.cons_append, List.dropLast_concat] at ha
  exact hsame a ha

theorem Chain.head_notMem (h : Chain memory head nodes) : head ∉ nodes :=
  (List.nodup_cons.mp h.distinct).1

theorem Chain.next_head (h : Chain memory head (node :: nodes)) : memory head = node :=
  (path_cons_cons.mp h.closed).1

theorem Chain.next_head_eq_iff (h : Chain memory head nodes) : memory head = head ↔ nodes = [] := by
  cases nodes with
  | nil => exact iff_of_true (path_cons_cons.mp h.closed).1 rfl
  | cons node nodes =>
      rw [h.next_head]
      refine iff_of_false ?_ (List.cons_ne_nil node nodes)
      rintro rfl
      exact h.head_notMem List.mem_cons_self

/-- The node whose link is the end of the chain. -/
def last (head : α) (nodes : List α) : α :=
  (head :: nodes).getLast (List.cons_ne_nil head nodes)

theorem exists_last (head : α) (nodes : List α) :
    ∃ init, head :: nodes = init ++ [last head nodes] :=
  ⟨_, (List.dropLast_append_getLast (List.cons_ne_nil head nodes)).symm⟩

theorem last_mem (head : α) (nodes : List α) : last head nodes ∈ head :: nodes :=
  List.getLast_mem (List.cons_ne_nil head nodes)

@[simp] theorem last_cons (head node : α) (nodes : List α) :
    last head (node :: nodes) = last node nodes :=
  List.getLast_cons (List.cons_ne_nil node nodes)

@[simp] theorem last_concat (head node : α) (nodes : List α) :
    last head (nodes ++ [node]) = node := by
  unfold last
  simp only [← List.cons_append, List.getLast_concat]

theorem Chain.next_last (h : Chain memory head nodes) : memory (last head nodes) = head := by
  obtain ⟨init, hinit⟩ := exists_last head nodes
  have hclosed := h.closed
  rw [← List.cons_append, hinit, List.append_assoc, List.singleton_append,
    path_append_cons_cons] at hclosed
  exact hclosed.2.1

section Appending

variable [DecidableEq α]

/-- The end, which is the link of this node, gets a new node in front of what it led to. -/
def append (memory : Memory α) (last node : α) : Memory α :=
  Function.update (Function.update memory node (memory last)) last node

theorem append_of_ne {a last : α} (hlast : a ≠ last) (hnode : a ≠ node) :
    append memory last node a = memory a := by
  unfold append
  rw [Function.update_of_ne hlast, Function.update_of_ne hnode]

/-- A new node goes in between the last one and the head. -/
theorem Chain.append (h : Chain memory head nodes) (hnew : node ∉ head :: nodes) :
    Chain (append memory (last head nodes) node) head (nodes ++ [node]) := by
  have hend := h.next_last
  have hnewLast : node ≠ last head nodes := fun heq => hnew (heq ▸ last_mem head nodes)
  obtain ⟨init, hinit⟩ := exists_last head nodes
  have hdistinct : (init ++ [last head nodes]).Nodup := hinit ▸ h.distinct
  have hclosed := h.closed
  rw [← List.cons_append, hinit, List.append_assoc, List.singleton_append,
    path_append_cons_cons] at hclosed
  constructor
  · rw [← List.cons_append, List.nodup_append_comm]
    exact List.nodup_cons.mpr ⟨hnew, h.distinct⟩
  · have hpath : head :: (nodes ++ [node] ++ [head]) =
        init ++ last head nodes :: node :: [head] := by
      rw [← List.cons_append, ← List.cons_append, hinit, List.append_assoc, List.append_assoc]
      rfl
    rw [hpath, path_append_cons_cons, path_cons_cons]
    refine ⟨hclosed.1.frame ?_, ?_, ?_, path_singleton _ head⟩
    · intro a ha
      rw [List.dropLast_concat] at ha
      apply append_of_ne
      · rintro rfl
        rw [List.nodup_append_comm] at hdistinct
        exact (List.nodup_cons.mp hdistinct).1 ha
      · rintro rfl
        exact hnew (hinit ▸ List.mem_append_left _ ha)
    · unfold LinkedChain.append
      rw [Function.update_self]
    · unfold LinkedChain.append
      rw [Function.update_of_ne hnewLast, Function.update_self, hend]

end Appending

section Loops

open StateError

variable {ε σ : Type} [DecidableEq α] (diverged : ε) (links : σ → Memory α) (head : α)
  (body : σ → α → Except ε σ)

/-- A loop along the links up to the head. The link to the next node is read after each round. -/
def walk : Nat → α → σ → Except ε σ
  | rounds, iterator, s =>
      if iterator = head then .ok s
      else
        match rounds with
        | 0 => .error diverged
        | rounds + 1 => do
            let s ← body s iterator
            walk rounds (links s iterator) s

/-- A loop along the links up to the head. The link to the next node is read before each round. -/
def walkSafe : Nat → α → α → σ → Except ε σ
  | rounds, iterator, next, s =>
      if iterator = head then .ok s
      else
        match rounds with
        | 0 => .error diverged
        | rounds + 1 => do
            let s ← body s iterator
            walkSafe rounds next (links s next) s

/-- The node whose link leads to the head. -/
def lastFrom (memory : Memory α) : Nat → α → Except ε α
  | rounds, node =>
      if memory node = head then .ok node
      else
        match rounds with
        | 0 => .error diverged
        | rounds + 1 => lastFrom memory rounds (memory node)

variable {diverged links head body} {s : σ} {rounds : Nat}

theorem walk_of_path {path : List α} {iterator : α}
    (hpath : iterator :: path = nodes ++ [head]) (h : Path (links s) (iterator :: path))
    (hhead : head ∉ nodes) (hrounds : nodes.length ≤ rounds)
    (hkeep : ∀ s a s', body s a = .ok s' → ∀ b, links s' b = links s b) :
    walk diverged links head body rounds iterator s = nodes.foldlM body s := by
  induction nodes generalizing iterator path s rounds with
  | nil =>
      obtain ⟨rfl, -⟩ := List.cons_eq_cons.mp hpath
      unfold walk
      rw [if_pos rfl]
      rfl
  | cons node nodes ih =>
      obtain ⟨rfl, rfl⟩ := List.cons_eq_cons.mp hpath
      obtain ⟨hne, hrest⟩ := not_or.mp (mt List.mem_cons.mpr hhead)
      obtain ⟨rounds, rfl⟩ := Nat.exists_eq_add_one_of_ne_zero (Nat.ne_zero_of_lt hrounds)
      obtain ⟨next, path, hnext⟩ := List.exists_cons_of_ne_nil (List.concat_ne_nil head nodes)
      rw [List.append_eq, hnext] at h
      obtain ⟨hlink, hpathRest⟩ := path_cons_cons.mp h
      unfold walk
      rw [if_neg (Ne.symm hne), List.foldlM_cons]
      dsimp only
      cases hbody : body s iterator with
      | error e => rfl
      | ok s' =>
          have hsame := hkeep s iterator s' hbody
          change walk diverged links head body rounds (links s' iterator) s' = _
          rw [hsame, hlink]
          apply ih hnext.symm (hpathRest.frame fun a _ => hsame a) hrest
          exact Nat.le_of_succ_le_succ hrounds

/-- The nodes are visited in the order of the chain, whatever else each round does. -/
theorem Chain.walk_eq (h : Chain (links s) head nodes) (hrounds : nodes.length ≤ rounds)
    (hkeep : ∀ s a s', body s a = .ok s' → ∀ b, links s' b = links s b) :
    walk diverged links head body rounds (links s head) s = nodes.foldlM body s := by
  obtain ⟨next, path, hnext⟩ := List.exists_cons_of_ne_nil (List.concat_ne_nil head nodes)
  have hclosed := h.closed
  rw [hnext] at hclosed
  obtain ⟨hlink, hpath⟩ := path_cons_cons.mp hclosed
  rw [hlink]
  exact walk_of_path hnext.symm hpath h.head_notMem hrounds hkeep

/-- A loop that only reads the links. -/
theorem Chain.walk_const_eq {memory : Memory α} (h : Chain memory head nodes)
    (hrounds : nodes.length ≤ rounds) :
    walk diverged (fun _ => memory) head body rounds (memory head) s = nodes.foldlM body s := by
  apply Chain.walk_eq ?_ hrounds
  · intros
    rfl
  · exact h

theorem walkSafe_of_path {path : List α} {iterator : α}
    (hpath : iterator :: path = nodes ++ [head]) (h : Path (links s) (iterator :: path))
    (hdistinct : (head :: nodes).Nodup) (hrounds : nodes.length ≤ rounds)
    (hkeep : ∀ s a s', body s a = .ok s' → ∀ b, b ≠ a → links s' b = links s b) :
    walkSafe diverged links head body rounds iterator (links s iterator) s =
      nodes.foldlM body s := by
  induction nodes generalizing iterator path s rounds with
  | nil =>
      obtain ⟨rfl, -⟩ := List.cons_eq_cons.mp hpath
      unfold walkSafe
      rw [if_pos rfl]
      rfl
  | cons node nodes ih =>
      obtain ⟨rfl, rfl⟩ := List.cons_eq_cons.mp hpath
      obtain ⟨hhead, hnodes⟩ := List.nodup_cons.mp hdistinct
      obtain ⟨hne, hheadRest⟩ := not_or.mp (mt List.mem_cons.mpr hhead)
      obtain ⟨hiterator, hrest⟩ := List.nodup_cons.mp hnodes
      obtain ⟨rounds, rfl⟩ := Nat.exists_eq_add_one_of_ne_zero (Nat.ne_zero_of_lt hrounds)
      obtain ⟨next, path, hnext⟩ := List.exists_cons_of_ne_nil (List.concat_ne_nil head nodes)
      rw [List.append_eq] at h
      have hdropLast : (next :: path).dropLast = nodes := by rw [← hnext, List.dropLast_concat]
      rw [hnext] at h
      obtain ⟨hlink, hpathRest⟩ := path_cons_cons.mp h
      unfold walkSafe
      rw [if_neg (Ne.symm hne), List.foldlM_cons, hlink]
      dsimp only
      cases hbody : body s iterator with
      | error e => rfl
      | ok s' =>
          have hsame := hkeep s iterator s' hbody
          apply ih hnext.symm ?_ (List.nodup_cons.mpr ⟨hheadRest, hrest⟩)
          · exact Nat.le_of_succ_le_succ hrounds
          · apply hpathRest.frame
            intro a ha
            rw [hdropLast] at ha
            exact hsame a fun heq => hiterator (heq ▸ ha)

/-- A round may change the link of the node it is at: the nodes are visited all the same. -/
theorem Chain.walkSafe_eq (h : Chain (links s) head nodes) (hrounds : nodes.length ≤ rounds)
    (hkeep : ∀ s a s', body s a = .ok s' → ∀ b, b ≠ a → links s' b = links s b) :
    walkSafe diverged links head body rounds (links s head) (links s (links s head)) s =
      nodes.foldlM body s := by
  obtain ⟨next, path, hnext⟩ := List.exists_cons_of_ne_nil (List.concat_ne_nil head nodes)
  have hclosed := h.closed
  rw [hnext] at hclosed
  obtain ⟨hlink, hpath⟩ := path_cons_cons.mp hclosed
  rw [hlink]
  exact walkSafe_of_path hnext.symm hpath h.distinct hrounds hkeep

theorem lastFrom_of_path {memory : Memory α} {node : α}
    (h : Path memory (node :: (nodes ++ [head]))) (hhead : head ∉ nodes)
    (hrounds : nodes.length ≤ rounds) :
    lastFrom diverged head memory rounds node = .ok (last node nodes) := by
  induction nodes generalizing node rounds with
  | nil =>
      unfold lastFrom
      rw [if_pos (path_cons_cons.mp h).1]
      rfl
  | cons next nodes ih =>
      obtain ⟨hlink, hpath⟩ := path_cons_cons.mp h
      obtain ⟨hne, hrest⟩ := not_or.mp (mt List.mem_cons.mpr hhead)
      obtain ⟨rounds, rfl⟩ := Nat.exists_eq_add_one_of_ne_zero (Nat.ne_zero_of_lt hrounds)
      unfold lastFrom
      rw [hlink, if_neg (Ne.symm hne), last_cons]
      exact ih hpath hrest (Nat.le_of_succ_le_succ hrounds)

theorem Chain.lastFrom_eq {memory : Memory α} (h : Chain memory head nodes)
    (hrounds : nodes.length ≤ rounds) :
    lastFrom diverged head memory rounds head = .ok (last head nodes) :=
  lastFrom_of_path h.closed h.head_notMem hrounds

end Loops

section Tables

variable {place : Nat → α} {count : Nat} {places : List Nat}

/-- A chain of nodes that have been taken, in any order, from a table with this many entries. -/
structure TableChain (memory : Memory α) (head : α) (place : Nat → α) (count : Nat)
    (places : List Nat) : Prop where
  chain : Chain memory head (places.map place)
  below : ∀ i ∈ places, i < count

theorem TableChain.of_self (h : memory head = head) : TableChain memory head place count [] where
  chain := .of_self h
  below _ hi := absurd hi List.not_mem_nil

/-- As many rounds as there are entries are enough for a loop over the chain. -/
theorem TableChain.length_le (h : TableChain memory head place count places) :
    (places.map place).length ≤ count := by
  have hsubset : places ⊆ List.range count := fun i hi => List.mem_range.mpr (h.below i hi)
  have hlength :=
    (List.subperm_of_subset (h.chain.distinct.of_cons.of_map place) hsubset).length_le
  rwa [List.length_range, ← List.length_map place] at hlength

theorem TableChain.notMem (h : TableChain memory head place count places)
    (hinj : Function.Injective place) (hhead : place count ≠ head) :
    place count ∉ head :: places.map place := by
  intro hmem
  rcases List.mem_cons.mp hmem with heq | hmem
  · exact hhead heq
  · obtain ⟨i, hi, heq⟩ := List.mem_map.mp hmem
    exact absurd (hinj heq ▸ h.below i hi) (Nat.lt_irrefl count)

/-- Other links may change, and the table may grow. -/
theorem TableChain.frame {count' : Nat} (h : TableChain memory head place count places)
    (hsame : ∀ a ∈ head :: places.map place, memory' a = memory a) (hcount : count ≤ count') :
    TableChain memory' head place count' places where
  chain := h.chain.frame hsame
  below i hi := lt_of_lt_of_le (h.below i hi) hcount

/-- The next entry of the table goes in at the end. -/
theorem TableChain.append [DecidableEq α] (h : TableChain memory head place count places)
    (hinj : Function.Injective place) (hhead : place count ≠ head) :
    TableChain (append memory (last head (places.map place)) (place count)) head place (count + 1)
      (places ++ [count]) where
  chain := by
    rw [List.map_append]
    exact h.chain.append (h.notMem hinj hhead)
  below i hi := by
    rcases List.mem_append.mp hi with hi | hi
    · exact Nat.lt_succ_of_lt (h.below i hi)
    · rw [List.mem_singleton.mp hi]
      exact Nat.lt_succ_self count

end Tables

section Records

variable {β : Type} {place : Nat → α} {first count count' : Nat} {Holds Holds' : Nat → β → Prop}
  {records : List β} {places : List Nat} {endNode : α}

/-- A chain of entries that hold these records. -/
structure RecordChain (memory : Memory α) (head : α) (place : Nat → α) (count : Nat)
    (Holds : Nat → β → Prop) (records : List β) (places : List Nat) : Prop where
  table : TableChain memory head place count places
  records : List.Forall₂ Holds places records

theorem RecordChain.frame (h : RecordChain memory head place count Holds records places)
    (hhead : memory' head = memory head)
    (hplace : ∀ i < count, memory' (place i) = memory (place i)) (hcount : count ≤ count')
    (hholds : ∀ i b, Holds i b → Holds' i b) :
    RecordChain memory' head place count' Holds' records places where
  table := by
    apply h.table.frame ?_ hcount
    intro a ha
    rcases List.mem_cons.mp ha with rfl | ha
    · exact hhead
    · obtain ⟨i, hi, rfl⟩ := List.mem_map.mp ha
      exact hplace i (h.table.below i hi)
  records := h.records.imp hholds

/-- A chain that is appended to, with the end pointer at its last node. All its entries come after
the first ones of the table. -/
def OpenChain (memory : Memory α) (head : α) (place : Nat → α) (first count : Nat)
    (Holds : Nat → β → Prop) (endNode : α) (records : List β) : Prop :=
  ∃ places, RecordChain memory head place count Holds records places ∧
    (∀ i ∈ places, first ≤ i) ∧ endNode = last head (places.map place)

theorem OpenChain.of_self (h : memory head = head) :
    OpenChain memory head place first count Holds head [] :=
  ⟨[], ⟨.of_self h, .nil⟩, fun _ hi => absurd hi List.not_mem_nil, rfl⟩

theorem OpenChain.exists_places
    (h : OpenChain memory head place first count Holds endNode records) :
    ∃ places, RecordChain memory head place count Holds records places :=
  h.imp fun _ hplaces => hplaces.1

theorem OpenChain.end_eq_or (h : OpenChain memory head place first count Holds endNode records) :
    endNode = head ∨ ∃ i, first ≤ i ∧ endNode = place i := by
  obtain ⟨places, -, hfirst, hend⟩ := h
  rcases List.mem_cons.mp (last_mem head (places.map place)) with heq | hmem
  · exact .inl (hend.trans heq)
  · obtain ⟨i, hi, heq⟩ := List.mem_map.mp hmem
    exact .inr ⟨i, hfirst i hi, hend.trans heq.symm⟩

theorem OpenChain.frame (h : OpenChain memory head place first count Holds endNode records)
    (hhead : memory' head = memory head)
    (hplace : ∀ i < count, memory' (place i) = memory (place i)) (hcount : count ≤ count')
    (hholds : ∀ i b, Holds i b → Holds' i b) :
    OpenChain memory' head place first count' Holds' endNode records := by
  obtain ⟨places, hchain, hrest⟩ := h
  exact ⟨places, hchain.frame hhead hplace hcount hholds, hrest⟩

theorem OpenChain.of_first_le {first' : Nat}
    (h : OpenChain memory head place first count Holds endNode records) (hfirst : first' ≤ first) :
    OpenChain memory head place first' count Holds endNode records := by
  obtain ⟨places, hchain, hplaces, hend⟩ := h
  exact ⟨places, hchain, fun i hi => hfirst.trans (hplaces i hi), hend⟩

/-- The next entry of the table goes in at the end pointer, with a new record. -/
theorem OpenChain.append [DecidableEq α]
    (h : OpenChain memory head place first count Holds endNode records)
    (hinj : Function.Injective place) (hhead : place count ≠ head) (hfirst : first ≤ count)
    (hcount : count < count') (hholds : ∀ i b, Holds i b → Holds' i b) {record : β}
    (hnew : Holds' count record) :
    OpenChain (LinkedChain.append memory endNode (place count)) head place first count' Holds'
      (place count) (records ++ [record]) := by
  obtain ⟨places, hchain, hplaces, rfl⟩ := h
  refine ⟨places ++ [count], ⟨?_, ?_⟩, ?_, ?_⟩
  · exact (hchain.table.append hinj hhead).frame (fun _ _ => rfl) hcount
  · exact List.rel_append (hchain.records.imp hholds) (.cons hnew .nil)
  · intro i hi
    rcases List.mem_append.mp hi with hi | hi
    · exact hplaces i hi
    · rw [List.mem_singleton.mp hi]
      exact hfirst
  · rw [List.map_append]
    exact (last_concat _ _ _).symm

end Records

end LinkedChain
