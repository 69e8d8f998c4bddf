import JCUnit.Frontend.Parser
import JCUnit.Memory.SinglyLinkedList

/-!
# The parsed tests as linked lists

`parse_test_suite` and its callees build a list of tests, each with a list of arguments and a list
of requirements, each of which has a list of arguments. All nodes are in records of the memory
pool, and every list is a `struct slist` that is appended to by an end pointer. A tree that has
been built stays as it is while the memory grows.
-/

namespace JCUnit

open LinkedChain StateError

/-- The places of `struct slist`: the heads of lists, the list entries of the records, and the
variable `arguments` of `parse_test_epilog`. The numbers tell the records of one kind apart. -/
inductive AstNode
  | tests (suite : Nat)
  | test (index : Nat)
  | testArguments (test : Nat)
  | testRequirements (test : Nat)
  | requirement (index : Nat)
  | requirementArguments (requirement : Nat)
  | argument (index : Nat)
  | epilogArguments
deriving DecidableEq

/-- The links, the other fields of the records, the variable `directive` of `parse_test_prolog` and
`parse_test_epilog`, and how many records of each kind have been allocated. -/
structure AstMemory where
  next : Memory AstNode
  requirementName : Nat → Option Bytes
  requirementContent : Nat → Option Bytes
  argument : Nat → AstArgument
  directive : Option Bytes
  suites : Nat
  tests : Nat
  requirements : Nat
  arguments : Nat

/-- What `directive` of a `struct directive_parse_context` points to. -/
inductive DirectiveTarget
  | requirementName (requirement : Nat)
  | localVariable
deriving DecidableEq

/-- No node is touched. -/
abbrev Nowhere : AstNode → Prop := fun _ => False

namespace AstMemory

section Steps

variable (memory : AstMemory)

/-- `make_slist` -/
def makeSlist : Nat × AstMemory :=
  (memory.suites, { memory with
    next := slistInit memory.next (.tests memory.suites)
    suites := memory.suites + 1 })

theorem makeSlist_empty :
    memory.makeSlist.2.next (.tests memory.suites) = .tests memory.suites :=
  slistInit_self _ _

/-- `make_ast_test` -/
def makeAstTest : Nat × AstMemory :=
  let next := slistInit memory.next (.testRequirements memory.tests)
  (memory.tests, { memory with
    next := slistInit next (.testArguments memory.tests)
    tests := memory.tests + 1 })

theorem makeAstTest_arguments :
    memory.makeAstTest.2.next (.testArguments memory.tests) = .testArguments memory.tests :=
  slistInit_self _ _

theorem makeAstTest_requirements :
    memory.makeAstTest.2.next (.testRequirements memory.tests) =
      .testRequirements memory.tests := by
  unfold makeAstTest
  dsimp only
  have hne : AstNode.testRequirements memory.tests ≠ .testArguments memory.tests := by rintro ⟨⟩
  rw [slistInit_of_ne hne, slistInit_self]

/-- `make_ast_requirement` -/
def makeAstRequirement : Nat × AstMemory :=
  (memory.requirements, { memory with
    next := slistInit memory.next (.requirementArguments memory.requirements)
    requirementName := Function.update memory.requirementName memory.requirements none
    requirementContent := Function.update memory.requirementContent memory.requirements none
    requirements := memory.requirements + 1 })

theorem makeAstRequirement_arguments :
    memory.makeAstRequirement.2.next (.requirementArguments memory.requirements) =
      .requirementArguments memory.requirements :=
  slistInit_self _ _

/-- A node goes in at the end of a list. The end pointer moves to it. -/
def append (endNode new : AstNode) : AstNode × AstMemory :=
  let (next, endNode) := slistAppend memory.next endNode new
  (endNode, { memory with next })

/-- `ast_requirement_argument_alloc`, and the fields of the argument. -/
def makeArgument (argument : AstArgument) : Nat × AstMemory :=
  (memory.arguments, { memory with
    argument := Function.update memory.argument memory.arguments argument
    arguments := memory.arguments + 1 })

/-- A new argument goes in at the end of its list. -/
def appendArgument (endNode : AstNode) (argument : AstArgument) : AstNode × AstMemory :=
  let (i, memory) := memory.makeArgument argument
  memory.append endNode (.argument i)

def unsetDirective : Unit × AstMemory :=
  ((), { memory with directive := none })

/-- `*directive_parse_context->directive = name` -/
def setDirective (target : DirectiveTarget) (name : Bytes) : Unit × AstMemory :=
  match target with
  | .requirementName i => ((), { memory with
      requirementName := Function.update memory.requirementName i (some name) })
  | .localVariable => ((), { memory with directive := some name })

def directiveAt : DirectiveTarget → Option Bytes
  | .requirementName i => memory.requirementName i
  | .localVariable => memory.directive

@[simp] theorem setDirective_next (target : DirectiveTarget) (name : Bytes) :
    (memory.setDirective target name).2.next = memory.next := by
  cases target with
  | requirementName i => rfl
  | localVariable => rfl

@[simp] theorem directiveAt_setDirective (target : DirectiveTarget) (name : Bytes) :
    (memory.setDirective target name).2.directiveAt target = some name := by
  cases target with
  | requirementName i => exact Function.update_self _ _ _
  | localVariable => rfl

def setContent (requirement : Nat) (content : Bytes) : Unit × AstMemory :=
  ((), { memory with
    requirementContent := Function.update memory.requirementContent requirement (some content) })

end Steps

/-- The node is in a record that has been allocated. -/
def Allocated (memory : AstMemory) : AstNode → Prop
  | .tests i => i < memory.suites
  | .test i | .testArguments i | .testRequirements i => i < memory.tests
  | .requirement i | .requirementArguments i => i < memory.requirements
  | .argument i => i < memory.arguments
  | .epilogArguments => False

/-- What has been allocated stays as it is, but for the links of the nodes that are touched and the
name of a requirement whose arguments are. -/
structure Grows (touched : AstNode → Prop) (m m' : AstMemory) : Prop where
  suites : m.suites ≤ m'.suites
  tests : m.tests ≤ m'.tests
  requirements : m.requirements ≤ m'.requirements
  arguments : m.arguments ≤ m'.arguments
  next : ∀ node, m.Allocated node → ¬touched node → m'.next node = m.next node
  requirementName : ∀ i < m.requirements, ¬touched (.requirementArguments i) →
    m'.requirementName i = m.requirementName i
  requirementContent : ∀ i < m.requirements, m'.requirementContent i = m.requirementContent i
  argument : ∀ i < m.arguments, m'.argument i = m.argument i

variable {m m' m'' : AstMemory} {touched touched' : AstNode → Prop}

theorem Grows.refl (touched : AstNode → Prop) (m : AstMemory) : Grows touched m m where
  suites := le_rfl
  tests := le_rfl
  requirements := le_rfl
  arguments := le_rfl
  next _ _ _ := rfl
  requirementName _ _ _ := rfl
  requirementContent _ _ := rfl
  argument _ _ := rfl

theorem Allocated.mono (h : Grows touched m m') {node : AstNode} (hnode : m.Allocated node) :
    m'.Allocated node := by
  cases node with
  | tests i => exact lt_of_lt_of_le hnode h.suites
  | test i => exact lt_of_lt_of_le hnode h.tests
  | testArguments i => exact lt_of_lt_of_le hnode h.tests
  | testRequirements i => exact lt_of_lt_of_le hnode h.tests
  | requirement i => exact lt_of_lt_of_le hnode h.requirements
  | requirementArguments i => exact lt_of_lt_of_le hnode h.requirements
  | argument i => exact lt_of_lt_of_le hnode h.arguments
  | epilogArguments => exact hnode

/-- Growth goes on. Nodes that were not allocated at first may be touched later on. -/
theorem Grows.trans (h : Grows touched m m') (h' : Grows touched' m' m'')
    (htouched : ∀ node, m.Allocated node → touched' node → touched node) :
    Grows touched m m'' where
  suites := h.suites.trans h'.suites
  tests := h.tests.trans h'.tests
  requirements := h.requirements.trans h'.requirements
  arguments := h.arguments.trans h'.arguments
  next node hnode hnot := by
    rw [h'.next node (hnode.mono h) (mt (htouched node hnode) hnot), h.next node hnode hnot]
  requirementName i hi hnot := by
    have hnot' : ¬touched' (.requirementArguments i) :=
      mt (htouched (.requirementArguments i) hi) hnot
    rw [h'.requirementName i (lt_of_lt_of_le hi h.requirements) hnot', h.requirementName i hi hnot]
  requirementContent i hi := by
    rw [h'.requirementContent i (lt_of_lt_of_le hi h.requirements), h.requirementContent i hi]
  argument i hi := by
    rw [h'.argument i (lt_of_lt_of_le hi h.arguments), h.argument i hi]

/-- Touched nodes that were not allocated do not count. -/
theorem Grows.weaken (h : Grows touched m m')
    (htouched : ∀ node, m.Allocated node → touched node → touched' node) :
    Grows touched' m m' :=
  (Grows.refl touched' m).trans h htouched

section Growing

theorem grows_makeSlist (m : AstMemory) : Grows Nowhere m m.makeSlist.2 where
  __ := Grows.refl Nowhere m
  suites := Nat.le_succ _
  next node hnode _ := by
    apply slistInit_of_ne
    rintro rfl
    exact absurd hnode (Nat.lt_irrefl _)

theorem grows_makeAstTest (m : AstMemory) : Grows Nowhere m m.makeAstTest.2 where
  __ := Grows.refl Nowhere m
  tests := Nat.le_succ _
  next node hnode _ := by
    have harguments : node ≠ .testArguments m.tests := by
      rintro rfl
      exact absurd hnode (Nat.lt_irrefl _)
    have hrequirements : node ≠ .testRequirements m.tests := by
      rintro rfl
      exact absurd hnode (Nat.lt_irrefl _)
    exact (slistInit_of_ne harguments).trans (slistInit_of_ne hrequirements)

theorem grows_makeAstRequirement (m : AstMemory) : Grows Nowhere m m.makeAstRequirement.2 where
  __ := Grows.refl Nowhere m
  requirements := Nat.le_succ _
  next node hnode _ := by
    apply slistInit_of_ne
    rintro rfl
    exact absurd hnode (Nat.lt_irrefl _)
  requirementName i hi _ := Function.update_of_ne (Nat.ne_of_lt hi) _ _
  requirementContent i hi := Function.update_of_ne (Nat.ne_of_lt hi) _ _

theorem grows_makeArgument (m : AstMemory) (argument : AstArgument) :
    Grows Nowhere m (m.makeArgument argument).2 where
  __ := Grows.refl Nowhere m
  arguments := Nat.le_succ _
  argument _ hi := Function.update_of_ne (Nat.ne_of_lt hi) _ _

theorem grows_unsetDirective (m : AstMemory) : Grows Nowhere m m.unsetDirective.2 :=
  { Grows.refl Nowhere m with }

theorem grows_append (m : AstMemory) (endNode new : AstNode) :
    Grows (fun node => node = endNode ∨ node = new) m (m.append endNode new).2 where
  __ := Grows.refl (fun node => node = endNode ∨ node = new) m
  next _ _ hnot := append_of_ne (not_or.mp hnot).1 (not_or.mp hnot).2

/-- The name goes into a requirement whose arguments are touched, or into a variable. -/
theorem Grows.setDirective (h : Grows touched m m') {target : DirectiveTarget}
    (htarget : ∀ i, target = .requirementName i → touched (.requirementArguments i))
    (name : Bytes) : Grows touched m (m'.setDirective target name).2 := by
  cases target with
  | requirementName j =>
      refine { h with requirementName := ?_ }
      intro i hi hnot
      have hne : i ≠ j := by
        rintro rfl
        exact hnot (htarget i rfl)
      exact (Function.update_of_ne hne _ _).trans (h.requirementName i hi hnot)
  | localVariable => exact { h with }

theorem Grows.setContent (h : Grows touched m m') {requirement : Nat}
    (hnew : m.requirements ≤ requirement) (content : Bytes) :
    Grows touched m (m'.setContent requirement content).2 where
  __ := h
  requirementContent i hi := by
    have hne : i ≠ requirement := Nat.ne_of_lt (lt_of_lt_of_le hi hnew)
    exact (Function.update_of_ne hne _ _).trans (h.requirementContent i hi)

end Growing

end AstMemory

/-- Lists of arguments, of requirements and of tests have no node in common. -/
def AstNode.level : AstNode → Nat
  | .tests _ | .test _ => 2
  | .testRequirements _ | .requirement _ => 1
  | .testArguments _ | .requirementArguments _ | .argument _ | .epilogArguments => 0

/-- Records that are in lists of their own: the list entry of each, the record that
`list_get_owner` tells from it, how many there are, and what it means that one is a value. It stays
this value while lower lists stay. -/
structure RecordKind (β : Type) where
  entry : Nat → AstNode
  owner : AstNode → Option Nat
  count : AstMemory → Nat
  level : Nat
  Holds : AstMemory → Nat → β → Prop
  owner_entry : ∀ i, owner (entry i) = some i
  level_entry : ∀ i, (entry i).level = level
  allocated_entry : ∀ m i, m.Allocated (entry i) ↔ i < count m
  below : ∀ {m i record}, Holds m i record → i < count m
  frame : ∀ {m m' : AstMemory} {touched i record}, Holds m i record → m.Grows touched m' →
    (∀ node, touched node → level ≤ node.level) → Holds m' i record

section Lists

variable {β : Type} {kind : RecordKind β} {m₀ m m' : AstMemory} {touched : AstNode → Prop}
  {head endNode : AstNode} {records : List β}

theorem RecordKind.count_mono (kind : RecordKind β) (hgrows : m.Grows touched m') :
    kind.count m ≤ kind.count m' := by
  by_contra hless
  have hbelow : kind.count m' < kind.count m := Nat.lt_of_not_le hless
  have hallocated := ((kind.allocated_entry m _).mpr hbelow).mono hgrows
  exact Nat.lt_irrefl _ ((kind.allocated_entry m' _).mp hallocated)

theorem RecordKind.entry_injective (kind : RecordKind β) : Function.Injective kind.entry := by
  intro i j h
  have howner := congrArg kind.owner h
  rw [kind.owner_entry, kind.owner_entry] at howner
  exact Option.some.inj howner

/-- The list at the head has these records. -/
def RecordKind.IsList (kind : RecordKind β) (m : AstMemory) (head : AstNode) (records : List β) :
    Prop :=
  ∃ places, RecordChain m.next head kind.entry (kind.count m) (kind.Holds m) records places

theorem RecordKind.IsList.slistIsEmpty_iff (h : kind.IsList m head records) :
    slistIsEmpty m.next head = true ↔ records = [] := by
  obtain ⟨places, hchain⟩ := h
  exact slistIsEmpty_records hchain

/-- A list stays if no node of its level, or of a lower one, is touched. -/
theorem RecordKind.IsList.frame (h : kind.IsList m head records) (hgrows : m.Grows touched m')
    (hhead : m.Allocated head) (hlevel : head.level = kind.level)
    (htouched : ∀ node, touched node → kind.level < node.level) :
    kind.IsList m' head records := by
  have hnot : ∀ node : AstNode, node.level = kind.level → ¬touched node :=
    fun node hnode htouch => absurd hnode (Nat.ne_of_gt (htouched node htouch))
  obtain ⟨places, hchain⟩ := h
  refine ⟨places, hchain.frame (hgrows.next head hhead (hnot head hlevel)) ?_
    (kind.count_mono hgrows) ?_⟩
  · intro i hi
    exact hgrows.next _ ((kind.allocated_entry m i).mpr hi) (hnot _ (kind.level_entry i))
  · intro i record hrecord
    exact kind.frame hrecord hgrows fun node hnode => Nat.le_of_lt (htouched node hnode)

/-- The list at the head is being built from records that are new since `m₀`, of which nothing but
the link of the head has changed. The end pointer is at the end. -/
structure Listing (kind : RecordKind β) (m₀ : AstMemory) (head endNode : AstNode)
    (records : List β) (m : AstMemory) : Prop where
  grows : m₀.Grows (· = head) m
  chain : OpenChain m.next head kind.entry (kind.count m₀) (kind.count m) (kind.Holds m) endNode
    records

theorem Listing.of_self (hempty : m.next head = head) : Listing kind m head head [] m :=
  ⟨.refl _ m, .of_self hempty⟩

theorem Listing.isList (h : Listing kind m₀ head endNode records m) :
    kind.IsList m head records :=
  h.chain.exists_places

/-- What was new since a later memory is new since an earlier one. -/
theorem Listing.since (h : Listing kind m₀ head endNode records m) {m₁ : AstMemory}
    (hgrows : m₁.Grows Nowhere m₀) : Listing kind m₁ head endNode records m where
  grows := by
    apply (hgrows.weaken fun _ _ hnowhere => False.elim hnowhere).trans h.grows
    exact fun _ _ htouch => htouch
  chain := h.chain.of_first_le (kind.count_mono hgrows)

/-- Another record has been made, with all that belongs to it, and goes in at the end. -/
theorem Listing.append (h : Listing kind m₀ head endNode records m) (hgrows : m.Grows Nowhere m')
    (hhead : m'.next head = m.next head) (hne : ∀ i, kind.entry i ≠ head)
    (hlevel : head.level = kind.level) {record : β}
    (hrecord : kind.Holds m' (kind.count m) record) :
    Listing kind m₀ head (kind.entry (kind.count m)) (records ++ [record])
      (m'.append endNode (kind.entry (kind.count m))).2 := by
  have hend := h.chain.end_eq_or
  have hcount := kind.count_mono h.grows
  have happend := m'.grows_append endNode (kind.entry (kind.count m))
  have htouched : ∀ node, node = endNode ∨ node = kind.entry (kind.count m) →
      kind.level ≤ node.level := by
    rintro node (rfl | rfl)
    · rcases hend with rfl | ⟨i, -, rfl⟩
      · exact hlevel.ge
      · exact (kind.level_entry i).ge
    · exact (kind.level_entry _).ge
  constructor
  · apply (h.grows.trans hgrows fun _ _ hnowhere => False.elim hnowhere).trans happend
    have hold : ∀ i, kind.count m₀ ≤ i → ¬m₀.Allocated (kind.entry i) :=
      fun i hi hallocated => absurd ((kind.allocated_entry m₀ i).mp hallocated) (Nat.not_lt.mpr hi)
    rintro node hnode (rfl | rfl)
    · rcases hend with heq | ⟨i, hi, rfl⟩
      · exact heq
      · exact absurd hnode (hold i hi)
    · exact absurd hnode (hold _ hcount)
  · have hframe : OpenChain m'.next head kind.entry (kind.count m₀) (kind.count m) (kind.Holds m')
        endNode records := by
      apply h.chain.frame hhead ?_ le_rfl
      · intro i record hi
        exact kind.frame hi hgrows fun _ hnowhere => False.elim hnowhere
      · intro i hi
        exact hgrows.next _ ((kind.allocated_entry m i).mpr hi) id
    have hnew := kind.frame hrecord happend htouched
    exact hframe.append kind.entry_injective (hne _) hcount (kind.below hnew)
      (fun i record hi => kind.frame hi happend htouched) hnew

section Loops

variable {σ γ : Type} {places : List Nat}

/-- `slist_foreach` over a list of records, which are no more than have been allocated. -/
def RecordKind.foreach (kind : RecordKind β) (m : AstMemory) (head : AstNode)
    (body : σ → Nat → Except Halt σ) (s : σ) : Except Halt σ :=
  slistForeach (fun _ => m.next) (kind.count m) head (fun s iterator =>
    match kind.owner iterator with
    | some i => body s i
    | none => .error .undefined) s

/-- `slist_foreach` over a list of records, with a `return` in its body. -/
def RecordKind.foreachReturn (kind : RecordKind β) (m : AstMemory) (head : AstNode)
    (body : Nat → Except Halt (Option γ)) : Except Halt (Option γ) :=
  slistForeachReturn m.next (kind.count m) head fun iterator =>
    match kind.owner iterator with
    | some i => body i
    | none => .error .undefined

theorem RecordKind.foreach_eq_foldlM {body : σ → Nat → Except Halt σ}
    (h : RecordChain m.next head kind.entry (kind.count m) (kind.Holds m) records places) (s : σ) :
    kind.foreach m head body s = places.foldlM body s := by
  unfold RecordKind.foreach
  rw [slistForeach_eq h.table.chain h.table.length_le, List.foldlM_map]
  simp only [kind.owner_entry]

/-- A loop over a list of records is a fold over the records. -/
theorem RecordKind.IsList.foreach_eq {body : σ → Nat → Except Halt σ}
    {bodyOf : σ → β → Except Halt σ} (h : kind.IsList m head records)
    (hbody : ∀ s i record, kind.Holds m i record → body s i = bodyOf s record) (s : σ) :
    kind.foreach m head body s = records.foldlM bodyOf s := by
  obtain ⟨places, hchain⟩ := h
  rw [kind.foreach_eq_foldlM hchain]
  exact foldlM_eq_of_forall₂ hchain.records hbody s

/-- A loop that looks for a record returns if there is one. -/
theorem RecordKind.IsList.foreachReturn_eq {body : Nat → Except Halt (Option γ)} {found : β → Bool}
    (h : kind.IsList m head records)
    (hbody : ∀ i record, kind.Holds m i record →
      ∃ returned, body i = .ok returned ∧ returned.isSome = found record) :
    ∃ returned, kind.foreachReturn m head body = .ok returned ∧
      returned.isSome = (records.find? found).isSome := by
  obtain ⟨places, hchain⟩ := h
  have hnodes : List.Forall₂ (fun node record => ∃ i, node = kind.entry i ∧ kind.Holds m i record)
      (places.map kind.entry) records :=
    List.forall₂_map_left_iff.mpr (hchain.records.imp fun i record hi => ⟨i, rfl, hi⟩)
  apply slistForeachReturn_eq hchain.table.chain hchain.table.length_le hnodes
  rintro _ record ⟨i, rfl, hi⟩
  rw [kind.owner_entry]
  exact hbody i record hi

theorem RecordKind.IsList.slistCount_eq (h : kind.IsList m head records) :
    slistCount m.next (kind.count m) head = .ok (UInt32.ofNat records.length) := by
  obtain ⟨places, hchain⟩ := h
  exact slistCount_records hchain

end Loops

end Lists

section Trees

variable {m m' : AstMemory} {touched : AstNode → Prop} {i : Nat}

/-- The record with this number is this argument. -/
structure HoldsArgument (m : AstMemory) (i : Nat) (argument : AstArgument) : Prop where
  allocated : i < m.arguments
  record : m.argument i = argument

def argumentKind : RecordKind AstArgument where
  entry := .argument
  owner
    | .argument i => some i
    | _ => none
  count := AstMemory.arguments
  level := 0
  Holds := HoldsArgument
  owner_entry _ := rfl
  level_entry _ := rfl
  allocated_entry _ _ := Iff.rfl
  below h := h.allocated
  frame h hgrows _ :=
    ⟨lt_of_lt_of_le h.allocated hgrows.arguments, (hgrows.argument _ h.allocated).trans h.record⟩

/-- The record with this number is this requirement. -/
structure HoldsRequirement (m : AstMemory) (i : Nat) (requirement : AstRequirement) : Prop where
  allocated : i < m.requirements
  name : m.requirementName i = some requirement.name
  content : m.requirementContent i = requirement.content
  arguments : argumentKind.IsList m (.requirementArguments i) requirement.arguments

theorem HoldsRequirement.frame {requirement : AstRequirement} (h : HoldsRequirement m i requirement)
    (hgrows : m.Grows touched m') (htouched : ∀ node, touched node → 0 < node.level) :
    HoldsRequirement m' i requirement := by
  refine ⟨lt_of_lt_of_le h.allocated hgrows.requirements, ?_, ?_, ?_⟩
  · rw [hgrows.requirementName i h.allocated, h.name]
    intro htouch
    exact absurd (htouched _ htouch) (Nat.lt_irrefl 0)
  · rw [hgrows.requirementContent i h.allocated, h.content]
  · exact h.arguments.frame hgrows h.allocated rfl htouched

theorem HoldsRequirement.setContent {requirement : AstRequirement}
    (h : HoldsRequirement m i requirement) (content : Bytes) :
    HoldsRequirement (m.setContent i content).2 i { requirement with content := some content } where
  allocated := h.allocated
  name := h.name
  content := Function.update_self _ _ _
  arguments := by
    obtain ⟨places, hchain⟩ := h.arguments
    refine ⟨places, hchain.frame rfl (fun _ _ => rfl) le_rfl ?_⟩
    intro j argument hargument
    exact ⟨hargument.allocated, hargument.record⟩

def requirementKind : RecordKind AstRequirement where
  entry := .requirement
  owner
    | .requirement i => some i
    | _ => none
  count := AstMemory.requirements
  level := 1
  Holds := HoldsRequirement
  owner_entry _ := rfl
  level_entry _ := rfl
  allocated_entry _ _ := Iff.rfl
  below h := h.allocated
  frame h hgrows htouched := h.frame hgrows htouched

/-- The record with this number is this test. -/
structure HoldsTest (m : AstMemory) (i : Nat) (test : AstTest) : Prop where
  allocated : i < m.tests
  arguments : argumentKind.IsList m (.testArguments i) test.arguments
  requirements : requirementKind.IsList m (.testRequirements i) test.requirements

theorem HoldsTest.frame {test : AstTest} (h : HoldsTest m i test) (hgrows : m.Grows touched m')
    (htouched : ∀ node, touched node → 1 < node.level) : HoldsTest m' i test where
  allocated := lt_of_lt_of_le h.allocated hgrows.tests
  arguments := by
    apply h.arguments.frame hgrows h.allocated rfl
    intro node hnode
    exact Nat.zero_lt_of_lt (htouched node hnode)
  requirements := h.requirements.frame hgrows h.allocated rfl htouched

def testKind : RecordKind AstTest where
  entry := .test
  owner
    | .test i => some i
    | _ => none
  count := AstMemory.tests
  level := 2
  Holds := HoldsTest
  owner_entry _ := rfl
  level_entry _ := rfl
  allocated_entry _ _ := Iff.rfl
  below h := h.allocated
  frame h hgrows htouched := h.frame hgrows htouched

end Trees

end JCUnit
