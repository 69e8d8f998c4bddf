import JCUnit.Application.FileSystem
import JCUnit.Memory.IntrusiveList

/-!
# The queue of a walk as a linked list

`fs_read_dir` with the queue that it has: a `struct list` on its stack, with a first
`struct path_list` on the stack behind it and the others from the memory pool. It does
what the walk over a queue of paths does, whatever is in the memory before.
-/

namespace JCUnit

open StateError LinkedRing

section Comparison

/-- `strncmp` for two strings without NUL, by the difference of the bytes that tell them apart. -/
def strncmp : Bytes → Bytes → Nat → Int
  | _, _, 0 => 0
  | [], [], _ + 1 => 0
  | [], b :: _, _ + 1 => -b.toNat
  | a :: _, [], _ + 1 => a.toNat
  | a :: s, b :: t, n + 1 => if a = b then strncmp s t n else a.toNat - b.toNat

/-- With the length of one string as its limit, a comparison looks for a prefix only. -/
theorem strncmp_length_eq_zero_iff {s name : Bytes} (hname : 0 ∉ name) :
    strncmp s name name.length = 0 ↔ name <+: s := by
  induction name generalizing s with
  | nil => exact iff_of_true (by simp [strncmp]) List.nil_prefix
  | cons b name ih =>
      obtain ⟨hzero, hrest⟩ := not_or.mp (mt List.mem_cons.mpr hname)
      cases s with
      | nil =>
          have hb : b.toNat ≠ 0 := fun h => hzero (UInt8.toNat_inj.mp h).symm
          rw [List.length_cons, strncmp, List.prefix_nil]
          refine iff_of_false ?_ (List.cons_ne_nil b name)
          omega
      | cons a s =>
          rw [List.length_cons, strncmp, List.cons_prefix_cons]
          split
          case isTrue heq =>
            rw [ih hrest, heq]
            exact (and_iff_right rfl).symm
          case isFalse hne =>
            have hab : a.toNat ≠ b.toNat := fun h => hne (UInt8.toNat_inj.mp h)
            refine iff_of_false ?_ fun h => hne h.1.symm
            omega

/-- Since no name is empty, the comparisons find `.` and `..` and nothing else. -/
theorem strncmp_isDots (entry : Dirent) :
    (strncmp (ascii ".") entry.name.bytes entry.name.bytes.length = 0 ∨
      strncmp (ascii "..") entry.name.bytes entry.name.bytes.length = 0) ↔
      entry.isDots = true := by
  have hdot : ascii "." = [46] := by decide
  have hdots : ascii ".." = [46, 46] := by decide
  have hnonempty := entry.name.nonempty
  rw [strncmp_length_eq_zero_iff entry.name.nulFree, strncmp_length_eq_zero_iff entry.name.nulFree,
    Dirent.isDots, Bool.or_eq_true, beq_iff_eq, beq_iff_eq, hdot, hdots]
  simp only [List.prefix_cons_iff, List.prefix_nil]
  grind

end Comparison

/-- Where a `struct list` of the walk lies: `queue` and `base_path` are variables of
`fs_read_dir`, and the entries for new directories come from the memory pool. -/
inductive ListAddress
  | queue
  | basePath
  | newDirectory (index : Nat)
deriving DecidableEq

/-- The links of the nodes, the paths of the entries that these are in, and how many entries have
been allocated. -/
structure WalkMemory where
  links : Memory ListAddress
  path : ListAddress → CString
  allocated : Nat

/-- A new entry at the end of the queue. -/
def WalkMemory.appendDirectory (memory : WalkMemory) (path : CString) : WalkMemory :=
  let newDirectory := .newDirectory memory.allocated
  { links := listAppend (listInit memory.links newDirectory) .queue newDirectory
    path := Function.update memory.path newDirectory path
    allocated := memory.allocated + 1 }

namespace Linked

variable {σ : Type}

structure ReadDirState (σ : Type) where
  memory : WalkMemory
  requestToQuit : Bool
  context : σ

/-- A round of the loop over the entries of the directory at `current_path`. -/
def readEntry (readDirFunc : FsReadDirFunc σ) (currentPath : ListAddress) (state : ReadDirState σ)
    (entry : Dirent) : Except Halt (ReadDirState σ) :=
  if state.requestToQuit then .ok state
  else
    let path := state.memory.path currentPath
    let name := entry.name.bytes
    match entry.type with
    | .directory =>
        if strncmp (ascii ".") name name.length = 0 ∨ strncmp (ascii "..") name name.length = 0 then
          .ok state
        else .ok { state with memory := state.memory.appendDirectory (getEntryPath path entry.name) }
    | .regular => do
        let (continues, context) ← readDirFunc (getEntryPath path entry.name) state.context
        return { state with requestToQuit := !continues, context }
    | .other => .ok state

def readDirLoop (fs : FileSystem) (readDirFunc : FsReadDirFunc σ) :
    Nat → ReadDirState σ → Except Halt (ReadDirState σ)
  | rounds, state =>
      if state.requestToQuit || listIsEmpty state.memory.links .queue then .ok state
      else
        match rounds with
        | 0 => .error .diverged
        | rounds + 1 =>
            let (shifted, links) := listShift state.memory.links .queue
            let path := state.memory.path shifted
            match fs.opendir path with
            | none =>
                .error (fatalError
                  (ascii "Can't open directory \"" ++ path.bytes ++ ascii "\"!"))
            | some entries => do
                let state ← entries.foldlM (readEntry readDirFunc shifted)
                  { state with memory := { state.memory with links } }
                readDirLoop fs readDirFunc rounds state

/-- `fs_read_dir`, with a bound on the rounds of its outer loop. -/
def fsReadDir (fs : FileSystem) (rounds : Nat) (memory : WalkMemory) (path : CString)
    (readDirFunc : FsReadDirFunc σ) (context : σ) : Except Halt σ := do
  let links := listAppend (listInit memory.links .queue) .queue .basePath
  let memory := { memory with links, path := Function.update memory.path .basePath path }
  let state ← readDirLoop fs readDirFunc rounds ⟨memory, false, context⟩
  return state.context

section Refinement

variable {memory : WalkMemory} {queue : List CString} {nodes : List ListAddress}
  {currentPath : ListAddress} {path : CString}

/-- The nodes behind the head are in entries with the paths of the queue, and no entry that is
still to be allocated is among them. -/
structure Holds (memory : WalkMemory) (queue : List CString) (nodes : List ListAddress) : Prop where
  ring : Ring memory.links .queue nodes
  paths : nodes.map memory.path = queue
  allocated : ∀ i, .newDirectory i ∈ nodes → i < memory.allocated

/-- The entry that is read has this path, and has been allocated if it comes from the pool. -/
structure Reads (memory : WalkMemory) (currentPath : ListAddress) (path : CString) : Prop where
  path : memory.path currentPath = path
  allocated : ∀ i, currentPath = .newDirectory i → i < memory.allocated

theorem Holds.fresh (h : Holds memory queue nodes) :
    .newDirectory memory.allocated ∉ ListAddress.queue :: nodes := by
  intro hmem
  rcases List.mem_cons.mp hmem with heq | hmem
  · cases heq
  · exact absurd (h.allocated _ hmem) (Nat.lt_irrefl _)

theorem Holds.appendDirectory (h : Holds memory queue nodes) (path : CString) :
    Holds (memory.appendDirectory path) (queue ++ [path])
      (nodes ++ [.newDirectory memory.allocated]) := by
  have hfresh := h.fresh
  constructor
  · exact ring_listAppend (ring_listInit_other h.ring hfresh) hfresh
  · have hkept : nodes.map (Function.update memory.path (.newDirectory memory.allocated) path) =
        queue := by
      rw [← h.paths]
      apply List.map_congr_left
      intro node hnode
      have hne : node ≠ .newDirectory memory.allocated := fun heq =>
        hfresh (List.mem_cons_of_mem _ (heq ▸ hnode))
      rw [Function.update_of_ne hne]
    rw [List.map_append, List.map_singleton]
    unfold WalkMemory.appendDirectory
    dsimp only
    rw [hkept, Function.update_self]
  · intro i hi
    rcases List.mem_append.mp hi with hi | hi
    · exact Nat.lt_succ_of_lt (h.allocated i hi)
    · cases List.mem_singleton.mp hi
      exact Nat.lt_succ_self _

theorem Reads.appendDirectory (h : Reads memory currentPath path) (path' : CString) :
    Reads (memory.appendDirectory path') currentPath path := by
  constructor
  · have hne : currentPath ≠ .newDirectory memory.allocated := fun heq =>
      absurd (h.allocated _ heq) (Nat.lt_irrefl _)
    unfold WalkMemory.appendDirectory
    dsimp only
    rw [Function.update_of_ne hne, h.path]
  · intro i hi
    exact Nat.lt_succ_of_lt (h.allocated i hi)

/-- The entry that is shifted has the path at the front of the queue. -/
theorem Holds.shift (h : Holds memory (path :: queue) nodes) :
    ∃ nodes', Reads memory (listShift memory.links .queue).1 path ∧
      Holds { memory with links := (listShift memory.links .queue).2 } queue nodes' := by
  obtain ⟨node, nodes', rfl, hpath, hpaths⟩ := List.map_eq_cons_iff.mp h.paths
  obtain ⟨hnode, hring⟩ := ring_listShift h.ring
  refine ⟨nodes', ⟨?_, ?_⟩, hring, hpaths, ?_⟩
  · rw [hnode, hpath]
  · intro i hi
    rw [hnode] at hi
    exact h.allocated i (hi ▸ List.mem_cons_self)
  · intro i hi
    exact h.allocated i (List.mem_cons_of_mem node hi)

theorem Holds.isEmpty_iff (h : Holds memory queue nodes) :
    listIsEmpty memory.links .queue = true ↔ queue = [] := by
  rw [listIsEmpty_iff h.ring, ← h.paths, List.map_eq_nil_iff]

/-- The state of the walk over the linked list is one of the walk over the queue of paths. -/
structure Matches (s : ReadDirState σ) (t : JCUnit.ReadDirState σ) : Prop where
  holds : ∃ nodes, Holds s.memory t.queue nodes
  requestToQuit : s.requestToQuit = t.requestToQuit
  context : s.context = t.context

theorem readEntry_corresponds (readDirFunc : FsReadDirFunc σ) {s : ReadDirState σ}
    {t : JCUnit.ReadDirState σ} (entry : Dirent)
    (h : Matches s t ∧ Reads s.memory currentPath path) :
    Corresponds (fun s t => Matches s t ∧ Reads s.memory currentPath path)
      (readEntry readDirFunc currentPath s entry) (JCUnit.readEntry readDirFunc path t entry) := by
  obtain ⟨memory, quit, context⟩ := s
  obtain ⟨queue, quit', context'⟩ := t
  obtain ⟨⟨⟨nodes, hholds⟩, hquit, hcontext⟩, hreads⟩ := h
  obtain rfl : quit = quit' := hquit
  obtain rfl : context = context' := hcontext
  unfold readEntry JCUnit.readEntry
  dsimp only at hholds hreads ⊢
  rw [hreads.path]
  split
  case isTrue => exact .ok ⟨⟨⟨nodes, hholds⟩, rfl, rfl⟩, hreads⟩
  case isFalse =>
    cases entry.type with
    | directory =>
        dsimp only
        rw [if_congr (strncmp_isDots entry) rfl rfl]
        split
        case isTrue => exact .ok ⟨⟨⟨nodes, hholds⟩, rfl, rfl⟩, hreads⟩
        case isFalse =>
          exact .ok ⟨⟨⟨_, hholds.appendDirectory _⟩, rfl, rfl⟩, hreads.appendDirectory _⟩
    | regular =>
        dsimp only
        cases readDirFunc (getEntryPath path entry.name) context with
        | error halt => exact .error halt
        | ok answer => exact .ok ⟨⟨⟨nodes, hholds⟩, rfl, rfl⟩, hreads⟩
    | other => exact .ok ⟨⟨⟨nodes, hholds⟩, rfl, rfl⟩, hreads⟩

theorem Matches.done_iff {s : ReadDirState σ} {t : JCUnit.ReadDirState σ} (h : Matches s t) :
    (s.requestToQuit || listIsEmpty s.memory.links .queue) = true ↔
      t.requestToQuit = true ∨ t.queue = [] := by
  obtain ⟨nodes, hholds⟩ := h.holds
  rw [h.requestToQuit, Bool.or_eq_true, hholds.isEmpty_iff]

theorem readDirLoop_of_done {s : ReadDirState σ} {t : JCUnit.ReadDirState σ} (h : Matches s t)
    (hdone : t.requestToQuit = true ∨ t.queue = []) (fs : FileSystem)
    (readDirFunc : FsReadDirFunc σ) (rounds : Nat) :
    Corresponds Matches (readDirLoop fs readDirFunc rounds s)
      (JCUnit.readDirLoop fs readDirFunc rounds t) := by
  unfold readDirLoop JCUnit.readDirLoop
  rw [if_pos (h.done_iff.mpr hdone)]
  by_cases hquit : t.requestToQuit = true
  · rw [if_pos hquit]
    exact .ok h
  · rw [if_neg hquit, hdone.resolve_left hquit]
    exact .ok h

theorem readDirLoop_corresponds (fs : FileSystem) (readDirFunc : FsReadDirFunc σ) (rounds : Nat)
    {s : ReadDirState σ} {t : JCUnit.ReadDirState σ} (h : Matches s t) :
    Corresponds Matches (readDirLoop fs readDirFunc rounds s)
      (JCUnit.readDirLoop fs readDirFunc rounds t) := by
  induction rounds generalizing s t with
  | zero =>
      by_cases hdone : t.requestToQuit = true ∨ t.queue = []
      · exact readDirLoop_of_done h hdone fs readDirFunc 0
      obtain ⟨hquit, hqueue⟩ := not_or.mp hdone
      obtain ⟨path, queue, hqueue⟩ := List.exists_cons_of_ne_nil hqueue
      unfold readDirLoop JCUnit.readDirLoop
      rw [if_neg (mt h.done_iff.mp hdone), if_neg hquit, hqueue]
      exact .error _
  | succ rounds ih =>
      by_cases hdone : t.requestToQuit = true ∨ t.queue = []
      · exact readDirLoop_of_done h hdone fs readDirFunc (rounds + 1)
      obtain ⟨hquit, hqueue⟩ := not_or.mp hdone
      obtain ⟨path, queue, hqueue⟩ := List.exists_cons_of_ne_nil hqueue
      obtain ⟨nodes, hholds⟩ := h.holds
      rw [hqueue] at hholds
      obtain ⟨nodes', hreads, hrest⟩ := hholds.shift
      unfold readDirLoop JCUnit.readDirLoop
      rw [if_neg (mt h.done_iff.mp hdone), if_neg hquit, hqueue]
      dsimp only
      rw [hreads.path]
      cases fs.opendir path with
      | none => exact .error _
      | some entries =>
          apply Corresponds.bind (R := fun s t => Matches s t ∧
            Reads s.memory (listShift _ ListAddress.queue).1 path)
          · apply Corresponds.foldlM fun s t entry => readEntry_corresponds readDirFunc entry
            exact ⟨⟨⟨nodes', hrest⟩, h.requestToQuit, h.context⟩, hreads.path, hreads.allocated⟩
          · rintro s t ⟨hmatches, -⟩
            exact ih hmatches

/-- What the memory holds before the call makes no difference. -/
theorem fsReadDir_corresponds (fs : FileSystem) (rounds : Nat) (memory : WalkMemory)
    (path : CString) (readDirFunc : FsReadDirFunc σ) (context : σ) :
    Corresponds Eq (fsReadDir fs rounds memory path readDirFunc context)
      (JCUnit.readDirLoop fs readDirFunc rounds ⟨[path], false, context⟩ >>= fun state =>
        return state.context) := by
  have hbase : ListAddress.basePath ∉ [ListAddress.queue] := by decide
  apply (readDirLoop_corresponds fs readDirFunc rounds ?_).bind
  · intro s t h
    exact .ok h.context
  · refine ⟨⟨[.basePath], ring_listAppend (ring_listInit _ _) hbase, ?_, ?_⟩, rfl, rfl⟩
    · dsimp only
      rw [List.map_singleton, Function.update_self]
    · intro i hi
      cases List.mem_singleton.mp hi

end Refinement

end Linked

end JCUnit
