import JCUnit.Foundation.DescriptorTable
import JCUnit.Foundation.Transitions
import JCUnit.Runner.TestRunner

/-!
# Descriptors of the parent and its child

The calls of `child_process_run` that open, move and close descriptors. After `fork` each process
goes on with a table of its own, and their calls interleave in any order.
-/

namespace JCUnit

open Descriptors Transitions

inductive PipeName
  | stdin
  | stdout
  | stderr
deriving DecidableEq

/-- The entries `PIPE_INPUT_FD` and `PIPE_OUTPUT_FD` of a pipe. A read takes from the first what a
write has put into the second. -/
inductive PipeEnd
  | input (pipe : PipeName)
  | output (pipe : PipeName)
deriving DecidableEq

/-- `pipes`, the numbers of the ends. -/
abbrev Pipes := PipeEnd → Nat

/-- The file of a `given`, an end of a pipe, or what else is open. -/
inductive OpenFile (F : Type)
  | other (file : F)
  | given
  | pipeEnd (pipeEnd : PipeEnd)
deriving DecidableEq

section Processes

variable {F : Type}

def OpenFile.readable : OpenFile F → Bool
  | .pipeEnd (.output _) => false
  | _ => true

def OpenFile.writable : OpenFile F → Bool
  | .pipeEnd (.input _) => false
  | _ => true

structure DescriptorState (F : Type) where
  table : Table (OpenFile F)
  pipes : Pipes

/-- `pipe` opens the end that is read first. -/
def DescriptorState.openPipe (limit : Nat) (pipe : PipeName) (s : DescriptorState F) :
    Option (DescriptorState F) := do
  let (input, table) ← allocate limit s.table (.pipeEnd (.input pipe))
  let (output, table) ← allocate limit table (.pipeEnd (.output pipe))
  return ⟨table, Function.update (Function.update s.pipes (.input pipe) input) (.output pipe) output⟩

def orFatal {α : Type} (message : Bytes) : Option α → Except Halt α
  | some a => .ok a
  | none => .error (fatalError message)

/-- A call of `pipe`. The text is `strerror(errno)` after one that fails. -/
def openOrFatal (limit : Nat) (text what : Bytes) (pipe : PipeName) (s : DescriptorState F) :
    Except Halt (DescriptorState F) :=
  orFatal (what ++ ascii ": \"" ++ text ++ ascii "\"!") (s.openPipe limit pipe)

def openStdin (limit : Nat) (text : Bytes) (stdinInput : Option Bytes) (s : DescriptorState F) :
    Except Halt (DescriptorState F) :=
  if stdinInput.isSome then openOrFatal limit text (ascii "Cannot create stdin pipe") .stdin s
  else .ok s

def openPipes (limit : Nat) (text : Bytes) (stdinInput : Option Bytes) (s : DescriptorState F) :
    Except Halt (DescriptorState F) := do
  let s ← openStdin limit text stdinInput s
  let s ← openOrFatal limit text (ascii "Cannot create stdout pipe") .stdout s
  openOrFatal limit text (ascii "Cannot create stderr pipe") .stderr s

inductive DescriptorCall
  | close (pipeEnd : PipeEnd)
  | dup2 (pipeEnd : PipeEnd) (fd : Nat)
  | read (pipe : PipeName)
  | write (pipe : PipeName)
deriving DecidableEq

/-- The table after the call, unless the call fails. -/
def DescriptorCall.make (pipes : Pipes) (table : Table (OpenFile F)) :
    DescriptorCall → Option (Table (OpenFile F))
  | .close pipeEnd => Descriptors.close table (pipes pipeEnd)
  | .dup2 pipeEnd fd => Descriptors.dup2 table (pipes pipeEnd) fd
  | .read pipe => if (table (pipes (.input pipe))).any OpenFile.readable then some table else none
  | .write pipe => if (table (pipes (.output pipe))).any OpenFile.writable then some table else none

/-- The branch of the parent that feeds the child. -/
def feedCalls : Option Bytes → List DescriptorCall
  | none => []
  | some data =>
      .close (.input .stdin) :: ((if 0 < data.length then [.write .stdin] else []) ++
        [.close (.output .stdin)])

/-- What the parent does after `fork`, with so many calls of `read` in its two loops. -/
def parentCalls (stdinInput : Option Bytes) (reads : Stream → Nat) : List DescriptorCall :=
  feedCalls stdinInput ++ ([.close (.output .stdout), .close (.output .stderr)] ++
    (List.replicate (reads .stdout) (.read .stdout) ++
      (List.replicate (reads .stderr) (.read .stderr) ++
        [.close (.input .stdout), .close (.input .stderr)])))

/-- What the child does before `execv`. -/
def childCalls (stdinInput : Option Bytes) : List DescriptorCall :=
  (if stdinInput.isSome then
      [.dup2 (.input .stdin) 0, .close (.input .stdin), .close (.output .stdin)]
    else []) ++
  [.dup2 (.output .stdout) 1, .dup2 (.output .stderr) 2, .close (.output .stdout),
    .close (.input .stdout), .close (.output .stderr), .close (.input .stderr)]

inductive ProcessName
  | parent
  | child
deriving DecidableEq

structure Process (F : Type) where
  table : Table (OpenFile F)
  calls : List DescriptorCall

/-- `fork` copies the table. -/
def fork (s : DescriptorState F) (stdinInput : Option Bytes) (reads : Stream → Nat) :
    ProcessName → Process F
  | .parent => ⟨s.table, parentCalls stdinInput reads⟩
  | .child => ⟨s.table, childCalls stdinInput⟩

/-- The result of a call is not looked at, so one that fails changes nothing. -/
def Process.step (pipes : Pipes) (process : Process F) : Option (Process F) :=
  match process.calls with
  | [] => none
  | call :: calls => some ⟨(call.make pipes process.table).getD process.table, calls⟩

/-- One of the processes makes its next call. -/
def processStep (pipes : Pipes) (s : ProcessName → Process F) (name : ProcessName) :
    Option (ProcessName → Process F) :=
  ((s name).step pipes).map fun process => Function.update s name process

end Processes

section Holdings

variable {F : Type} {base base' table : Table (OpenFile F)} {held held' : Set PipeEnd}
  {pipes : Pipes} {call : DescriptorCall} {calls : List DescriptorCall}

/-- A process may close and copy the ends it holds. It may read from a pipe that it does not hold
open for writing, since the end of the file would not come otherwise. -/
def DescriptorCall.Allowed (base : Table (OpenFile F)) (held : Set PipeEnd) :
    DescriptorCall → Prop
  | .close pipeEnd => pipeEnd ∈ held
  | .dup2 pipeEnd fd => pipeEnd ∈ held ∧ (base fd).isSome
  | .read pipe => .input pipe ∈ held ∧ .output pipe ∉ held ∧
      ∀ fd, base fd ≠ some (.pipeEnd (.output pipe))
  | .write pipe => .output pipe ∈ held

def DescriptorCall.baseAfter (base : Table (OpenFile F)) : DescriptorCall → Table (OpenFile F)
  | .dup2 pipeEnd fd => Function.update base fd (some (.pipeEnd pipeEnd))
  | _ => base

def DescriptorCall.heldAfter (held : Set PipeEnd) : DescriptorCall → Set PipeEnd
  | .close pipeEnd => held \ {pipeEnd}
  | _ => held

/-- Each of the calls is allowed when its turn comes. -/
inductive Follows : Table (OpenFile F) → Set PipeEnd → List DescriptorCall →
    Table (OpenFile F) → Set PipeEnd → Prop
  | nil (base : Table (OpenFile F)) (held : Set PipeEnd) : Follows base held [] base held
  | cons {base base' : Table (OpenFile F)} {held held' : Set PipeEnd} {call : DescriptorCall}
      {calls : List DescriptorCall} (hallowed : call.Allowed base held)
      (hrest : Follows (call.baseAfter base) (call.heldAfter held) calls base' held') :
      Follows base held (call :: calls) base' held'

/-- The table has the ends of pipes that are held, over a table that has none of them. -/
abbrev HoldsEnds (base table : Table (OpenFile F)) (pipes : Pipes) (held : Set PipeEnd) : Prop :=
  Extends base table pipes OpenFile.pipeEnd held

/-- An allowed call succeeds. -/
theorem HoldsEnds.make (h : HoldsEnds base table pipes held) (hallowed : call.Allowed base held) :
    ∃ table', call.make pipes table = some table' ∧
      HoldsEnds (call.baseAfter base) table' pipes (call.heldAfter held) := by
  cases call with
  | close pipeEnd => exact h.close hallowed
  | dup2 pipeEnd fd => exact h.dup2 hallowed.1 hallowed.2
  | read pipe =>
      refine ⟨table, ?_, h⟩
      rw [DescriptorCall.make, h.holds _ hallowed.1]
      rfl
  | write pipe =>
      refine ⟨table, ?_, h⟩
      rw [DescriptorCall.make, h.holds _ hallowed]
      rfl

/-- The process is on its way from what it holds to what it is to hold in the end. -/
def Process.OnCourse (pipes : Pipes) (base' : Table (OpenFile F)) (process : Process F) : Prop :=
  ∃ base held, HoldsEnds base process.table pipes held ∧ Follows base held process.calls base' ∅

theorem Process.OnCourse.make {process : Process F} (h : process.OnCourse pipes base')
    (hcalls : process.calls = call :: calls) :
    ∃ table', call.make pipes process.table = some table' ∧
      Process.OnCourse pipes base' ⟨table', calls⟩ := by
  obtain ⟨base, held, hholds, hfollows⟩ := h
  rw [hcalls] at hfollows
  cases hfollows with
  | cons hallowed hrest =>
      obtain ⟨table', hmake, hholds'⟩ := hholds.make hallowed
      exact ⟨table', hmake, _, _, hholds', hrest⟩

theorem Process.OnCourse.finished {process : Process F} (h : process.OnCourse pipes base')
    (hcalls : process.calls = []) : process.table = base' := by
  obtain ⟨base, held, hholds, hfollows⟩ := h
  rw [hcalls] at hfollows
  cases hfollows
  exact hholds.eq_base

/-- A process that reads does not hold the pipe open for writing. -/
theorem Process.OnCourse.reading {process : Process F} {pipe : PipeName}
    (h : process.OnCourse pipes base') (hcalls : process.calls = .read pipe :: calls) (fd : Nat) :
    process.table fd ≠ some (.pipeEnd (.output pipe)) := by
  obtain ⟨base, held, hholds, hfollows⟩ := h
  rw [hcalls] at hfollows
  cases hfollows with
  | cons hallowed _ =>
      obtain ⟨-, hnot, hbase⟩ := hallowed
      intro hfd
      rcases hholds.mem_or hfd with hother | ⟨pipeEnd, hheld, -, heq⟩
      · exact hbase fd hother
      · cases heq
        exact hnot hheld

/-- The processes stay on course, whichever of them makes the next call. -/
theorem onCourse_reaches {goal : ProcessName → Table (OpenFile F)}
    {s s' : ProcessName → Process F} (h : ∀ name, (s name).OnCourse pipes (goal name))
    (hreach : Reaches (processStep pipes) s s') : ∀ name, (s' name).OnCourse pipes (goal name) := by
  refine hreach.invariant (I := fun s => ∀ name, (s name).OnCourse pipes (goal name)) ?_ h
  intro s mover s' hs hstep name
  obtain ⟨process, hprocess, rfl⟩ := Option.map_eq_some_iff.mp hstep
  by_cases hname : name = mover
  · subst hname
    rw [Function.update_self]
    unfold Process.step at hprocess
    cases hcalls : (s name).calls with
    | nil =>
        rw [hcalls] at hprocess
        cases hprocess
    | cons call calls =>
        obtain ⟨table', hmake, hcourse⟩ := (hs name).make hcalls
        rw [hcalls] at hprocess
        dsimp only at hprocess
        rw [hmake] at hprocess
        cases hprocess
        exact hcourse
  · rw [Function.update_of_ne hname]
    exact hs name

theorem Follows.append {base'' : Table (OpenFile F)} {held'' : Set PipeEnd}
    {others : List DescriptorCall} (h : Follows base held calls base' held')
    (hothers : Follows base' held' others base'' held'') :
    Follows base held (calls ++ others) base'' held'' := by
  induction h with
  | nil base held => exact hothers
  | cons hallowed _ ih => exact .cons hallowed (ih hothers)

theorem Follows.reads {pipe : PipeName}
    (h : (DescriptorCall.read pipe).Allowed base held) (count : Nat) :
    Follows base held (List.replicate count (.read pipe)) base held := by
  induction count with
  | zero => exact .nil base held
  | succ count ih => exact .cons h ih

end Holdings

section Scripts

variable {F : Type} {base : Table (OpenFile F)} {held : Set PipeEnd} {limit : Nat}
  {s s' : DescriptorState F} {pipe : PipeName}

/-- The ends that `child_process_run` opens. -/
def openEnds (stdinInput : Option Bytes) : Set PipeEnd :=
  {pipeEnd | (pipeEnd = .input .stdin ∨ pipeEnd = .output .stdin) → stdinInput.isSome}

theorem openPipe_holds (h : HoldsEnds base s.table s.pipes held) (hinput : .input pipe ∉ held)
    (houtput : .output pipe ∉ held) (hopen : s.openPipe limit pipe = some s') :
    HoldsEnds base s'.table s'.pipes (insert (.output pipe) (insert (.input pipe) held)) := by
  obtain ⟨⟨input, table⟩, hfirst, hopen⟩ := Option.bind_eq_some_iff.mp hopen
  obtain ⟨⟨output, table'⟩, hsecond, hopen⟩ := Option.bind_eq_some_iff.mp hopen
  cases hopen
  have houtput' : PipeEnd.output pipe ∉ insert (.input pipe) held := by
    rintro (heq | hmem)
    · cases heq
    · exact houtput hmem
  exact (h.allocate hinput hfirst).allocate houtput' hsecond

theorem orFatal_eq_ok {α : Type} {message : Bytes} {x : Option α} {a : α} :
    orFatal message x = .ok a ↔ x = some a := by
  cases x with
  | none => exact ⟨nofun, nofun⟩
  | some b => simp [orFatal]

theorem openPipes_holds {text : Bytes} {stdinInput : Option Bytes}
    (hbase : s.table = base) (hopen : openPipes limit text stdinInput s = .ok s') :
    HoldsEnds base s'.table s'.pipes (openEnds stdinInput) := by
  obtain ⟨s₁, hstdin, hopen⟩ := StateError.except_bind_eq_ok hopen
  obtain ⟨s₂, hstdout, hstderr⟩ := StateError.except_bind_eq_ok hopen
  unfold openOrFatal at hstdout hstderr
  rw [orFatal_eq_ok] at hstdout hstderr
  have hstart : HoldsEnds base s.table s.pipes ∅ := by
    rw [← hbase]
    exact .refl s.table s.pipes OpenFile.pipeEnd
  have hfirst : HoldsEnds base s₁.table s₁.pipes
      {pipeEnd | pipeEnd ∈ openEnds stdinInput ∧
        (pipeEnd = .input .stdin ∨ pipeEnd = .output .stdin)} := by
    cases stdinInput with
    | none =>
        cases hstdin
        have hnone : {pipeEnd | pipeEnd ∈ openEnds none ∧
            (pipeEnd = .input .stdin ∨ pipeEnd = .output .stdin)} = ∅ := by
          ext pipeEnd
          simp [openEnds]
        rw [hnone]
        exact hstart
    | some data =>
        have hstdin := openPipe_holds hstart nofun nofun (orFatal_eq_ok.mp hstdin)
        convert hstdin using 1
        ext pipeEnd
        simp [openEnds, or_comm]
  have hsecond := openPipe_holds hfirst (by simp) (by simp) hstdout
  have hthird := openPipe_holds hsecond (by simp) (by simp) hstderr
  convert hthird using 1
  ext pipeEnd
  rcases pipeEnd with ⟨_ | _ | _⟩ | ⟨_ | _ | _⟩ <;> simp [openEnds]

theorem Follows.done (hheld : held = ∅) : Follows base held [] base ∅ := by
  subst hheld
  exact .nil base ∅

theorem feedCalls_follow (base : Table (OpenFile F)) (stdinInput : Option Bytes) :
    Follows base (openEnds stdinInput) (feedCalls stdinInput) base (openEnds none) := by
  cases stdinInput with
  | none => exact .nil base (openEnds none)
  | some data =>
      have hrest : (openEnds (some data) \ {.input .stdin}) \ {.output .stdin} =
          openEnds none := by
        ext pipeEnd
        simp [openEnds]
      have hclose : Follows base (openEnds (some data) \ {.input .stdin})
          [.close (.output .stdin)] base (openEnds none) := by
        refine .cons (by simp [DescriptorCall.Allowed, openEnds]) ?_
        change Follows base ((openEnds (some data) \ {.input .stdin}) \ {.output .stdin}) [] base _
        rw [hrest]
        exact .nil base (openEnds none)
      refine .cons (by simp [DescriptorCall.Allowed, openEnds]) ?_
      split
      · exact .cons (by simp [DescriptorCall.Allowed, DescriptorCall.heldAfter, openEnds]) hclose
      · exact hclose

/-- The parent closes each end that it has, and before it reads the ends that the child writes to. -/
theorem parentCalls_follow (hbase : ∀ fd pipeEnd, base fd ≠ some (.pipeEnd pipeEnd))
    (stdinInput : Option Bytes) (reads : Stream → Nat) :
    Follows base (openEnds stdinInput) (parentCalls stdinInput reads) base ∅ := by
  refine (feedCalls_follow base stdinInput).append ?_
  refine .cons (by simp [DescriptorCall.Allowed, openEnds]) ?_
  refine .cons (by simp [DescriptorCall.Allowed, DescriptorCall.heldAfter, openEnds]) ?_
  refine (Follows.reads ?_ _).append ((Follows.reads ?_ _).append ?_)
  · exact ⟨by simp [DescriptorCall.heldAfter, openEnds],
      by simp [DescriptorCall.heldAfter, openEnds], fun fd => hbase fd _⟩
  · exact ⟨by simp [DescriptorCall.heldAfter, openEnds],
      by simp [DescriptorCall.heldAfter, openEnds], fun fd => hbase fd _⟩
  refine .cons (by simp [DescriptorCall.Allowed, DescriptorCall.heldAfter, openEnds]) ?_
  refine .cons (by simp [DescriptorCall.Allowed, DescriptorCall.heldAfter, openEnds]) ?_
  apply Follows.done
  ext pipeEnd
  rcases pipeEnd with ⟨_ | _ | _⟩ | ⟨_ | _ | _⟩ <;>
    simp [DescriptorCall.heldAfter, openEnds]

/-- What the program is started with. -/
def childTable (base : Table (OpenFile F)) (stdinInput : Option Bytes) : Table (OpenFile F)
  | 0 => if stdinInput.isSome then some (.pipeEnd (.input .stdin)) else base 0
  | 1 => some (.pipeEnd (.output .stdout))
  | 2 => some (.pipeEnd (.output .stderr))
  | fd => base fd

theorem childTable_eq (base : Table (OpenFile F)) (stdinInput : Option Bytes) :
    Function.update (Function.update
        (if stdinInput.isSome then Function.update base 0 (some (.pipeEnd (.input .stdin))) else base)
        1 (some (.pipeEnd (.output .stdout)))) 2 (some (.pipeEnd (.output .stderr))) =
      childTable base stdinInput := by
  funext fd
  rcases fd with _ | _ | _ | fd <;> cases stdinInput <;> simp [childTable]

/-- The child puts the ends over the standard streams, which have to be open, and closes the
rest. -/
theorem childCalls_follow (hopen : ∀ fd < 3, (base fd).isSome) (stdinInput : Option Bytes) :
    Follows base (openEnds stdinInput) (childCalls stdinInput) (childTable base stdinInput) ∅ := by
  have hrest : ∀ base : Table (OpenFile F), (∀ fd < 3, (base fd).isSome) →
      Follows base (openEnds none)
        [.dup2 (.output .stdout) 1, .dup2 (.output .stderr) 2, .close (.output .stdout),
          .close (.input .stdout), .close (.output .stderr), .close (.input .stderr)]
        (Function.update (Function.update base 1 (some (.pipeEnd (.output .stdout)))) 2
          (some (.pipeEnd (.output .stderr)))) ∅ := by
    intro base hopen
    refine .cons ⟨by simp [openEnds], hopen 1 (by decide)⟩ ?_
    refine .cons ⟨by simp [DescriptorCall.heldAfter, openEnds], ?_⟩ ?_
    · rw [DescriptorCall.baseAfter, Function.update_of_ne (by decide)]
      exact hopen 2 (by decide)
    refine .cons (by simp [DescriptorCall.Allowed, DescriptorCall.heldAfter, openEnds]) ?_
    refine .cons (by simp [DescriptorCall.Allowed, DescriptorCall.heldAfter, openEnds]) ?_
    refine .cons (by simp [DescriptorCall.Allowed, DescriptorCall.heldAfter, openEnds]) ?_
    refine .cons (by simp [DescriptorCall.Allowed, DescriptorCall.heldAfter, openEnds]) ?_
    apply Follows.done
    ext pipeEnd
    rcases pipeEnd with ⟨_ | _ | _⟩ | ⟨_ | _ | _⟩ <;>
      simp [DescriptorCall.heldAfter, openEnds]
  rw [← childTable_eq]
  cases stdinInput with
  | none => exact hrest base hopen
  | some data =>
      have hclosed : (openEnds (some data) \ {.input .stdin}) \ {.output .stdin} =
          openEnds none := by
        ext pipeEnd
        simp [openEnds]
      refine .cons ⟨by simp [openEnds], hopen 0 (by decide)⟩ ?_
      refine .cons (by simp [DescriptorCall.Allowed, DescriptorCall.heldAfter, openEnds]) ?_
      refine .cons (by simp [DescriptorCall.Allowed, DescriptorCall.heldAfter, openEnds]) ?_
      dsimp only [DescriptorCall.heldAfter, DescriptorCall.baseAfter]
      rw [hclosed]
      apply hrest
      intro fd hfd
      rw [Function.update_apply]
      split
      · rfl
      · exact hopen fd hfd

end Scripts

section Orders

variable {F : Type} {files : Table F}

/-- What was open before the ends of the pipes. -/
def inherited (files : Table F) : Table (OpenFile F) := fun fd => (files fd).map .other

theorem inherited_ne_pipeEnd (fd : Nat) (pipeEnd : PipeEnd) :
    inherited files fd ≠ some (.pipeEnd pipeEnd) := by
  intro heq
  obtain ⟨file, -, hfile⟩ := Option.map_eq_some_iff.mp heq
  cases hfile

/-- What each process has open after its calls. -/
def finalTable (files : Table F) (stdinInput : Option Bytes) :
    ProcessName → Table (OpenFile F)
  | .parent => inherited files
  | .child => childTable (inherited files) stdinInput

/-- In every order of the steps of the two processes no call fails, the parent has no end of a pipe
open for writing while it reads from the pipe, the program is started with its streams redirected
and with nothing else changed, and the parent is left with what it had open. -/
theorem descriptors_in_order {limit : Nat} {text : Bytes} {stdinInput : Option Bytes}
    {pipes : Pipes} {s : DescriptorState F}
    (hopen : ∀ fd < 3, (files fd).isSome)
    (hpipes : openPipes limit text stdinInput ⟨inherited files, pipes⟩ = .ok s)
    (reads : Stream → Nat) {processes : ProcessName → Process F}
    (hreach : Reaches (processStep s.pipes) (fork s stdinInput reads) processes) :
    (∀ name call calls, (processes name).calls = call :: calls →
      (call.make s.pipes (processes name).table).isSome) ∧
    (∀ pipe calls, (processes .parent).calls = .read pipe :: calls →
      ∀ fd, (processes .parent).table fd ≠ some (.pipeEnd (.output pipe))) ∧
    ((processes .child).calls = [] →
      (processes .child).table = childTable (inherited files) stdinInput) ∧
    ((processes .parent).calls = [] → (processes .parent).table = inherited files) := by
  have hinherited : ∀ fd < 3, (inherited files fd).isSome := by
    intro fd hfd
    unfold inherited
    rw [Option.isSome_map]
    exact hopen fd hfd
  have hholds : HoldsEnds (inherited files) s.table s.pipes (openEnds stdinInput) :=
    openPipes_holds rfl hpipes
  have hstart : ∀ name,
      (fork s stdinInput reads name).OnCourse s.pipes (finalTable files stdinInput name) := by
    rintro (_ | _)
    · exact ⟨_, _, hholds, parentCalls_follow inherited_ne_pipeEnd stdinInput reads⟩
    · exact ⟨_, _, hholds, childCalls_follow hinherited stdinInput⟩
  have hcourse := onCourse_reaches hstart hreach
  refine ⟨?_, ?_, (hcourse .child).finished, (hcourse .parent).finished⟩
  · intro name call calls hcalls
    obtain ⟨table', hmake, -⟩ := (hcourse name).make hcalls
    rw [hmake]
    rfl
  · intro pipe calls hcalls
    exact (hcourse .parent).reading hcalls

theorem eq_ok_of_toOption {α : Type} {x : Except Halt α} {a : α} (h : x.toOption = some a) :
    x = .ok a := by
  cases x with
  | error halt => cases h
  | ok b => exact congrArg Except.ok (Option.some.inj h)

/-- A child that is fed one line, over the standard streams alone. -/
theorem descriptors_in_order_feeding :
    let files : Table Unit := fun fd => if fd < 3 then some () else none
    let input := some (ascii "1\n")
    ∃ s processes, openPipes 9 [] input ⟨inherited files, fun _ => 0⟩ = .ok s ∧
      Reaches (processStep s.pipes) (fork s input fun _ => 2) processes ∧
      (processes .child).table = childTable (inherited files) input ∧
      (processes .parent).table = inherited files := by
  intro files input
  have hopen : ∀ fd < 3, (files fd).isSome := by decide
  have hruns : ((openPipes 9 [] input ⟨inherited files, fun _ => 0⟩).toOption.any fun s =>
      (run (processStep s.pipes) (fun _ _ => true) (fork s input fun _ => 2)
        (List.replicate 9 .child ++ List.replicate 11 .parent)).any fun processes =>
          (processes .child).calls = [] ∧ (processes .parent).calls = []) = true := by
    decide +kernel
  obtain ⟨s, hs, hruns⟩ := (Option.any_eq_true _ _).mp hruns
  obtain ⟨processes, hrun, hfinished⟩ := (Option.any_eq_true _ _).mp hruns
  obtain ⟨hchild, hparent⟩ := of_decide_eq_true hfinished
  have hpipes : openPipes 9 [] input ⟨inherited files, fun _ => 0⟩ = .ok s :=
    eq_ok_of_toOption hs
  obtain ⟨-, -, hchildTable, hparentTable⟩ :=
    descriptors_in_order hopen hpipes (fun _ => 2) ⟨_, hrun⟩
  exact ⟨s, processes, hpipes, ⟨_, hrun⟩, hchildTable hchild, hparentTable hparent⟩

end Orders

end JCUnit
