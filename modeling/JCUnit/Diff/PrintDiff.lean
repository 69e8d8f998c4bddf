import JCUnit.Diff.Lines
import JCUnit.Foundation.OrderedPairing
import JCUnit.Matching.PatternMatch
import JCUnit.Memory.PoolBounds
import JCUnit.Text.FatalError

/-!
# The line diff of a mismatch

`print_diff` fills a flat table with the lengths of longest common sequences of
line prefixes, walks back from its last cell with a stack of actions, and prints
the stack from its top. Table cells are read by flat index. The table, the lines
and the stacks are blocks of the memory pool, and a pool hands out a larger block
than its blobs hold all the same; print_diff then writes behind its memory.
-/

namespace JCUnit
open OrderedPairing

/-- `sizeof(struct diff_line)` -/
def sizeofDiffLine : Nat := 16

/-- `sizeof(unsigned int)` -/
def sizeofUnsignedInt : Nat := 4

/-- What `split_lines` takes from the pool for this many lines. -/
def lineRequests (lineCount : Nat) : List UInt64 :=
  if lineCount = 0 then [] else [UInt64.ofNat (lineCount * sizeofDiffLine)]

/-- The sizes of the blocks that `print_diff` takes from the pool, in order: the lines of both
texts, the table, the actions and their indices. -/
def diffRequests (expCount actCount : Nat) : List UInt64 :=
  let rows := u32 (expCount + 1)
  let cols := u32 (actCount + 1)
  let stackSize := u32 (expCount + actCount)
  lineRequests expCount ++ lineRequests actCount ++
    [UInt64.ofNat (u32 (rows * cols) * sizeofUnsignedInt), UInt64.ofNat stackSize,
      UInt64.ofNat (stackSize * sizeofUnsignedInt)]

/-- Each of these blocks has the room in its blob that `print_diff` writes to. Where the number of
cells wraps around, the table is too small for its own cells. -/
def diffBlocksHold (expCount actCount : Nat) : Bool :=
  decide ((expCount + 1) * (actCount + 1) < 2 ^ 32) &&
    (diffRequests expCount actCount).all fun size =>
      alignUp size defaultMemoryBlobAlignment ≤ MemoryBlobPool.defaultMemoryBlobSize

/-- `lcs_table[i * cols + j]`, with the index computed in `unsigned int`. -/
def tableIndex (cols i j : Nat) : Nat :=
  u32 (i * cols + j)

/-- The body of the two fill loops. -/
def fillCell (equal : Nat → Nat → Bool) (cols i : Nat) (table : Nat → Nat) (j : Nat) : Nat → Nat :=
  if equal (i - 1) (j - 1) then
    Function.update table (tableIndex cols i j) (table (tableIndex cols (i - 1) (j - 1)) + 1)
  else
    let up := table (tableIndex cols (i - 1) j)
    let left := table (tableIndex cols i (j - 1))
    Function.update table (tableIndex cols i j) (if up > left then up else left)

/-- The inner loop of row `i` after `c` rounds. -/
def fillRow (equal : Nat → Nat → Bool) (cols i c : Nat) (table : Nat → Nat) : Nat → Nat :=
  (List.range c).foldl (fun table j => fillCell equal cols i table (j + 1)) table

/-- The outer loop after `r` rounds, on a table that starts zeroed. The cells it looks at are those
of the block, where the block holds them. -/
def fillTable (equal : Nat → Nat → Bool) (cols r : Nat) : Nat → Nat :=
  (List.range r).foldl (fun table i => fillRow equal cols (i + 1) (cols - 1) table) fun _ => 0

/-- The walk back through the table. The stack's top is the head of the list. -/
def walkBack (equal : Nat → Nat → Bool) (cols : Nat) (table : Nat → Nat) (i j : Nat)
    (stack : List (EditAction × Nat)) : List (EditAction × Nat) :=
  if i > 0 ∨ j > 0 then
    if i > 0 ∧ j > 0 ∧ equal (i - 1) (j - 1) then
      walkBack equal cols table (i - 1) (j - 1) ((.keep, i - 1) :: stack)
    else if j > 0 ∧ (i = 0 ∨
        table (tableIndex cols i (j - 1)) ≥ table (tableIndex cols (i - 1) j)) then
      walkBack equal cols table i (j - 1) ((.add, j - 1) :: stack)
    else walkBack equal cols table (i - 1) j ((.remove, i - 1) :: stack)
  else stack
termination_by i + j

/-- The line behind descriptor `i`. Entries below the count are always set. -/
def DiffLines.lineAt (lines : DiffLines) (str : Bytes) (i : Nat) : Bytes :=
  match lines.lines i with
  | some line => line.text str
  | none => []

def linesEqual (a b : Bytes) : Bool :=
  patternMatch a b

/-- The lines of the stack from its top, each with its action. -/
def walkedLines (expected actual : Option Bytes) : List (EditAction × Bytes) :=
  let expStr := expected.getD []
  let actStr := actual.getD []
  let expLines := splitLines expStr
  let actLines := splitLines actStr
  let rows := u32 (expLines.count + 1)
  let cols := u32 (actLines.count + 1)
  let equal := fun i j => linesEqual (expLines.lineAt expStr i) (actLines.lineAt actStr j)
  let table := fillTable equal cols (rows - 1)
  (walkBack equal cols table expLines.count actLines.count []).map fun (action, idx) =>
    match action with
    | .keep => (action, expLines.lineAt expStr idx)
    | .remove => (action, expLines.lineAt expStr idx)
    | .add => (action, actLines.lineAt actStr idx)

/-- The lines `print_diff` emits, in printing order, each with its action. -/
def diffLines (expected actual : Option Bytes) : Except Halt (List (EditAction × Bytes)) :=
  if diffBlocksHold (splitLines (expected.getD [])).count (splitLines (actual.getD [])).count then
    .ok (walkedLines expected actual)
  else .error .undefined

/-- The character an action is pushed and printed as. -/
def actionChar : EditAction → Byte
  | .keep => 32
  | .remove => 45
  | .add => 43

def ansiColorRed : Bytes := 27 :: ascii "[31m"
def ansiColorGreen : Bytes := 27 :: ascii "[32m"
def ansiColorReset : Bytes := 27 :: ascii "[0m"

def printLineWithPrefix (useColors : Bool) (action : EditAction) (line : Bytes) : Bytes :=
  let color : Option Bytes :=
    if useColors then
      match action with
      | .remove => some ansiColorRed
      | .add => some ansiColorGreen
      | .keep => none
    else none
  color.getD [] ++ [actionChar action] ++ line ++
    (if color.isSome then ansiColorReset else []) ++ [newline]

def printDiff (useColors : Bool) (expected actual : Option Bytes) : Except Halt Bytes := do
  let lines ← diffLines expected actual
  return ascii "--- Expected\n+++ Actual\n" ++
    lines.flatMap fun e => printLineWithPrefix useColors e.1 e.2

example : printDiff false (some (ascii "a\nb")) (some (ascii "a\nc")) =
    .ok (ascii "--- Expected\n+++ Actual\n a\n-b\n+c\n") := by decide +kernel

/-! ## The blocks and their blobs -/

/-- The table of the lines of these texts fits a blob of the memory pool, and so do the arrays of
their lines. -/
def DiffFits (expected actual : Bytes) : Prop :=
  ((textLines expected).length + 1) * ((textLines actual).length + 1) * 4 ≤ 2 ^ 20 ∧
    (textLines expected).length * 16 ≤ 2 ^ 20 ∧ (textLines actual).length * 16 ≤ 2 ^ 20

instance (expected actual : Bytes) : Decidable (DiffFits expected actual) :=
  inferInstanceAs (Decidable (_ ∧ _))

/-- A block of this size stays in its blob. -/
theorem request_fits_iff {size : Nat} (h : size < 2 ^ 40) :
    alignUp (UInt64.ofNat size) defaultMemoryBlobAlignment ≤ MemoryBlobPool.defaultMemoryBlobSize ↔
      size ≤ 2 ^ 20 := by
  have hsize : (UInt64.ofNat size).toNat = size :=
    UInt64.toNat_ofNat_of_lt' (Nat.lt_trans h (by decide))
  have halign : defaultMemoryBlobAlignment.toNat = 2 ^ 4 := by decide
  have hround : Roundable (UInt64.ofNat size) defaultMemoryBlobAlignment := by
    constructor
    · decide
    · rw [hsize, halign]
      omega
  rw [alignUp_le_iff hround halign (by decide), hsize]
  exact Iff.rfl

theorem lineRequests_fit_iff {lineCount : Nat} (h : lineCount < 2 ^ 32) :
    ((lineRequests lineCount).all fun size => alignUp size defaultMemoryBlobAlignment ≤
      MemoryBlobPool.defaultMemoryBlobSize) = true ↔ lineCount * 16 ≤ 2 ^ 20 := by
  unfold lineRequests
  by_cases hnone : lineCount = 0
  · rw [if_pos hnone, hnone]
    decide
  · rw [if_neg hnone, List.all_cons, List.all_nil, Bool.and_true, decide_eq_true_iff]
    apply request_fits_iff
    change lineCount * 16 < 2 ^ 40
    omega

/-- Where the table stays in its blob, the stacks do too. -/
theorem diffBlocksHold_iff {expCount actCount : Nat} : diffBlocksHold expCount actCount = true ↔
    (expCount + 1) * (actCount + 1) * 4 ≤ 2 ^ 20 ∧ expCount * 16 ≤ 2 ^ 20 ∧
      actCount * 16 ≤ 2 ^ 20 := by
  unfold diffBlocksHold
  by_cases hbound : (expCount + 1) * (actCount + 1) < 2 ^ 32
  · have hexp : expCount + 1 < 2 ^ 32 :=
      Nat.lt_of_le_of_lt (Nat.le_mul_of_pos_right _ (Nat.succ_pos _)) hbound
    have hact : actCount + 1 < 2 ^ 32 :=
      Nat.lt_of_le_of_lt (Nat.le_mul_of_pos_left _ (Nat.succ_pos _)) hbound
    have hcells : (expCount + 1) * (actCount + 1) =
        expCount * actCount + expCount + actCount + 1 := by
      rw [Nat.succ_mul_succ]
    have hstack : expCount + actCount < 2 ^ 32 := by omega
    unfold diffRequests
    simp only [u32_of_lt hexp, u32_of_lt hact, u32_of_lt hbound, u32_of_lt hstack, List.all_append,
      List.all_cons, List.all_nil, Bool.and_true, Bool.and_eq_true, decide_eq_true_iff,
      sizeofUnsignedInt]
    rw [lineRequests_fit_iff (by omega), lineRequests_fit_iff (by omega),
      request_fits_iff (by omega), request_fits_iff (by omega), request_fits_iff (by omega)]
    omega
  · rw [decide_eq_false hbound, Bool.false_and, Bool.false_eq_true, false_iff]
    omega

/-- This is what the pool does: the requests of a diff leave every block in its blob if and only if
they hold, from every state in which the program's pool can be. -/
theorem diffBlocksHold_iff_contained {expCount actCount : Nat} {s t : PoolHistory}
    (hsound : s.Sound MemoryBlobPool.defaultMemoryBlobSize defaultMemoryBlobAlignment)
    (hcontained : s.Contained) (hcells : (expCount + 1) * (actCount + 1) < 2 ^ 32)
    (hrun : s.run (diffRequests expCount actCount) = some t) :
    diffBlocksHold expCount actCount = true ↔ t.Contained := by
  have hfilled := run_filled_iff hsound hcontained.filled hrun
  unfold diffBlocksHold
  rw [decide_eq_true hcells, Bool.true_and, List.all_eq_true]
  constructor
  · intro hall
    apply (hsound.run hrun).contained
    exact hfilled.mpr fun size hmem => of_decide_eq_true (hall size hmem)
  · intro ht size hmem
    exact decide_eq_true (hfilled.mp ht.filled size hmem)

/-- `print_diff` has the memory for its lines, or its behaviour is undefined. -/
theorem diffLines_eq (expected actual : Option Bytes) : diffLines expected actual =
    if DiffFits (expected.getD []) (actual.getD []) then .ok (walkedLines expected actual)
    else .error .undefined := by
  have hfits : diffBlocksHold (splitLines (expected.getD [])).count
      (splitLines (actual.getD [])).count = true ↔
        DiffFits (expected.getD []) (actual.getD []) := by
    rw [(splitLines_spec _).1, (splitLines_spec _).1, diffBlocksHold_iff]
    exact Iff.rfl
  unfold diffLines
  simp only [hfits]

/-- What `print_diff` emits is what it walks through, where its blocks fit. -/
theorem exists_diffLines_iff {expected actual : Option Bytes}
    {P : List (EditAction × Bytes) → Prop} :
    (∃ emitted, diffLines expected actual = .ok emitted ∧ P emitted) ↔
      DiffFits (expected.getD []) (actual.getD []) ∧ P (walkedLines expected actual) := by
  rw [diffLines_eq]
  split
  · rename_i hfits
    simp [hfits]
  · rename_i hover
    simp [hover]

theorem DiffFits.bound {expected actual : Bytes} (h : DiffFits expected actual) :
    ((textLines expected).length + 1) * ((textLines actual).length + 1) < 2 ^ 32 := by
  have htable := h.1
  omega

end JCUnit
