import Mathlib.Algebra.Ring.Nat
import Mathlib.Data.List.Basic
import Mathlib.Data.Nat.Basic
import JCUnit.Foundation.Transitions

/-!
# The blob pool

`memory_blob_pool_alloc` hands out aligned blocks of the first blob with room and
starts a new blob where none has room. Sizes and offsets are `size_t`, whose sums
wrap around in the definitions; `noWrap` says that a request makes none of them
wrap. Memory behind `malloc` and `realloc` is taken to be as large as requested.
-/

namespace JCUnit

/-- `align_up` -/
def alignUp (size alignment : UInt64) : UInt64 :=
  (size + alignment - 1) &&& ~~~(alignment - 1)

def MemoryBlobPool.defaultMemoryBlobSize : UInt64 := 1024 * 1024

def defaultMemoryBlobAlignment : UInt64 := 16

def defaultMemoryBlobCapacity : UInt64 := 8

/-- How many pointers are in a blob of the memory pool. -/
def pointersPerBlob : Nat := MemoryBlobPool.defaultMemoryBlobSize.toNat / 8

theorem lt_of_le_pointersPerBlob {count : Nat} (h : count ≤ pointersPerBlob) : count < 2 ^ 32 :=
  lt_of_le_of_lt h (by decide)

/-- `struct memory_blob`. The number in `memory` names the area that `malloc` returned for
the blob, counted from zero. -/
structure MemoryBlob where
  memory : Nat
  used : UInt64
  capacity : UInt64
deriving DecidableEq

/-- `struct memory_blob_pool`. `blob_count` is the length of the list of blobs. -/
structure MemoryBlobPool where
  blobs : List MemoryBlob
  blobCapacity : UInt64
  blobSize : UInt64
  alignment : UInt64
deriving DecidableEq

/-- The pointer `memory + offset` into one blob's area. -/
structure BlobPointer where
  memory : Nat
  offset : UInt64
deriving DecidableEq

/-- `alloc_new_blob`, for an area that `malloc` has not returned before. -/
def allocNewBlob (memory : Nat) (size : UInt64) : MemoryBlob where
  memory := memory
  used := 0
  capacity := size

/-- `memory_blob_pool_init` -/
def memoryBlobPoolInit (blobSize alignment : UInt64) : MemoryBlobPool where
  blobs := []
  blobCapacity := defaultMemoryBlobCapacity
  blobSize := blobSize
  alignment := alignment

/-- The test in the loop over the blobs. -/
def MemoryBlob.hasRoom (blob : MemoryBlob) (alignment alignedSize : UInt64) : Bool :=
  alignUp blob.used alignment + alignedSize ≤ blob.capacity

/-- Takes the block out of the blob, whether or not there is room. -/
def MemoryBlob.take (blob : MemoryBlob) (alignment alignedSize : UInt64) :
    MemoryBlob × BlobPointer :=
  let alignedOffset := alignUp blob.used alignment
  ({ blob with used := alignedOffset + alignedSize }, ⟨blob.memory, alignedOffset⟩)

/-- The loop over the blobs: the blobs after it and the pointer it returned, if a blob has
room. -/
def takeFirstFit (alignment alignedSize : UInt64) :
    List MemoryBlob → Option (List MemoryBlob × BlobPointer)
  | [] => none
  | blob :: rest =>
      if blob.hasRoom alignment alignedSize then
        let (blob, ptr) := blob.take alignment alignedSize
        some (blob :: rest, ptr)
      else
        (takeFirstFit alignment alignedSize rest).map fun (rest, ptr) => (blob :: rest, ptr)

/-- The table of blobs doubles when it is full. -/
def MemoryBlobPool.grownCapacity (pool : MemoryBlobPool) : UInt64 :=
  if pool.blobs.length ≥ pool.blobCapacity.toNat then pool.blobCapacity * 2 else pool.blobCapacity

/-- `memory_blob_pool_alloc` -/
def memoryBlobPoolAlloc (pool : MemoryBlobPool) (size : UInt64) : MemoryBlobPool × BlobPointer :=
  let alignedSize := alignUp size pool.alignment
  match takeFirstFit pool.alignment alignedSize pool.blobs with
  | some (blobs, ptr) => ({ pool with blobs := blobs }, ptr)
  | none =>
      let newBlob := allocNewBlob pool.blobs.length pool.blobSize
      let (newBlob, ptr) := newBlob.take pool.alignment alignedSize
      ({ pool with
          blobs := pool.blobs ++ [newBlob]
          blobCapacity := pool.grownCapacity }, ptr)

/-- A sum that `size_t` holds. -/
def fitsWord (n : Nat) : Bool :=
  n < 2 ^ 64

/-- The sums computed for the blobs that the loop looks at. -/
def scanNoWrap (alignment alignedSize : UInt64) : List MemoryBlob → Bool
  | [] => true
  | blob :: rest =>
      fitsWord (blob.used.toNat + alignment.toNat) &&
        fitsWord ((alignUp blob.used alignment).toNat + alignedSize.toNat) &&
        (blob.hasRoom alignment alignedSize || scanNoWrap alignment alignedSize rest)

/-- No sum, difference or product that the request computes in `size_t` wraps around. -/
def noWrap (pool : MemoryBlobPool) (size : UInt64) : Bool :=
  decide (1 ≤ pool.alignment.toNat) && fitsWord (size.toNat + pool.alignment.toNat) &&
    scanNoWrap pool.alignment (alignUp size pool.alignment) pool.blobs &&
    fitsWord (pool.blobCapacity.toNat * 2 * 8)

/-- A block as its caller sees it: the pointer, and the size that was asked for. -/
structure PoolBlock where
  ptr : BlobPointer
  size : UInt64
deriving DecidableEq

/-- A pool with every block it has handed out, oldest first. -/
structure PoolHistory where
  pool : MemoryBlobPool
  blocks : List PoolBlock
deriving DecidableEq

def PoolHistory.init (blobSize alignment : UInt64) : PoolHistory where
  pool := memoryBlobPoolInit blobSize alignment
  blocks := []

/-- One call of `memory_blob_pool_alloc`. -/
def PoolHistory.request (s : PoolHistory) (size : UInt64) : PoolHistory :=
  let (pool, ptr) := memoryBlobPoolAlloc s.pool size
  { pool := pool, blocks := s.blocks ++ [⟨ptr, size⟩] }

/-- The state after these requests, if none of them makes a sum wrap around. -/
def PoolHistory.run (s : PoolHistory) (sizes : List UInt64) : Option PoolHistory :=
  Transitions.run (fun s size => some (s.request size)) (fun s size => noWrap s.pool size) s sizes

/-! ## Rounding up -/

theorem alignUp_decomposition (size alignment : UInt64) :
    ((size + alignment - 1) &&& (alignment - 1)).toNat + (alignUp size alignment).toNat
      = (size + alignment - 1).toNat := by
  set y := size + alignment - 1
  set m := alignment - 1
  have hzero : (y &&& m).toBitVec &&& (y &&& ~~~m).toBitVec = 0#64 := by
    apply BitVec.eq_of_getElem_eq
    intro i hi
    simp
    grind
  have hor : (y &&& m).toBitVec ||| (y &&& ~~~m).toBitVec = y.toBitVec := by
    apply BitVec.eq_of_getElem_eq
    intro i hi
    simp
    grind
  have hsum := BitVec.toNat_add_of_and_eq_zero hzero
  rw [BitVec.add_eq_or_of_and_eq_zero _ _ hzero, hor] at hsum
  exact hsum.symm

/-- What rounding up asks of its arguments so that nothing wraps around. -/
structure Roundable (size alignment : UInt64) : Prop where
  pos : 1 ≤ alignment.toNat
  lt : size.toNat + alignment.toNat < 2 ^ 64

theorem Roundable.toNat_sub_one {size alignment : UInt64} (h : Roundable size alignment) :
    (alignment - 1).toNat = alignment.toNat - 1 := by
  apply UInt64.toNat_sub_of_le
  exact UInt64.le_iff_toNat_le.mpr h.pos

theorem Roundable.toNat_add_sub_one {size alignment : UInt64} (h : Roundable size alignment) :
    (size + alignment - 1).toNat = size.toNat + alignment.toNat - 1 := by
  have hsum : (size + alignment).toNat = size.toNat + alignment.toNat := by
    rw [UInt64.toNat_add]
    exact Nat.mod_eq_of_lt h.lt
  rw [UInt64.toNat_sub_of_le, hsum]
  · rfl
  · apply UInt64.le_iff_toNat_le.mpr
    rw [hsum]
    exact le_trans h.pos (Nat.le_add_left _ _)

theorem le_alignUp {size alignment : UInt64} (h : Roundable size alignment) :
    size.toNat ≤ (alignUp size alignment).toNat := by
  have hsum := alignUp_decomposition size alignment
  have hmask : ((size + alignment - 1) &&& (alignment - 1)).toNat ≤ alignment.toNat - 1 := by
    rw [UInt64.toNat_and, h.toNat_sub_one]
    exact Nat.and_le_right
  rw [h.toNat_add_sub_one] at hsum
  have hpos := h.pos
  omega

/-- A multiple of a power-of-two alignment. -/
theorem alignUp_mod {size alignment : UInt64} (h : Roundable size alignment) {k : Nat}
    (hk : alignment.toNat = 2 ^ k) : (alignUp size alignment).toNat % alignment.toNat = 0 := by
  have hsum := alignUp_decomposition size alignment
  rw [UInt64.toNat_and, h.toNat_sub_one, h.toNat_add_sub_one, hk,
    Nat.and_two_pow_sub_one_eq_mod] at hsum
  have hdiv := Nat.mod_add_div (size.toNat + 2 ^ k - 1) (2 ^ k)
  have hmul : (alignUp size alignment).toNat = 2 ^ k * ((size.toNat + 2 ^ k - 1) / 2 ^ k) := by
    omega
  rw [hmul, hk]
  exact Nat.mul_mod_right _ _

/-- Rounding up does not leave a bound that is a multiple of the alignment. -/
theorem alignUp_le_iff {size alignment bound : UInt64} (h : Roundable size alignment) {k : Nat}
    (hk : alignment.toNat = 2 ^ k) (hbound : bound.toNat % alignment.toNat = 0) :
    alignUp size alignment ≤ bound ↔ size.toNat ≤ bound.toNat := by
  have hle := le_alignUp h
  have hsum := alignUp_decomposition size alignment
  have hmod := alignUp_mod h hk
  rw [h.toNat_add_sub_one] at hsum
  rw [UInt64.le_iff_toNat_le]
  constructor
  · intro hfits
    exact hle.trans hfits
  · intro hfits
    obtain ⟨rounded, hrounded⟩ := Nat.dvd_of_mod_eq_zero hmod
    obtain ⟨blocks, hblocks⟩ := Nat.dvd_of_mod_eq_zero hbound
    have hlt : alignment.toNat * rounded < alignment.toNat * (blocks + 1) := by
      rw [Nat.mul_succ]
      have hpos := h.pos
      omega
    have hrounds : rounded ≤ blocks := Nat.lt_succ_iff.mp (Nat.lt_of_mul_lt_mul_left hlt)
    calc (alignUp size alignment).toNat = alignment.toNat * rounded := hrounded
      _ ≤ alignment.toNat * blocks := Nat.mul_le_mul_left _ hrounds
      _ = bound.toNat := hblocks.symm

@[simp] theorem alignUp_zero (alignment : UInt64) : alignUp 0 alignment = 0 := by
  have hzero : (0 : UInt64) + alignment - 1 = alignment - 1 := by rw [UInt64.zero_add]
  rw [alignUp, hzero]
  apply UInt64.toBitVec_inj.mp
  simp

/-! ## What one request does -/

theorem fitsWord_iff {n : Nat} : fitsWord n = true ↔ n < 2 ^ 64 := by
  simp [fitsWord]

/-- The sums of taking a block of this size out of a blob do not wrap around. -/
structure MemoryBlob.Takeable (blob : MemoryBlob) (alignment alignedSize : UInt64) : Prop where
  roundable : Roundable blob.used alignment
  lt : (alignUp blob.used alignment).toNat + alignedSize.toNat < 2 ^ 64

theorem MemoryBlob.Takeable.toNat_used {blob : MemoryBlob} {alignment alignedSize : UInt64}
    (h : blob.Takeable alignment alignedSize) :
    (alignUp blob.used alignment + alignedSize).toNat
      = (alignUp blob.used alignment).toNat + alignedSize.toNat := by
  rw [UInt64.toNat_add]
  exact Nat.mod_eq_of_lt h.lt

theorem MemoryBlob.Takeable.hasRoom_iff {blob : MemoryBlob} {alignment alignedSize : UInt64}
    (h : blob.Takeable alignment alignedSize) : blob.hasRoom alignment alignedSize = true ↔
      (alignUp blob.used alignment).toNat + alignedSize.toNat ≤ blob.capacity.toNat := by
  rw [MemoryBlob.hasRoom, decide_eq_true_iff, UInt64.le_iff_toNat_le, h.toNat_used]

theorem scanNoWrap_cons {alignment alignedSize : UInt64} {blob : MemoryBlob}
    {rest : List MemoryBlob} (hpos : 1 ≤ alignment.toNat)
    (h : scanNoWrap alignment alignedSize (blob :: rest) = true) :
    blob.Takeable alignment alignedSize ∧
      (blob.hasRoom alignment alignedSize = false → scanNoWrap alignment alignedSize rest = true) := by
  simp only [scanNoWrap, Bool.and_eq_true, fitsWord_iff, Bool.or_eq_true] at h
  refine ⟨⟨⟨hpos, h.1.1⟩, h.1.2⟩, ?_⟩
  intro hroom
  exact h.2.resolve_left (by simp [hroom])

/-- The loop takes the block out of the first blob with room. -/
theorem takeFirstFit_eq_some {alignment alignedSize : UInt64} {blobs blobs' : List MemoryBlob}
    {ptr : BlobPointer} (hpos : 1 ≤ alignment.toNat)
    (hwrap : scanNoWrap alignment alignedSize blobs = true)
    (h : takeFirstFit alignment alignedSize blobs = some (blobs', ptr)) :
    ∃ before blob after, blobs = before ++ blob :: after ∧
      blob.Takeable alignment alignedSize ∧ blob.hasRoom alignment alignedSize = true ∧
      blobs' = before ++ (blob.take alignment alignedSize).1 :: after ∧
      ptr = (blob.take alignment alignedSize).2 := by
  induction blobs generalizing blobs' with
  | nil => cases h
  | cons blob rest ih =>
      obtain ⟨htake, hrest⟩ := scanNoWrap_cons hpos hwrap
      rw [takeFirstFit] at h
      split at h
      · rename_i hroom
        cases h
        exact ⟨[], blob, rest, rfl, htake, hroom, rfl, rfl⟩
      · rename_i hroom
        obtain ⟨⟨rest', ptr'⟩, hfound, heq⟩ := Option.map_eq_some_iff.mp h
        cases heq
        obtain ⟨before, found, after, rfl, hfacts⟩ := ih (hrest (by simpa using hroom)) hfound
        obtain ⟨hfoundTake, hfoundRoom, rfl, hptr⟩ := hfacts
        exact ⟨blob :: before, found, after, rfl, hfoundTake, hfoundRoom, rfl, hptr⟩

theorem takeFirstFit_eq_none {alignment alignedSize : UInt64} {blobs : List MemoryBlob}
    (h : takeFirstFit alignment alignedSize blobs = none) :
    ∀ blob ∈ blobs, blob.hasRoom alignment alignedSize = false := by
  induction blobs with
  | nil => simp
  | cons blob rest ih =>
      rw [takeFirstFit] at h
      split at h
      · cases h
      · rename_i hroom
        intro b hb
        rcases List.mem_cons.mp hb with rfl | hrest
        · simpa using hroom
        · exact ih (Option.map_eq_none_iff.mp h) b hrest

theorem noWrap_roundable {pool : MemoryBlobPool} {size : UInt64} (h : noWrap pool size = true) :
    Roundable size pool.alignment := by
  simp only [noWrap, Bool.and_eq_true, decide_eq_true_eq, fitsWord_iff] at h
  exact ⟨h.1.1.1, h.1.1.2⟩

/-- A request reuses a blob with room, or starts a new blob because none has room. -/
theorem memoryBlobPoolAlloc_cases {pool pool' : MemoryBlobPool} {size : UInt64}
    {ptr : BlobPointer} (hwrap : noWrap pool size = true)
    (h : memoryBlobPoolAlloc pool size = (pool', ptr)) :
    (∃ before blob after, pool.blobs = before ++ blob :: after ∧
      blob.Takeable pool.alignment (alignUp size pool.alignment) ∧
      blob.hasRoom pool.alignment (alignUp size pool.alignment) = true ∧
      pool' = { pool with blobs :=
        before ++ (blob.take pool.alignment (alignUp size pool.alignment)).1 :: after } ∧
      ptr = (blob.take pool.alignment (alignUp size pool.alignment)).2) ∨
    ((∀ blob ∈ pool.blobs, blob.hasRoom pool.alignment (alignUp size pool.alignment) = false) ∧
      pool' = { pool with
        blobs := pool.blobs ++
          [⟨pool.blobs.length, alignUp size pool.alignment, pool.blobSize⟩]
        blobCapacity := pool.grownCapacity } ∧
      ptr = ⟨pool.blobs.length, 0⟩) := by
  have hpos := (noWrap_roundable hwrap).pos
  simp only [noWrap, Bool.and_eq_true] at hwrap
  rw [memoryBlobPoolAlloc] at h
  cases hfit : takeFirstFit pool.alignment (alignUp size pool.alignment) pool.blobs with
  | some found =>
      obtain ⟨blobs, ptr'⟩ := found
      simp only [hfit] at h
      cases h
      obtain ⟨before, blob, after, hblobs, htake, hroom, rfl, hptr⟩ :=
        takeFirstFit_eq_some hpos hwrap.1.2 hfit
      exact Or.inl ⟨before, blob, after, hblobs, htake, hroom, rfl, hptr⟩
  | none =>
      simp only [hfit] at h
      cases h
      refine Or.inr ⟨takeFirstFit_eq_none hfit, ?_, ?_⟩
      · simp [allocNewBlob, MemoryBlob.take]
      · simp [allocNewBlob, MemoryBlob.take]

end JCUnit
