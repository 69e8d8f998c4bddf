import JCUnit.Foundation.FillLevels
import JCUnit.Memory.Pool

/-!
# Where the blocks of a pool lie

A blob's fill level is its `used` field. Each request issues a range at or above the
fill level of one blob and leaves the other blobs as they are, so blocks never meet.
A new blob is not tested for room, and blocks stay inside the blobs for exactly those
requests that fit a blob after rounding up.
-/

namespace JCUnit

/-- The fill level of each area of the pool. -/
def MemoryBlobPool.level (pool : MemoryBlobPool) (memory : Nat) : Nat :=
  match pool.blobs[memory]? with
  | some blob => blob.used.toNat
  | none => 0

/-- Each blob of the table has the area of its place in the table. -/
def MemoryBlobPool.Numbered (pool : MemoryBlobPool) : Prop :=
  ∀ (i : Nat) (blob : MemoryBlob), pool.blobs[i]? = some blob → blob.memory = i

/-- The positions of a block. -/
def PoolBlock.range (b : PoolBlock) : FillLevels.Range Nat where
  region := b.ptr.memory
  start := b.ptr.offset.toNat
  stop := b.ptr.offset.toNat + b.size.toNat

/-- The area of every blob of the table stays where it is, and never loses what was taken. -/
structure MemoryBlobPool.Extends (pool pool' : MemoryBlobPool) : Prop where
  kept : ∀ (i : Nat) (blob : MemoryBlob), pool.blobs[i]? = some blob →
    ∃ blob' : MemoryBlob, pool'.blobs[i]? = some blob' ∧
      blob'.memory = blob.memory ∧ blob'.capacity = blob.capacity
  level : ∀ i, pool.level i ≤ pool'.level i

theorem MemoryBlobPool.Extends.refl (pool : MemoryBlobPool) : pool.Extends pool where
  kept _ blob h := ⟨blob, h, rfl, rfl⟩
  level _ := le_rfl

theorem MemoryBlobPool.Extends.trans {p q r : MemoryBlobPool} (hpq : p.Extends q)
    (hqr : q.Extends r) : p.Extends r where
  kept i blob h := by
    obtain ⟨blob', h', hmem, hcap⟩ := hpq.kept i blob h
    obtain ⟨blob'', h'', hmem', hcap'⟩ := hqr.kept i blob' h'
    exact ⟨blob'', h'', hmem'.trans hmem, hcap'.trans hcap⟩
  level i := le_trans (hpq.level i) (hqr.level i)

/-- Replacing a blob by one that is filled higher. -/
theorem extends_replace {pool : MemoryBlobPool} {before after : List MemoryBlob}
    {blob blob' : MemoryBlob} (hblobs : pool.blobs = before ++ blob :: after)
    (hmem : blob'.memory = blob.memory) (hcap : blob'.capacity = blob.capacity)
    (hused : blob.used.toNat ≤ blob'.used.toNat) :
    pool.Extends { pool with blobs := before ++ blob' :: after } where
  kept i found h := by
    rw [hblobs] at h
    rcases lt_trichotomy i before.length with hlt | rfl | hgt
    · exact ⟨found, by simpa [List.getElem?_append_left hlt] using h, rfl, rfl⟩
    · simp at h
      exact ⟨blob', by simp, h ▸ hmem, h ▸ hcap⟩
    · obtain ⟨j, rfl⟩ := Nat.exists_eq_add_of_lt hgt
      exact ⟨found, by simpa [List.getElem?_append_right, Nat.add_assoc] using h, rfl, rfl⟩
  level i := by
    simp only [MemoryBlobPool.level, hblobs]
    rcases lt_trichotomy i before.length with hlt | rfl | hgt
    · simp [List.getElem?_append_left hlt]
    · simpa using hused
    · obtain ⟨j, rfl⟩ := Nat.exists_eq_add_of_lt hgt
      simp [List.getElem?_append_right, Nat.add_assoc]

/-- Putting a blob behind the table. -/
theorem extends_append {pool : MemoryBlobPool} {blob : MemoryBlob} {capacity : UInt64} :
    pool.Extends { pool with blobs := pool.blobs ++ [blob], blobCapacity := capacity } where
  kept i found h := by
    have hlt := (List.getElem?_eq_some_iff.mp h).1
    exact ⟨found, by simpa [List.getElem?_append_left hlt] using h, rfl, rfl⟩
  level i := by
    simp only [MemoryBlobPool.level]
    by_cases hlt : i < pool.blobs.length
    · simp [List.getElem?_append_left hlt]
    · simp [List.getElem?_eq_none (not_lt.mp hlt)]

theorem numbered_replace {pool : MemoryBlobPool} {before after : List MemoryBlob}
    {blob blob' : MemoryBlob} (h : pool.Numbered) (hblobs : pool.blobs = before ++ blob :: after)
    (hmem : blob'.memory = blob.memory) :
    MemoryBlobPool.Numbered { pool with blobs := before ++ blob' :: after } := by
  intro i found hi
  rcases lt_trichotomy i before.length with hlt | rfl | hgt
  · apply h
    simpa [hblobs, List.getElem?_append_left hlt] using hi
  · have hplace := h before.length blob (by simp [hblobs])
    simp at hi
    rw [← hi, hmem, hplace]
  · obtain ⟨j, rfl⟩ := Nat.exists_eq_add_of_lt hgt
    apply h
    simpa [hblobs, List.getElem?_append_right, Nat.add_assoc] using hi

theorem numbered_append {pool : MemoryBlobPool} {blob : MemoryBlob} {capacity : UInt64}
    (h : pool.Numbered) (hmem : blob.memory = pool.blobs.length) :
    MemoryBlobPool.Numbered
      { pool with blobs := pool.blobs ++ [blob], blobCapacity := capacity } := by
  intro i found hi
  have hlt := (List.getElem?_eq_some_iff.mp hi).1
  rcases Nat.lt_succ_iff_lt_or_eq.mp (by simpa using hlt) with hold | rfl
  · apply h
    simpa [List.getElem?_append_left hold] using hi
  · simp at hi
    rw [← hi, hmem]

/-- What one request adds to the blocks, as a range of its blob. -/
structure PoolHistory.Issues (s s' : PoolHistory) (b : PoolBlock) : Prop where
  blocks : s'.blocks = s.blocks ++ [b]
  alignment : s'.pool.alignment = s.pool.alignment
  blobSize : s'.pool.blobSize = s.pool.blobSize
  numbered : s'.pool.Numbered
  kept : s.pool.Extends s'.pool
  present : ∃ blob, s'.pool.blobs[b.ptr.memory]? = some blob
  floor : s.pool.level b.ptr.memory ≤ b.ptr.offset.toNat
  ceiling : b.ptr.offset.toNat + b.size.toNat ≤ s'.pool.level b.ptr.memory
  rounded : ∃ used, Roundable used s.pool.alignment ∧ b.ptr.offset = alignUp used s.pool.alignment
  table : s.pool.blobs.length ≤ s.pool.blobCapacity.toNat → 1 ≤ s.pool.blobCapacity.toNat →
    s'.pool.blobs.length ≤ s'.pool.blobCapacity.toNat ∧ 1 ≤ s'.pool.blobCapacity.toNat

theorem noWrap_grownCapacity {pool : MemoryBlobPool} {size : UInt64}
    (h : noWrap pool size = true) (hone : 1 ≤ pool.blobCapacity.toNat)
    (hlen : pool.blobs.length ≤ pool.blobCapacity.toNat) :
    pool.blobs.length + 1 ≤ pool.grownCapacity.toNat := by
  simp only [noWrap, Bool.and_eq_true, fitsWord_iff] at h
  have hdouble : (pool.blobCapacity * 2).toNat = pool.blobCapacity.toNat * 2 := by
    rw [UInt64.toNat_mul]
    apply Nat.mod_eq_of_lt
    change pool.blobCapacity.toNat * 2 < 2 ^ 64
    omega
  rw [MemoryBlobPool.grownCapacity]
  split
  · rw [hdouble]
    omega
  · omega

theorem request_issues {s : PoolHistory} {size : UInt64} (hnum : s.pool.Numbered)
    (hwrap : noWrap s.pool size = true) :
    ∃ b : PoolBlock, b.size = size ∧ s.Issues (s.request size) b := by
  rcases hall : memoryBlobPoolAlloc s.pool size with ⟨pool', ptr⟩
  have hsize : size.toNat ≤ (alignUp size s.pool.alignment).toNat :=
    le_alignUp (noWrap_roundable hwrap)
  have hreq : s.request size = { pool := pool', blocks := s.blocks ++ [⟨ptr, size⟩] } := by
    rw [PoolHistory.request, hall]
  refine ⟨⟨ptr, size⟩, rfl, ?_⟩
  rw [hreq]
  rcases memoryBlobPoolAlloc_cases hwrap hall with
    ⟨before, blob, after, hblobs, htake, -, rfl, rfl⟩ | ⟨-, rfl, rfl⟩
  · have hmem : blob.memory = before.length := by
      apply hnum
      simp [hblobs]
    have hused : (blob.take s.pool.alignment (alignUp size s.pool.alignment)).1.used.toNat
        = (alignUp blob.used s.pool.alignment).toNat + (alignUp size s.pool.alignment).toNat :=
      htake.toNat_used
    have hrise : blob.used.toNat
        ≤ (blob.take s.pool.alignment (alignUp size s.pool.alignment)).1.used.toNat := by
      rw [hused]
      exact le_trans (le_alignUp htake.roundable) (Nat.le_add_right _ _)
    have hkept : s.pool.Extends { s.pool with blobs :=
        before ++ (blob.take s.pool.alignment (alignUp size s.pool.alignment)).1 :: after } := by
      apply extends_replace hblobs
      · rfl
      · rfl
      · exact hrise
    refine ⟨rfl, rfl, rfl, ?_, hkept, ?_, ?_, ?_, ⟨blob.used, htake.roundable, rfl⟩, ?_⟩
    · exact numbered_replace hnum hblobs rfl
    · simp [MemoryBlob.take, hmem]
    · simp [MemoryBlobPool.level, MemoryBlob.take, hmem, hblobs, le_alignUp htake.roundable]
    · simp only [MemoryBlobPool.level, MemoryBlob.take, hmem]
      simpa [MemoryBlob.take, htake.toNat_used] using hsize
    · intro hlen hone
      exact ⟨by simpa [hblobs] using hlen, hone⟩
  · have hpos := (noWrap_roundable hwrap).pos
    refine ⟨rfl, rfl, rfl, ?_, extends_append, ?_, ?_, ?_, ⟨0, ⟨hpos, ?_⟩, ?_⟩, ?_⟩
    · exact numbered_append hnum rfl
    · simp
    · simp [MemoryBlobPool.level]
    · simpa [MemoryBlobPool.level] using hsize
    · simpa using s.pool.alignment.toNat_lt
    · simp
    · intro hlen hone
      have hgrown := noWrap_grownCapacity hwrap hone hlen
      refine ⟨?_, le_trans (by omega) hgrown⟩
      simpa using hgrown

/-- What holds of a pool and its blocks after any requests. -/
structure PoolHistory.Sound (s : PoolHistory) (blobSize alignment : UInt64) : Prop where
  alignment_eq : s.pool.alignment = alignment
  blobSize_eq : s.pool.blobSize = blobSize
  capacity : ∀ blob ∈ s.pool.blobs, blob.capacity = blobSize
  numbered : s.pool.Numbered
  present : ∀ b ∈ s.blocks, ∃ blob, s.pool.blobs[b.ptr.memory]? = some blob
  below : FillLevels.Below s.pool.level (s.blocks.map PoolBlock.range)
  apart : (s.blocks.map PoolBlock.range).Pairwise FillLevels.Range.Apart
  rounded : ∀ b ∈ s.blocks, ∃ used, Roundable used alignment ∧
    b.ptr.offset = alignUp used alignment
  table : s.pool.blobs.length ≤ s.pool.blobCapacity.toNat ∧ 1 ≤ s.pool.blobCapacity.toNat

theorem PoolHistory.init_sound (blobSize alignment : UInt64) :
    (PoolHistory.init blobSize alignment).Sound blobSize alignment where
  alignment_eq := rfl
  blobSize_eq := rfl
  capacity := by simp [PoolHistory.init, memoryBlobPoolInit]
  numbered := by simp [PoolHistory.init, memoryBlobPoolInit, MemoryBlobPool.Numbered]
  present := by simp [PoolHistory.init]
  below := by simp [PoolHistory.init, FillLevels.Below]
  apart := by simp [PoolHistory.init]
  rounded := by simp [PoolHistory.init]
  table := by simp [PoolHistory.init, memoryBlobPoolInit, defaultMemoryBlobCapacity]

theorem request_capacity {s : PoolHistory} {size : UInt64} (hwrap : noWrap s.pool size = true)
    (h : ∀ blob ∈ s.pool.blobs, blob.capacity = s.pool.blobSize) :
    ∀ blob ∈ (s.request size).pool.blobs, blob.capacity = s.pool.blobSize := by
  rcases hall : memoryBlobPoolAlloc s.pool size with ⟨pool', ptr⟩
  rw [PoolHistory.request, hall]
  intro found hfound
  rcases memoryBlobPoolAlloc_cases hwrap hall with
    ⟨before, blob, after, hblobs, -, -, rfl, -⟩ | ⟨-, rfl, -⟩
  · rw [hblobs] at h
    simp only [List.mem_append, List.mem_cons] at hfound
    rcases hfound with hbefore | rfl | hafter
    · exact h found (by simp [hbefore])
    · exact h blob (by simp)
    · exact h found (by simp [hafter])
  · rcases List.mem_append.mp hfound with hold | hnew
    · exact h found hold
    · obtain rfl := List.mem_singleton.mp hnew
      rfl

theorem PoolHistory.Sound.request {s : PoolHistory} {blobSize alignment size : UInt64}
    (h : s.Sound blobSize alignment) (hwrap : noWrap s.pool size = true) :
    (s.request size).Sound blobSize alignment := by
  obtain ⟨b, -, hissue⟩ := request_issues h.numbered hwrap
  have hmap : (s.request size).blocks.map PoolBlock.range
      = s.blocks.map PoolBlock.range ++ [b.range] := by simp [hissue.blocks]
  constructor
  · rw [hissue.alignment, h.alignment_eq]
  · rw [hissue.blobSize, h.blobSize_eq]
  · rw [← h.blobSize_eq]
    apply request_capacity hwrap
    rw [h.blobSize_eq]
    exact h.capacity
  · exact hissue.numbered
  · rw [hissue.blocks]
    intro c hc
    rcases List.mem_append.mp hc with hold | hnew
    · obtain ⟨blob, hblob⟩ := h.present c hold
      obtain ⟨blob', hblob', -⟩ := hissue.kept.kept _ _ hblob
      exact ⟨blob', hblob'⟩
    · obtain rfl := List.mem_singleton.mp hnew
      exact hissue.present
  · rw [hmap]
    exact h.below.append hissue.kept.level hissue.ceiling
  · rw [hmap]
    exact h.below.pairwise_append h.apart hissue.floor
  · rw [hissue.blocks]
    intro c hc
    rcases List.mem_append.mp hc with hold | hnew
    · exact h.rounded c hold
    · obtain rfl := List.mem_singleton.mp hnew
      rw [← h.alignment_eq]
      exact hissue.rounded
  · exact hissue.table h.table.1 h.table.2

theorem PoolHistory.run_cons {s t : PoolHistory} {size : UInt64} {sizes : List UInt64}
    (h : s.run (size :: sizes) = some t) :
    noWrap s.pool size = true ∧ (s.request size).run sizes = some t := by
  obtain ⟨s', hwrap, hstep, hrest⟩ := Transitions.run_cons h
  cases hstep
  exact ⟨hwrap, hrest⟩

theorem PoolHistory.Sound.run {s t : PoolHistory} {blobSize alignment : UInt64}
    {sizes : List UInt64} (h : s.Sound blobSize alignment) (hrun : s.run sizes = some t) :
    t.Sound blobSize alignment := by
  apply Transitions.run_invariant (I := fun s => s.Sound blobSize alignment) ?_ h hrun
  intro u size u' _ hu hwrap hstep
  cases hstep
  exact hu.request hwrap

/-- Later requests leave the earlier blocks and their blobs where they are. -/
theorem PoolHistory.Sound.run_kept {s t : PoolHistory} {blobSize alignment : UInt64}
    {sizes : List UInt64} (h : s.Sound blobSize alignment) (hrun : s.run sizes = some t) :
    s.blocks <+: t.blocks ∧ s.pool.Extends t.pool := by
  induction sizes generalizing s with
  | nil =>
      cases hrun
      exact ⟨List.prefix_refl _, MemoryBlobPool.Extends.refl _⟩
  | cons size sizes ih =>
      obtain ⟨hwrap, hrest⟩ := PoolHistory.run_cons hrun
      obtain ⟨b, -, hissue⟩ := request_issues h.numbered hwrap
      obtain ⟨hkept, hextends⟩ := ih (h.request hwrap) hrest
      constructor
      · apply List.IsPrefix.trans ?_ hkept
        rw [hissue.blocks]
        exact List.prefix_append _ _
      · exact hissue.kept.trans hextends

/-- Whatever sizes are asked for, blocks of a pool with a power-of-two alignment are pairwise
disjoint and aligned, and each stays in the blob it was taken from. -/
theorem pool_blocks_disjoint {blobSize alignment : UInt64} {k : Nat}
    (hk : alignment.toNat = 2 ^ k) {sizes later : List UInt64} {s t : PoolHistory}
    (hrun : (PoolHistory.init blobSize alignment).run sizes = some s)
    (hlater : s.run later = some t) :
    s.blocks.Pairwise (fun b c => b.ptr.memory = c.ptr.memory →
      Disjoint (Set.Ico b.ptr.offset.toNat (b.ptr.offset.toNat + b.size.toNat))
        (Set.Ico c.ptr.offset.toNat (c.ptr.offset.toNat + c.size.toNat))) ∧
      (∀ b ∈ s.blocks, b.ptr.offset.toNat % alignment.toNat = 0) ∧
      s.blocks <+: t.blocks ∧
      ∀ b ∈ s.blocks, ∃ blob blob' : MemoryBlob, s.pool.blobs[b.ptr.memory]? = some blob ∧
        t.pool.blobs[b.ptr.memory]? = some blob' ∧ blob.memory = b.ptr.memory ∧
        blob'.memory = b.ptr.memory ∧ blob'.capacity = blob.capacity := by
  have hsound := (PoolHistory.init_sound blobSize alignment).run hrun
  obtain ⟨hkept, hextends⟩ := hsound.run_kept hlater
  refine ⟨List.pairwise_map.mp hsound.apart, ?_, hkept, ?_⟩
  · intro b hb
    obtain ⟨used, hround, hoffset⟩ := hsound.rounded b hb
    rw [hoffset]
    exact alignUp_mod hround hk
  · intro b hb
    obtain ⟨blob, hblob⟩ := hsound.present b hb
    obtain ⟨blob', hblob', hmem, hcap⟩ := hextends.kept _ blob hblob
    have hplace := hsound.numbered _ blob hblob
    exact ⟨blob, blob', hblob, hblob', hplace, hmem.trans hplace, hcap⟩

theorem pool_blocks_disjoint_default :
    ∃ s t, (PoolHistory.init MemoryBlobPool.defaultMemoryBlobSize defaultMemoryBlobAlignment).run
        [100, 1048577, 20] = some s ∧ s.run [0, 7] = some t ∧ s.blocks <+: t.blocks ∧
      s.blocks.length = 3 := by
  have hsome : (((PoolHistory.init MemoryBlobPool.defaultMemoryBlobSize defaultMemoryBlobAlignment).run
      [100, 1048577, 20]).bind fun s => (s.run [0, 7]).map fun t => (s, t)).isSome = true := by
    decide
  obtain ⟨⟨s, t⟩, h⟩ := Option.isSome_iff_exists.mp hsome
  obtain ⟨s', hs, hrest⟩ := Option.bind_eq_some_iff.mp h
  obtain ⟨t', ht, heq⟩ := Option.map_eq_some_iff.mp hrest
  cases heq
  have halign : defaultMemoryBlobAlignment.toNat = 2 ^ 4 := by decide
  obtain ⟨-, -, hkept, -⟩ := pool_blocks_disjoint halign hs ht
  have hlength : (((PoolHistory.init MemoryBlobPool.defaultMemoryBlobSize defaultMemoryBlobAlignment).run
      [100, 1048577, 20]).map fun s => s.blocks.length) = some 3 := by decide
  rw [hs] at hlength
  exact ⟨s, t, hs, ht, hkept, Option.some_inj.mp hlength⟩

/-! ## Blocks inside their blobs -/

/-- Every block ends inside its blob, and no blob is filled beyond its capacity. -/
structure PoolHistory.Contained (s : PoolHistory) : Prop where
  inside : ∀ b ∈ s.blocks, ∃ blob ∈ s.pool.blobs, blob.memory = b.ptr.memory ∧
    b.ptr.offset.toNat + b.size.toNat ≤ blob.capacity.toNat
  filled : ∀ blob ∈ s.pool.blobs, blob.used.toNat ≤ blob.capacity.toNat

/-- It is enough that the blobs are not filled beyond their capacity. -/
theorem PoolHistory.Sound.contained {s : PoolHistory} {blobSize alignment : UInt64}
    (h : s.Sound blobSize alignment)
    (hfilled : ∀ blob ∈ s.pool.blobs, blob.used.toNat ≤ blob.capacity.toNat) : s.Contained where
  filled := hfilled
  inside b hb := by
    obtain ⟨blob, hblob⟩ := h.present b hb
    have hmem : blob ∈ s.pool.blobs := List.mem_of_getElem? hblob
    have hend : b.ptr.offset.toNat + b.size.toNat ≤ s.pool.level b.ptr.memory :=
      h.below b.range (List.mem_map_of_mem hb)
    refine ⟨blob, hmem, h.numbered _ blob hblob, ?_⟩
    calc b.ptr.offset.toNat + b.size.toNat
        ≤ s.pool.level b.ptr.memory := hend
      _ = blob.used.toNat := by rw [MemoryBlobPool.level, hblob]
      _ ≤ blob.capacity.toNat := hfilled blob hmem

/-- A request that fits a blob fills no blob beyond its capacity. -/
theorem request_filled {s : PoolHistory} {size : UInt64} (hwrap : noWrap s.pool size = true)
    (hfits : alignUp size s.pool.alignment ≤ s.pool.blobSize)
    (h : ∀ blob ∈ s.pool.blobs, blob.used.toNat ≤ blob.capacity.toNat) :
    ∀ blob ∈ (s.request size).pool.blobs, blob.used.toNat ≤ blob.capacity.toNat := by
  rcases hall : memoryBlobPoolAlloc s.pool size with ⟨pool', ptr⟩
  rw [PoolHistory.request, hall]
  intro found hfound
  rcases memoryBlobPoolAlloc_cases hwrap hall with
    ⟨before, blob, after, hblobs, htake, hroom, rfl, -⟩ | ⟨-, rfl, -⟩
  · rw [hblobs] at h
    simp only [List.mem_append, List.mem_cons] at hfound
    rcases hfound with hbefore | rfl | hafter
    · exact h found (by simp [hbefore])
    · exact (le_of_eq htake.toNat_used).trans (htake.hasRoom_iff.mp hroom)
    · exact h found (by simp [hafter])
  · rcases List.mem_append.mp hfound with hold | hnew
    · exact h found hold
    · obtain rfl := List.mem_singleton.mp hnew
      exact UInt64.le_iff_toNat_le.mp hfits

/-- A request that does not fit a blob gets a new blob all the same. -/
theorem request_overfull_of_large {s : PoolHistory} {size : UInt64}
    (hwrap : noWrap s.pool size = true)
    (hcap : ∀ blob ∈ s.pool.blobs, blob.capacity = s.pool.blobSize)
    (hlarge : s.pool.blobSize < alignUp size s.pool.alignment) :
    ∃ blob ∈ (s.request size).pool.blobs, blob.capacity.toNat < blob.used.toNat := by
  rcases hall : memoryBlobPoolAlloc s.pool size with ⟨pool', ptr⟩
  rw [PoolHistory.request, hall]
  have hlt := UInt64.lt_iff_toNat_lt.mp hlarge
  rcases memoryBlobPoolAlloc_cases hwrap hall with
    ⟨before, blob, after, hblobs, htake, hroom, -, -⟩ | ⟨-, rfl, -⟩
  · have hfit := htake.hasRoom_iff.mp hroom
    rw [hcap blob (by simp [hblobs])] at hfit
    omega
  · refine ⟨_, List.mem_append_right _ (List.mem_singleton_self _), ?_⟩
    exact hlt

/-- An overfull blob has no room for another block. -/
theorem request_overfull_kept {s : PoolHistory} {size : UInt64} (hwrap : noWrap s.pool size = true)
    (h : ∃ blob ∈ s.pool.blobs, blob.capacity.toNat < blob.used.toNat) :
    ∃ blob ∈ (s.request size).pool.blobs, blob.capacity.toNat < blob.used.toNat := by
  obtain ⟨full, hmem, hover⟩ := h
  rcases hall : memoryBlobPoolAlloc s.pool size with ⟨pool', ptr⟩
  rw [PoolHistory.request, hall]
  rcases memoryBlobPoolAlloc_cases hwrap hall with
    ⟨before, blob, after, hblobs, htake, hroom, rfl, -⟩ | ⟨-, rfl, -⟩
  · refine ⟨full, ?_, hover⟩
    rw [hblobs] at hmem
    simp only [List.mem_append, List.mem_cons] at hmem ⊢
    rcases hmem with hbefore | rfl | hafter
    · exact Or.inl hbefore
    · have hfit := htake.hasRoom_iff.mp hroom
      have hround := le_alignUp htake.roundable
      omega
    · exact Or.inr (Or.inr hafter)
  · exact ⟨full, List.mem_append_left _ hmem, hover⟩

theorem run_overfull_kept {s t : PoolHistory} {sizes : List UInt64} (hrun : s.run sizes = some t)
    (h : ∃ blob ∈ s.pool.blobs, blob.capacity.toNat < blob.used.toNat) :
    ∃ blob ∈ t.pool.blobs, blob.capacity.toNat < blob.used.toNat := by
  apply Transitions.run_invariant
    (I := fun s => ∃ blob ∈ s.pool.blobs, blob.capacity.toNat < blob.used.toNat) ?_ h hrun
  intro u size u' _ hu hwrap hstep
  cases hstep
  exact request_overfull_kept hwrap hu

/-- The blobs stay within their capacity for exactly the requests that fit a blob. -/
theorem run_filled_iff {s t : PoolHistory} {blobSize alignment : UInt64} {sizes : List UInt64}
    (h : s.Sound blobSize alignment)
    (hfilled : ∀ blob ∈ s.pool.blobs, blob.used.toNat ≤ blob.capacity.toNat)
    (hrun : s.run sizes = some t) :
    (∀ blob ∈ t.pool.blobs, blob.used.toNat ≤ blob.capacity.toNat) ↔
      ∀ size ∈ sizes, alignUp size alignment ≤ blobSize := by
  induction sizes generalizing s with
  | nil =>
      cases hrun
      simpa using hfilled
  | cons size sizes ih =>
      obtain ⟨hwrap, hrest⟩ := PoolHistory.run_cons hrun
      by_cases hfits : alignUp size alignment ≤ blobSize
      · have hnext := request_filled hwrap (by rwa [h.alignment_eq, h.blobSize_eq]) hfilled
        rw [ih (h.request hwrap) hnext hrest]
        simp [hfits]
      · have hcap : ∀ blob ∈ s.pool.blobs, blob.capacity = s.pool.blobSize := by
          rw [h.blobSize_eq]
          exact h.capacity
        have hlarge : s.pool.blobSize < alignUp size s.pool.alignment := by
          rw [h.alignment_eq, h.blobSize_eq]
          exact UInt64.not_le.mp hfits
        obtain ⟨full, hmem, hover⟩ :=
          run_overfull_kept hrest (request_overfull_of_large hwrap hcap hlarge)
        constructor
        · intro hall
          exact absurd (hall full hmem) (not_le.mpr hover)
        · intro hall
          exact absurd (hall size List.mem_cons_self) hfits

/-- Every block lies inside its blob in the states reached by exactly those requests whose
rounded size is at most the size of a blob. -/
theorem pool_contained_iff {blobSize alignment : UInt64} {sizes : List UInt64} {s : PoolHistory}
    (hrun : (PoolHistory.init blobSize alignment).run sizes = some s) :
    s.Contained ↔ ∀ size ∈ sizes, alignUp size alignment ≤ blobSize := by
  have hsound := (PoolHistory.init_sound blobSize alignment).run hrun
  have hstart : ∀ blob ∈ (PoolHistory.init blobSize alignment).pool.blobs,
      blob.used.toNat ≤ blob.capacity.toNat := by
    simp [PoolHistory.init, memoryBlobPoolInit]
  rw [← run_filled_iff (PoolHistory.init_sound blobSize alignment) hstart hrun]
  constructor
  · intro h
    exact h.filled
  · intro h
    exact hsound.contained h

theorem pool_contained_iff_default :
    ∃ s, (PoolHistory.init MemoryBlobPool.defaultMemoryBlobSize defaultMemoryBlobAlignment).run
      [100, 1048576, 20] = some s ∧ s.Contained := by
  have hsome : ((PoolHistory.init MemoryBlobPool.defaultMemoryBlobSize defaultMemoryBlobAlignment).run
      [100, 1048576, 20]).isSome = true := by decide
  obtain ⟨s, hs⟩ := Option.isSome_iff_exists.mp hsome
  refine ⟨s, hs, (pool_contained_iff hs).mpr ?_⟩
  rw [List.forall_mem_cons, List.forall_mem_cons, List.forall_mem_singleton]
  decide

/-- A request of one byte more than a blob holds is handed out beyond the end of its blob. -/
theorem large_request_leaves_blob :
    ¬ ∀ (blobSize alignment : UInt64) (sizes : List UInt64) (s : PoolHistory),
      (PoolHistory.init blobSize alignment).run sizes = some s → s.Contained := by
  intro h
  have hcontained := h MemoryBlobPool.defaultMemoryBlobSize defaultMemoryBlobAlignment [1048577]
    ⟨⟨[⟨0, 1048592, 1048576⟩], 8, 1048576, 16⟩, [⟨⟨0, 0⟩, 1048577⟩]⟩ (by decide)
  have hfilled := hcontained.filled _ (List.mem_singleton_self _)
  revert hfilled
  decide

end JCUnit
