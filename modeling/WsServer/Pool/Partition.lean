import WsServer.Lib.Transition
import WsServer.Model.MemoryPool

/-!
# Free and outstanding blocks

The blocks of all chunks are divided between the pool and its clients.  The free ones are
those that the list from `free_list_` visits, although its links lie in memory that was
handed out before; the others are outstanding (`partition_run`).

What makes this work is that blocks stay apart: a block is at least as large as a link, and
a client writes into its own blocks only, so neither a link being stored nor a client touches
the link of another free block.
-/

namespace WsServer

open Word Memory

/-- Two blocks that do not overlap. -/
def Apart (size b b' : ℕ) : Prop := b + size ≤ b' ∨ b' + size ≤ b

theorem Apart.symm {size b b' : ℕ} (h : Apart size b b') : Apart size b' b := Or.symm h

theorem Apart.ne {size b b' : ℕ} (h : Apart size b b') (hsize : 0 < size) : b ≠ b' := by
  unfold Apart at h
  omega

namespace MemoryPool

/-! ## The layout of the chunks -/

/-- The blocks of the chunk at `base`, in the order of their addresses. -/
def chunkBlocks (pool : MemoryPool) (base : ℕ) : List ℕ :=
  (List.range pool.blocksPerChunk).map fun i => base + i * pool.blockSize

/-- The blocks of all chunks. -/
def blocks (pool : MemoryPool) : List ℕ :=
  pool.chunks.flatMap fun chunk => pool.chunkBlocks chunk.base

/-- The sizes are those that the constructor computes, and their product does not wrap. -/
structure Sized (pool : MemoryPool) : Prop where
  aligned : kAlign ∣ pool.blockSize
  size_pos : 0 < pool.blockSize
  count_pos : 0 < pool.blocksPerChunk
  product : pool.blockSize * pool.blocksPerChunk < sizeRange

/-- Where `aligned_alloc` may put a chunk: on an aligned address, inside the address space and
apart from the chunks that there are. -/
structure Fresh (pool : MemoryPool) (base : ℕ) : Prop where
  aligned : kAlign ∣ base
  inside : base + pool.alignedBytes ≤ sizeRange
  apart : ∀ chunk ∈ pool.chunks,
    chunk.base + chunk.bytes ≤ base ∨ base + pool.alignedBytes ≤ chunk.base

instance (pool : MemoryPool) (base : ℕ) : Decidable (pool.Fresh base) :=
  decidable_of_iff (kAlign ∣ base ∧ base + pool.alignedBytes ≤ sizeRange ∧
    ∀ chunk ∈ pool.chunks,
      chunk.base + chunk.bytes ≤ base ∨ base + pool.alignedBytes ≤ chunk.base)
    ⟨fun ⟨haligned, hinside, hapart⟩ => ⟨haligned, hinside, hapart⟩,
      fun ⟨haligned, hinside, hapart⟩ => ⟨haligned, hinside, hapart⟩⟩

/-- The chunks lie apart, each with room for its blocks. -/
structure Laid (pool : MemoryPool) : Prop where
  aligned : ∀ chunk ∈ pool.chunks, kAlign ∣ chunk.base
  nonzero : ∀ chunk ∈ pool.chunks, chunk.base ≠ 0
  bytes : ∀ chunk ∈ pool.chunks, chunk.bytes = pool.blockSize * pool.blocksPerChunk
  inside : ∀ chunk ∈ pool.chunks, chunk.base + chunk.bytes ≤ sizeRange
  apart : pool.chunks.Pairwise fun chunk chunk' =>
    chunk.base + chunk.bytes ≤ chunk'.base ∨ chunk'.base + chunk'.bytes ≤ chunk.base

variable {pool : MemoryPool}

theorem Sized.le_size (h : Sized pool) : kAlign ≤ pool.blockSize := Nat.le_of_dvd h.size_pos h.aligned

theorem Sized.alignedBytes_eq (h : Sized pool) :
    pool.alignedBytes = pool.blockSize * pool.blocksPerChunk := by
  obtain ⟨k, hk⟩ := h.aligned
  have hproduct := h.product
  have hbytes : pool.blockSize * pool.blocksPerChunk = kAlign * (k * pool.blocksPerChunk) := by
    rw [hk, Nat.mul_assoc]
  rw [alignedBytes, Nat.mod_eq_of_lt hproduct]
  rw [hbytes] at hproduct ⊢
  unfold kAlign sizeRange at hproduct
  unfold kAlign
  have hfits : 16 * (k * pool.blocksPerChunk) + 16 - 1 < 2 ^ 64 := by omega
  rw [show sizeRange = 2 ^ 64 from rfl, Nat.mod_eq_of_lt hfits, land_alignMask hfits]
  unfold kAlign
  omega

theorem Sized.of_eq {pool' : MemoryPool} (h : Sized pool)
    (hsize : pool'.blockSize = pool.blockSize)
    (hcount : pool'.blocksPerChunk = pool.blocksPerChunk) : Sized pool' := by
  obtain ⟨haligned, hsize_pos, hcount_pos, hproduct⟩ := h
  rw [← hsize] at haligned hsize_pos hproduct
  rw [← hcount] at hcount_pos hproduct
  exact ⟨haligned, hsize_pos, hcount_pos, hproduct⟩

theorem Laid.of_eq {pool' : MemoryPool} (h : Laid pool)
    (hsize : pool'.blockSize = pool.blockSize)
    (hcount : pool'.blocksPerChunk = pool.blocksPerChunk)
    (hchunks : pool'.chunks = pool.chunks) : Laid pool' := by
  obtain ⟨haligned, hnonzero, hbytes, hinside, hpairs⟩ := h
  rw [← hchunks] at haligned hnonzero hbytes hinside hpairs
  rw [← hsize, ← hcount] at hbytes
  exact ⟨haligned, hnonzero, hbytes, hinside, hpairs⟩

theorem blocks_of_eq {pool' : MemoryPool} (hsize : pool'.blockSize = pool.blockSize)
    (hcount : pool'.blocksPerChunk = pool.blocksPerChunk)
    (hchunks : pool'.chunks = pool.chunks) : pool'.blocks = pool.blocks := by
  simp only [blocks, chunkBlocks, hsize, hcount, hchunks]

/-- A block lies in its chunk. -/
theorem mem_chunkBlocks {base b : ℕ} (hb : b ∈ pool.chunkBlocks base) :
    ∃ i < pool.blocksPerChunk, b = base + i * pool.blockSize ∧
      b + pool.blockSize ≤ base + pool.blockSize * pool.blocksPerChunk := by
  obtain ⟨i, hi, rfl⟩ := List.mem_map.mp hb
  rw [List.mem_range] at hi
  refine ⟨i, hi, rfl, ?_⟩
  have hroom : (i + 1) * pool.blockSize ≤ pool.blocksPerChunk * pool.blockSize :=
    Nat.mul_le_mul_right _ hi
  rw [Nat.add_mul, Nat.one_mul] at hroom
  rw [Nat.mul_comm pool.blockSize]
  omega

theorem chunkBlocks_apart (pool : MemoryPool) (base : ℕ) :
    (pool.chunkBlocks base).Pairwise (Apart pool.blockSize) := by
  rw [chunkBlocks, List.pairwise_map]
  refine List.pairwise_lt_range.imp fun {i j} hlt => .inl ?_
  have hnext : (i + 1) * pool.blockSize ≤ j * pool.blockSize := Nat.mul_le_mul_right _ hlt
  rw [Nat.add_mul, Nat.one_mul] at hnext
  omega

theorem Laid.blocks_apart (h : Laid pool) : pool.blocks.Pairwise (Apart pool.blockSize) := by
  rw [blocks, List.pairwise_flatMap]
  refine ⟨fun chunk _ => chunkBlocks_apart pool chunk.base, ?_⟩
  refine h.apart.imp_of_mem fun {chunk chunk'} hmem hmem' happart b hb b' hb' => ?_
  obtain ⟨i, -, hfirst, hroom⟩ := mem_chunkBlocks hb
  obtain ⟨i', -, hfirst', hroom'⟩ := mem_chunkBlocks hb'
  rw [h.bytes chunk hmem, h.bytes chunk' hmem'] at happart
  unfold Apart
  omega

/-- A block of the pool: aligned, not null, and inside one chunk. -/
theorem Laid.mem_blocks (h : Laid pool) (hsized : Sized pool) {b : ℕ} (hb : b ∈ pool.blocks) :
    kAlign ∣ b ∧ b ≠ 0 ∧ b + pool.blockSize ≤ sizeRange ∧
      ∃ chunk ∈ pool.chunks, chunk.base ≤ b ∧ b + pool.blockSize ≤ chunk.base + chunk.bytes := by
  obtain ⟨chunk, hchunk, hmem⟩ := List.mem_flatMap.mp hb
  obtain ⟨i, -, rfl, hroom⟩ := mem_chunkBlocks hmem
  have hbytes := h.bytes chunk hchunk
  have hinside := h.inside chunk hchunk
  have hnonzero := h.nonzero chunk hchunk
  refine ⟨?_, ?_, ?_, chunk, hchunk, ?_, ?_⟩
  · exact (h.aligned chunk hchunk).add (hsized.aligned.mul_left i)
  · omega
  · omega
  · omega
  · omega

theorem Laid.blocks_nodup (h : Laid pool) (hsized : Sized pool) : pool.blocks.Nodup :=
  h.blocks_apart.imp fun happart => happart.ne hsized.size_pos

/-- There are fewer blocks than addresses. -/
theorem Laid.length_blocks_lt (h : Laid pool) (hsized : Sized pool) :
    pool.blocks.length < sizeRange := by
  have hsubset : pool.blocks.toFinset ⊆ Finset.Ioo 0 sizeRange := by
    intro b hb
    obtain ⟨-, hnonzero, hroom, -⟩ := h.mem_blocks hsized (List.mem_toFinset.mp hb)
    have := hsized.size_pos
    rw [Finset.mem_Ioo]
    omega
  have hcard := Finset.card_le_card hsubset
  rw [List.toFinset_card_of_nodup (h.blocks_nodup hsized), Nat.card_Ioo] at hcard
  unfold sizeRange at hcard ⊢
  omega

end MemoryPool

/-! ## A pool and its clients -/

/-- A pool, and the blocks that its clients hold. -/
structure PoolSystem extends PoolState where
  outstanding : List ℕ := []

inductive PoolEvent
  /-- `allocate`; if the pool has to grow, `aligned_alloc` returns `mem`. -/
  | allocate (mem : ℕ)
  | deallocate (p : ℕ)
  /-- A client writes a byte. -/
  | write (a : ℕ) (x : UInt8)

namespace PoolSystem

/-- One event.  When `allocate` throws, nothing has changed. -/
def step (s : PoolSystem) : PoolEvent → PoolSystem
  | .allocate mem =>
    match s.toPoolState.allocate mem with
    | some (p, s') => ⟨s', p :: s.outstanding⟩
    | none => s
  | .deallocate p => ⟨s.toPoolState.deallocate p, s.outstanding.erase p⟩
  | .write a x => ⟨⟨s.pool, Function.update s.memory a x⟩, s.outstanding⟩

/-- What the pool may rely on: `aligned_alloc` fails or returns a fresh region, only what is
outstanding (or null) is deallocated, and a client writes into its blocks or elsewhere in the
program, outside the chunks. -/
def Permitted (s : PoolSystem) : PoolEvent → Prop
  | .allocate mem => s.pool.freeList = 0 → mem = 0 ∨ s.pool.Fresh mem
  | .deallocate p => p = 0 ∨ p ∈ s.outstanding
  | .write a _ => (∃ b ∈ s.outstanding, b ≤ a ∧ a < b + s.pool.blockSize) ∨
      ∀ chunk ∈ s.pool.chunks, a < chunk.base ∨ chunk.base + chunk.bytes ≤ a

instance (s : PoolSystem) (event : PoolEvent) : Decidable (s.Permitted event) := by
  unfold Permitted
  split <;> infer_instance

/-- The blocks of the pool are the free ones, which the list visits, and the outstanding
ones. -/
structure Partitioned (s : PoolSystem) (free : List ℕ) : Prop where
  sized : s.pool.Sized
  laid : s.pool.Laid
  linked : s.memory.Linked s.pool.freeList free
  perm : (free ++ s.outstanding).Perm s.pool.blocks
  inUse : s.pool.inUse = s.outstanding.length
  capacity : s.pool.capacity = s.pool.blocks.length

variable {s : PoolSystem} {free : List ℕ}

theorem Partitioned.apart (h : Partitioned s free) :
    (free ++ s.outstanding).Pairwise (Apart s.pool.blockSize) :=
  h.perm.symm.pairwise h.laid.blocks_apart Apart.symm

theorem Partitioned.mem_blocks_of_free (h : Partitioned s free) {b : ℕ} (hb : b ∈ free) :
    b ∈ s.pool.blocks := h.perm.mem_iff.mp (List.mem_append_left _ hb)

theorem Partitioned.mem_blocks_of_outstanding (h : Partitioned s free) {b : ℕ}
    (hb : b ∈ s.outstanding) : b ∈ s.pool.blocks :=
  h.perm.mem_iff.mp (List.mem_append_right _ hb)

theorem Partitioned.length_lt (h : Partitioned s free) :
    free.length + s.outstanding.length < sizeRange := by
  have hlength := h.perm.length_eq
  rw [List.length_append] at hlength
  rw [hlength]
  exact h.laid.length_blocks_lt h.sized

theorem Partitioned.freeList_lt (h : Partitioned s free) : s.pool.freeList < sizeRange := by
  have hlinked := h.linked
  cases free with
  | nil =>
      rw [show s.pool.freeList = 0 from hlinked]
      exact Nat.two_pow_pos 64
  | cons b rest =>
      obtain ⟨-, -, hroom, -⟩ := h.laid.mem_blocks h.sized (h.mem_blocks_of_free List.mem_cons_self)
      have hsize := h.sized.size_pos
      have hfirst := hlinked.1
      omega

/-- A block is larger than a link. -/
theorem Partitioned.words_apart (h : Partitioned s free) {b b' : ℕ}
    (happart : Apart s.pool.blockSize b b') : b + wordBytes ≤ b' ∨ b' + wordBytes ≤ b := by
  have hsize := h.sized.le_size
  unfold kAlign at hsize
  unfold Apart at happart
  unfold wordBytes
  omega

/-- A new list through the same chunks, with the blocks divided otherwise. -/
theorem Partitioned.update (h : Partitioned s free) {pool : MemoryPool} {memory : Memory}
    {outstanding free' : List ℕ} (hsize : pool.blockSize = s.pool.blockSize)
    (hcount : pool.blocksPerChunk = s.pool.blocksPerChunk)
    (hchunks : pool.chunks = s.pool.chunks) (hcapacity : pool.capacity = s.pool.capacity)
    (hlinked : memory.Linked pool.freeList free')
    (hperm : (free' ++ outstanding).Perm (free ++ s.outstanding))
    (hinUse : pool.inUse = outstanding.length) :
    Partitioned ⟨⟨pool, memory⟩, outstanding⟩ free' := by
  have hblocks := MemoryPool.blocks_of_eq hsize hcount hchunks
  refine ⟨h.sized.of_eq hsize hcount, h.laid.of_eq hsize hcount hchunks, hlinked, ?_, hinUse, ?_⟩
  · rw [hblocks]
    exact hperm.trans h.perm
  · rw [hblocks, hcapacity]
    exact h.capacity

/-! ### Deallocating -/

/-- A block that is returned becomes the first of the free list. -/
theorem Partitioned.deallocate (h : Partitioned s free) {p : ℕ} (hp : p ∈ s.outstanding) :
    Partitioned (s.step (.deallocate p)) (p :: free) := by
  obtain ⟨-, hnonzero, -, -⟩ := h.laid.mem_blocks h.sized (h.mem_blocks_of_outstanding hp)
  have hsplit : s.outstanding.Perm (p :: s.outstanding.erase p) := List.perm_cons_erase hp
  have hlength := hsplit.length_eq
  rw [List.length_cons] at hlength
  have hfew := h.length_lt
  -- the block lies apart from every free one
  have hapart : ∀ other ∈ free, p + wordBytes ≤ other ∨ other + wordBytes ≤ p := by
    intro other hother
    have hpair := (List.pairwise_append.mp h.apart).2.2 other hother p hp
    exact h.words_apart hpair.symm
  have hmoved : (p :: free ++ s.outstanding.erase p).Perm (free ++ s.outstanding) := by
    refine List.Perm.trans ?_ (hsplit.symm.append_left free)
    exact List.perm_middle.symm
  have hstate : s.toPoolState.deallocate p =
      ⟨{ s.pool with freeList := p, inUse := (s.pool.inUse + sizeRange - 1) % sizeRange },
        s.memory.store p s.pool.freeList⟩ := if_neg hnonzero
  have hinUse : (s.pool.inUse + sizeRange - 1) % sizeRange = (s.outstanding.erase p).length := by
    rw [h.inUse, hlength]
    unfold sizeRange at hfew ⊢
    omega
  show Partitioned ⟨s.toPoolState.deallocate p, s.outstanding.erase p⟩ (p :: free)
  rw [hstate]
  exact h.update rfl rfl rfl rfl (h.linked.store h.freeList_lt hnonzero hapart) hmoved hinUse

/-! ### Writing -/

/-- A client does not reach the links. -/
theorem Partitioned.write (h : Partitioned s free) {a : ℕ} {x : UInt8}
    (hpermitted : s.Permitted (.write a x)) : Partitioned (s.step (.write a x)) free := by
  refine ⟨h.sized, h.laid, ?_, h.perm, h.inUse, h.capacity⟩
  refine h.linked.congr fun b hb => load_update_of_outside ?_
  have hsize := h.sized.le_size
  unfold kAlign at hsize
  unfold wordBytes
  obtain ⟨-, -, -, chunk, hchunk, hlow, hhigh⟩ :=
    h.laid.mem_blocks h.sized (h.mem_blocks_of_free hb)
  rcases hpermitted with ⟨b', hb', hfirst, hlast⟩ | houtside
  · have hpair := (List.pairwise_append.mp h.apart).2.2 b hb b' hb'
    unfold Apart at hpair
    omega
  · have hout := houtside chunk hchunk
    omega

/-! ### Growing -/

/-- After `n` turns of the loop in `grow` the list visits the first `n` blocks of the chunk,
the last one first. -/
theorem foldl_threadBlock {s : PoolState} {base n : ℕ} (hsized : s.pool.Sized)
    (hempty : s.pool.freeList = 0) (hbase : base ≠ 0)
    (hroom : base + s.pool.blockSize * s.pool.blocksPerChunk ≤ sizeRange)
    (hn : n ≤ s.pool.blocksPerChunk) :
    ∃ first memory, (List.range n).foldl (PoolState.threadBlock base) s =
        ⟨{ s.pool with freeList := first }, memory⟩ ∧ first < sizeRange ∧
      memory.Linked first ((List.range n).map fun i => base + i * s.pool.blockSize).reverse := by
  have hsize := hsized.le_size
  unfold kAlign at hsize
  induction n with
  | zero =>
      have hself : s = ⟨{ s.pool with freeList := s.pool.freeList }, s.memory⟩ := rfl
      rw [hempty] at hself
      exact ⟨0, s.memory, hself, Nat.two_pow_pos 64, rfl⟩
  | succ n ih =>
      obtain ⟨first, memory, hstate, hfirst, hlinked⟩ := ih (Nat.le_of_succ_le hn)
      have hinside : (n + 1) * s.pool.blockSize ≤ s.pool.blocksPerChunk * s.pool.blockSize :=
        Nat.mul_le_mul_right _ hn
      rw [Nat.add_mul, Nat.one_mul, Nat.mul_comm s.pool.blocksPerChunk] at hinside
      have hlt : base + n * s.pool.blockSize < sizeRange := by omega
      -- the blocks before this one end where it starts
      have hapart : ∀ other ∈ ((List.range n).map fun i => base + i * s.pool.blockSize).reverse,
          base + n * s.pool.blockSize + wordBytes ≤ other ∨
            other + wordBytes ≤ base + n * s.pool.blockSize := by
        intro other hother
        rw [List.mem_reverse, List.mem_map] at hother
        obtain ⟨i, hi, rfl⟩ := hother
        have hbefore : (i + 1) * s.pool.blockSize ≤ n * s.pool.blockSize :=
          Nat.mul_le_mul_right _ (List.mem_range.mp hi)
        rw [Nat.add_mul, Nat.one_mul] at hbefore
        unfold wordBytes
        omega
      have hstored := hlinked.store hfirst (show base + n * s.pool.blockSize ≠ 0 by omega) hapart
      refine ⟨base + n * s.pool.blockSize, memory.store (base + n * s.pool.blockSize) first, ?_, hlt,
        ?_⟩
      · rw [List.range_succ, List.foldl_append, hstate]
        simp only [List.foldl_cons, List.foldl_nil, PoolState.threadBlock, MemoryPool.blockAt,
          Nat.mod_eq_of_lt hlt]
      · rw [List.range_succ, List.map_append, List.reverse_append]
        exact hstored

/-- A chunk more. -/
theorem laid_concat {pool : MemoryPool} (hsized : pool.Sized) (hlaid : pool.Laid) {mem : ℕ}
    (hmem : mem ≠ 0) (hfresh : pool.Fresh mem) (first capacity : ℕ) :
    MemoryPool.Laid { pool with
      chunks := pool.chunks ++ [⟨mem, pool.alignedBytes⟩]
      freeList := first
      capacity := capacity } := by
  have hbytes := hsized.alignedBytes_eq
  have hforall {P : Chunk → Prop} (hold : ∀ chunk ∈ pool.chunks, P chunk)
      (hnew : P ⟨mem, pool.alignedBytes⟩) :
      ∀ chunk ∈ pool.chunks ++ [⟨mem, pool.alignedBytes⟩], P chunk := by
    intro chunk hchunk
    rcases List.mem_append.mp hchunk with hchunk | hchunk
    · exact hold chunk hchunk
    · rw [List.mem_singleton.mp hchunk]
      exact hnew
  refine ⟨hforall hlaid.aligned hfresh.aligned, hforall hlaid.nonzero hmem,
    hforall hlaid.bytes hbytes, hforall hlaid.inside hfresh.inside, ?_⟩
  refine List.pairwise_append.mpr ⟨hlaid.apart, List.pairwise_singleton _ _, ?_⟩
  intro chunk hchunk chunk' hchunk'
  rw [List.mem_singleton.mp hchunk']
  exact hfresh.apart chunk hchunk

/-- Growing makes the blocks of the new chunk free. -/
theorem Partitioned.grow (h : Partitioned s free) (hempty : s.pool.freeList = 0) {mem : ℕ}
    (hmem : mem ≠ 0) (hfresh : s.pool.Fresh mem) :
    ∃ s', s.toPoolState.grow mem = some s' ∧ s'.pool.blockSize = s.pool.blockSize ∧
      Partitioned ⟨s', s.outstanding⟩ (s.pool.chunkBlocks mem).reverse := by
  have hnone : free = [] := by
    have hlinked := h.linked
    rw [hempty] at hlinked
    cases free with
    | nil => rfl
    | cons b rest => exact absurd hlinked.1.symm hlinked.2.1
  have hperm := h.perm
  rw [hnone, List.nil_append] at hperm
  have hinside := hfresh.inside
  rw [h.sized.alignedBytes_eq] at hinside
  let grown : MemoryPool := { s.pool with
    chunks := s.pool.chunks ++ [⟨mem, s.pool.alignedBytes⟩]
    capacity := (s.pool.capacity + s.pool.blocksPerChunk) % sizeRange }
  have hsized : grown.Sized := h.sized.of_eq rfl rfl
  obtain ⟨first, memory, hstate, -, hlinked⟩ := foldl_threadBlock (s := ⟨grown, s.memory⟩)
    hsized hempty hmem hinside (le_refl grown.blocksPerChunk)
  have hlaid : MemoryPool.Laid { grown with freeList := first } :=
    laid_concat h.sized h.laid hmem hfresh first _
  have hblocks : MemoryPool.blocks { grown with freeList := first } =
      s.pool.blocks ++ s.pool.chunkBlocks mem := by
    show (s.pool.chunks ++ [_]).flatMap _ = _
    rw [List.flatMap_append, List.flatMap_singleton]
    rfl
  refine ⟨⟨{ grown with freeList := first }, memory⟩, ?_, rfl, ?_⟩
  · rw [PoolState.grow, if_neg hmem]
    exact congrArg some hstate
  · refine ⟨hsized.of_eq rfl rfl, hlaid, hlinked, ?_, h.inUse, ?_⟩
    · rw [hblocks]
      refine List.perm_append_comm.trans ?_
      exact hperm.append (List.reverse_perm _)
    · -- the number of blocks fits, since they lie at different addresses
      have hfew := hlaid.length_blocks_lt (hsized.of_eq rfl rfl)
      rw [hblocks, List.length_append] at hfew ⊢
      have hcount : (s.pool.chunkBlocks mem).length = s.pool.blocksPerChunk := by
        simp [MemoryPool.chunkBlocks]
      rw [hcount] at hfew ⊢
      show (s.pool.capacity + s.pool.blocksPerChunk) % sizeRange = _
      rw [h.capacity, Nat.mod_eq_of_lt hfew]

/-! ### Allocating -/

/-- The first block of the free list is handed out. -/
theorem Partitioned.takeFirst {p : ℕ} {rest : List ℕ} (h : Partitioned s (p :: rest)) :
    s.toPoolState.takeFirst.1 = p ∧
      Partitioned ⟨s.toPoolState.takeFirst.2, p :: s.outstanding⟩ rest := by
  obtain ⟨hfirst, -, hlinked⟩ := h.linked
  have hfew := h.length_lt
  rw [List.length_cons] at hfew
  have hinUse : (s.pool.inUse + 1) % sizeRange = (p :: s.outstanding).length := by
    rw [h.inUse, List.length_cons]
    exact Nat.mod_eq_of_lt (by omega)
  have hmoved : (rest ++ p :: s.outstanding).Perm (p :: rest ++ s.outstanding) :=
    List.perm_middle
  rw [← hfirst] at hlinked
  have hstate : s.toPoolState.takeFirst.2 = ⟨{ s.pool with
      freeList := s.memory.load s.pool.freeList
      inUse := (s.pool.inUse + 1) % sizeRange }, s.memory⟩ := rfl
  refine ⟨hfirst, ?_⟩
  rw [hstate]
  exact h.update rfl rfl rfl rfl hlinked hmoved hinUse

/-- **Allocating.**  The pool throws, or hands out a block that was free. -/
theorem Partitioned.allocate (h : Partitioned s free) {mem : ℕ}
    (hpermitted : s.Permitted (.allocate mem)) :
    s.toPoolState.allocate mem = none ∨ ∃ p s' rest,
      s.toPoolState.allocate mem = some (p, s') ∧ s'.pool.blockSize = s.pool.blockSize ∧
        Partitioned ⟨s', p :: s.outstanding⟩ rest := by
  by_cases hempty : s.pool.freeList = 0
  · by_cases hfails : mem = 0
    · refine .inl ?_
      rw [PoolState.allocate, if_pos hempty, PoolState.grow, if_pos hfails]
      rfl
    · have hfresh := (hpermitted hempty).resolve_left hfails
      obtain ⟨grown, hgrow, hsize, hgrown⟩ := h.grow hempty hfails hfresh
      obtain ⟨p, rest, hfree⟩ : ∃ p rest, (s.pool.chunkBlocks mem).reverse = p :: rest := by
        refine List.exists_cons_of_ne_nil ?_
        have := h.sized.count_pos
        simp only [MemoryPool.chunkBlocks, ne_eq, List.reverse_eq_nil_iff, List.map_eq_nil_iff,
          List.range_eq_nil]
        omega
      rw [hfree] at hgrown
      obtain ⟨hfirst, htaken⟩ := hgrown.takeFirst
      refine .inr ⟨p, grown.takeFirst.2, rest, ?_, hsize, htaken⟩
      rw [PoolState.allocate, if_pos hempty, hgrow, ← hfirst]
      rfl
  · obtain ⟨p, rest, rfl⟩ : ∃ p rest, free = p :: rest := by
      refine List.exists_cons_of_ne_nil ?_
      rintro rfl
      exact hempty h.linked
    obtain ⟨hfirst, htaken⟩ := h.takeFirst
    refine .inr ⟨p, s.toPoolState.takeFirst.2, rest, ?_, rfl, htaken⟩
    rw [PoolState.allocate, if_neg hempty, ← hfirst]
    rfl

/-! ## Runs -/

/-- **One event.** -/
theorem partitioned_step (h : Partitioned s free) {event : PoolEvent}
    (hpermitted : s.Permitted event) : ∃ free', Partitioned (s.step event) free' := by
  cases event with
  | allocate mem =>
      rcases h.allocate hpermitted with hthrows | ⟨p, s', rest, hp, -, hnext⟩
      · refine ⟨free, ?_⟩
        rw [step, hthrows]
        exact h
      · refine ⟨rest, ?_⟩
        rw [step, hp]
        exact hnext
  | deallocate p =>
      by_cases hout : p ∈ s.outstanding
      · exact ⟨p :: free, h.deallocate hout⟩
      · have hnull : p = 0 := hpermitted.resolve_right hout
        refine ⟨free, ?_⟩
        rw [step, List.erase_of_not_mem hout, PoolState.deallocate, if_pos hnull]
        exact h
  | write a x => exact ⟨free, h.write hpermitted⟩

theorem partitioned_run (h : Partitioned s free) {events : List PoolEvent}
    (hpermitted : Transition.AllSteps step Permitted s events) :
    ∃ free', Partitioned (Transition.run step s events) free' := by
  induction events generalizing s free with
  | nil => exact ⟨free, h⟩
  | cons event rest ih =>
      obtain ⟨middle, hmiddle⟩ := partitioned_step h hpermitted.1
      exact ih hmiddle hpermitted.2

/-- The sizes that the constructor computes.  The hypothesis is that their product does not
wrap around. -/
theorem sized_ofSizes {blockSize blocksPerChunk : ℕ}
    (hproduct : roundedSize blockSize * max blocksPerChunk 1 < sizeRange) :
    (MemoryPool.ofSizes blockSize blocksPerChunk).Sized := by
  have hcount : (MemoryPool.ofSizes blockSize blocksPerChunk).blocksPerChunk =
      max blocksPerChunk 1 := by
    show (if blocksPerChunk = 0 then 1 else blocksPerChunk) = _
    split_ifs <;> omega
  have hcount_pos : 0 < max blocksPerChunk 1 := by omega
  have hfits : roundedSize blockSize < sizeRange :=
    (Nat.le_mul_of_pos_right _ hcount_pos).trans_lt hproduct
  have hsize_pos : 0 < roundedSize blockSize := by
    unfold roundedSize kAlign
    omega
  have hsize : (MemoryPool.ofSizes blockSize blocksPerChunk).blockSize = roundedSize blockSize :=
    normalizeBlockSize_eq hfits
  refine ⟨?_, ?_, ?_, ?_⟩
  · rw [hsize]
    exact Nat.dvd_mul_left _ _
  · rw [hsize]
    exact hsize_pos
  · rw [hcount]
    exact hcount_pos
  · rw [hsize, hcount]
    exact hproduct

/-- Before its first chunk a pool has no blocks. -/
theorem partitioned_ofSizes (memory : Memory) {blockSize blocksPerChunk : ℕ}
    (hproduct : roundedSize blockSize * max blocksPerChunk 1 < sizeRange) :
    Partitioned ⟨⟨MemoryPool.ofSizes blockSize blocksPerChunk, memory⟩, []⟩ [] := by
  refine ⟨sized_ofSizes hproduct, ?_, rfl, List.Perm.nil, rfl, rfl⟩
  exact ⟨nofun, nofun, nofun, nofun, List.Pairwise.nil⟩

theorem partitioned_construct {memory : Memory} {blockSize blocksPerChunk mem : ℕ}
    {start : PoolState} (hproduct : roundedSize blockSize * max blocksPerChunk 1 < sizeRange)
    (hfresh : (MemoryPool.ofSizes blockSize blocksPerChunk).Fresh mem)
    (hstart : PoolState.construct memory blockSize blocksPerChunk mem = some start) :
    ∃ free, Partitioned ⟨start, []⟩ free := by
  have hmem : mem ≠ 0 := by
    rintro rfl
    simp [PoolState.construct, PoolState.grow] at hstart
  obtain ⟨s', hgrow, -, hgrown⟩ := (partitioned_ofSizes memory hproduct).grow rfl hmem hfresh
  have hsame : s' = start := Option.some.inj (hgrow.symm.trans hstart)
  exact ⟨_, hsame ▸ hgrown⟩

/-- A block handed out: aligned, inside one chunk, and apart from all that are outstanding. -/
theorem Partitioned.allocate_apart (h : Partitioned s free) {mem p : ℕ} {s' : PoolState}
    (hpermitted : s.Permitted (.allocate mem))
    (hp : s.toPoolState.allocate mem = some (p, s')) :
    kAlign ∣ p ∧ (∃ chunk ∈ s'.pool.chunks,
      chunk.base ≤ p ∧ p + s.pool.blockSize ≤ chunk.base + chunk.bytes) ∧
      ∀ b ∈ s.outstanding, Apart s.pool.blockSize p b := by
  rcases h.allocate hpermitted with hthrows | ⟨p', s'', rest, hp', hsize, hnext⟩
  · rw [hthrows] at hp
    simp at hp
  · obtain ⟨rfl, rfl⟩ : p' = p ∧ s'' = s' := by simpa [hp'] using hp
    have hblock := hnext.mem_blocks_of_outstanding List.mem_cons_self
    obtain ⟨haligned, -, -, hchunk⟩ := hnext.laid.mem_blocks hnext.sized hblock
    have hpairs := (List.pairwise_append.mp hnext.apart).2.1
    rw [← hsize]
    exact ⟨haligned, hchunk, fun b hb => List.rel_of_pairwise_cons hpairs hb⟩

/-- **The partition.**  In every run in which the pool can rely on its clients and on
`aligned_alloc`, the free list visits each block that is not outstanding once and ends, the
counters count, and a block handed out overlaps nothing outstanding. -/
theorem partition_run (memory : Memory) (blockSize blocksPerChunk mem : ℕ) (start : PoolState)
    (events : List PoolEvent)
    (hproduct : roundedSize blockSize * max blocksPerChunk 1 < sizeRange)
    (hfresh : (MemoryPool.ofSizes blockSize blocksPerChunk).Fresh mem)
    (hstart : PoolState.construct memory blockSize blocksPerChunk mem = some start)
    (hpermitted : Transition.AllSteps step Permitted ⟨start, []⟩ events) :
    let s := Transition.run step ⟨start, []⟩ events
    (∃ free, s.memory.Linked s.pool.freeList free ∧ free.Nodup ∧
      (free ++ s.outstanding).Perm s.pool.blocks) ∧
    s.pool.blocks.Nodup ∧ s.pool.capacity = s.pool.blocks.length ∧
    s.pool.inUse = s.outstanding.length ∧
    ∀ mem', s.Permitted (.allocate mem') → ∀ p s', s.toPoolState.allocate mem' = some (p, s') →
      kAlign ∣ p ∧ (∃ chunk ∈ s'.pool.chunks,
        chunk.base ≤ p ∧ p + s.pool.blockSize ≤ chunk.base + chunk.bytes) ∧
      ∀ b ∈ s.outstanding, Apart s.pool.blockSize p b := by
  intro s
  obtain ⟨first, hfirst⟩ := partitioned_construct hproduct hfresh hstart
  obtain ⟨free, h⟩ := partitioned_run hfirst hpermitted
  have hnodup := h.laid.blocks_nodup h.sized
  have hall := h.perm.nodup_iff.mpr hnodup
  exact ⟨⟨free, h.linked, hall.of_append_left, h.perm⟩, hnodup, h.capacity, h.inUse,
    fun _ hpermitted' _ _ hp => h.allocate_apart hpermitted' hp⟩

/-- Two blocks in a chunk: a client writes over the link in its block, the pool grows when it
is asked for a third one, and hands out a block that has come back. -/
theorem partition_run_sample :
    let s := Transition.run step ⟨(PoolState.construct (fun _ => 0) 8 2 4096).get rfl, []⟩
      [.allocate 0, .write 4112 255, .allocate 0, .allocate 8192, .deallocate 4112, .allocate 0]
    (∃ free, s.memory.Linked s.pool.freeList free ∧ free.Nodup ∧
      (free ++ s.outstanding).Perm s.pool.blocks) ∧ s.pool.inUse = s.outstanding.length := by
  obtain ⟨hfree, -, -, hinUse, -⟩ := partition_run (fun _ => 0) 8 2 4096
    ((PoolState.construct (fun _ => 0) 8 2 4096).get rfl)
    [.allocate 0, .write 4112 255, .allocate 0, .allocate 8192, .deallocate 4112, .allocate 0]
    (by decide) (by decide) (Option.some_get _).symm (by decide +kernel)
  exact ⟨hfree, hinUse⟩

end PoolSystem

end WsServer
