import WsServer.Lib.Memory
import WsServer.Lib.Word

/-!
# The memory pool

`MemoryPool` (`memory_pool.h`, `memory_pool.cpp`): blocks of one size, cut from chunks
that `aligned_alloc` returns.  The free blocks form a list whose links are stored in the
blocks themselves, so a pool is looked at together with the memory (`PoolState`).
Addresses and sizes are those of 64-bit pointers and `size_t`, and arithmetic on them
wraps around; 0 is the null pointer.
-/

namespace WsServer

open Word

def kAlign : ℕ := 16

/-- `~(kAlign - 1)`. -/
def alignMask : ℕ := sizeRange - kAlign

/-- Room for a pointer, and a multiple of the alignment. -/
def normalizeBlockSize (s : ℕ) : ℕ :=
  let s := if s < Memory.wordBytes then Memory.wordBytes else s
  let s := if s < kAlign then kAlign else s
  (s + kAlign - 1) % sizeRange &&& alignMask

structure Chunk where
  base : ℕ
  bytes : ℕ
  deriving DecidableEq, Repr

structure MemoryPool where
  blockSize : ℕ
  blocksPerChunk : ℕ
  chunks : List Chunk := []
  freeList : ℕ := 0
  inUse : ℕ := 0
  capacity : ℕ := 0
  deriving DecidableEq, Repr

/-- A pool and the memory that it lives in. -/
structure PoolState where
  pool : MemoryPool
  memory : Memory

namespace MemoryPool

/-- The constructor, up to its call of `grow`. -/
def ofSizes (blockSize blocksPerChunk : ℕ) : MemoryPool where
  blockSize := normalizeBlockSize blockSize
  blocksPerChunk := if blocksPerChunk = 0 then 1 else blocksPerChunk

/-- The size that `grow` asks `aligned_alloc` for. -/
def alignedBytes (pool : MemoryPool) : ℕ :=
  let bytes := pool.blockSize * pool.blocksPerChunk % sizeRange
  (bytes + kAlign - 1) % sizeRange &&& alignMask

/-- The `i`-th block of the chunk at `base`. -/
def blockAt (pool : MemoryPool) (base i : ℕ) : ℕ := (base + i * pool.blockSize) % sizeRange

end MemoryPool

namespace PoolState

/-- One block of a new chunk is put in front of the free list. -/
def threadBlock (base : ℕ) (s : PoolState) (i : ℕ) : PoolState :=
  let block := s.pool.blockAt base i
  ⟨{ s.pool with freeList := block }, s.memory.store block s.pool.freeList⟩

/-- `grow`, when `aligned_alloc` returns `mem`; `none` is `std::bad_alloc`. -/
def grow (s : PoolState) (mem : ℕ) : Option PoolState :=
  if mem = 0 then none
  else
    let pool := { s.pool with
      chunks := s.pool.chunks ++ [⟨mem, s.pool.alignedBytes⟩]
      capacity := (s.pool.capacity + s.pool.blocksPerChunk) % sizeRange }
    some ((List.range pool.blocksPerChunk).foldl (threadBlock mem) ⟨pool, s.memory⟩)

/-- The first block of the free list is taken: the block, and the state after it. -/
def takeFirst (s : PoolState) : ℕ × PoolState :=
  let p := s.pool.freeList
  let pool := { s.pool with
    freeList := s.memory.load p
    inUse := (s.pool.inUse + 1) % sizeRange }
  (p, ⟨pool, s.memory⟩)

/-- `allocate`, when `aligned_alloc` returns `mem` if the pool has to grow. -/
def allocate (s : PoolState) (mem : ℕ) : Option (ℕ × PoolState) :=
  (if s.pool.freeList = 0 then s.grow mem else some s).map takeFirst

def deallocate (s : PoolState) (p : ℕ) : PoolState :=
  if p = 0 then s
  else
    let pool := { s.pool with
      freeList := p
      inUse := (s.pool.inUse + sizeRange - 1) % sizeRange }
    ⟨pool, s.memory.store p s.pool.freeList⟩

/-- The constructor: the pool starts with one chunk. -/
def construct (memory : Memory) (blockSize blocksPerChunk mem : ℕ) : Option PoolState :=
  grow ⟨MemoryPool.ofSizes blockSize blocksPerChunk, memory⟩ mem

end PoolState

/-! ## Sizes -/

/-- Masking clears the lowest four bits. -/
theorem land_alignMask {x : ℕ} (hx : x < sizeRange) : x &&& alignMask = x / kAlign * kAlign := by
  have hmask : alignMask = (2 ^ 60 - 1) <<< 4 := by decide
  have hshift : x / kAlign * kAlign = (x >>> 4) <<< 4 := by
    rw [Nat.shiftLeft_eq, Nat.shiftRight_eq_div_pow]
    rfl
  rw [hmask, hshift]
  refine Nat.eq_of_testBit_eq fun i => ?_
  simp only [Nat.testBit_and, Nat.testBit_shiftLeft, Nat.testBit_shiftRight,
    Nat.testBit_two_pow_sub_one]
  by_cases hlow : i < 4
  · simp [not_le.mpr hlow]
  · by_cases hhigh : i - 4 < 60
    · simp [not_lt.mp hlow, hhigh, show 4 + (i - 4) = i by omega]
    · have hzero : x.testBit i = false := by
        refine Nat.testBit_lt_two_pow (hx.trans_le ?_)
        exact Nat.pow_le_pow_right (by decide) (by omega)
      simp [hhigh, hzero, show 4 + (i - 4) = i by omega]

/-- The size of a block without wrapping around: at least the alignment, rounded up to a
multiple of it. -/
def roundedSize (s : ℕ) : ℕ := (max s kAlign + (kAlign - 1)) / kAlign * kAlign

theorem normalizeBlockSize_eq {s : ℕ} (h : roundedSize s < sizeRange) :
    normalizeBlockSize s = roundedSize s := by
  have hsize : (if (if s < Memory.wordBytes then Memory.wordBytes else s) < kAlign then kAlign
      else if s < Memory.wordBytes then Memory.wordBytes else s) = max s kAlign := by
    unfold Memory.wordBytes kAlign
    split_ifs <;> omega
  unfold roundedSize kAlign sizeRange at *
  simp only [normalizeBlockSize]
  unfold kAlign
  rw [hsize]
  have hfits : max s 16 + 16 - 1 < 2 ^ 64 := by omega
  rw [show sizeRange = 2 ^ 64 from rfl, Nat.mod_eq_of_lt hfits, land_alignMask hfits]
  rfl

end WsServer
