import WsServer.Pool.Partition

/-!
# The sizes of chunks

`grow` multiplies the size of a block by their number, and both this product and the rounding of the
sizes are computed modulo 2⁶⁴.  When they wrap around, the chunk is smaller than its blocks, and the
loop that threads the free list writes outside it.  The sizes are right exactly if the exact product
is less than 2⁶⁴ (`growsSafely_iff`).

What `allocate` does to the chunks is stated for any pool, whatever its sizes are.
-/

namespace WsServer

open Word

namespace PoolState

variable {s s' : PoolState} {mem p : ℕ}

/-- The loop in `grow` sets the head of the free list and nothing else in the pool. -/
theorem pool_foldl_threadBlock (s : PoolState) (base : ℕ) (indices : List ℕ) :
    ∃ first, (indices.foldl (threadBlock base) s).pool = { s.pool with freeList := first } := by
  induction indices generalizing s with
  | nil => exact ⟨s.pool.freeList, rfl⟩
  | cons i rest ih =>
      obtain ⟨first, hrest⟩ := ih (threadBlock base s i)
      exact ⟨first, hrest⟩

theorem grow_eq_some (h : s.grow mem = some s') : mem ≠ 0 ∧ ∃ first, s'.pool = { s.pool with
    chunks := s.pool.chunks ++ [⟨mem, s.pool.alignedBytes⟩]
    capacity := (s.pool.capacity + s.pool.blocksPerChunk) % sizeRange
    freeList := first } := by
  unfold grow at h
  split at h
  · cases h
  · rename_i hmem
    cases h
    exact ⟨hmem, pool_foldl_threadBlock _ mem _⟩

/-- The pool grows exactly when the free list is empty. -/
theorem allocate_eq_some (h : s.allocate mem = some (p, s')) :
    s'.pool.blockSize = s.pool.blockSize ∧ s'.pool.blocksPerChunk = s.pool.blocksPerChunk ∧
      s'.pool.chunks =
        if s.pool.freeList = 0 then s.pool.chunks ++ [⟨mem, s.pool.alignedBytes⟩]
        else s.pool.chunks := by
  unfold allocate at h
  obtain ⟨grown, hgrown, htaken⟩ := Option.map_eq_some_iff.mp h
  have hpool : s'.pool.blockSize = grown.pool.blockSize ∧
      s'.pool.blocksPerChunk = grown.pool.blocksPerChunk ∧
      s'.pool.chunks = grown.pool.chunks := by
    rw [← (Prod.mk.inj htaken).2]
    exact ⟨rfl, rfl, rfl⟩
  rw [hpool.1, hpool.2.1, hpool.2.2]
  split at hgrown
  · rename_i hempty
    obtain ⟨-, first, hstate⟩ := grow_eq_some hgrown
    rw [hstate, if_pos hempty]
    exact ⟨rfl, rfl, rfl⟩
  · rename_i hfree
    cases hgrown
    rw [if_neg hfree]
    exact ⟨rfl, rfl, rfl⟩

end PoolState

namespace MemoryPool

variable {pool pool' : MemoryPool} {blockSize blocksPerChunk : ℕ}

/-- The sizes stay, and a chunk is added or not. -/
structure Extends (pool pool' : MemoryPool) : Prop where
  blockSize : pool'.blockSize = pool.blockSize
  blocksPerChunk : pool'.blocksPerChunk = pool.blocksPerChunk
  chunks : pool'.chunks = pool.chunks ∨
    ∃ mem, pool'.chunks = pool.chunks ++ [⟨mem, pool.alignedBytes⟩]

theorem extends_step (s : PoolSystem) (event : PoolEvent) :
    Extends s.pool (s.step event).pool := by
  cases event with
  | allocate mem =>
      cases hnext : s.toPoolState.allocate mem with
      | none =>
          rw [PoolSystem.step, hnext]
          exact ⟨rfl, rfl, .inl rfl⟩
      | some next =>
          obtain ⟨p, s'⟩ := next
          obtain ⟨hsize, hcount, hchunks⟩ := PoolState.allocate_eq_some hnext
          rw [PoolSystem.step, hnext]
          refine ⟨hsize, hcount, ?_⟩
          split at hchunks
          · exact .inr ⟨mem, hchunks⟩
          · exact .inl hchunks
  | deallocate p =>
      show Extends s.pool (s.toPoolState.deallocate p).pool
      unfold PoolState.deallocate
      split <;> exact ⟨rfl, rfl, .inl rfl⟩
  | write a x => exact ⟨rfl, rfl, .inl rfl⟩

/-! ## The law -/

/-- A block is as large as was asked for, and all blocks of a chunk lie in it. -/
structure Holds (requested : ℕ) (pool : MemoryPool) : Prop where
  size : requested ≤ pool.blockSize
  inside : ∀ chunk ∈ pool.chunks, ∀ i < pool.blocksPerChunk,
    (i + 1) * pool.blockSize ≤ chunk.bytes

/-- Whatever is done with a pool of these sizes, and whatever `aligned_alloc` returns. -/
def GrowsSafely (blockSize blocksPerChunk : ℕ) : Prop :=
  ∀ memory mem start events, PoolState.construct memory blockSize blocksPerChunk mem = some start →
    Holds blockSize (Transition.run PoolSystem.step ⟨start, []⟩ events).pool

theorem alignedBytes_lt (pool : MemoryPool) : pool.alignedBytes < sizeRange := by
  have hmask : alignMask < sizeRange := by decide
  exact Nat.and_le_right.trans_lt hmask

theorem normalizeBlockSize_lt (s : ℕ) : normalizeBlockSize s < sizeRange := by
  have hmask : alignMask < sizeRange := by decide
  exact Nat.and_le_right.trans_lt hmask

theorem le_roundedSize (s : ℕ) : s ≤ roundedSize s := by
  unfold roundedSize kAlign
  omega

/-- Where the rounding wraps around, the size is too small. -/
theorem normalizeBlockSize_lt_of_wraps {s : ℕ} (h : sizeRange ≤ roundedSize s) :
    normalizeBlockSize s < s := by
  by_cases hs : sizeRange ≤ s
  · exact (normalizeBlockSize_lt s).trans_le hs
  · have hlarge : 2 ^ 64 - 15 ≤ s ∧ s < 2 ^ 64 := by
      unfold roundedSize kAlign sizeRange at h
      unfold sizeRange at hs
      omega
    have hword : ¬s < Memory.wordBytes := by
      unfold Memory.wordBytes
      omega
    have halign : ¬s < kAlign := by
      unfold kAlign
      omega
    have hwrapped : (s + kAlign - 1) % sizeRange < 16 := by
      unfold kAlign sizeRange
      omega
    have hzero : normalizeBlockSize s = 0 := by
      have hquotient : (s + kAlign - 1) % sizeRange / kAlign = 0 := Nat.div_eq_of_lt hwrapped
      simp only [normalizeBlockSize, if_neg hword, if_neg halign]
      rw [land_alignMask (hwrapped.trans (by decide)), hquotient, Nat.zero_mul]
    omega

theorem blocksPerChunk_ofSizes (blockSize blocksPerChunk : ℕ) :
    (ofSizes blockSize blocksPerChunk).blocksPerChunk = max blocksPerChunk 1 := by
  show (if blocksPerChunk = 0 then 1 else blocksPerChunk) = _
  split_ifs <;> omega

/-- The blocks fit into the bytes asked for only if nothing wraps around. -/
theorem product_of_holds (hsize : blockSize ≤ (ofSizes blockSize blocksPerChunk).blockSize)
    (hinside : ∀ i < (ofSizes blockSize blocksPerChunk).blocksPerChunk,
      (i + 1) * (ofSizes blockSize blocksPerChunk).blockSize ≤
        (ofSizes blockSize blocksPerChunk).alignedBytes) :
    roundedSize blockSize * max blocksPerChunk 1 < sizeRange := by
  have hrounded : roundedSize blockSize < sizeRange := by
    by_contra hwraps
    exact (normalizeBlockSize_lt_of_wraps (not_lt.mp hwraps)).not_ge hsize
  have hlast := hinside (max blocksPerChunk 1 - 1) (by rw [blocksPerChunk_ofSizes]; omega)
  have hcount : max blocksPerChunk 1 - 1 + 1 = max blocksPerChunk 1 := by omega
  have hblock : (ofSizes blockSize blocksPerChunk).blockSize = roundedSize blockSize :=
    normalizeBlockSize_eq hrounded
  rw [hcount, Nat.mul_comm] at hlast
  have hlt := hlast.trans_lt (alignedBytes_lt _)
  rwa [hblock] at hlt

/-- The chunk that the constructor gets has room for its blocks only if nothing wraps around. -/
theorem product_of_growsSafely (hsafe : GrowsSafely blockSize blocksPerChunk) :
    roundedSize blockSize * max blocksPerChunk 1 < sizeRange := by
  cases hstart : PoolState.construct (fun _ => 0) blockSize blocksPerChunk 16 with
  | none =>
      rw [PoolState.construct, PoolState.grow, if_neg (by decide)] at hstart
      cases hstart
  | some start =>
      obtain ⟨hsize, hinside⟩ := hsafe _ _ _ [] hstart
      obtain ⟨-, first, hpool⟩ := PoolState.grow_eq_some hstart
      rw [Transition.run_nil] at hsize hinside
      rw [hpool] at hsize hinside
      exact product_of_holds hsize (hinside _ (List.mem_append_right _ List.mem_cons_self))

/-- In a pool whose product does not wrap around every chunk holds its blocks. -/
theorem Sized.inside (h : Sized pool) {i : ℕ} (hi : i < pool.blocksPerChunk) :
    (i + 1) * pool.blockSize ≤ pool.alignedBytes := by
  rw [h.alignedBytes_eq, Nat.mul_comm]
  exact Nat.mul_le_mul_left _ hi

theorem Holds.extends (h : Holds blockSize pool) (hsized : Sized pool)
    (hextends : Extends pool pool') : Holds blockSize pool' ∧ Sized pool' := by
  refine ⟨⟨?_, ?_⟩, hsized.of_eq hextends.blockSize hextends.blocksPerChunk⟩
  · rw [hextends.blockSize]
    exact h.size
  · intro chunk hchunk i hi
    rw [hextends.blocksPerChunk] at hi
    rw [hextends.blockSize]
    rcases hextends.chunks with hsame | ⟨mem, hmore⟩
    · exact h.inside chunk (hsame ▸ hchunk) i hi
    · rw [hmore] at hchunk
      rcases List.mem_append.mp hchunk with hold | hnew
      · exact h.inside chunk hold i hi
      · rw [List.mem_singleton.mp hnew]
        exact hsized.inside hi

/-- **When the sizes of chunks are right.**  In every run of a pool the blocks are as large as was
asked for and lie in their chunks, exactly if the rounded size of a block times their number is
less than 2⁶⁴. -/
theorem growsSafely_iff (blockSize blocksPerChunk : ℕ) :
    GrowsSafely blockSize blocksPerChunk ↔
      roundedSize blockSize * max blocksPerChunk 1 < sizeRange := by
  refine ⟨product_of_growsSafely, ?_⟩
  intro hproduct memory mem start events hstart
  have hsized : Sized (ofSizes blockSize blocksPerChunk) := PoolSystem.sized_ofSizes hproduct
  have hrounded : roundedSize blockSize < sizeRange := by
    have hone : 0 < max blocksPerChunk 1 := by omega
    exact (Nat.le_mul_of_pos_right _ hone).trans_lt hproduct
  have hempty : Holds blockSize (ofSizes blockSize blocksPerChunk) := by
    refine ⟨?_, by simp [ofSizes]⟩
    show blockSize ≤ normalizeBlockSize blockSize
    rw [normalizeBlockSize_eq hrounded]
    exact le_roundedSize blockSize
  have hfirst : Holds blockSize start.pool ∧ Sized start.pool := by
    obtain ⟨-, first, hpool⟩ := PoolState.grow_eq_some hstart
    refine hempty.extends hsized ?_
    rw [hpool]
    exact ⟨rfl, rfl, .inr ⟨mem, rfl⟩⟩
  have hstep : ∀ (s : PoolSystem) event, Holds blockSize s.pool ∧ Sized s.pool →
      Holds blockSize (s.step event).pool ∧ Sized (s.step event).pool :=
    fun s event h => h.1.extends h.2 (extends_step s event)
  exact (Transition.run_invariant hstep (s := ⟨start, []⟩) hfirst events).1

/-- Sixteen blocks of 2⁶⁰ bytes: the product is 0. -/
theorem not_growsSafely : ¬GrowsSafely (2 ^ 60) 16 := by
  intro hsafe
  exact absurd (product_of_growsSafely hsafe) (by decide)

end MemoryPool

end WsServer
