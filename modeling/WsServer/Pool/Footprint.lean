import WsServer.Pool.ChunkArithmetic

/-!
# What a pool reads and writes

A pool writes into its own chunks only, the chunk that it has just been given included, and it
depends on the memory in them only.  So two pools whose chunks lie apart do not disturb each other.
-/

namespace WsServer

open Word Memory

namespace MemoryPool

/-- The address lies in none of the chunks. -/
def Outside (pool : MemoryPool) (a : ℕ) : Prop :=
  ∀ chunk ∈ pool.chunks, a < chunk.base ∨ chunk.base + chunk.bytes ≤ a

instance (pool : MemoryPool) (a : ℕ) : Decidable (pool.Outside a) :=
  inferInstanceAs (Decidable (∀ chunk ∈ pool.chunks, _))

/-- No chunk of one pool overlaps a chunk of the other. -/
def ChunksApart (pool pool' : MemoryPool) : Prop :=
  ∀ chunk ∈ pool.chunks, ∀ chunk' ∈ pool'.chunks,
    chunk.base + chunk.bytes ≤ chunk'.base ∨ chunk'.base + chunk'.bytes ≤ chunk.base

variable {pool pool' : MemoryPool}

theorem ChunksApart.symm (h : ChunksApart pool pool') : ChunksApart pool' pool :=
  fun chunk' hchunk' chunk hchunk => (h chunk hchunk chunk' hchunk').symm

/-- What lies in a chunk of one pool lies outside those of the other. -/
theorem ChunksApart.outside (h : ChunksApart pool pool') {a : ℕ} (ha : ¬pool'.Outside a) :
    pool.Outside a := by
  intro chunk hchunk
  unfold Outside at ha
  push Not at ha
  obtain ⟨chunk', hchunk', hlow, hhigh⟩ := ha
  have hpair := h chunk hchunk chunk' hchunk'
  omega

end MemoryPool

namespace PoolState

variable {s s' : PoolState} {mem p a : ℕ}

/-- The loop in `grow` writes into the new chunk. -/
theorem foldl_threadBlock_outside {base n : ℕ} (hword : wordBytes ≤ s.pool.blockSize)
    (hroom : base + s.pool.blockSize * s.pool.blocksPerChunk ≤ sizeRange)
    (hn : n ≤ s.pool.blocksPerChunk)
    (ha : a < base ∨ base + s.pool.blockSize * s.pool.blocksPerChunk ≤ a) :
    ((List.range n).foldl (threadBlock base) s).memory a = s.memory a := by
  induction n with
  | zero => rfl
  | succ n ih =>
      obtain ⟨first, hpool⟩ := pool_foldl_threadBlock s base (List.range n)
      have hinside : (n + 1) * s.pool.blockSize ≤ s.pool.blocksPerChunk * s.pool.blockSize :=
        Nat.mul_le_mul_right _ hn
      rw [Nat.add_mul, Nat.one_mul, Nat.mul_comm s.pool.blocksPerChunk] at hinside
      have hlt : base + n * s.pool.blockSize < sizeRange := by
        unfold wordBytes at hword
        omega
      rw [List.range_succ, List.foldl_append, List.foldl_cons, List.foldl_nil]
      have hblock : ((List.range n).foldl (threadBlock base) s).pool.blockAt base n =
          base + n * s.pool.blockSize := by
        rw [hpool]
        exact Nat.mod_eq_of_lt hlt
      show ((List.range n).foldl (threadBlock base) s).memory.store _ _ a = _
      rw [hblock, store_of_outside (by omega)]
      exact ih (Nat.le_of_succ_le hn)

theorem grow_outside (hsized : s.pool.Sized) (h : s.grow mem = some s')
    (hinside : mem + s.pool.alignedBytes ≤ sizeRange)
    (ha : a < mem ∨ mem + s.pool.alignedBytes ≤ a) : s'.memory a = s.memory a := by
  have hword : wordBytes ≤ s.pool.blockSize := le_trans (by decide) hsized.le_size
  rw [hsized.alignedBytes_eq] at hinside ha
  rw [grow, if_neg (grow_eq_some h).1] at h
  rw [← Option.some.inj h]
  exact foldl_threadBlock_outside (s := ⟨_, s.memory⟩) hword hinside le_rfl ha

/-- A pool that allocates writes into the chunks that it has then. -/
theorem allocate_outside (hsized : s.pool.Sized) (h : s.allocate mem = some (p, s'))
    (hinside : s.pool.freeList = 0 → mem + s.pool.alignedBytes ≤ sizeRange)
    (ha : s'.pool.Outside a) : s'.memory a = s.memory a := by
  have hchunks := (allocate_eq_some h).2.2
  unfold MemoryPool.Outside at ha
  rw [hchunks] at ha
  unfold allocate at h
  obtain ⟨grown, hgrown, htaken⟩ := Option.map_eq_some_iff.mp h
  have hmemory : s'.memory = grown.memory := by rw [← (Prod.mk.inj htaken).2]
  rw [hmemory]
  split at hgrown
  · rename_i hempty
    rw [if_pos hempty] at ha
    exact grow_outside hsized hgrown (hinside hempty)
      (ha _ (List.mem_append_right _ List.mem_cons_self))
  · rw [← Option.some.inj hgrown]

theorem pool_deallocate (s : PoolState) (p : ℕ) :
    (s.deallocate p).pool.blockSize = s.pool.blockSize ∧
      (s.deallocate p).pool.chunks = s.pool.chunks := by
  unfold deallocate
  split <;> exact ⟨rfl, rfl⟩

theorem deallocate_outside (ha : a < p ∨ p + wordBytes ≤ a) :
    (s.deallocate p).memory a = s.memory a := by
  unfold deallocate
  split
  · rfl
  · exact store_of_outside ha

end PoolState

namespace PoolSystem

variable {s : PoolSystem} {free : List ℕ}

/-- A pool depends on the memory in its chunks only. -/
theorem Partitioned.congr_memory (h : Partitioned s free) {memory : Memory}
    (hsame : ∀ a, ¬s.pool.Outside a → memory a = s.memory a) :
    Partitioned ⟨⟨s.pool, memory⟩, s.outstanding⟩ free := by
  refine ⟨h.sized, h.laid, ?_, h.perm, h.inUse, h.capacity⟩
  refine h.linked.congr fun b hb => load_congr fun a hlow hhigh => hsame a ?_
  obtain ⟨-, -, -, chunk, hchunk, hfirst, hlast⟩ :=
    h.laid.mem_blocks h.sized (h.mem_blocks_of_free hb)
  have hsize := h.sized.le_size
  unfold kAlign at hsize
  unfold wordBytes at hhigh
  intro houtside
  have hout := houtside chunk hchunk
  omega

/-- The order of the outstanding blocks does not matter. -/
theorem Partitioned.perm_outstanding (h : Partitioned s free) {outstanding : List ℕ}
    (hperm : outstanding.Perm s.outstanding) : Partitioned ⟨s.toPoolState, outstanding⟩ free :=
  h.update rfl rfl rfl rfl h.linked (hperm.append_left free) (h.inUse.trans hperm.length_eq.symm)

/-- What a pool hands out is outstanding from then on. -/
theorem Partitioned.of_allocate (h : Partitioned s free) {mem p : ℕ} {s' : PoolState}
    (hpermitted : s.Permitted (.allocate mem)) (hp : s.toPoolState.allocate mem = some (p, s')) :
    ∃ rest, Partitioned ⟨s', p :: s.outstanding⟩ rest := by
  rcases h.allocate hpermitted with hthrows | ⟨p', s'', rest, hp', -, hnext⟩
  · rw [hthrows] at hp
    cases hp
  · obtain ⟨rfl, rfl⟩ := Prod.mk.inj (Option.some.inj (hp.symm.trans hp'))
    exact ⟨rest, hnext⟩

end PoolSystem

end WsServer
