import WsServer.Pool.ChunkArithmetic

/-!
# Growth

A pool asks for a chunk only when its free list is empty, that is when all its blocks are
outstanding.  So the number of chunks depends on the largest number of blocks that were outstanding
at one time and on nothing else (`growth_run`): neither the order of the calls nor the choice of the
blocks that come back makes a difference.
-/

namespace WsServer

open Word

namespace PoolSystem

variable {s : PoolSystem} {free : List ℕ}

/-- The largest number of blocks outstanding at one time. -/
def peak (s : PoolSystem) : List PoolEvent → ℕ
  | [] => s.outstanding.length
  | event :: rest => max s.outstanding.length (peak (s.step event) rest)

theorem length_blocks (pool : MemoryPool) :
    pool.blocks.length = pool.chunks.length * pool.blocksPerChunk := by
  simp [MemoryPool.blocks, MemoryPool.chunkBlocks]

theorem Partitioned.length_add (h : Partitioned s free) :
    free.length + s.outstanding.length = s.pool.chunks.length * s.pool.blocksPerChunk := by
  rw [← length_blocks, ← h.perm.length_eq, List.length_append]

theorem Partitioned.freeList_eq_zero (h : Partitioned s free) :
    s.pool.freeList = 0 ↔ free = [] := by
  have hlinked := h.linked
  cases free with
  | nil => exact iff_of_true hlinked rfl
  | cons b rest => exact iff_of_false (hlinked.1.symm ▸ hlinked.2.1) (by simp)

/-- The chunks are those needed for `most` blocks, and there is one at least. -/
structure Needed (chunks perChunk most : ℕ) : Prop where
  enough : most ≤ chunks * perChunk
  minimal : chunks = 1 ∨ 0 < chunks ∧ (chunks - 1) * perChunk < most

theorem Needed.chunks_eq {chunks perChunk most : ℕ} (h : Needed chunks perChunk most)
    (hpos : 0 < perChunk) : chunks = max 1 ((most + perChunk - 1) / perChunk) := by
  have henough := h.enough
  rcases h.minimal with rfl | ⟨hchunks, hminimal⟩
  · have hfew : (most + perChunk - 1) / perChunk < 2 := by
      rw [Nat.div_lt_iff_lt_mul hpos]
      omega
    omega
  · obtain ⟨k, rfl⟩ := Nat.exists_eq_succ_of_ne_zero hchunks.ne'
    rw [Nat.succ_sub_one] at hminimal
    rw [Nat.succ_mul] at henough
    have hquotient : (most + perChunk - 1) / perChunk = k + 1 := by
      apply Nat.div_eq_of_lt_le
      · rw [Nat.succ_mul]
        omega
      · rw [Nat.succ_mul, Nat.succ_mul]
        omega
    omega

/-- What one event does to the number of chunks and to what is outstanding. -/
theorem Partitioned.chunks_step (h : Partitioned s free) (event : PoolEvent) :
    (s.step event).outstanding.length ≤ s.outstanding.length ∧
        (s.step event).pool.chunks.length = s.pool.chunks.length ∨
      (s.step event).outstanding.length = s.outstanding.length + 1 ∧
        (s.step event).pool.chunks.length =
          if free = [] then s.pool.chunks.length + 1 else s.pool.chunks.length := by
  cases event with
  | allocate mem =>
      cases hnext : s.toPoolState.allocate mem with
      | none =>
          rw [step, hnext]
          exact .inl ⟨le_rfl, rfl⟩
      | some next =>
          obtain ⟨p, s'⟩ := next
          obtain ⟨-, -, hchunks⟩ := PoolState.allocate_eq_some hnext
          rw [step, hnext]
          refine .inr ⟨rfl, ?_⟩
          simp only [h.freeList_eq_zero] at hchunks
          rw [hchunks]
          split
          · exact List.length_append
          · rfl
  | deallocate p =>
      have hpool : (s.toPoolState.deallocate p).pool.chunks = s.pool.chunks := by
        unfold PoolState.deallocate
        split <;> rfl
      exact .inl ⟨List.erase_sublist.length_le, congrArg List.length hpool⟩
  | write a x => exact .inl ⟨le_rfl, rfl⟩

/-- **One event.**  A chunk is added only for a block that there has never been before. -/
theorem Partitioned.needed_step (h : Partitioned s free) {event : PoolEvent}
    {free' : List ℕ} (hnext : Partitioned (s.step event) free') {most : ℕ}
    (hneeded : Needed s.pool.chunks.length s.pool.blocksPerChunk most)
    (hmost : s.outstanding.length ≤ most) :
    Needed (s.step event).pool.chunks.length s.pool.blocksPerChunk
      (max most (s.step event).outstanding.length) := by
  have henough := hneeded.enough
  have hall := h.length_add
  have hall' := hnext.length_add
  rw [(MemoryPool.extends_step s event).blocksPerChunk] at hall'
  rcases h.chunks_step event with ⟨hout, hchunks⟩ | ⟨hout, hchunks⟩
  · rw [hchunks, max_eq_left (hout.trans hmost)]
    exact hneeded
  · split at hchunks
    · rename_i hfull
      -- all blocks are outstanding, so there have never been more
      rw [hfull, List.length_nil, Nat.zero_add] at hall
      refine ⟨by omega, .inr ⟨by omega, ?_⟩⟩
      rw [hchunks, Nat.add_sub_cancel, ← hall]
      exact lt_max_of_lt_right (by omega)
    · rw [hchunks] at hall' ⊢
      refine ⟨by omega, ?_⟩
      exact hneeded.minimal.imp_right fun hmin => ⟨hmin.1, lt_max_of_lt_left hmin.2⟩

theorem length_outstanding_le_peak (s : PoolSystem) (events : List PoolEvent) :
    s.outstanding.length ≤ peak s events := by
  cases events with
  | nil => exact le_rfl
  | cons event rest => exact le_max_left _ _

theorem Partitioned.needed_run (h : Partitioned s free) {most : ℕ}
    (hneeded : Needed s.pool.chunks.length s.pool.blocksPerChunk most)
    (hmost : s.outstanding.length ≤ most) {events : List PoolEvent}
    (hpermitted : Transition.AllSteps step Permitted s events) :
    Needed (Transition.run step s events).pool.chunks.length s.pool.blocksPerChunk
        (max most (peak s events)) ∧
      (Transition.run step s events).pool.blocksPerChunk = s.pool.blocksPerChunk := by
  induction events generalizing s free most with
  | nil =>
      rw [peak, max_eq_left hmost]
      exact ⟨hneeded, rfl⟩
  | cons event rest ih =>
      have hsame := (MemoryPool.extends_step s event).blocksPerChunk
      obtain ⟨free', hnext⟩ := partitioned_step h hpermitted.1
      have hone := h.needed_step hnext hneeded hmost
      rw [← hsame] at hone
      have hrest := ih hnext hone (le_max_right _ _) hpermitted.2
      have hpeak : max (max most (s.step event).outstanding.length) (peak (s.step event) rest) =
          max most (peak s (event :: rest)) := by
        rw [peak, max_assoc, max_eq_right (length_outstanding_le_peak _ rest), ← max_assoc,
          max_eq_left hmost]
      rw [hpeak, hsame] at hrest
      exact hrest

/-- **Minimal growth.**  In every run in which the pool can rely on its clients and on
`aligned_alloc`, the number of chunks is the least that has room for the largest number of blocks
outstanding at one time, and one at least; and the capacity is their number of blocks. -/
theorem growth_run (memory : Memory) (blockSize blocksPerChunk mem : ℕ) (start : PoolState)
    (events : List PoolEvent)
    (hproduct : roundedSize blockSize * max blocksPerChunk 1 < sizeRange)
    (hfresh : (MemoryPool.ofSizes blockSize blocksPerChunk).Fresh mem)
    (hstart : PoolState.construct memory blockSize blocksPerChunk mem = some start)
    (hpermitted : Transition.AllSteps step Permitted ⟨start, []⟩ events) :
    let s := Transition.run step ⟨start, []⟩ events
    let n := max blocksPerChunk 1
    s.pool.chunks.length = max 1 ((peak ⟨start, []⟩ events + n - 1) / n) ∧
      s.pool.capacity = s.pool.chunks.length * n := by
  intro s n
  obtain ⟨first, hfirst⟩ := partitioned_construct hproduct hfresh hstart
  obtain ⟨free, h⟩ := partitioned_run hfirst hpermitted
  obtain ⟨-, head, hpool⟩ := PoolState.grow_eq_some hstart
  have hcount : start.pool.blocksPerChunk = n := by
    rw [hpool]
    exact MemoryPool.blocksPerChunk_ofSizes blockSize blocksPerChunk
  have hone : Needed start.pool.chunks.length start.pool.blocksPerChunk 0 := by
    rw [hpool]
    exact ⟨Nat.zero_le _, .inl rfl⟩
  obtain ⟨hneeded, hsame⟩ := hfirst.needed_run hone le_rfl hpermitted
  rw [Nat.zero_max, hcount] at hneeded
  refine ⟨hneeded.chunks_eq (by omega), ?_⟩
  rw [h.capacity, length_blocks, hsame, hcount]

/-- Two blocks in a chunk: three are outstanding at one time, and then again. -/
def threeTwice : List PoolEvent :=
  [.allocate 0, .allocate 0, .allocate 8192, .deallocate 4096, .deallocate 8208, .allocate 0,
    .allocate 0]

/-- Two chunks are enough. -/
theorem growth_run_sample :
    let start := (PoolState.construct (fun _ => 0) 8 2 4096).get rfl
    let s := Transition.run step ⟨start, []⟩ threeTwice
    peak ⟨start, []⟩ threeTwice = 3 ∧ s.pool.chunks.length = 2 ∧ s.pool.capacity = 4 := by
  intro start s
  have hpeak : peak ⟨start, []⟩ threeTwice = 3 := by decide +kernel
  obtain ⟨hchunks, hcapacity⟩ := growth_run (fun _ => 0) 8 2 4096 start threeTwice (by decide)
    (by decide) (Option.some_get _).symm (by decide +kernel)
  rw [hpeak] at hchunks
  have htwo : s.pool.chunks.length = 2 := hchunks
  refine ⟨hpeak, htwo, hcapacity.trans ?_⟩
  rw [htwo]
  rfl

end PoolSystem

end WsServer
