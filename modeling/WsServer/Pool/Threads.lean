import WsServer.Lib.Transition
import WsServer.Pool.Footprint
import WsServer.Pool.Lookup

/-!
# Pools of several threads

All `PoolAllocator` instances compare equal, so a node that one thread has allocated may be
deallocated on another one.  But the pool is looked up again at that time, among the pools of the
thread that deallocates.  A block that changes threads therefore goes into the free list of a pool
that it was not cut from, and the counter of that pool counts it although it never handed it out
(`not_interchangeable`).

As long as each node is deallocated on the thread that has allocated it, every pool is on its own
(`own_nodes_run`): the chunks of all pools lie apart, a pool writes into its own chunks only, and a
size is served by the same pool for ever.  So each pool stays partitioned into free and outstanding
blocks, as a single one does.
-/

namespace WsServer

open Word Memory

/-- A node that a client holds: its block and size, the thread that has allocated it, and the pool
of that thread that the block is from. -/
structure Node (ι : Type*) where
  block : ℕ
  size : ℕ
  thread : ι
  pool : PoolRef
  deriving DecidableEq

namespace Node

variable {ι : Type*}

def place (node : Node ι) : ι × PoolRef := (node.thread, node.pool)

end Node

/-- Threads with their pools, in one memory.  The program has `ended` when a `noexcept` function has
thrown. -/
structure ThreadPools (ι : Type*) where
  threads : ι → TlsPools := fun _ => {}
  memory : Memory
  nodes : List (Node ι) := []
  ended : Bool := false

/-- What a thread does; `mem` and `memGrow` are what `aligned_alloc` returns to a pool that is made
and to one that grows. -/
inductive PoolCall (ι : Type*)
  | allocate (t : ι) (size mem memGrow : ℕ)
  | deallocate (t : ι) (node : Node ι) (mem : ℕ)
  /-- A client writes a byte. -/
  | write (a : ℕ) (x : UInt8)

namespace ThreadPools

variable {ι : Type*} [DecidableEq ι]

/-- What thread `t` works on. -/
def tlsState (s : ThreadPools ι) (t : ι) : TlsState := ⟨s.threads t, s.memory⟩

/-- Thread `t` has come to the state `next`. -/
def put (s : ThreadPools ι) (t : ι) (next : TlsState) : ThreadPools ι :=
  { s with threads := Function.update s.threads t next.tls, memory := next.memory }

/-- Threads without pools. -/
def start (memory : Memory) : ThreadPools ι where
  memory := memory

def poolAt (s : ThreadPools ι) (place : ι × PoolRef) : Option MemoryPool :=
  (s.threads place.1).get? place.2

def act (s : ThreadPools ι) : PoolCall ι → ThreadPools ι
  | .allocate t size mem memGrow =>
    match PoolAllocator.allocate (s.tlsState t) size mem memGrow with
    | (some (p, ref), next) => { s.put t next with nodes := ⟨p, size, t, ref⟩ :: s.nodes }
    | (none, next) => s.put t next
  | .deallocate t node mem =>
    match PoolAllocator.deallocate (s.tlsState t) node.block node.size mem with
    | some next => { s.put t next with nodes := s.nodes.erase node }
    | none => { s with ended := true }
  | .write a x => { s with memory := Function.update s.memory a x }

def step (s : ThreadPools ι) (call : PoolCall ι) : ThreadPools ι :=
  if s.ended then s else s.act call

/-! ## The environment -/

/-- `aligned_alloc` may return the `bytes` bytes at `base`: they are apart from all chunks. -/
def Free (s : ThreadPools ι) (base bytes : ℕ) : Prop :=
  kAlign ∣ base ∧ base + bytes ≤ sizeRange ∧ ∀ t, ∀ pool ∈ (s.threads t).all,
    ∀ chunk ∈ pool.chunks, chunk.base + chunk.bytes ≤ base ∨ base + bytes ≤ chunk.base

/-- The chunk of a pool that is made is free. -/
def MayMake (s : ThreadPools ι) (t : ι) (size mem : ℕ) : Prop :=
  match (s.tlsState t).tlsPoolFor size mem with
  | none => True
  | some (ref, found) => s.poolAt (t, ref) = none →
      ∀ pool ∈ found.tls.get? ref, s.Free mem pool.alignedBytes

/-- A pool that grows gets a free chunk, or none. -/
def MayGrow (s : ThreadPools ι) (t : ι) (size mem memGrow : ℕ) : Prop :=
  match (s.tlsState t).tlsPoolFor size mem with
  | none => True
  | some (ref, found) => ∀ pool ∈ found.tls.get? ref, pool.freeList = 0 →
      memGrow = 0 ∨ (s.put t found).Free memGrow pool.alignedBytes

/-- What the pools may rely on: `aligned_alloc` fails or returns free memory, only nodes that are
held are deallocated, on any thread, and a client writes into its nodes or outside all chunks. -/
def Permitted (s : ThreadPools ι) : PoolCall ι → Prop
  | .allocate t size mem memGrow => s.MayMake t size mem ∧ s.MayGrow t size mem memGrow
  | .deallocate t node mem => node ∈ s.nodes ∧ s.MayMake t node.size mem
  | .write a _ => (∃ node ∈ s.nodes, node.block ≤ a ∧ a < node.block + node.size) ∨
      ∀ t, ∀ pool ∈ (s.threads t).all, pool.Outside a

section Decidable

variable [Fintype ι]

instance (s : ThreadPools ι) (base bytes : ℕ) : Decidable (s.Free base bytes) := by
  unfold Free
  infer_instance

instance (s : ThreadPools ι) (t : ι) (size mem : ℕ) : Decidable (s.MayMake t size mem) := by
  unfold MayMake
  split <;> infer_instance

instance (s : ThreadPools ι) (t : ι) (size mem memGrow : ℕ) :
    Decidable (s.MayGrow t size mem memGrow) := by
  unfold MayGrow
  split <;> infer_instance

instance (s : ThreadPools ι) (call : PoolCall ι) : Decidable (s.Permitted call) := by
  cases call <;> unfold Permitted <;> infer_instance

end Decidable

/-! ## The law -/

/-- A node that is deallocated goes back to a pool with a chunk that contains its block. -/
def GoesHome (s : ThreadPools ι) : PoolCall ι → Prop
  | .deallocate t node mem =>
    match (s.tlsState t).tlsPoolFor node.size mem with
    | none => False
    | some (ref, found) => ∃ pool ∈ found.tls.get? ref, ∃ chunk ∈ pool.chunks,
        chunk.base ≤ node.block ∧ node.block + pool.blockSize ≤ chunk.base + chunk.bytes
  | _ => True

/-- Every pool counts the nodes that it has handed out. -/
def Counts (s : ThreadPools ι) : Prop :=
  ∀ place pool, s.poolAt place = some pool →
    pool.inUse = (s.nodes.filter (·.place = place)).length

/-- The law: in every state every pool counts its own nodes, and every node goes home. -/
def Interchangeable (memory : Memory) (calls : List (PoolCall ι)) : Prop :=
  (∀ front, front <+: calls → Counts (Transition.run step (start memory) front)) ∧
    Transition.AllSteps step GoesHome (start memory) calls

/-- A node is deallocated on the thread that has allocated it; and sixteen nodes fit into 64 bits,
so that the size of a chunk is computed without wrapping around. -/
def OnOwnThread : PoolCall ι → Prop
  | .allocate _ size _ _ => roundedSize size * 16 < sizeRange
  | .deallocate t node _ => node.thread = t
  | .write _ _ => True

instance (call : PoolCall ι) : Decidable (OnOwnThread call) := by
  cases call <;> unfold OnOwnThread <;> infer_instance

/-! ## The invariant -/

/-- The blocks of the nodes from the pool at `place`. -/
def blocksAt (nodes : List (Node ι)) (place : ι × PoolRef) : List ℕ :=
  (nodes.filter (·.place = place)).map Node.block

/-- Every pool is partitioned into free blocks and those of its nodes, apart from all others, and
a node is of a size for which its pool would be found again. -/
structure Sound (s : ThreadPools ι) : Prop where
  partitioned : ∀ place pool, s.poolAt place = some pool →
    ∃ free, PoolSystem.Partitioned ⟨⟨pool, s.memory⟩, blocksAt s.nodes place⟩ free
  apart : ∀ place pool place' pool', place ≠ place' → s.poolAt place = some pool →
    s.poolAt place' = some pool' → pool.ChunksApart pool'
  classed : ∀ t, (s.threads t).Classed
  served : ∀ node ∈ s.nodes, (s.threads node.thread).Serves node.size node.pool
  fits : ∀ node ∈ s.nodes, roundedSize node.size < sizeRange

variable {s : ThreadPools ι} {t : ι} {ref : PoolRef}

theorem put_self (s : ThreadPools ι) (t : ι) : s.put t (s.tlsState t) = s := by
  show { s with threads := Function.update s.threads t (s.threads t), memory := s.memory } = s
  rw [Function.update_eq_self]

theorem put_put (s : ThreadPools ι) (t : ι) (first second : TlsState) :
    (s.put t first).put t second = s.put t second := by
  simp [put]

@[simp] theorem tlsState_put (s : ThreadPools ι) (t : ι) (next : TlsState) :
    (s.put t next).tlsState t = next := by
  simp [put, tlsState]

@[simp] theorem threads_put_self (s : ThreadPools ι) (t : ι) (next : TlsState) :
    (s.put t next).threads t = next.tls := Function.update_self _ _ _

theorem threads_put_of_ne {next : TlsState} {t' : ι} (h : t' ≠ t) :
    (s.put t next).threads t' = s.threads t' := Function.update_of_ne h _ _

theorem poolAt_put_self (s : ThreadPools ι) (t : ι) (next : TlsState) (ref : PoolRef) :
    (s.put t next).poolAt (t, ref) = next.tls.get? ref := by
  simp [put, poolAt]

/-- Where only the pool at one place changes, the pools at all other places stay. -/
theorem poolAt_put_of_ne {next : TlsState}
    (hothers : ∀ other, other ≠ ref → next.tls.get? other = (s.threads t).get? other)
    {place : ι × PoolRef} (hplace : place ≠ (t, ref)) :
    (s.put t next).poolAt place = s.poolAt place := by
  obtain ⟨t', ref'⟩ := place
  by_cases hthread : t' = t
  · subst hthread
    rw [poolAt_put_self]
    exact hothers ref' fun heq => hplace (congrArg _ heq)
  · show ((s.put t next).threads t').get? ref' = _
    rw [threads_put_of_ne hthread]
    rfl

theorem blocksAt_cons_self (node : Node ι) (nodes : List (Node ι)) :
    blocksAt (node :: nodes) node.place = node.block :: blocksAt nodes node.place := by
  simp [blocksAt]

theorem blocksAt_cons_of_ne {node : Node ι} {nodes : List (Node ι)} {place : ι × PoolRef}
    (h : place ≠ node.place) : blocksAt (node :: nodes) place = blocksAt nodes place := by
  simp [blocksAt, h.symm]

theorem blocksAt_perm {nodes nodes' : List (Node ι)} (h : nodes.Perm nodes') (place : ι × PoolRef) :
    (blocksAt nodes place).Perm (blocksAt nodes' place) := (h.filter _).map _

theorem mem_blocksAt {node : Node ι} (h : node ∈ s.nodes) :
    node.block ∈ blocksAt s.nodes node.place :=
  List.mem_map.mpr ⟨node, List.mem_filter.mpr ⟨h, decide_eq_true rfl⟩, rfl⟩

/-- What a thread may do to the pool at `ref`: it keeps the pool partitioned and apart from the
others, and writes into it only. -/
structure Changes (s : ThreadPools ι) (t : ι) (ref : PoolRef) (next : TlsState)
    (nodes : List (Node ι)) : Prop where
  pool : ∃ pool free, next.tls.get? ref = some pool ∧
    PoolSystem.Partitioned ⟨⟨pool, next.memory⟩, blocksAt nodes (t, ref)⟩ free ∧
    (∀ place pool', place ≠ (t, ref) → s.poolAt place = some pool' → pool.ChunksApart pool') ∧
    ∀ a, pool.Outside a → next.memory a = s.memory a
  others : ∀ other, other ≠ ref → next.tls.get? other = (s.threads t).get? other
  classed : next.tls.Classed
  keeps : ∀ size ref', (s.threads t).Serves size ref' → next.tls.Serves size ref'
  elsewhere : ∀ place, place ≠ (t, ref) → (blocksAt nodes place).Perm (blocksAt s.nodes place)
  served : ∀ node ∈ nodes, node ∈ s.nodes ∨ node.thread = t ∧ next.tls.Serves node.size node.pool ∧
    roundedSize node.size < sizeRange

namespace Changes

variable {next : TlsState} {nodes : List (Node ι)}

/-- Behind the change a pool is the changed one, or one of the others as it was. -/
theorem poolAt_put (h : Changes s t ref next nodes) {place : ι × PoolRef} {pool : MemoryPool}
    (hpool : (s.put t next).poolAt place = some pool) :
    place = (t, ref) ∧ next.tls.get? ref = some pool ∨
      place ≠ (t, ref) ∧ s.poolAt place = some pool := by
  by_cases hplace : place = (t, ref)
  · subst hplace
    exact .inl ⟨rfl, (poolAt_put_self s t next ref).symm.trans hpool⟩
  · exact .inr ⟨hplace, (poolAt_put_of_ne h.others hplace).symm.trans hpool⟩

theorem partitioned (hchange : Changes s t ref next nodes) (h : Sound s) {place : ι × PoolRef}
    {pool : MemoryPool} (hpool : (s.put t next).poolAt place = some pool) :
    ∃ free, PoolSystem.Partitioned ⟨⟨pool, next.memory⟩, blocksAt nodes place⟩ free := by
  obtain ⟨changed, free, hget, hpart, hapart, hmemory⟩ := hchange.pool
  rcases hchange.poolAt_put hpool with ⟨rfl, hself⟩ | ⟨hplace, hold⟩
  · obtain rfl : changed = pool := Option.some.inj (hget.symm.trans hself)
    exact ⟨free, hpart⟩
  · -- the memory in the chunks of this pool has not changed
    obtain ⟨free', hfree'⟩ := h.partitioned place pool hold
    have hframe : PoolSystem.Partitioned ⟨⟨pool, next.memory⟩, blocksAt s.nodes place⟩ free' :=
      hfree'.congr_memory fun a ha => hmemory a ((hapart place pool hplace hold).outside ha)
    exact ⟨free', hframe.perm_outstanding (hchange.elsewhere place hplace)⟩

theorem apart (hchange : Changes s t ref next nodes) (h : Sound s) {place place' : ι × PoolRef}
    {pool pool' : MemoryPool} (hne : place ≠ place')
    (hpool : (s.put t next).poolAt place = some pool)
    (hpool' : (s.put t next).poolAt place' = some pool') : pool.ChunksApart pool' := by
  obtain ⟨changed, -, hget, -, hapart, -⟩ := hchange.pool
  rcases hchange.poolAt_put hpool with ⟨rfl, hself⟩ | ⟨hplace, hold⟩
  · obtain rfl : changed = pool := Option.some.inj (hget.symm.trans hself)
    rcases hchange.poolAt_put hpool' with ⟨rfl, -⟩ | ⟨hplace', hold'⟩
    · exact absurd rfl hne
    · exact hapart place' pool' hplace' hold'
  · rcases hchange.poolAt_put hpool' with ⟨rfl, hself'⟩ | ⟨-, hold'⟩
    · obtain rfl : changed = pool' := Option.some.inj (hget.symm.trans hself')
      exact (hapart place pool hplace hold).symm
    · exact h.apart place pool place' pool' hne hold hold'

theorem classed_put (hchange : Changes s t ref next nodes) (h : Sound s) (t' : ι) :
    ((s.put t next).threads t').Classed := by
  by_cases hthread : t' = t
  · subst hthread
    rw [threads_put_self]
    exact hchange.classed
  · rw [threads_put_of_ne hthread]
    exact h.classed t'

theorem serves_put (hchange : Changes s t ref next nodes) {t' : ι} {size : ℕ} {ref' : PoolRef}
    (hserves : (s.threads t').Serves size ref') : ((s.put t next).threads t').Serves size ref' := by
  by_cases hthread : t' = t
  · subst hthread
    rw [threads_put_self]
    exact hchange.keeps size ref' hserves
  · rw [threads_put_of_ne hthread]
    exact hserves

end Changes

/-- **One pool changes.**  All others are left as they are. -/
theorem Sound.put (h : Sound s) {next : TlsState} {nodes : List (Node ι)}
    (hchange : Changes s t ref next nodes) : Sound { s.put t next with nodes := nodes } := by
  refine ⟨fun place pool hpool => hchange.partitioned h hpool,
    fun place pool place' pool' hne hpool hpool' => hchange.apart h hne hpool hpool',
    hchange.classed_put h, fun node hnode => ?_, fun node hnode => ?_⟩
  · rcases hchange.served node hnode with hold | ⟨rfl, hnew, -⟩
    · exact hchange.serves_put (h.served node hold)
    · show ((s.put node.thread next).threads node.thread).Serves _ _
      rw [threads_put_self]
      exact hnew
  · rcases hchange.served node hnode with hold | ⟨-, -, hfits⟩
    · exact h.fits node hold
    · exact hfits

/-! ### Looking up -/

variable {size mem p : ℕ} {next : TlsState}

omit [DecidableEq ι] in
/-- A free region is apart from the chunks of every pool. -/
theorem Free.apart (h : s.Free mem size) {place : ι × PoolRef} {pool : MemoryPool}
    (hpool : s.poolAt place = some pool) :
    ∀ chunk ∈ pool.chunks, chunk.base + chunk.bytes ≤ mem ∨ mem + size ≤ chunk.base :=
  h.2.2 place.1 pool (TlsPools.mem_all hpool)

omit [DecidableEq ι] in
theorem Free.fresh {pool : MemoryPool} (h : s.Free mem pool.alignedBytes) {place : ι × PoolRef}
    (hpool : s.poolAt place = some pool) : pool.Fresh mem := ⟨h.1, h.2.1, h.apart hpool⟩

/-- No node is from a pool that has not been made. -/
theorem Sound.blocksAt_of_absent (h : Sound s) {place : ι × PoolRef} (habsent : s.poolAt place = none) :
    blocksAt s.nodes place = [] := by
  refine List.map_eq_nil_iff.mpr (List.filter_eq_nil_iff.mpr fun node hnode hplace => ?_)
  obtain ⟨pool, hpool⟩ := (h.served node hnode).exists_get?
  have hsome : s.poolAt node.place = some pool := hpool
  rw [of_decide_eq_true hplace, habsent] at hsome
  cases hsome

theorem Sound.changes_made (h : Sound s) (hsize : roundedSize size * 16 < sizeRange)
    (hmade : (s.tlsState t).Made size mem ref next)
    (hfree : ∀ pool ∈ next.tls.get? ref, s.Free mem pool.alignedBytes) :
    Changes s t ref next s.nodes := by
  obtain ⟨made, hconstruct, hmemory, hget⟩ := hmade.construct
  have hproduct := TlsState.newSizes_product hsize
  obtain ⟨-, first, hpool⟩ := PoolState.grow_eq_some hconstruct
  have hregion := hfree made.pool hget
  rw [hpool] at hregion
  have hfresh : (MemoryPool.ofSizes (TlsState.newSizes size).1 (TlsState.newSizes size).2).Fresh mem :=
    ⟨hregion.1, hregion.2.1, by simp [MemoryPool.ofSizes]⟩
  obtain ⟨free, hpart⟩ := PoolSystem.partitioned_construct hproduct hfresh hconstruct
  have hnone : blocksAt s.nodes (t, ref) = [] := h.blocksAt_of_absent hmade.absent
  refine ⟨⟨made.pool, free, hget, ?_, ?_, ?_⟩, hmade.others, hmade.classed (h.classed t),
    hmade.keeps, fun _ _ => List.Perm.refl _, fun node hnode => .inl hnode⟩
  · rw [hnone, ← hmemory]
    exact hpart
  · intro place pool' hplace hpool' chunk hchunk chunk' hchunk'
    rw [hpool] at hchunk
    rw [List.mem_singleton.mp hchunk]
    exact (hregion.apart hpool' chunk' hchunk').symm
  · intro a ha
    rw [hpool] at ha
    rw [← hmemory]
    exact PoolState.grow_outside (PoolSystem.sized_ofSizes hproduct) hconstruct hfresh.inside
      (ha _ List.mem_cons_self)

/-- After the lookup all pools are as they should be, and the pool would be found again. -/
theorem Sound.lookup (h : Sound s) (hsize : roundedSize size * 16 < sizeRange)
    (hmay : s.MayMake t size mem)
    (hfound : (s.tlsState t).tlsPoolFor size mem = some (ref, next)) :
    Sound (s.put t next) ∧ next.tls.Serves size ref := by
  simp only [MayMake, hfound] at hmay
  rcases TlsState.tlsPoolFor_cases (by omega) hfound with ⟨hserves, rfl⟩ | hmade
  · rw [put_self]
    exact ⟨h, hserves⟩
  · exact ⟨h.put (h.changes_made hsize hmade (hmay hmade.absent)), hmade.serves⟩

/-! ### Allocating -/

theorem Sound.changes_allocate (h : Sound s) (hserves : (s.threads t).Serves size ref)
    (hsize : roundedSize size < sizeRange)
    (hmay : ∀ pool ∈ (s.threads t).get? ref, pool.freeList = 0 →
      mem = 0 ∨ s.Free mem pool.alignedBytes)
    (hp : (s.tlsState t).allocateAt ref mem = some (p, next)) :
    Changes s t ref next (⟨p, size, t, ref⟩ :: s.nodes) := by
  obtain ⟨pool, after, hpool, hallocate, rfl⟩ := TlsState.allocateAt_eq_some hp
  have hplace : s.poolAt (t, ref) = some pool := hpool
  have htook : PoolState.allocate ⟨pool, s.memory⟩ mem = some (p, after) := hallocate
  obtain ⟨free, hpart⟩ := h.partitioned (t, ref) pool hplace
  obtain ⟨hblock, -, hchunks⟩ := PoolState.allocate_eq_some htook
  obtain ⟨rest, hrest⟩ := hpart.of_allocate
    (fun hempty => (hmay pool hpool hempty).imp_right fun hfree => hfree.fresh hplace) htook
  -- a pool that grows has been given something
  have hgiven (hempty : pool.freeList = 0) : s.Free mem pool.alignedBytes := by
    refine (hmay pool hpool hempty).resolve_left ?_
    rintro rfl
    simp [PoolState.allocate, PoolState.grow, hempty] at htook
  refine ⟨⟨after.pool, rest, TlsPools.get?_set_self hpool, ?_, ?_, ?_⟩,
    fun other hother => TlsPools.get?_set_of_ne hother, (h.classed t).set hpool hblock,
    fun size' ref' hserves' => hserves'.set hpool hblock,
    fun place hne => by rw [blocksAt_cons_of_ne hne], ?_⟩
  · exact (blocksAt_cons_self ⟨p, size, t, ref⟩ s.nodes).symm ▸ hrest
  · intro place pool' hne hpool' chunk hchunk
    rw [hchunks] at hchunk
    have hold := h.apart (t, ref) pool place pool' hne.symm hplace hpool'
    split at hchunk
    · rename_i hempty
      rcases List.mem_append.mp hchunk with hchunk | hchunk
      · exact hold chunk hchunk
      · rw [List.mem_singleton.mp hchunk]
        exact fun chunk' hchunk' => ((hgiven hempty).apart hpool' chunk' hchunk').symm
    · exact hold chunk hchunk
  · intro a ha
    exact PoolState.allocate_outside hpart.sized htook (fun hempty => (hgiven hempty).2.1) ha
  · intro node hnode
    rcases List.mem_cons.mp hnode with rfl | hnode
    · exact .inr ⟨rfl, hserves.set hpool hblock, hsize⟩
    · exact .inl hnode

/-! ### Deallocating -/

/-- A node that is held lies in a chunk of the pool that it is from. -/
theorem Sound.mem_chunk (h : Sound s) {node : Node ι} (hnode : node ∈ s.nodes) {pool : MemoryPool}
    (hpool : s.poolAt node.place = some pool) : ∃ chunk ∈ pool.chunks,
      chunk.base ≤ node.block ∧ node.block + pool.blockSize ≤ chunk.base + chunk.bytes := by
  obtain ⟨free, hpart⟩ := h.partitioned node.place pool hpool
  have hblock := hpart.mem_blocks_of_outstanding (mem_blocksAt hnode)
  exact (hpart.laid.mem_blocks hpart.sized hblock).2.2.2

theorem Sound.changes_deallocate (h : Sound s) {node : Node ι} (hnode : node ∈ s.nodes) :
    Changes s node.thread node.pool ((s.tlsState node.thread).deallocateAt node.pool node.block)
      (s.nodes.erase node) := by
  obtain ⟨pool, hpool⟩ := (h.served node hnode).exists_get?
  have hplace : s.poolAt node.place = some pool := hpool
  obtain ⟨free, hpart⟩ := h.partitioned node.place pool hplace
  obtain ⟨chunk, hchunk, hlow, hhigh⟩ := h.mem_chunk hnode hplace
  have hsplit : s.nodes.Perm (node :: s.nodes.erase node) := List.perm_cons_erase hnode
  obtain ⟨hblock, hchunks⟩ := PoolState.pool_deallocate
    ⟨pool, (s.tlsState node.thread).memory⟩ node.block
  rw [TlsState.deallocateAt_of_get? hpool]
  refine ⟨⟨_, node.block :: free, TlsPools.get?_set_self hpool, ?_, ?_, ?_⟩,
    fun other hother => TlsPools.get?_set_of_ne hother, (h.classed _).set hpool hblock,
    fun size ref hserves => hserves.set hpool hblock, ?_, fun other hother => .inl (List.mem_of_mem_erase hother)⟩
  · have hback := hpart.deallocate (mem_blocksAt hnode)
    refine hback.perm_outstanding ((List.perm_cons node.block).mp ?_)
    calc node.block :: blocksAt (s.nodes.erase node) node.place
      _ = blocksAt (node :: s.nodes.erase node) node.place := (blocksAt_cons_self _ _).symm
      List.Perm _ (blocksAt s.nodes node.place) := blocksAt_perm hsplit.symm _
      List.Perm _ _ := List.perm_cons_erase (mem_blocksAt hnode)
  · intro place pool' hne hpool'
    unfold MemoryPool.ChunksApart
    rw [hchunks]
    exact h.apart node.place pool place pool' hne.symm hplace hpool'
  · intro a ha
    unfold MemoryPool.Outside at ha
    rw [hchunks] at ha
    have hout := ha chunk hchunk
    have hword : wordBytes ≤ pool.blockSize := le_trans (by decide) hpart.sized.le_size
    exact PoolState.deallocate_outside (by omega)
  · intro place hne
    have hboth := blocksAt_perm hsplit place
    rw [blocksAt_cons_of_ne hne] at hboth
    exact hboth.symm

/-! ### Writing -/

theorem Sound.write (h : Sound s) {a : ℕ} {x : UInt8} (hpermitted : s.Permitted (.write a x)) :
    Sound { s with memory := Function.update s.memory a x } := by
  refine ⟨fun place pool hpool => ?_, h.apart, h.classed, h.served, h.fits⟩
  obtain ⟨free, hpart⟩ := h.partitioned place pool hpool
  refine ⟨free, hpart.write (x := x) ?_⟩
  rcases hpermitted with ⟨node, hnode, hlow, hhigh⟩ | houtside
  · obtain ⟨owner, howner⟩ := (h.served node hnode).exists_get?
    have hsize := (h.served node hnode).le_blockSize (h.classed _) (h.fits node hnode) howner
    by_cases hplace : node.place = place
    · subst hplace
      obtain rfl : owner = pool := Option.some.inj (Eq.trans (Eq.symm howner) hpool)
      exact .inl ⟨node.block, mem_blocksAt hnode, hlow, hhigh.trans_le (by simpa using hsize)⟩
    · -- the node lies in a chunk of another pool
      obtain ⟨chunk, hchunk, hfirst, hlast⟩ := h.mem_chunk hnode howner
      have hinside : ¬owner.Outside a := fun hout => by
        have := hout chunk hchunk
        omega
      exact .inr ((h.apart _ _ _ _ (Ne.symm hplace) hpool howner).outside hinside)
  · exact .inr (houtside place.1 pool (TlsPools.mem_all hpool))

/-! ## Runs -/

/-- The first state: there are no pools yet. -/
theorem sound_start (memory : Memory) : Sound (start memory : ThreadPools ι) := by
  have habsent (place : ι × PoolRef) : (start memory : ThreadPools ι).poolAt place = none := by
    obtain ⟨t, i | j⟩ := place <;> rfl
  refine ⟨?_, ?_, ?_, fun node hnode => ?_, fun node hnode => ?_⟩
  · intro place pool hpool
    rw [habsent] at hpool
    cases hpool
  · intro place pool place' pool' _ hpool
    rw [habsent] at hpool
    cases hpool
  · intro t i pool hpool
    cases hpool
  · cases hnode
  · cases hnode

theorem Sound.allocate (h : Sound s) {memGrow : ℕ}
    (hpermitted : s.Permitted (.allocate t size mem memGrow))
    (hsize : roundedSize size * 16 < sizeRange) : Sound (s.act (.allocate t size mem memGrow)) := by
  obtain ⟨hmake, hgrow⟩ := hpermitted
  cases hfound : (s.tlsState t).tlsPoolFor size mem with
  | none =>
      have hstate : s.act (.allocate t size mem memGrow) = s.put t (s.tlsState t) := by
        simp only [act, PoolAllocator.allocate_of_throws hfound]
      rw [hstate, put_self]
      exact h
  | some result =>
      obtain ⟨ref, found⟩ := result
      obtain ⟨hsound, hserves⟩ := h.lookup hsize hmake hfound
      simp only [MayGrow, hfound] at hgrow
      rcases PoolAllocator.allocate_of_found hfound memGrow with
        ⟨-, hthrows⟩ | ⟨p, next, hp, htook⟩
      · simp only [act, hthrows]
        exact hsound
      · rw [← threads_put_self s t found] at hserves hgrow
        rw [← tlsState_put s t found] at hp
        have hnext := hsound.put (hsound.changes_allocate hserves (by omega) hgrow hp)
        rw [put_put] at hnext
        simp only [act, htook]
        exact hnext

theorem Sound.deallocate (h : Sound s) {node : Node ι} (hnode : node ∈ s.nodes) :
    Sound (s.act (.deallocate node.thread node mem)) := by
  have hserves : (s.tlsState node.thread).tls.Serves node.size node.pool := h.served node hnode
  simp only [act, PoolAllocator.deallocate_of_serves hserves]
  exact h.put (h.changes_deallocate hnode)

/-- **One call.** -/
theorem sound_step (h : Sound s) {call : PoolCall ι} (hpermitted : s.Permitted call)
    (hown : OnOwnThread call) : Sound (s.step call) := by
  unfold step
  split
  · exact h
  · cases call with
    | allocate t size mem memGrow => exact h.allocate hpermitted hown
    | deallocate t node mem =>
        obtain rfl : node.thread = t := hown
        exact h.deallocate hpermitted.1
    | write a x => exact h.write hpermitted

theorem Sound.goesHome (h : Sound s) {call : PoolCall ι} (hpermitted : s.Permitted call)
    (hown : OnOwnThread call) : s.GoesHome call := by
  cases call with
  | allocate t size mem memGrow => trivial
  | write a x => trivial
  | deallocate t node mem =>
      obtain rfl : node.thread = t := hown
      obtain ⟨pool, hpool⟩ := (h.served node hpermitted.1).exists_get?
      have hserves : (s.tlsState node.thread).tls.Serves node.size node.pool :=
        h.served node hpermitted.1
      simp only [GoesHome, TlsState.tlsPoolFor_of_serves hserves]
      exact ⟨pool, hpool, h.mem_chunk hpermitted.1 hpool⟩

theorem Sound.counts (h : Sound s) : Counts s := by
  intro place pool hpool
  obtain ⟨free, hpart⟩ := h.partitioned place pool hpool
  rw [← List.length_map (f := Node.block)]
  exact hpart.inUse

theorem sound_run (h : Sound s) {calls : List (PoolCall ι)}
    (hpermitted : Transition.AllSteps step Permitted s calls)
    (hown : ∀ call ∈ calls, OnOwnThread call) :
    (∀ front, front <+: calls → Sound (Transition.run step s front)) ∧
      Transition.AllSteps step GoesHome s calls := by
  have hstep (s : ThreadPools ι) (call : PoolCall ι) (hcall : OnOwnThread call) (h : Sound s)
      (hpermits : s.Permitted call) : Sound (s.step call) := sound_step h hpermits hcall
  constructor
  · exact Transition.prefixes_of_allSteps_on hstep h hown hpermitted
  · exact Transition.allSteps_imp_on hstep (fun _ _ hcall h hpermits => h.goesHome hpermits hcall) h
      hown hpermitted

/-- **Nodes on their own threads.**  In every run in which each node is deallocated on the thread
that has allocated it, and sixteen nodes of each size fit into 64 bits, every block goes back to the
pool whose chunk contains it, and every pool counts its outstanding blocks. -/
theorem own_nodes_run (memory : Memory) (calls : List (PoolCall ι))
    (hpermitted : Transition.AllSteps step Permitted (start memory) calls)
    (hown : ∀ call ∈ calls, OnOwnThread call) : Interchangeable memory calls := by
  obtain ⟨hsound, hhome⟩ := sound_run (sound_start memory) hpermitted hown
  exact ⟨fun front hfront => (hsound front hfront).counts, hhome⟩

/-- Two threads with a node each, of one size. -/
theorem own_nodes_run_sample : Interchangeable (fun _ => 0) [
    .allocate false 5000 4096 0, .allocate true 5000 1048576 0, .write 79216 255,
    .deallocate true ⟨1123696, 5000, true, .ofBig 0⟩ 0,
    .deallocate false ⟨79216, 5000, false, .ofBig 0⟩ 0] :=
  own_nodes_run _ _ (by decide +kernel) (by decide +kernel)

/-- A node is handed over: thread `false` allocates it and thread `true` deallocates it. -/
def handedOver : List (PoolCall Bool) :=
  [.allocate false 5000 4096 0, .deallocate true ⟨79216, 5000, false, .ofBig 0⟩ 1048576]

/-- The pool of thread `true`, made for the call, counts 2⁶⁴ - 1 blocks, and it would hand out a
block of the other thread next. -/
theorem not_interchangeable : ¬∀ memory (calls : List (PoolCall Bool)),
    Transition.AllSteps step Permitted (start memory) calls → Interchangeable memory calls := by
  intro hlaw
  have hcounts := (hlaw (fun _ => 0) handedOver (by decide +kernel)).1 handedOver List.prefix_rfl
  have hpool : (Transition.run step (start fun _ => 0) handedOver).poolAt (true, .ofBig 0) =
      some ⟨5008, 16, [⟨1048576, 80128⟩], 79216, 2 ^ 64 - 1, 16⟩ := by decide +kernel
  have hwrapped := hcounts _ _ hpool
  exact absurd hwrapped (by decide +kernel)

end ThreadPools

end WsServer
