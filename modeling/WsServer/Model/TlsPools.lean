import WsServer.Model.MemoryPool

/-!
# The pools of a thread

`tlsPoolFor` and `PoolAllocator` (`memory_pool.h`, `memory_pool.cpp`).  Every thread has pools of
its own: one for each size class, made when it is first asked for, and one for each larger size, in
a list.  A pool is referred to by its place in these structures (`PoolRef`).
-/

namespace WsServer

open Word

def kClasses : List ℕ := [16, 32, 64, 128, 256, 512, 1024, 2048, 4096]

def kNumClasses : ℕ := kClasses.length

/-- The place of a pool: an entry of the table `ClassPools::pools`, or of `t_big_pools`. -/
inductive PoolRef
  | ofClass (i : Fin kNumClasses)
  | ofBig (j : ℕ)
  deriving DecidableEq, Repr

/-- The thread-local variables of `tlsPoolFor`. -/
structure TlsPools where
  pools : Fin kNumClasses → Option MemoryPool := fun _ => none
  bigPools : List MemoryPool := []

namespace TlsPools

def get? (tls : TlsPools) : PoolRef → Option MemoryPool
  | .ofClass i => tls.pools i
  | .ofBig j => tls.bigPools[j]?

/-- The pool at `ref` becomes `pool`. -/
def set (tls : TlsPools) (pool : MemoryPool) : PoolRef → TlsPools
  | .ofClass i => { tls with pools := Function.update tls.pools i (some pool) }
  | .ofBig j => { tls with bigPools := tls.bigPools.set j pool }

/-- All pools of the thread. -/
def all (tls : TlsPools) : List MemoryPool := (List.ofFn tls.pools).reduceOption ++ tls.bigPools

end TlsPools

/-- The pools of a thread and the memory that they live in. -/
structure TlsState where
  tls : TlsPools
  memory : Memory

namespace TlsState

/-- `tlsPoolFor`, when `aligned_alloc` returns `mem` to a pool that has to be made; `none` is
`std::bad_alloc`. -/
def tlsPoolFor (s : TlsState) (blockSize mem : ℕ) : Option (PoolRef × TlsState) :=
  match kClasses.findFinIdx? (blockSize ≤ ·) with
  | some i =>
    match s.tls.pools i with
    | some _ => some (.ofClass i, s)
    | none =>
      (PoolState.construct s.memory (kClasses.get i) 512 mem).map fun made =>
        (.ofClass i, ⟨s.tls.set made.pool (.ofClass i), made.memory⟩)
  | none =>
    let rounded := normalizeBlockSize blockSize
    match s.tls.bigPools.findIdx? (·.blockSize = rounded) with
    | some j => some (.ofBig j, s)
    | none =>
      (PoolState.construct s.memory rounded 16 mem).map fun made =>
        (.ofBig s.tls.bigPools.length,
          ⟨{ s.tls with bigPools := s.tls.bigPools ++ [made.pool] }, made.memory⟩)

/-- `MemoryPool::allocate` of the pool at `ref`. -/
def allocateAt (s : TlsState) (ref : PoolRef) (mem : ℕ) : Option (ℕ × TlsState) :=
  (s.tls.get? ref).bind fun pool =>
    (PoolState.allocate ⟨pool, s.memory⟩ mem).map fun (p, next) =>
      (p, ⟨s.tls.set next.pool ref, next.memory⟩)

/-- `MemoryPool::deallocate` of the pool at `ref`. -/
def deallocateAt (s : TlsState) (ref : PoolRef) (p : ℕ) : TlsState :=
  match s.tls.get? ref with
  | some pool =>
    let next := PoolState.deallocate ⟨pool, s.memory⟩ p
    ⟨s.tls.set next.pool ref, next.memory⟩
  | none => s

end TlsState

namespace PoolAllocator

/-- `PoolAllocator<T>::allocate(1)`, when `sizeof(T)` is `size`: the block and the pool that it is
from, or `none` for `std::bad_alloc`, and the state after it.  `aligned_alloc` returns `mem` to a
pool that is made and `memGrow` to a pool that grows. -/
def allocate (s : TlsState) (size mem memGrow : ℕ) : Option (ℕ × PoolRef) × TlsState :=
  match s.tlsPoolFor size mem with
  | none => (none, s)
  | some (ref, found) =>
    match found.allocateAt ref memGrow with
    -- a pool that was made for this call stays
    | none => (none, found)
    | some (p, next) => (some (p, ref), next)

/-- `PoolAllocator<T>::deallocate(p, 1)`.  It is `noexcept`, so a pool that cannot be made ends the
program: `none`. -/
def deallocate (s : TlsState) (p size mem : ℕ) : Option TlsState :=
  (s.tlsPoolFor size mem).map fun (ref, found) => found.deallocateAt ref p

end PoolAllocator

/-! ## Places of pools -/

namespace TlsPools

variable {tls : TlsPools} {pool : MemoryPool} {ref ref' : PoolRef}

theorem get?_set_self {old : MemoryPool} (h : tls.get? ref = some old) :
    (tls.set pool ref).get? ref = some pool := by
  cases ref with
  | ofClass i => exact Function.update_self _ _ _
  | ofBig j =>
      obtain ⟨hj, -⟩ := List.getElem?_eq_some_iff.mp h
      exact List.getElem?_set_self hj

theorem get?_set_class (tls : TlsPools) (pool : MemoryPool) (i : Fin kNumClasses) :
    (tls.set pool (.ofClass i)).get? (.ofClass i) = some pool := Function.update_self _ _ _

theorem get?_set_of_ne (h : ref' ≠ ref) : (tls.set pool ref).get? ref' = tls.get? ref' := by
  cases ref with
  | ofClass i =>
      cases ref' with
      | ofClass i' => exact Function.update_of_ne (fun heq => h (congrArg _ heq)) _ _
      | ofBig j' => rfl
  | ofBig j =>
      cases ref' with
      | ofClass i' => rfl
      | ofBig j' => exact List.getElem?_set_ne fun heq => h (congrArg _ heq.symm)

theorem mem_all (h : tls.get? ref = some pool) : pool ∈ tls.all := by
  cases ref with
  | ofClass i =>
      refine List.mem_append_left _ (List.reduceOption_mem_iff.mpr ?_)
      exact List.mem_ofFn.mpr ⟨i, h⟩
  | ofBig j => exact List.mem_append_right _ (List.mem_of_getElem? h)

end TlsPools

end WsServer
