import WsServer.Model.TlsPools
import WsServer.Pool.ChunkArithmetic

/-!
# Looking up a pool

`tlsPoolFor` finds the pool that serves a size, or makes one.  Which pool serves a size is settled
when it is made: neither what is allocated from the pools nor making other ones changes it
(`Serves.set`, `Made.keeps`).
-/

namespace WsServer

open Word

namespace TlsPools

variable {tls : TlsPools} {pool : MemoryPool} {ref : PoolRef} {size : ℕ}

/-- A request for `size` bytes finds the pool at `ref`. -/
def Serves (tls : TlsPools) (size : ℕ) : PoolRef → Prop
  | .ofClass i => kClasses.findFinIdx? (size ≤ ·) = some i ∧ ∃ pool, tls.pools i = some pool
  | .ofBig j => kClasses.findFinIdx? (size ≤ ·) = none ∧
      tls.bigPools.findIdx? (·.blockSize = normalizeBlockSize size) = some j

theorem Serves.exists_get? (h : tls.Serves size ref) : ∃ pool, tls.get? ref = some pool := by
  cases ref with
  | ofClass i => exact h.2
  | ofBig j =>
      obtain ⟨hj, -⟩ := List.findIdx?_eq_some_iff_getElem.mp h.2
      exact ⟨_, List.getElem?_eq_getElem hj⟩

/-- The list of big pools is searched by their sizes. -/
theorem findIdx?_bigPools (bigPools : List MemoryPool) (rounded : ℕ) :
    bigPools.findIdx? (·.blockSize = rounded) =
      (bigPools.map MemoryPool.blockSize).findIdx? (· = rounded) := by
  rw [List.findIdx?_map]
  rfl

theorem map_blockSize_set {bigPools : List MemoryPool} {old : MemoryPool} {j : ℕ}
    (hold : bigPools[j]? = some old) (hsize : pool.blockSize = old.blockSize) :
    (bigPools.set j pool).map MemoryPool.blockSize = bigPools.map MemoryPool.blockSize := by
  obtain ⟨hj, rfl⟩ := List.getElem?_eq_some_iff.mp hold
  have hj' : j < (bigPools.map MemoryPool.blockSize).length := by rwa [List.length_map]
  have hget : (bigPools.map MemoryPool.blockSize)[j] = bigPools[j].blockSize := List.getElem_map _
  rw [List.map_set, hsize, ← hget, List.set_getElem_self]

/-- Which pool is found does not depend on what has been allocated from the pools. -/
theorem Serves.set {old : MemoryPool} {place : PoolRef} (h : tls.Serves size ref)
    (hold : tls.get? place = some old) (hsize : pool.blockSize = old.blockSize) :
    (tls.set pool place).Serves size ref := by
  cases ref with
  | ofClass i =>
      refine ⟨h.1, ?_⟩
      by_cases hplace : .ofClass i = place
      · subst hplace
        exact ⟨pool, get?_set_self hold⟩
      · obtain ⟨found, hfound⟩ := h.2
        exact ⟨found, (get?_set_of_ne hplace).trans hfound⟩
  | ofBig j =>
      cases place with
      | ofClass i => exact h
      | ofBig k =>
          refine ⟨h.1, ?_⟩
          rw [findIdx?_bigPools]
          show ((tls.bigPools.set k pool).map MemoryPool.blockSize).findIdx? _ = _
          rw [map_blockSize_set hold hsize, ← findIdx?_bigPools]
          exact h.2

end TlsPools

/-! ## Looking up -/

namespace TlsState

variable {s found : TlsState} {ref : PoolRef} {size mem : ℕ}

theorem tlsPoolFor_of_serves (h : s.tls.Serves size ref) : s.tlsPoolFor size mem = some (ref, s) := by
  unfold tlsPoolFor
  cases ref with
  | ofClass i =>
      obtain ⟨hclass, pool, hpool⟩ := h
      simp only [hclass, hpool]
  | ofBig j =>
      obtain ⟨hclass, hfound⟩ := h
      simp only [hclass, hfound]

/-- The sizes that a pool for blocks of `size` bytes is made with. -/
def newSizes (size : ℕ) : ℕ × ℕ :=
  match kClasses.findFinIdx? (size ≤ ·) with
  | some i => (kClasses.get i, 512)
  | none => (normalizeBlockSize size, 16)

/-- A pool for blocks of `size` bytes has been made and put at `ref`, where there was none. -/
structure Made (s : TlsState) (size mem : ℕ) (ref : PoolRef) (found : TlsState) : Prop where
  absent : s.tls.get? ref = none
  construct : ∃ made, PoolState.construct s.memory (newSizes size).1 (newSizes size).2 mem =
    some made ∧ made.memory = found.memory ∧ found.tls.get? ref = some made.pool
  others : ∀ other, other ≠ ref → found.tls.get? other = s.tls.get? other
  serves : found.tls.Serves size ref
  keeps : ∀ size' ref', s.tls.Serves size' ref' → found.tls.Serves size' ref'

theorem normalizeBlockSize_idem (h : roundedSize size < sizeRange) :
    normalizeBlockSize (normalizeBlockSize size) = normalizeBlockSize size := by
  have hagain : roundedSize (roundedSize size) = roundedSize size := by
    unfold roundedSize kAlign
    omega
  rw [normalizeBlockSize_eq h, normalizeBlockSize_eq (hagain.trans_lt h), hagain]

theorem made_ofClass {i : Fin kNumClasses} {made : PoolState}
    (hclass : kClasses.findFinIdx? (size ≤ ·) = some i) (habsent : s.tls.pools i = none)
    (hmade : PoolState.construct s.memory (kClasses.get i) 512 mem = some made) :
    Made s size mem (.ofClass i) ⟨s.tls.set made.pool (.ofClass i), made.memory⟩ := by
  refine ⟨habsent, ?_, fun other hother => TlsPools.get?_set_of_ne hother, ?_, ?_⟩
  · refine ⟨made, ?_, rfl, TlsPools.get?_set_class _ _ _⟩
    simp only [newSizes, hclass]
    exact hmade
  · exact ⟨hclass, made.pool, TlsPools.get?_set_class _ _ _⟩
  · intro size' ref' hserves
    cases ref' with
    | ofBig j => exact hserves
    | ofClass i' =>
        refine ⟨hserves.1, ?_⟩
        by_cases heq : i' = i
        · exact ⟨made.pool, heq ▸ TlsPools.get?_set_class _ _ _⟩
        · obtain ⟨pool, hget⟩ := hserves.2
          exact ⟨pool, (Function.update_of_ne heq _ _).trans hget⟩

/-- A big pool is found again, since its size has been rounded before it was made. -/
theorem made_ofBig {made : PoolState} (hsize : roundedSize size < sizeRange)
    (hclass : kClasses.findFinIdx? (size ≤ ·) = none)
    (habsent : s.tls.bigPools.findIdx? (·.blockSize = normalizeBlockSize size) = none)
    (hmade : PoolState.construct s.memory (normalizeBlockSize size) 16 mem = some made) :
    Made s size mem (.ofBig s.tls.bigPools.length)
      ⟨{ s.tls with bigPools := s.tls.bigPools ++ [made.pool] }, made.memory⟩ := by
  have hblock : made.pool.blockSize = normalizeBlockSize size := by
    obtain ⟨-, first, hpool⟩ := PoolState.grow_eq_some hmade
    rw [hpool]
    exact normalizeBlockSize_idem hsize
  refine ⟨List.getElem?_eq_none le_rfl, ?_, ?_, ⟨hclass, ?_⟩, ?_⟩
  · refine ⟨made, ?_, rfl, List.getElem?_concat_length⟩
    simp only [newSizes, hclass]
    exact hmade
  · intro other hother
    cases other with
    | ofClass i => rfl
    | ofBig j =>
        show (s.tls.bigPools ++ [made.pool])[j]? = s.tls.bigPools[j]?
        have hj : j ≠ s.tls.bigPools.length := fun heq => hother (congrArg _ heq)
        rcases Nat.lt_or_gt_of_ne hj with hlt | hgt
        · exact List.getElem?_append_left hlt
        · rw [List.getElem?_eq_none hgt.le, List.getElem?_eq_none]
          simpa using hgt
  · show (s.tls.bigPools ++ [made.pool]).findIdx? _ = _
    rw [List.findIdx?_append, habsent]
    simp [hblock]
  · intro size' ref' hserves
    cases ref' with
    | ofClass i => exact hserves
    | ofBig j =>
        refine ⟨hserves.1, ?_⟩
        show (s.tls.bigPools ++ [made.pool]).findIdx? _ = _
        rw [List.findIdx?_append, hserves.2]
        rfl

/-- **Looking up.**  A pool is found, or made where none was. -/
theorem tlsPoolFor_cases (hsize : roundedSize size < sizeRange)
    (h : s.tlsPoolFor size mem = some (ref, found)) :
    (s.tls.Serves size ref ∧ found = s) ∨ Made s size mem ref found := by
  unfold tlsPoolFor at h
  cases hclass : kClasses.findFinIdx? (size ≤ ·) with
  | some i =>
      simp only [hclass] at h
      cases hpool : s.tls.pools i with
      | some pool =>
          simp only [hpool, Option.some.injEq, Prod.mk.injEq] at h
          obtain ⟨rfl, rfl⟩ := h
          exact .inl ⟨⟨hclass, pool, hpool⟩, rfl⟩
      | none =>
          simp only [hpool] at h
          obtain ⟨made, hmade, hfound⟩ := Option.map_eq_some_iff.mp h
          obtain ⟨rfl, rfl⟩ := Prod.mk.inj hfound
          exact .inr (made_ofClass hclass hpool hmade)
  | none =>
      simp only [hclass] at h
      cases hbig : s.tls.bigPools.findIdx? (·.blockSize = normalizeBlockSize size) with
      | some j =>
          simp only [hbig, Option.some.injEq, Prod.mk.injEq] at h
          obtain ⟨rfl, rfl⟩ := h
          exact .inl ⟨⟨hclass, hbig⟩, rfl⟩
      | none =>
          simp only [hbig] at h
          obtain ⟨made, hmade, hfound⟩ := Option.map_eq_some_iff.mp h
          obtain ⟨rfl, rfl⟩ := Prod.mk.inj hfound
          exact .inr (made_ofBig hsize hclass hbig hmade)

theorem allocateAt_eq_some {p : ℕ} {next : TlsState} (h : s.allocateAt ref mem = some (p, next)) :
    ∃ pool after, s.tls.get? ref = some pool ∧
      PoolState.allocate ⟨pool, s.memory⟩ mem = some (p, after) ∧
      next = ⟨s.tls.set after.pool ref, after.memory⟩ := by
  obtain ⟨pool, hpool, htaken⟩ := Option.bind_eq_some_iff.mp h
  obtain ⟨⟨p', after⟩, hallocate, hnext⟩ := Option.map_eq_some_iff.mp htaken
  obtain ⟨rfl, rfl⟩ := Prod.mk.inj hnext
  exact ⟨pool, after, hpool, hallocate, rfl⟩

theorem deallocateAt_of_get? {pool : MemoryPool} (h : s.tls.get? ref = some pool) (p : ℕ) :
    s.deallocateAt ref p = ⟨s.tls.set (PoolState.deallocate ⟨pool, s.memory⟩ p).pool ref,
      (PoolState.deallocate ⟨pool, s.memory⟩ p).memory⟩ := by
  simp only [deallocateAt, h]

/-- A pool is made with sizes whose product does not wrap around, if sixteen blocks of the size
asked for fit into 64 bits. -/
theorem newSizes_product (h : roundedSize size * 16 < sizeRange) :
    roundedSize (newSizes size).1 * max (newSizes size).2 1 < sizeRange := by
  unfold newSizes
  cases hclass : kClasses.findFinIdx? (size ≤ ·) with
  | some i =>
      have hall : ∀ n ∈ kClasses, roundedSize n * max 512 1 < sizeRange := by decide
      exact hall _ (List.get_mem kClasses i)
  | none =>
      have hagain : roundedSize (roundedSize size) = roundedSize size := by
        unfold roundedSize kAlign
        omega
      have hfits : roundedSize size < sizeRange := by omega
      show roundedSize (normalizeBlockSize size) * 16 < sizeRange
      rwa [normalizeBlockSize_eq hfits, hagain]

end TlsState

namespace TlsPools

variable {tls : TlsPools} {pool : MemoryPool} {ref : PoolRef} {size : ℕ}

/-- Each pool of a size class has blocks of its size. -/
def Classed (tls : TlsPools) : Prop :=
  ∀ i pool, tls.get? (.ofClass i) = some pool → pool.blockSize = kClasses.get i

/-- The pool that is found for a size has blocks that are large enough. -/
theorem Serves.le_blockSize (h : tls.Serves size ref) (hclassed : tls.Classed)
    (hsize : roundedSize size < sizeRange) (hpool : tls.get? ref = some pool) :
    size ≤ pool.blockSize := by
  cases ref with
  | ofClass i =>
      rw [hclassed i pool hpool]
      exact of_decide_eq_true (List.findFinIdx?_eq_some_iff.mp h.1).1
  | ofBig j =>
      obtain ⟨hj, hfound, -⟩ := List.findIdx?_eq_some_iff_getElem.mp h.2
      obtain ⟨hj', rfl⟩ := List.getElem?_eq_some_iff.mp hpool
      rw [of_decide_eq_true hfound, normalizeBlockSize_eq hsize]
      exact MemoryPool.le_roundedSize size

end TlsPools

/-- Allocating from a pool and deallocating do not change its size. -/
theorem TlsPools.Classed.set {tls : TlsPools} {pool old : MemoryPool} {place : PoolRef}
    (h : tls.Classed) (hold : tls.get? place = some old) (hsize : pool.blockSize = old.blockSize) :
    (tls.set pool place).Classed := by
  intro i found hfound
  by_cases hplace : .ofClass i = place
  · subst hplace
    rw [← Option.some.inj ((TlsPools.get?_set_self hold).symm.trans hfound), hsize]
    exact h i old hold
  · rw [TlsPools.get?_set_of_ne hplace] at hfound
    exact h i found hfound

/-- A pool that is made for a size class has its size. -/
theorem TlsState.Made.classed {s found : TlsState} {size mem : ℕ} {ref : PoolRef}
    (h : s.Made size mem ref found) (hclassed : s.tls.Classed) : found.tls.Classed := by
  intro i pool hpool
  by_cases href : .ofClass i = ref
  · subst href
    obtain ⟨made, hmade, -, hget⟩ := h.construct
    obtain ⟨-, first, hstate⟩ := PoolState.grow_eq_some hmade
    have hnew : newSizes size = (kClasses.get i, 512) := by
      simp only [newSizes, h.serves.1]
    have hexact : ∀ n ∈ kClasses, normalizeBlockSize n = n := by decide
    rw [Option.some.inj (hpool.symm.trans hget), hstate, hnew]
    exact hexact _ (List.get_mem kClasses i)
  · rw [h.others _ href] at hpool
    exact hclassed i pool hpool

namespace PoolAllocator

variable {s found : TlsState} {ref : PoolRef} {size mem : ℕ}

theorem allocate_of_throws (h : s.tlsPoolFor size mem = none) (memGrow : ℕ) :
    allocate s size mem memGrow = (none, s) := by
  simp only [allocate, h]

theorem allocate_of_found (h : s.tlsPoolFor size mem = some (ref, found)) (memGrow : ℕ) :
    found.allocateAt ref memGrow = none ∧ allocate s size mem memGrow = (none, found) ∨
      ∃ p next, found.allocateAt ref memGrow = some (p, next) ∧
        allocate s size mem memGrow = (some (p, ref), next) := by
  cases hp : found.allocateAt ref memGrow with
  | none => exact .inl ⟨rfl, by simp only [allocate, h, hp]⟩
  | some taken => exact .inr ⟨taken.1, taken.2, rfl, by simp only [allocate, h, hp]⟩

theorem deallocate_of_serves (h : s.tls.Serves size ref) (p : ℕ) :
    deallocate s p size mem = some (s.deallocateAt ref p) := by
  simp only [deallocate, TlsState.tlsPoolFor_of_serves h, Option.map_some]

end PoolAllocator

end WsServer
