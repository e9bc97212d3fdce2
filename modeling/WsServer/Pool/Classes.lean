import WsServer.Lib.Transition
import WsServer.Pool.Footprint
import WsServer.Pool.Lookup

/-!
# Size classes

A thread asks for pools by the size of a block, again and again, and uses the pools in between.
Which pool it gets is settled by the class of the size alone: the least entry of `kClasses` that is
large enough, and above 4096 the size rounded up to a multiple of 16 (`lookup_run`).  A request that
fails leaves both structures as they were, so that it can be repeated.

The two structures are compared with the classes through `Serves`: a pool that has been returned
for a size would be returned for it again, and whether it is depends on the class only
(`Serves.place_eq_iff`).
-/

namespace WsServer

open Word

/-- `n` is the least entry of the table that is large enough. -/
def IsClassOf (n size : ℕ) : Prop :=
  n ∈ kClasses ∧ size ≤ n ∧ ∀ n' ∈ kClasses, size ≤ n' → n ≤ n'

/-- Two sizes of one class: with the same entry of the table, or equal when they are rounded up. -/
def SameClass (size size' : ℕ) : Prop :=
  (∃ n, IsClassOf n size ∧ IsClassOf n size') ∨
    4096 < size ∧ 4096 < size' ∧ (size + 15) / 16 * 16 = (size' + 15) / 16 * 16

/-! ## The table -/

theorem kClasses_sorted : kClasses.Pairwise (· < ·) := by decide

theorem kClasses_le : ∀ n ∈ kClasses, n ≤ 4096 := by decide

theorem IsClassOf.unique {n n' size : ℕ} (h : IsClassOf n size) (h' : IsClassOf n' size) : n = n' :=
  le_antisymm (h.2.2 n' h'.1 h'.2.1) (h'.2.2 n h.1 h.2.1)

theorem IsClassOf.le {n size : ℕ} (h : IsClassOf n size) : size ≤ 4096 :=
  h.2.1.trans (kClasses_le n h.1)

/-- The table is searched from its least entry on. -/
theorem findFinIdx?_kClasses_iff {size : ℕ} {i : Fin kNumClasses} :
    kClasses.findFinIdx? (size ≤ ·) = some i ↔ IsClassOf (kClasses.get i) size := by
  have hmono : ∀ j j' : Fin kNumClasses, j < j' → kClasses.get j < kClasses.get j' :=
    List.pairwise_iff_get.mp kClasses_sorted
  refine List.findFinIdx?_eq_some_iff.trans ?_
  constructor
  · rintro ⟨hlarge, hfirst⟩
    refine ⟨List.get_mem kClasses i, of_decide_eq_true hlarge, fun n' hn' hsize => ?_⟩
    obtain ⟨j, rfl⟩ := List.mem_iff_get.mp hn'
    by_contra hless
    have hj : j < i := by
      by_contra hle
      rcases (not_lt.mp hle).lt_or_eq with hlt | rfl
      · exact hless (hmono i j hlt).le
      · exact hless le_rfl
    exact hfirst j hj (decide_eq_true hsize)
  · rintro ⟨-, hlarge, hleast⟩
    refine ⟨decide_eq_true hlarge, fun j hj hsize => ?_⟩
    have hle := hleast (kClasses.get j) (List.get_mem kClasses j) (of_decide_eq_true hsize)
    exact absurd (hmono j i hj) (not_lt.mpr hle)

theorem findFinIdx?_kClasses_eq_none_iff {size : ℕ} :
    kClasses.findFinIdx? (size ≤ ·) = none ↔ 4096 < size := by
  rw [List.findFinIdx?_eq_none_iff]
  constructor
  · intro hall
    have hlast : (4096 : ℕ) ∈ kClasses := by decide
    simpa using hall 4096 hlast
  · intro hlarge n hn
    have hn' := kClasses_le n hn
    simp only [decide_eq_true_eq]
    omega

theorem sameClass_iff_of_class {n n' size size' : ℕ} (h : IsClassOf n size)
    (h' : IsClassOf n' size') : SameClass size size' ↔ n = n' := by
  constructor
  · rintro (⟨m, hm, hm'⟩ | ⟨hlarge, -⟩)
    · exact (h.unique hm).trans (hm'.unique h')
    · exact absurd h.le (not_le.mpr hlarge)
  · rintro rfl
    exact .inl ⟨n, h, h'⟩

theorem sameClass_iff_of_large {size size' : ℕ} (h : 4096 < size) (h' : 4096 < size') :
    SameClass size size' ↔ (size + 15) / 16 * 16 = (size' + 15) / 16 * 16 := by
  constructor
  · rintro (⟨n, hn, -⟩ | ⟨-, -, hsame⟩)
    · exact absurd hn.le (not_le.mpr h)
    · exact hsame
  · exact fun hsame => .inr ⟨h, h', hsame⟩

/-- A size in the table and one above it are of different classes. -/
theorem SameClass.large_iff {size size' : ℕ} (h : SameClass size size') :
    4096 < size ↔ 4096 < size' := by
  rcases h with ⟨n, hn, hn'⟩ | ⟨hlarge, hlarge', -⟩
  · exact iff_of_false (not_lt.mpr hn.le) (not_lt.mpr hn'.le)
  · exact iff_of_true hlarge hlarge'

/-- Above the table sizes are rounded up. -/
theorem normalizeBlockSize_of_large {size : ℕ} (hlarge : 4096 < size) (hsize : size < 2 ^ 59) :
    normalizeBlockSize size = (size + 15) / 16 * 16 := by
  have hrounded : roundedSize size = (size + 15) / 16 * 16 := by
    unfold roundedSize kAlign
    rw [Nat.max_eq_left (by omega)]
  rw [normalizeBlockSize_eq (by rw [hrounded, sizeRange]; omega), hrounded]

theorem roundedSize_lt {size : ℕ} (hsize : size < 2 ^ 59) : roundedSize size < sizeRange := by
  unfold roundedSize kAlign sizeRange
  omega

namespace TlsPools

variable {tls : TlsPools} {pool : MemoryPool} {ref ref' : PoolRef} {size size' : ℕ}

theorem Serves.place_unique (h : tls.Serves size ref) (h' : tls.Serves size ref') : ref = ref' := by
  let s : TlsState := ⟨tls, fun _ => 0⟩
  have hfound : s.tlsPoolFor size 0 = some (ref, s) := TlsState.tlsPoolFor_of_serves h
  have hfound' : s.tlsPoolFor size 0 = some (ref', s) := TlsState.tlsPoolFor_of_serves h'
  exact congrArg Prod.fst (Option.some.inj (hfound.symm.trans hfound'))

/-- **One pool for a class.**  Two requests find one pool exactly when their sizes are of one
class. -/
theorem Serves.place_eq_iff (h : tls.Serves size ref) (h' : tls.Serves size' ref')
    (hsize : size < 2 ^ 59) (hsize' : size' < 2 ^ 59) : ref = ref' ↔ SameClass size size' := by
  cases ref with
  | ofClass i =>
      have hclass := findFinIdx?_kClasses_iff.mp h.1
      cases ref' with
      | ofClass i' =>
          have hclass' := findFinIdx?_kClasses_iff.mp h'.1
          refine Iff.trans ?_ (sameClass_iff_of_class hclass hclass').symm
          refine Iff.trans ?_ kClasses_sorted.nodup.injective_get.eq_iff.symm
          exact ⟨PoolRef.ofClass.inj, congrArg _⟩
      | ofBig j' =>
          have hlarge' := findFinIdx?_kClasses_eq_none_iff.mp h'.1
          refine iff_of_false (fun heq => by cases heq) fun hsame => ?_
          exact not_le.mpr (hsame.large_iff.mpr hlarge') hclass.le
  | ofBig j =>
      have hlarge := findFinIdx?_kClasses_eq_none_iff.mp h.1
      cases ref' with
      | ofClass i' =>
          have hclass' := findFinIdx?_kClasses_iff.mp h'.1
          refine iff_of_false (fun heq => by cases heq) fun hsame => ?_
          exact not_le.mpr (hsame.large_iff.mp hlarge) hclass'.le
      | ofBig j' =>
          have hlarge' := findFinIdx?_kClasses_eq_none_iff.mp h'.1
          have hrounded := normalizeBlockSize_of_large hlarge hsize
          have hrounded' := normalizeBlockSize_of_large hlarge' hsize'
          rw [sameClass_iff_of_large hlarge hlarge', ← hrounded, ← hrounded']
          obtain ⟨hj, hfound, -⟩ := List.findIdx?_eq_some_iff_getElem.mp h.2
          obtain ⟨hj', hfound', -⟩ := List.findIdx?_eq_some_iff_getElem.mp h'.2
          constructor
          · intro heq
            cases heq
            exact (of_decide_eq_true hfound).symm.trans (of_decide_eq_true hfound')
          · intro hsame
            have hlist := h.2
            rw [hsame] at hlist
            exact congrArg _ (Option.some.inj (hlist.symm.trans h'.2))

/-- The pool that serves a size has the size that a pool for it is made with. -/
theorem Serves.blockSize_eq (h : tls.Serves size ref) (hclassed : tls.Classed)
    (hpool : tls.get? ref = some pool) : pool.blockSize = (TlsState.newSizes size).1 := by
  cases ref with
  | ofClass i =>
      simp only [TlsState.newSizes, h.1]
      exact hclassed i pool hpool
  | ofBig j =>
      obtain ⟨hj, hfound, -⟩ := List.findIdx?_eq_some_iff_getElem.mp h.2
      obtain ⟨hj', rfl⟩ := List.getElem?_eq_some_iff.mp hpool
      simp only [TlsState.newSizes, h.1]
      exact of_decide_eq_true hfound

end TlsPools

namespace TlsState

variable {s found : TlsState} {ref : PoolRef} {size mem : ℕ}

/-- What a request does to the list of big pools: a size is added that was not there. -/
theorem bigPools_tlsPoolFor (hsize : roundedSize size < sizeRange)
    (h : s.tlsPoolFor size mem = some (ref, found)) :
    found.tls.bigPools = s.tls.bigPools ∨
      ∃ made : MemoryPool, found.tls.bigPools = s.tls.bigPools ++ [made] ∧
        ∀ pool ∈ s.tls.bigPools, pool.blockSize ≠ made.blockSize := by
  unfold tlsPoolFor at h
  cases hclass : kClasses.findFinIdx? (size ≤ ·) with
  | some i =>
      simp only [hclass] at h
      cases hpool : s.tls.pools i with
      | some pool =>
          simp only [hpool, Option.some.injEq, Prod.mk.injEq] at h
          exact .inl (by rw [h.2])
      | none =>
          simp only [hpool] at h
          obtain ⟨made, -, hfound⟩ := Option.map_eq_some_iff.mp h
          rw [← (Prod.mk.inj hfound).2]
          exact .inl rfl
  | none =>
      simp only [hclass] at h
      cases hbig : s.tls.bigPools.findIdx? (·.blockSize = normalizeBlockSize size) with
      | some j =>
          simp only [hbig, Option.some.injEq, Prod.mk.injEq] at h
          exact .inl (by rw [h.2])
      | none =>
          simp only [hbig] at h
          obtain ⟨made, hmade, hfound⟩ := Option.map_eq_some_iff.mp h
          have hblock : made.pool.blockSize = normalizeBlockSize size := by
            obtain ⟨-, first, hpool⟩ := PoolState.grow_eq_some hmade
            rw [hpool]
            exact normalizeBlockSize_idem hsize
          rw [← (Prod.mk.inj hfound).2]
          refine .inr ⟨made.pool, rfl, fun pool hpool => ?_⟩
          rw [hblock]
          exact of_decide_eq_false (List.findIdx?_eq_none_iff.mp hbig pool hpool)

/-- Where memory can be had, a request is answered. -/
theorem tlsPoolFor_isSome (s : TlsState) (size : ℕ) (hmem : mem ≠ 0) :
    (s.tlsPoolFor size mem).isSome := by
  unfold tlsPoolFor PoolState.construct PoolState.grow
  simp only [if_neg hmem]
  split
  · split <;> rfl
  · split <;> rfl

end TlsState

/-! ## Runs -/

/-- What a request was answered with: the place of the pool, and the pool as it was then. -/
structure PoolAnswer where
  size : ℕ
  place : PoolRef
  pool : Option MemoryPool
  deriving DecidableEq, Repr

/-- A thread, and the answers that it has been given. -/
structure Lookups extends TlsState where
  answers : List PoolAnswer := []

/-- What a thread does: it asks for a pool, where `mem = 0` says that there is no memory for one,
or uses one that it has. -/
inductive LookupCall
  | request (size mem : ℕ)
  | allocate (ref : PoolRef) (mem : ℕ)
  | deallocate (ref : PoolRef) (p : ℕ)

namespace LookupCall

/-- A size that is asked for is less than 2⁵⁹. -/
def Small : LookupCall → Prop
  | .request size _ => size < 2 ^ 59
  | _ => True

end LookupCall

namespace Lookups

/-- The first state: there are no pools yet. -/
def start (memory : Memory) : Lookups := ⟨⟨{}, memory⟩, []⟩

def step (s : Lookups) : LookupCall → Lookups
  | .request size mem =>
    match s.tlsPoolFor size mem with
    -- `std::bad_alloc`: neither structure has been touched
    | none => s
    | some (ref, found) => ⟨found, s.answers ++ [⟨size, ref, found.tls.get? ref⟩]⟩
  | .allocate ref mem =>
    match s.allocateAt ref mem with
    | none => s
    | some (_, next) => ⟨next, s.answers⟩
  | .deallocate ref p => ⟨s.deallocateAt ref p, s.answers⟩

/-- What the answers are worth. -/
structure Stable (s : Lookups) : Prop where
  large : ∀ answer ∈ s.answers, ∃ pool, answer.pool = some pool ∧ answer.size ≤ pool.blockSize
  /-- The pool is where it was, with blocks of the same size. -/
  kept : ∀ answer ∈ s.answers, ∃ pool, s.tls.get? answer.place = some pool ∧
    answer.pool.map MemoryPool.blockSize = some pool.blockSize
  same : ∀ answer ∈ s.answers, ∀ answer' ∈ s.answers, answer.size = answer'.size →
    answer.place = answer'.place
  classes : ∀ answer ∈ s.answers, ∀ answer' ∈ s.answers,
    answer.place = answer'.place ↔ SameClass answer.size answer'.size
  distinct : (s.tls.bigPools.map MemoryPool.blockSize).Nodup
  /-- Where memory can be had, a request is answered. -/
  usable : ∀ size mem, mem ≠ 0 → (s.tlsPoolFor size mem).isSome

/-- A request leaves the pools that there are as they are, and makes none if it fails. -/
def Keeps (s : Lookups) : LookupCall → Prop
  | .request size mem =>
    (∀ ref pool, s.tls.get? ref = some pool →
      (s.step (.request size mem)).tls.get? ref = some pool) ∧
    (s.tlsPoolFor size mem = none → s.step (.request size mem) = s)
  | _ => True

/-- The invariant: each answer would be given again. -/
structure Classified (s : Lookups) : Prop where
  classed : s.tls.Classed
  served : ∀ answer ∈ s.answers, s.tls.Serves answer.size answer.place
  small : ∀ answer ∈ s.answers, answer.size < 2 ^ 59
  sized : ∀ answer ∈ s.answers,
    answer.pool.map MemoryPool.blockSize = some (TlsState.newSizes answer.size).1
  distinct : (s.tls.bigPools.map MemoryPool.blockSize).Nodup

variable {s : Lookups} {found : TlsState} {ref : PoolRef} {size mem : ℕ}

theorem classified_start (memory : Memory) : Classified (start memory) := by
  refine ⟨fun i pool hpool => ?_, ?_, ?_, ?_, List.nodup_nil⟩
  · cases hpool
  all_goals
    intro answer hanswer
    cases hanswer

/-- An answer that is given now. -/
theorem Classified.answered (h : Classified s) (hclassed : found.tls.Classed)
    (hserves : found.tls.Serves size ref) (hsize : size < 2 ^ 59)
    (hkeeps : ∀ size' ref', s.tls.Serves size' ref' → found.tls.Serves size' ref')
    (hdistinct : (found.tls.bigPools.map MemoryPool.blockSize).Nodup) :
    Classified ⟨found, s.answers ++ [⟨size, ref, found.tls.get? ref⟩]⟩ := by
  have hall {P : PoolAnswer → Prop} (hold : ∀ answer ∈ s.answers, P answer)
      (hnew : P ⟨size, ref, found.tls.get? ref⟩) :
      ∀ answer ∈ s.answers ++ [⟨size, ref, found.tls.get? ref⟩], P answer :=
    List.forall_mem_append.mpr ⟨hold, List.forall_mem_singleton.mpr hnew⟩
  refine ⟨hclassed, hall (fun answer hanswer => ?_) hserves, hall h.small hsize, hall h.sized ?_,
    hdistinct⟩
  · exact hkeeps _ _ (h.served answer hanswer)
  · obtain ⟨pool, hpool⟩ := hserves.exists_get?
    show (found.tls.get? ref).map _ = _
    rw [hpool, Option.map_some, hserves.blockSize_eq hclassed hpool]

theorem Classified.request (h : Classified s) (hsize : size < 2 ^ 59) :
    Classified (s.step (.request size mem)) := by
  cases hfound : s.tlsPoolFor size mem with
  | none =>
      simp only [step, hfound]
      exact h
  | some result =>
      obtain ⟨ref, found⟩ := result
      simp only [step, hfound]
      have hrounded := roundedSize_lt hsize
      have hdistinct : (found.tls.bigPools.map MemoryPool.blockSize).Nodup := by
        rcases TlsState.bigPools_tlsPoolFor hrounded hfound with hsame | ⟨made, hadded, hnew⟩
        · rw [hsame]
          exact h.distinct
        · rw [hadded, List.map_append, List.map_singleton, ← List.concat_eq_append]
          refine h.distinct.concat fun hmem => ?_
          obtain ⟨pool, hpool, hblock⟩ := List.mem_map.mp hmem
          exact hnew pool hpool hblock
      rcases TlsState.tlsPoolFor_cases hrounded hfound with ⟨hserves, hsame⟩ | hmade
      · have hstate : found.tls = s.tls := congrArg TlsState.tls hsame
        refine h.answered (hstate ▸ h.classed) (hstate ▸ hserves) hsize ?_ hdistinct
        rw [hstate]
        exact fun _ _ hold => hold
      · exact h.answered (hmade.classed h.classed) hmade.serves hsize hmade.keeps hdistinct

/-- Using a pool changes neither its size nor its place. -/
theorem Classified.used (h : Classified s) {pool old : MemoryPool} {memory : Memory}
    (hold : s.tls.get? ref = some old) (hsize : pool.blockSize = old.blockSize) :
    Classified ⟨⟨s.tls.set pool ref, memory⟩, s.answers⟩ := by
  refine ⟨h.classed.set hold hsize, fun answer hanswer => ?_, h.small, h.sized, ?_⟩
  · exact (h.served answer hanswer).set hold hsize
  · cases ref with
    | ofClass i => exact h.distinct
    | ofBig j =>
        show ((s.tls.bigPools.set j pool).map MemoryPool.blockSize).Nodup
        rw [TlsPools.map_blockSize_set hold hsize]
        exact h.distinct

theorem classified_step (call : LookupCall) (hsmall : call.Small) (h : Classified s) :
    Classified (s.step call) := by
  cases call with
  | request size mem => exact h.request hsmall
  | allocate ref mem =>
      cases htaken : s.allocateAt ref mem with
      | none =>
          simp only [step, htaken]
          exact h
      | some taken =>
          obtain ⟨p, next⟩ := taken
          obtain ⟨pool, after, hpool, hallocate, rfl⟩ := TlsState.allocateAt_eq_some htaken
          simp only [step, htaken]
          exact h.used hpool (PoolState.allocate_eq_some hallocate).1
  | deallocate ref p =>
      simp only [step]
      cases hpool : s.tls.get? ref with
      | none =>
          simp only [TlsState.deallocateAt, hpool]
          exact h
      | some pool =>
          rw [TlsState.deallocateAt_of_get? hpool]
          exact h.used hpool (PoolState.pool_deallocate _ p).1

theorem Classified.stable (h : Classified s) : Stable s := by
  have hclasses : ∀ answer ∈ s.answers, ∀ answer' ∈ s.answers,
      answer.place = answer'.place ↔ SameClass answer.size answer'.size := by
    intro answer hanswer answer' hanswer'
    exact (h.served answer hanswer).place_eq_iff (h.served answer' hanswer')
      (h.small answer hanswer) (h.small answer' hanswer')
  have hcurrent : ∀ answer ∈ s.answers, ∃ pool, s.tls.get? answer.place = some pool ∧
      answer.pool.map MemoryPool.blockSize = some pool.blockSize := by
    intro answer hanswer
    obtain ⟨pool, hpool⟩ := (h.served answer hanswer).exists_get?
    refine ⟨pool, hpool, ?_⟩
    rw [h.sized answer hanswer, (h.served answer hanswer).blockSize_eq h.classed hpool]
  refine ⟨fun answer hanswer => ?_, hcurrent, fun answer hanswer answer' hanswer' heq => ?_, hclasses,
    h.distinct, fun size mem hmem => TlsState.tlsPoolFor_isSome _ size hmem⟩
  · obtain ⟨pool, hpool, hsame⟩ := hcurrent answer hanswer
    obtain ⟨returned, hreturned, hblock⟩ := Option.map_eq_some_iff.mp hsame
    refine ⟨returned, hreturned, ?_⟩
    rw [hblock]
    exact (h.served answer hanswer).le_blockSize h.classed
      (roundedSize_lt (h.small answer hanswer)) hpool
  · -- the place is what the list or the table holds for the size
    exact (heq ▸ h.served answer hanswer).place_unique (h.served answer' hanswer')

theorem keeps_of_small (s : Lookups) (call : LookupCall) (hsmall : call.Small) : s.Keeps call := by
  cases call with
  | allocate ref mem => trivial
  | deallocate ref p => trivial
  | request size mem =>
      refine ⟨fun ref pool hpool => ?_, fun hthrows => by simp only [step, hthrows]⟩
      cases hfound : s.tlsPoolFor size mem with
      | none =>
          simp only [step, hfound]
          exact hpool
      | some result =>
          obtain ⟨place, found⟩ := result
          simp only [step, hfound]
          rcases TlsState.tlsPoolFor_cases (roundedSize_lt hsmall) hfound with ⟨-, hsame⟩ | hmade
          · rw [hsame]
            exact hpool
          · -- a pool is put where there was none
            have hne : ref ≠ place := by
              rintro rfl
              rw [hmade.absent] at hpool
              cases hpool
            rw [hmade.others ref hne]
            exact hpool

/-- **Size classes.**  In every run in which the sizes asked for are less than 2⁵⁹, each pool that a
request is answered with has blocks that are large enough, requests get one pool exactly when their
sizes are of one class, and no two big pools have blocks of one size; a request that fails changes
nothing. -/
theorem lookup_run (memory : Memory) (calls : List LookupCall)
    (hsmall : ∀ call ∈ calls, call.Small) :
    Stable (Transition.run step (start memory) calls) ∧
      Transition.AllSteps step Keeps (start memory) calls := by
  have hinv : Classified (Transition.run step (start memory) calls) := by
    refine Transition.run_invariant_on ?_ (classified_start memory) hsmall
    exact fun s call hcall h => classified_step call hcall h
  exact ⟨hinv.stable, Transition.allSteps_of_kind keeps_of_small _ hsmall⟩

/-- There is no memory for a pool, then there is, and another size of its class is asked for after
a smaller one. -/
def requestSample : List LookupCall :=
  [.request 5000 0, .request 5000 4096, .allocate (.ofBig 0) 0, .request 48 1048576,
    .request 5008 0]

theorem lookup_run_sample :
    Stable (Transition.run step (start fun _ => 0) requestSample) ∧
      Transition.AllSteps step Keeps (start fun _ => 0) requestSample := by
  refine lookup_run _ _ ?_
  intro call hcall
  simp only [requestSample, List.mem_cons, List.not_mem_nil, or_false] at hcall
  rcases hcall with rfl | rfl | rfl | rfl | rfl
  all_goals simp [LookupCall.Small]

end Lookups

end WsServer
