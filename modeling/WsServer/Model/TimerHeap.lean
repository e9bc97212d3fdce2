import WsServer.Connection.Basic
import WsServer.Lib.SignedWord

/-!
# Timers

`TimerHeap` (`timer.h`, `timer.cpp`) over any type of callbacks.  `std::priority_queue` gives the
entries out by their deadline and in no particular order when deadlines are equal, so the heap is
the list of its entries, and whoever pops one says which of the earliest it is.

The times are in nanoseconds.
-/

namespace WsServer

namespace TimerHeap

structure Entry (κ : Type*) where
  when : TimePoint
  cb : κ
  id : TimerId
  deriving DecidableEq

end TimerHeap

structure TimerHeap (κ : Type*) where
  heap : List (TimerHeap.Entry κ) := []
  cancelled : Finset TimerId := ∅
  nextId : TimerId := 1

namespace TimerHeap

variable {κ : Type*}

def add (h : TimerHeap κ) (when : TimePoint) (cb : κ) : TimerHeap κ where
  heap := h.heap ++ [⟨when, cb, h.nextId⟩]
  cancelled := h.cancelled
  nextId := h.nextId + 1

def addAfter (h : TimerHeap κ) (now : TimePoint) (ms : ℤ) (cb : κ) : TimerHeap κ :=
  h.add (now + ms * 1000000) cb

def cancel (h : TimerHeap κ) (id : TimerId) : TimerHeap κ :=
  if id = 0 ∨ h.nextId ≤ id then h else { h with cancelled := insert id h.cancelled }

/-- Whether an entry is at the top, for some order of the entries with equal deadlines. -/
def isTop (h : TimerHeap κ) (e : Entry κ) : Bool := h.heap.all fun e' => e.when ≤ e'.when

/-- The loop of `expire` goes on. -/
def isDue (h : TimerHeap κ) (t : TimePoint) : Bool := h.heap.any fun e => e.when ≤ t

/-- Pop the `k`-th entry, if it is at the top and due. -/
def pop? (h : TimerHeap κ) (t : TimePoint) (k : ℕ) : Option (Entry κ × TimerHeap κ) :=
  match h.heap[k]? with
  | some e =>
    if h.isTop e && e.when ≤ t then some (e, { h with heap := h.heap.eraseIdx k }) else none
  | none => none

/-- `cancelled_.erase(id)`. -/
def forget (h : TimerHeap κ) (id : TimerId) : TimerHeap κ :=
  { h with cancelled := h.cancelled.erase id }

/-- An entry whose callback is going to run. -/
def isLive (h : TimerHeap κ) (e : Entry κ) : Bool := e.id ∉ h.cancelled

/-- The entries that are not cancelled. -/
def live (h : TimerHeap κ) : List (Entry κ) := h.heap.filter h.isLive

/-! ## The arithmetic of the times

In the functions above the times are the exact ones.  Here they are of `int64_t`, where an
operation that overflows is undefined.
-/

def addAfter? (h : TimerHeap κ) (now : TimePoint) (ms : ℤ) (cb : κ) : Option (TimerHeap κ) :=
  (SignedWord.int64? (ms * 1000000)).bind fun delay =>
    (SignedWord.int64? (now + delay)).map fun when => h.add when cb

def nextTimeoutMs? (h : TimerHeap κ) (now : TimePoint) : Option ℤ :=
  match (h.heap.map Entry.when).min? with
  | none => some (-1)
  | some top =>
    (SignedWord.int64? (top - now)).map fun delta =>
      let ms := delta.tdiv 1000000
      if ms ≤ 0 then 0 else SignedWord.toInt32 ms

/-! ## Ids -/

/-- Ids are handed out once, from 1 on. -/
structure WellNumbered (h : TimerHeap κ) : Prop where
  nodup : (h.heap.map Entry.id).Nodup
  range : ∀ e ∈ h.heap, 0 < e.id ∧ e.id < h.nextId
  pos : 0 < h.nextId
  cancelled_lt : ∀ id ∈ h.cancelled, id < h.nextId

variable {h h' : TimerHeap κ}

theorem wellNumbered_empty : WellNumbered ({} : TimerHeap κ) :=
  ⟨List.nodup_nil, by simp, Nat.one_pos, by simp⟩

theorem WellNumbered.eq_of_id (hn : WellNumbered h) {e e' : Entry κ} (he : e ∈ h.heap)
    (he' : e' ∈ h.heap) (hid : e.id = e'.id) : e = e' :=
  List.inj_on_of_nodup_map hn.nodup he he' hid

theorem WellNumbered.add (hn : WellNumbered h) (when : TimePoint) (cb : κ) :
    WellNumbered (h.add when cb) := by
  refine ⟨?_, ?_, Nat.succ_pos _, fun id hid => (hn.cancelled_lt id hid).trans (Nat.lt_succ_self _)⟩
  · show ((h.heap ++ [(⟨when, cb, h.nextId⟩ : Entry κ)]).map Entry.id).Nodup
    rw [List.map_append, List.nodup_append]
    refine ⟨hn.nodup, List.nodup_singleton _, ?_⟩
    intro id hid id' hid'
    obtain ⟨e, he, rfl⟩ := List.mem_map.mp hid
    obtain rfl : id' = h.nextId := by simpa using hid'
    exact (hn.range e he).2.ne
  · intro e he
    rcases List.mem_append.mp he with he | he
    · obtain ⟨hpos, hlt⟩ := hn.range e he
      exact ⟨hpos, hlt.trans (Nat.lt_succ_self _)⟩
    · rw [List.mem_singleton.mp he]
      exact ⟨hn.pos, Nat.lt_succ_self _⟩

theorem WellNumbered.cancel (hn : WellNumbered h) (id : TimerId) :
    WellNumbered (h.cancel id) := by
  unfold TimerHeap.cancel
  split
  · exact hn
  · rename_i hknown
    rw [not_or, not_le] at hknown
    refine ⟨hn.nodup, hn.range, hn.pos, fun id' hid' => ?_⟩
    rcases Finset.mem_insert.mp hid' with rfl | hid'
    · exact hknown.2
    · exact hn.cancelled_lt id' hid'

@[simp] theorem heap_cancel (h : TimerHeap κ) (id : TimerId) : (h.cancel id).heap = h.heap := by
  unfold cancel
  split <;> rfl

@[simp] theorem nextId_cancel (h : TimerHeap κ) (id : TimerId) :
    (h.cancel id).nextId = h.nextId := by
  unfold cancel
  split <;> rfl

/-- An entry of the heap is cancelled by its own id. -/
theorem WellNumbered.mem_cancelled_cancel (hn : WellNumbered h) {id : TimerId} {e : Entry κ}
    (he : e ∈ h.heap) : e.id ∈ (h.cancel id).cancelled ↔ e.id ∈ h.cancelled ∨ e.id = id := by
  unfold TimerHeap.cancel
  split
  · rename_i hunknown
    obtain ⟨hpos, hlt⟩ := hn.range e he
    rw [or_iff_left]
    rintro rfl
    rcases hunknown with hzero | hle
    · exact hpos.ne' hzero
    · exact hlt.not_ge hle
  · rw [Finset.mem_insert, or_comm]

theorem WellNumbered.forget (hn : WellNumbered h) (id : TimerId) :
    WellNumbered (h.forget id) :=
  ⟨hn.nodup, hn.range, hn.pos, fun id' hid' => hn.cancelled_lt id' (Finset.mem_of_mem_erase hid')⟩

/-! ## Popping -/

theorem eraseIdx_eq_filter {heap : List (Entry κ)} (hnodup : (heap.map Entry.id).Nodup) {k : ℕ}
    {e : Entry κ} (hk : heap[k]? = some e) :
    heap.eraseIdx k = heap.filter fun e' => e'.id ≠ e.id := by
  induction heap generalizing k with
  | nil => simp at hk
  | cons first rest ih =>
      rw [List.map_cons, List.nodup_cons] at hnodup
      cases k with
      | zero =>
          obtain rfl : first = e := by simpa using hk
          have hrest : ∀ e' ∈ rest, e'.id ≠ first.id := by
            intro e' he' hid
            exact hnodup.1 (hid ▸ List.mem_map_of_mem he')
          rw [List.eraseIdx_cons_zero, List.filter_cons_of_neg (by simp)]
          exact (List.filter_eq_self.mpr (by simpa using hrest)).symm
      | succ k =>
          rw [List.getElem?_cons_succ] at hk
          have hne : first.id ≠ e.id := by
            intro hid
            exact hnodup.1 (hid ▸ List.mem_map_of_mem (List.mem_of_getElem? hk))
          rw [List.eraseIdx_cons_succ, List.filter_cons_of_pos (by simpa using hne),
            ih hnodup.2 hk]

/-- What is popped is due and earliest, and the other entries stay. -/
theorem pop?_spec (hn : WellNumbered h) {t : TimePoint} {k : ℕ} {e : Entry κ}
    (hpop : h.pop? t k = some (e, h')) :
    e ∈ h.heap ∧ e.when ≤ t ∧ (∀ e' ∈ h.heap, e.when ≤ e'.when) ∧
      h' = { h with heap := h.heap.filter fun e' => e'.id ≠ e.id } := by
  unfold pop? at hpop
  split at hpop
  · rename_i e₁ hk
    simp only [Option.ite_none_right_eq_some, Bool.and_eq_true, Option.some.injEq, Prod.mk.injEq,
      decide_eq_true_eq] at hpop
    obtain ⟨⟨htop, hdue⟩, rfl, rfl⟩ := hpop
    refine ⟨List.mem_of_getElem? hk, hdue, by simpa [isTop] using htop, ?_⟩
    rw [eraseIdx_eq_filter hn.nodup hk]
  · simp at hpop

theorem WellNumbered.pop (hn : WellNumbered h) (id : TimerId) :
    WellNumbered { h with heap := h.heap.filter fun e => e.id ≠ id } := by
  refine ⟨?_, fun e he => hn.range e (List.mem_of_mem_filter he), hn.pos, hn.cancelled_lt⟩
  exact hn.nodup.sublist (List.filter_sublist.map _)

/-! ## The entries that are not cancelled -/

theorem mem_live {e : Entry κ} : e ∈ h.live ↔ e ∈ h.heap ∧ e.id ∉ h.cancelled := by
  rw [live, List.mem_filter, isLive, decide_eq_true_eq]

theorem mem_live_add (hn : WellNumbered h) (when : TimePoint) (cb : κ) {e : Entry κ} :
    e ∈ (h.add when cb).live ↔ e ∈ h.live ∨ e = ⟨when, cb, h.nextId⟩ := by
  have hfresh : h.nextId ∉ h.cancelled := fun hmem => (hn.cancelled_lt _ hmem).ne rfl
  rw [mem_live, mem_live]
  show e ∈ h.heap ++ [_] ∧ e.id ∉ h.cancelled ↔ _
  rw [List.mem_append, List.mem_singleton, or_and_right]
  refine or_congr_right ⟨And.left, ?_⟩
  rintro rfl
  exact ⟨rfl, hfresh⟩

theorem mem_live_cancel (hn : WellNumbered h) {id : TimerId} (hid : id < h.nextId)
    {e : Entry κ} : e ∈ (h.cancel id).live ↔ e ∈ h.live ∧ e.id ≠ id := by
  unfold cancel
  split
  · rename_i hunknown
    have hzero : id = 0 := hunknown.resolve_right (not_le.mpr hid)
    rw [mem_live]
    refine ⟨fun he => ⟨he, ?_⟩, And.left⟩
    rw [hzero]
    exact (hn.range e he.1).1.ne'
  · rw [mem_live, mem_live, Finset.mem_insert, not_or, and_assoc, and_comm (a := e.id ∉ _)]

theorem mem_live_pop {id : TimerId} {e : Entry κ} :
    e ∈ live { h with heap := h.heap.filter fun e => e.id ≠ id } ↔ e ∈ h.live ∧ e.id ≠ id := by
  rw [mem_live, mem_live, List.mem_filter, decide_eq_true_eq, and_right_comm]

/-- A cancelled entry is popped and forgotten. -/
theorem mem_live_forget {id : TimerId} (hid : id ∈ h.cancelled) {e : Entry κ} :
    e ∈ (forget { h with heap := h.heap.filter fun e => e.id ≠ id } id).live ↔ e ∈ h.live := by
  rw [mem_live, mem_live]
  show e ∈ h.heap.filter _ ∧ e.id ∉ h.cancelled.erase id ↔ _
  rw [List.mem_filter, decide_eq_true_eq, Finset.mem_erase, and_assoc]
  refine and_congr_right fun _ => ⟨?_, fun hlive => ⟨?_, fun hmem => hlive hmem.2⟩⟩
  · rintro ⟨hne, hnot⟩ hmem
    exact hnot ⟨hne, hmem⟩
  · rintro rfl
    exact hlive hid

end TimerHeap

end WsServer
