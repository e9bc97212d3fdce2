import WsServer.Lib.History
import WsServer.Model.Timers

/-!
# Which timers fire

The laws speak of the trace alone.  An entry is `Pending` between its `add` and its pop, and it
`WasCancelled` when its id was cancelled after its `add`.  `Lawful` says what may happen next:

* an id that is handed out is new;
* what `expire` pops is pending and due at the time it read, no entry that this `expire` has fired
  is due later, and it fires unless it was cancelled;
* the returned count is the number of entries fired since the clock was read, and what was popped
  since then are the entries that are due.

`Sound` ties the heap to the trace: its entries are the pending ones, and those of them whose id
is in `cancelled_` are the cancelled ones.
-/

namespace WsServer

open History

namespace Timers

variable {φ : Type*} {s s' : Timers φ} {e e' : TimerHeap.Entry (Option φ)}
  {history past during : List (TimerEvent φ)} {event : TimerEvent φ} {t : TimePoint} {n : ℕ}

/-! ## What a history says of an entry -/

/-- Added and not popped. -/
def Pending (e : TimerHeap.Entry (Option φ)) (history : List (TimerEvent φ)) : Prop :=
  .added e ∈ history ∧ ∀ fires, .popped e fires ∉ history

/-- Cancelled after it was added. -/
def WasCancelled (e : TimerHeap.Entry (Option φ)) (history : List (TimerEvent φ)) : Prop :=
  ∃ past during, history = past ++ .added e :: during ∧ .cancelled e.id ∈ during

/-- An entry that has not been popped is pending from the time when it is added. -/
theorem pending_concat_added {new : TimerHeap.Entry (Option φ)}
    (hnew : ∀ fires, .popped new fires ∉ history) :
    Pending e (history ++ [.added new]) ↔ Pending e history ∨ e = new := by
  simp only [Pending, List.mem_append, List.mem_singleton, TimerEvent.added.injEq, reduceCtorEq,
    or_false]
  constructor
  · rintro ⟨hadded | rfl, hpopped⟩
    · exact .inl ⟨hadded, hpopped⟩
    · exact .inr rfl
  · rintro (⟨hadded, hpopped⟩ | rfl)
    · exact ⟨.inl hadded, hpopped⟩
    · exact ⟨.inr rfl, hnew⟩

theorem WasCancelled.added (h : WasCancelled e history) : .added e ∈ history := by
  obtain ⟨past, during, rfl, -⟩ := h
  simp

theorem wasCancelled_concat : WasCancelled e (history ++ [event]) ↔
    WasCancelled e history ∨ (.added e ∈ history ∧ event = .cancelled e.id) := by
  constructor
  · rintro ⟨past, during, heq, hcancelled⟩
    induction during using List.reverseRecOn with
    | nil => simp at hcancelled
    | append_singleton during last _ =>
        rw [← List.cons_append, ← List.append_assoc] at heq
        obtain ⟨rfl, hlast⟩ := List.append_inj' heq rfl
        cases hlast
        rcases List.mem_append.mp hcancelled with hmem | hmem
        · exact .inl ⟨past, during, rfl, hmem⟩
        · exact .inr ⟨by simp, (List.mem_singleton.mp hmem).symm⟩
  · rintro (⟨past, during, rfl, hmem⟩ | ⟨hadded, rfl⟩)
    · exact ⟨past, during ++ [event], by simp, List.mem_append_left _ hmem⟩
    · obtain ⟨past, during, rfl⟩ := List.append_of_mem hadded
      exact ⟨past, during ++ [.cancelled e.id], by simp, by simp⟩

/-- The entries that fired. -/
def fired (history : List (TimerEvent φ)) : List (TimerHeap.Entry (Option φ)) :=
  history.filterMap fun
    | .popped e true => some e
    | _ => none

@[simp] theorem fired_append (first second : List (TimerEvent φ)) :
    fired (first ++ second) = fired first ++ fired second := by
  simp [fired]

theorem mem_fired : e ∈ fired history ↔ .popped e true ∈ history := by
  simp only [fired, List.mem_filterMap]
  constructor
  · rintro ⟨event, hevent, heq⟩
    split at heq
    · cases heq
      exact hevent
    · cases heq
  · exact fun h => ⟨_, h, rfl⟩

/-- The callbacks that ran: an empty one does not. -/
def callbacks (history : List (TimerEvent φ)) : List φ := (fired history).filterMap fun e => e.cb

theorem length_callbacks (history : List (TimerEvent φ)) :
    (callbacks history).length + (fired history).countP (fun e => e.cb.isNone) =
      (fired history).length := by
  unfold callbacks
  induction fired history with
  | nil => rfl
  | cons e rest ih =>
      cases hcb : e.cb with
      | none =>
          rw [List.filterMap_cons_none hcb, List.countP_cons_of_pos (by simp [hcb]),
            List.length_cons, ← ih]
          exact (Nat.add_assoc _ _ _).symm
      | some cb =>
          rw [List.filterMap_cons_some hcb, List.countP_cons_of_neg (by simp [hcb]),
            List.length_cons, List.length_cons, ← ih]
          exact Nat.add_right_comm _ _ _

end Timers

/-- `expire` is called, or it returns. -/
def TimerEvent.delimits {φ : Type*} : TimerEvent φ → Bool
  | .began _ => true
  | .returned _ => true
  | _ => false

namespace Timers

variable {φ : Type*} {s s' : Timers φ} {e e' : TimerHeap.Entry (Option φ)}
  {history past during : List (TimerEvent φ)} {event : TimerEvent φ} {t : TimePoint} {n : ℕ}

/-- The last `expire` has read `t`, has not returned, and `during` has happened since. -/
def InExpire (past : List (TimerEvent φ)) (t : TimePoint) (during history : List (TimerEvent φ)) :
    Prop :=
  history = past ++ .began t :: during ∧ ∀ event ∈ during, event.delimits = false

theorem InExpire.concat (h : InExpire past t during history) (hevent : event.delimits = false) :
    InExpire past t (during ++ [event]) (history ++ [event]) := by
  obtain ⟨rfl, hduring⟩ := h
  refine ⟨by simp, ?_⟩
  intro other hother
  rcases List.mem_append.mp hother with hmem | hmem
  · exact hduring other hmem
  · rw [List.mem_singleton.mp hmem]
    exact hevent

theorem InExpire.subset (h : InExpire past t during history) : during ⊆ history := by
  obtain ⟨rfl, -⟩ := h
  intro event hevent
  simp [hevent]

/-! ## The laws -/

/-- What is popped next. -/
structure PopLaw (history : List (TimerEvent φ)) (e : TimerHeap.Entry (Option φ)) (fires : Bool) :
    Prop where
  pending : Pending e history
  /-- It fires unless it was cancelled. -/
  fires_iff : fires = true ↔ ¬WasCancelled e history
  /-- It is due, and it comes in order. -/
  due : ∃ past t during, InExpire past t during history ∧ e.when ≤ t ∧
    ∀ e' ∈ fired during, e'.when ≤ e.when

/-- What one whole `expire` did: it read `t` after `past`, and returned `n` after `during`. -/
structure ReturnLaw (past : List (TimerEvent φ)) (t : TimePoint) (during : List (TimerEvent φ))
    (n : ℕ) : Prop where
  count : n = (fired during).length
  /-- An empty callback is counted, and nothing runs. -/
  count_callbacks : n = (callbacks during).length + (fired during).countP fun e => e.cb.isNone
  sorted : (fired during).Pairwise fun e e' => e.when ≤ e'.when
  /-- An entry that was there, or came, is popped exactly when it is due. -/
  popped_iff : ∀ e, .added e ∈ past ++ during → (∀ fires, .popped e fires ∉ past) →
    ((∃ fires, .popped e fires ∈ during) ↔ e.when ≤ t)
  /-- It fires exactly when it is due and not cancelled before it is popped. -/
  fired_iff : ∀ e, .added e ∈ past ++ during → (∀ fires, .popped e fires ∉ past) →
    (.popped e true ∈ during ↔ e.when ≤ t ∧ ∀ earlier fires later,
      during = earlier ++ .popped e fires :: later →
        ¬WasCancelled e (past ++ .began t :: earlier))

/-- What may happen next. -/
def Lawful (history : List (TimerEvent φ)) : TimerEvent φ → Prop
  | .added e => ∀ e', .added e' ∈ history → e'.id ≠ e.id
  | .popped e fires => PopLaw history e fires
  | .returned n => ∃ past t during, InExpire past t during history ∧ ReturnLaw past t during n
  | _ => True

theorem added_of_popped (h : Each Lawful history) {fires : Bool} (hpop : .popped e fires ∈ history) :
    .added e ∈ history := by
  obtain ⟨before, after, rfl⟩ := List.append_of_mem hpop
  have hlaw : PopLaw before e fires := h before _ after rfl
  exact List.mem_append_left _ hlaw.pending.1

/-- Nothing is popped twice. -/
theorem popped_once (h : Each Lawful history) {fires fires' : Bool}
    (hpop : .popped e fires ∈ history) (hpop' : .popped e fires' ∈ history) : fires = fires' := by
  obtain ⟨before, after, rfl⟩ := List.append_of_mem hpop
  have hlaw : PopLaw before e fires := h before _ after rfl
  rcases List.mem_append.mp hpop' with hbefore | hafter
  · exact absurd hbefore (hlaw.pending.2 fires')
  rcases List.mem_cons.mp hafter with heq | hafter
  · cases heq
    rfl
  · obtain ⟨between, rest, rfl⟩ := List.append_of_mem hafter
    have hlater : PopLaw (before ++ .popped e fires :: between) e fires' :=
      h _ (.popped e fires') rest (by simp)
    exact absurd (by simp) (hlater.pending.2 fires)

/-! ## The invariant -/

/-- In `expire`, where `n` entries have fired. -/
structure Expiring (s : Timers φ) (past : List (TimerEvent φ)) (t : TimePoint)
    (during : List (TimerEvent φ)) (n : ℕ) : Prop where
  inExpire : InExpire past t during s.trace
  read : t ≤ s.clock
  count : n = (fired during).length
  popped_due : ∀ e fires, .popped e fires ∈ during → e.when ≤ t
  sorted : (fired during).Pairwise fun e e' => e.when ≤ e'.when
  /-- What is in the heap is due no earlier than what has fired. -/
  earlier : ∀ e ∈ fired during, ∀ e' ∈ s.heap.heap, e.when ≤ e'.when

/-- What has happened since the clock was read, if `expire` runs.  A callback that runs is not
counted yet. -/
def PhaseSound (s : Timers φ) : Prop :=
  match s.phase with
  | .outside => True
  | .looping t n => ∃ past during, Expiring s past t during n
  | .calling t n => ∃ past during, Expiring s past t during (n + 1)

structure Sound (s : Timers φ) : Prop where
  numbered : s.heap.WellNumbered
  added_lt : ∀ e, .added e ∈ s.trace → e.id < s.heap.nextId
  mem_heap : ∀ e, e ∈ s.heap.heap ↔ Pending e s.trace
  mem_cancelled : ∀ e ∈ s.heap.heap, e.id ∈ s.heap.cancelled ↔ WasCancelled e s.trace
  lawful : Each Lawful s.trace
  phase : PhaseSound s

theorem sound_start (now : TimePoint) : Sound (start now : Timers φ) where
  numbered := TimerHeap.wellNumbered_empty
  added_lt := by simp [start]
  mem_heap := by simp [start, Pending]
  mem_cancelled := by simp [start]
  lawful := each_nil
  phase := trivial

theorem Sound.expiring (h : Sound s) (hphase : s.phase = .looping t n) :
    ∃ past during, Expiring s past t during n := by
  have hsound := h.phase
  simp only [PhaseSound, hphase] at hsound
  exact hsound

/-- The entry that `add` makes is new. -/
theorem Sound.fresh (h : Sound s) (he : e.id = s.heap.nextId) :
    .added e ∉ s.trace ∧ ∀ fires, .popped e fires ∉ s.trace := by
  have hadded : .added e ∉ s.trace := fun hmem => (h.added_lt e hmem).ne he
  exact ⟨hadded, fun fires hpop => hadded (added_of_popped h.lawful hpop)⟩

theorem Expiring.concat (h : Expiring s past t during n) {heap : TimerHeap (Option φ)}
    {clock : TimePoint} {phase : TimerPhase} (hdelimits : event.delimits = false)
    (hclock : s.clock ≤ clock) (hpopped : ∀ e fires, event ≠ .popped e fires)
    (hheap : ∀ e ∈ heap.heap, e ∈ s.heap.heap ∨ t ≤ e.when) :
    Expiring { heap := heap, clock := clock, phase := phase, trace := s.trace ++ [event] }
      past t (during ++ [event]) n := by
  have hfired : fired (during ++ [event]) = fired during := by
    rw [fired_append, List.append_right_eq_self]
    cases event with
    | popped e fires => exact absurd rfl (hpopped e fires)
    | _ => rfl
  refine ⟨h.inExpire.concat hdelimits, h.read.trans hclock, by rw [hfired, h.count], ?_,
    by rw [hfired]; exact h.sorted, ?_⟩
  · intro e fires hmem
    rcases List.mem_append.mp hmem with hmem | hmem
    · exact h.popped_due e fires hmem
    · exact absurd (List.mem_singleton.mp hmem).symm (hpopped e fires)
  · intro e he e' he'
    rw [hfired] at he
    rcases hheap e' he' with hold | hlate
    · exact h.earlier e he e' hold
    · exact (h.popped_due e true (mem_fired.mp he)).trans hlate

/-- What is called outside `expire` or by a callback, and puts nothing into the heap that is due
before the clock that it reads. -/
theorem PhaseSound.concat (h : PhaseSound s) (hmay : s.phase.mayCall = true)
    {heap : TimerHeap (Option φ)} {clock : TimePoint} (hdelimits : event.delimits = false)
    (hclock : s.clock ≤ clock) (hpopped : ∀ e fires, event ≠ .popped e fires)
    (hheap : ∀ e ∈ heap.heap, e ∈ s.heap.heap ∨ (s.phase ≠ .outside → clock ≤ e.when)) :
    PhaseSound { s with heap := heap, clock := clock, trace := s.trace ++ [event] } := by
  unfold PhaseSound at h ⊢
  cases hp : s.phase with
  | outside => trivial
  | looping t n => simp [hp, TimerPhase.mayCall] at hmay
  | calling t n =>
      simp only [hp] at h ⊢
      obtain ⟨past, during, hexpiring⟩ := h
      refine ⟨past, _, hexpiring.concat hdelimits hclock hpopped fun e he => ?_⟩
      rcases hheap e he with hold | hlate
      · exact .inl hold
      · have hafter : clock ≤ e.when := hlate (by simp [hp])
        exact .inr (hexpiring.read.trans (hclock.trans hafter))

/-! ## The steps -/

theorem Sound.add (h : Sound s) {now when : TimePoint} {cb : Option φ}
    (hlooping : s.phase.mayCall = true) (hclock : s.clock ≤ now)
    (hwhen : s.phase ≠ .outside → now ≤ when) :
    Sound { s with
      heap := s.heap.add when cb
      clock := now
      trace := s.trace ++ [.added ⟨when, cb, s.heap.nextId⟩] } := by
  obtain ⟨hnew, hunpopped⟩ := h.fresh (e := ⟨when, cb, s.heap.nextId⟩) rfl
  refine ⟨h.numbered.add when cb, ?_, ?_, ?_, each_concat.mpr ⟨h.lawful, ?_⟩, ?_⟩
  · intro e he
    rcases List.mem_append.mp he with he | he
    · exact (h.added_lt e he).trans (Nat.lt_succ_self _)
    · cases List.mem_singleton.mp he
      exact Nat.lt_succ_self _
  · intro e
    show e ∈ s.heap.heap ++ [_] ↔ Pending e (s.trace ++ [_])
    rw [List.mem_append, List.mem_singleton, h.mem_heap, pending_concat_added hunpopped]
  · intro e he
    show e.id ∈ s.heap.cancelled ↔ WasCancelled e (s.trace ++ [_])
    rw [wasCancelled_concat]
    simp only [reduceCtorEq, and_false, or_false]
    rcases List.mem_append.mp he with he | he
    · exact h.mem_cancelled e he
    · cases List.mem_singleton.mp he
      exact iff_of_false (fun hmem => (h.numbered.cancelled_lt _ hmem).ne rfl)
        fun hcancelled => hnew hcancelled.added
  · intro e' he'
    exact (h.added_lt e' he').ne
  · refine h.phase.concat hlooping rfl hclock (by simp) fun e he => ?_
    rcases List.mem_append.mp he with he | he
    · exact .inl he
    · cases List.mem_singleton.mp he
      exact .inr hwhen

theorem Sound.cancel (h : Sound s) (id : TimerId) (hlooping : s.phase.mayCall = true) :
    Sound { s with heap := s.heap.cancel id, trace := s.trace ++ [.cancelled id] } := by
  have hheap : (s.heap.cancel id).heap = s.heap.heap := s.heap.heap_cancel id
  refine ⟨h.numbered.cancel id, ?_, ?_, ?_, each_concat.mpr ⟨h.lawful, trivial⟩, ?_⟩
  · intro e he
    rw [s.heap.nextId_cancel]
    exact h.added_lt e (by simpa using he)
  · intro e
    show e ∈ (s.heap.cancel id).heap ↔ Pending e (s.trace ++ [_])
    rw [hheap, h.mem_heap]
    simp [Pending]
  · intro e he
    rw [hheap] at he
    have hadded : .added e ∈ s.trace := ((h.mem_heap e).mp he).1
    show e.id ∈ (s.heap.cancel id).cancelled ↔ WasCancelled e (s.trace ++ [_])
    rw [h.numbered.mem_cancelled_cancel he, h.mem_cancelled e he, wasCancelled_concat,
      TimerEvent.cancelled.injEq, eq_comm (a := id)]
    simp [hadded]
  · exact h.phase.concat hlooping rfl le_rfl (by simp) fun e he => .inl (hheap ▸ he)

/-- An `expire` begins or returns: nothing changes for the entries. -/
theorem Sound.concat_delimiter (h : Sound s) {clock : TimePoint} {phase : TimerPhase}
    (hdelimits : event.delimits = true) (hlawful : Lawful s.trace event)
    (hphase : PhaseSound { s with clock := clock, phase := phase, trace := s.trace ++ [event] }) :
    Sound { s with clock := clock, phase := phase, trace := s.trace ++ [event] } := by
  have hadded : ∀ e, .added e ≠ event := by
    rintro e rfl
    cases hdelimits
  have hpopped : ∀ e fires, .popped e fires ≠ event := by
    rintro e fires rfl
    cases hdelimits
  have hcancelled : ∀ id, event ≠ .cancelled id := by
    rintro id rfl
    cases hdelimits
  refine ⟨h.numbered, ?_, ?_, ?_, each_concat.mpr ⟨h.lawful, hlawful⟩, hphase⟩
  · intro e he
    exact h.added_lt e (by simpa [hadded e] using he)
  · intro e
    show e ∈ s.heap.heap ↔ Pending e (s.trace ++ [_])
    rw [h.mem_heap]
    simp [Pending, hadded e, hpopped e]
  · intro e he
    show e.id ∈ s.heap.cancelled ↔ WasCancelled e (s.trace ++ [_])
    rw [h.mem_cancelled e he, wasCancelled_concat]
    simp [hcancelled e.id]

theorem Sound.expire (h : Sound s) (now : TimePoint) :
    Sound { s with clock := now, phase := .looping now 0, trace := s.trace ++ [.began now] } := by
  refine h.concat_delimiter rfl trivial ?_
  exact ⟨s.trace, [], ⟨rfl, by simp⟩, le_rfl, rfl, by simp, List.Pairwise.nil, by simp [fired]⟩

/-- The pop of the earliest entry, whether or not it fires. -/
theorem Expiring.pop (h : Expiring s past t during n) {fires : Bool}
    {heap : TimerHeap (Option φ)} {phase : TimerPhase} (hmem : e ∈ s.heap.heap)
    (hdue : e.when ≤ t) (htop : ∀ e' ∈ s.heap.heap, e.when ≤ e'.when)
    (hheap : heap.heap ⊆ s.heap.heap) :
    Expiring { heap := heap, clock := s.clock, phase := phase,
               trace := s.trace ++ [.popped e fires] }
      past t (during ++ [.popped e fires]) (n + fires.toNat) := by
  have hfired : fired [(.popped e fires : TimerEvent φ)] = if fires then [e] else [] := by
    cases fires <;> rfl
  refine ⟨h.inExpire.concat rfl, h.read, ?_, ?_, ?_, ?_⟩
  · rw [fired_append, List.length_append, hfired, h.count]
    cases fires <;> rfl
  · intro e' fires' hmem'
    rcases List.mem_append.mp hmem' with hmem' | hmem'
    · exact h.popped_due e' fires' hmem'
    · cases List.mem_singleton.mp hmem'
      exact hdue
  · rw [fired_append, hfired, List.pairwise_append]
    refine ⟨h.sorted, by cases fires <;> simp, ?_⟩
    intro e₁ he₁ e₂ he₂
    obtain rfl : e₂ = e := by
      cases fires
      · cases he₂
      · exact List.mem_singleton.mp he₂
    exact h.earlier e₁ he₁ e₂ hmem
  · intro e₁ he₁ e₂ he₂
    rw [fired_append, hfired] at he₁
    rcases List.mem_append.mp he₁ with he₁ | he₁
    · exact h.earlier e₁ he₁ e₂ (hheap he₂)
    · obtain rfl : e₁ = e := by
        cases fires
        · cases he₁
        · exact List.mem_singleton.mp he₁
      exact htop e₂ (hheap he₂)

/-- What holds of the heap and the trace after a pop. -/
theorem Sound.pop (h : Sound s) {heap : TimerHeap (Option φ)} {phase : TimerPhase} {fires : Bool}
    (hmem : e ∈ s.heap.heap) (hfires : fires = true ↔ e.id ∉ s.heap.cancelled)
    (hheap : heap.heap = s.heap.heap.filter fun e' => e'.id ≠ e.id)
    (hnext : heap.nextId = s.heap.nextId) (hnumbered : heap.WellNumbered)
    (hcancelled : ∀ id, id ≠ e.id → (id ∈ heap.cancelled ↔ id ∈ s.heap.cancelled))
    (hexpiring : Expiring s past t during n) (hdue : e.when ≤ t)
    (hphase : PhaseSound
      { s with heap := heap, phase := phase, trace := s.trace ++ [.popped e fires] }) :
    Sound { s with heap := heap, phase := phase, trace := s.trace ++ [.popped e fires] } := by
  have hmem_heap : ∀ e', e' ∈ heap.heap ↔ e' ∈ s.heap.heap ∧ e'.id ≠ e.id := by
    intro e'
    rw [hheap, List.mem_filter, decide_eq_true_eq]
  refine ⟨hnumbered, ?_, ?_, ?_, each_concat.mpr ⟨h.lawful, ?_⟩, hphase⟩
  · intro e' he'
    show e'.id < heap.nextId
    rw [hnext]
    exact h.added_lt e' (by simpa using he')
  · intro e'
    show e' ∈ heap.heap ↔ Pending e' (s.trace ++ [_])
    rw [hmem_heap, h.mem_heap]
    simp only [Pending, List.mem_append, List.mem_singleton, reduceCtorEq, or_false, not_or,
      TimerEvent.popped.injEq, not_and]
    constructor
    · rintro ⟨⟨hadded, hpopped⟩, hne⟩
      refine ⟨hadded, fun fires' => ⟨hpopped fires', ?_⟩⟩
      rintro rfl
      exact absurd rfl hne
    · rintro ⟨hadded, hpopped⟩
      have hpending : Pending e' s.trace := ⟨hadded, fun fires' => (hpopped fires').1⟩
      refine ⟨hpending, fun hid => ?_⟩
      obtain rfl : e' = e := h.numbered.eq_of_id ((h.mem_heap e').mpr hpending) hmem hid
      exact (hpopped fires).2 rfl rfl
  · intro e' he'
    show e'.id ∈ heap.cancelled ↔ WasCancelled e' (s.trace ++ [_])
    obtain ⟨hold, hne⟩ := (hmem_heap e').mp he'
    rw [hcancelled _ hne, h.mem_cancelled e' hold, wasCancelled_concat]
    simp
  · refine ⟨(h.mem_heap e).mp hmem, ?_, past, t, during, hexpiring.inExpire, hdue, ?_⟩
    · rw [hfires, h.mem_cancelled e hmem]
    · intro e' he'
      exact hexpiring.earlier e' he' e hmem

theorem Sound.popped (h : Sound s) {k : ℕ} {heap : TimerHeap (Option φ)}
    (hphase : s.phase = .looping t n) (hpop : s.heap.pop? t k = some (e, heap)) :
    Sound (s.popped t n e heap) := by
  obtain ⟨past, during, hexpiring⟩ := h.expiring hphase
  obtain ⟨hmem, hdue, htop, rfl⟩ := TimerHeap.pop?_spec h.numbered hpop
  have hsubset : (s.heap.heap.filter fun e' => e'.id ≠ e.id) ⊆ s.heap.heap :=
    fun _ => List.mem_of_mem_filter
  unfold Timers.popped
  split
  · rename_i hcancelled
    have hfires : false = true ↔ e.id ∉ s.heap.cancelled := by simpa using hcancelled
    refine h.pop hmem hfires rfl rfl ((h.numbered.pop e.id).forget e.id) ?_ hexpiring hdue ?_
    · intro id hne
      exact Finset.mem_erase.trans (and_iff_right hne)
    · simp only [PhaseSound, hphase]
      exact ⟨past, _, hexpiring.pop hmem hdue htop hsubset⟩
  · rename_i hcancelled
    have hfires : true = true ↔ e.id ∉ s.heap.cancelled := by simpa using hcancelled
    refine h.pop hmem hfires rfl rfl (h.numbered.pop e.id) (fun _ _ => Iff.rfl) hexpiring hdue ?_
    unfold PhaseSound
    cases hcb : e.cb with
    | none => exact ⟨past, _, hexpiring.pop hmem hdue htop hsubset⟩
    | some cb => exact ⟨past, _, hexpiring.pop hmem hdue htop hsubset⟩

/-- When no entry is due any more, every due one has been popped. -/
theorem Sound.returnLaw (h : Sound s) (hexpiring : Expiring s past t during n)
    (hdone : ∀ e ∈ s.heap.heap, t < e.when) : ReturnLaw past t during n := by
  have htrace : s.trace = past ++ .began t :: during := hexpiring.inExpire.1
  have hpopped_iff : ∀ e, .added e ∈ past ++ during → (∀ fires, .popped e fires ∉ past) →
      ((∃ fires, .popped e fires ∈ during) ↔ e.when ≤ t) := by
    intro e hadded hpast
    constructor
    · rintro ⟨fires, hpop⟩
      exact hexpiring.popped_due e fires hpop
    · intro hdue
      by_contra hnone
      have hpending : Pending e s.trace := by
        refine ⟨?_, fun fires hpop => ?_⟩
        · rw [htrace]
          simpa using hadded
        · rw [htrace] at hpop
          simp only [List.mem_append, List.mem_cons, reduceCtorEq, false_or] at hpop
          exact hpop.elim (hpast fires) fun hmem => hnone ⟨fires, hmem⟩
      exact (hdone e ((h.mem_heap e).mpr hpending)).not_ge hdue
  have hlaw : ∀ e earlier fires later, during = earlier ++ .popped e fires :: later →
      (fires = true ↔ ¬WasCancelled e (past ++ .began t :: earlier)) := by
    rintro e earlier fires later rfl
    have hpop : PopLaw (past ++ .began t :: earlier) e fires :=
      h.lawful _ (.popped e fires) later (by simpa using htrace)
    exact hpop.fires_iff
  have hcount : n = (fired during).length := hexpiring.count
  refine ⟨hcount, hcount.trans (length_callbacks during).symm, hexpiring.sorted, hpopped_iff, ?_⟩
  intro e hadded hpast
  constructor
  · intro hfired
    refine ⟨(hpopped_iff e hadded hpast).mp ⟨true, hfired⟩, ?_⟩
    intro earlier fires later heq
    have hpop : .popped e fires ∈ during := heq ▸ List.mem_append_right _ List.mem_cons_self
    have hsubset : during ⊆ s.trace := hexpiring.inExpire.subset
    exact (hlaw e earlier fires later heq).mp
      (popped_once h.lawful (hsubset hpop) (hsubset hfired))
  · rintro ⟨hdue, huncancelled⟩
    obtain ⟨fires, hpop⟩ := (hpopped_iff e hadded hpast).mpr hdue
    obtain ⟨earlier, later, heq⟩ := List.append_of_mem hpop
    obtain rfl : fires = true :=
      (hlaw e earlier fires later heq).mpr (huncancelled earlier fires later heq)
    exact hpop

theorem Sound.steps (h : Sound s) {label : TimersLabel φ} (hstep : Steps s label s') :
    Sound s' := by
  cases hstep with
  | add now when cb hlooping hclock hwhen => exact h.add hlooping hclock hwhen
  | cancel id hlooping => exact h.cancel id hlooping
  | expire now hphase hclock => exact h.expire now
  | pop t fired k e heap hphase hpop => exact h.popped hphase hpop
  | leave t fired hphase =>
      refine { h with phase := ?_ }
      have hsound := h.phase
      simp only [PhaseSound, hphase] at hsound
      obtain ⟨past, during, hexpiring⟩ := hsound
      exact ⟨past, during, { hexpiring with }⟩
  | finish t fired hphase hdone =>
      obtain ⟨past, during, hexpiring⟩ := h.expiring hphase
      refine h.concat_delimiter rfl ?_ trivial
      exact ⟨past, t, during, hexpiring.inExpire, h.returnLaw hexpiring hdone⟩

theorem sound_run (now : TimePoint) (labels : List (TimersLabel φ)) :
    Sound (Transition.run step (start now) labels) :=
  run_invariant (fun _ _ _ h hstep => h.steps hstep) (sound_start now) labels

/-- **Which timers fire.**  After every run, whatever the callbacks add and cancel: what is popped
is pending, so that nothing fires twice; it fires exactly if it was not cancelled, during an
`expire` that read a time at which it is due, in the order of the deadlines; an `expire` that
returns has popped all that is due, and returns the number of the entries that fired.  And
`cancel` changes nothing for an entry with another id. -/
theorem expiry_run (now : TimePoint) (labels : List (TimersLabel φ)) :
    let s := Transition.run step (start now) labels
    Each Lawful s.trace ∧
      ∀ id, (s.heap.cancel id).heap = s.heap.heap ∧
        ∀ e ∈ s.heap.heap, e.id ≠ id → (s.heap.cancel id).isLive e = s.heap.isLive e := by
  intro s
  have h : Sound s := sound_run now labels
  refine ⟨h.lawful, fun id => ⟨s.heap.heap_cancel id, ?_⟩⟩
  intro e he hne
  unfold TimerHeap.isLive
  rw [decide_eq_decide, h.numbered.mem_cancelled_cancel he, or_iff_left hne]

/-- The returned count is the number of the callbacks that ran. -/
def CountsCallbacks (history : List (TimerEvent φ)) : TimerEvent φ → Prop
  | .returned n => ∀ past t during, InExpire past t during history → n = (callbacks during).length
  | _ => True

/-- A timer with an empty callback is counted. -/
theorem not_countsCallbacks :
    ¬∀ labels : List (TimersLabel Unit),
      Each CountsCallbacks (Transition.run step (start 0) labels).trace := by
  intro hall
  have hcounts := hall [.add 0 5 none, .expire 7, .pop 0, .finish]
    [.added ⟨5, none, 1⟩, .began 7, .popped ⟨5, none, 1⟩ true] (.returned 1) [] rfl
  have hzero : 1 = (callbacks [(.popped ⟨5, none, 1⟩ true : TimerEvent Unit)]).length :=
    hcounts [.added ⟨5, none, 1⟩] 7 _ ⟨rfl, by simp [TimerEvent.delimits]⟩
  exact absurd hzero (by decide)

/-! ## The loop ends -/

/-- The loop of `expire` can always go on or return. -/
theorem expire_progress (hphase : s.phase = .looping t n) :
    (∃ k, (s.step? (.pop k)).isSome) ∨ (s.step? .finish).isSome := by
  by_cases hdue : s.heap.isDue t
  · left
    obtain ⟨late, hlate, hwhen⟩ := List.any_eq_true.mp hdue
    obtain ⟨e, he, htop⟩ := Set.exists_min_image {e | e ∈ s.heap.heap} TimerHeap.Entry.when
      s.heap.heap.finite_toSet ⟨late, hlate⟩
    obtain ⟨k, hk⟩ := List.getElem?_of_mem he
    have hdue_e : e.when ≤ t := (htop late hlate).trans (by simpa using hwhen)
    have htop_e : s.heap.isTop e = true := by simpa [TimerHeap.isTop] using htop
    refine ⟨k, ?_⟩
    simp [step?, hphase, TimerHeap.pop?, hk, htop_e, hdue_e]
  · right
    simp [step?, hphase, hdue]

/-- What is popped and what is left is what was added, so that the loop ends when its callbacks
add no more. -/
def Counted (s : Timers φ) : Prop :=
  (s.trace.countP fun event => event matches .popped _ _) + s.heap.heap.length =
    s.trace.countP fun event => event matches .added _

theorem Steps.counted {label : TimersLabel φ} (h : Counted s) (hstep : Steps s label s') :
    Counted s' := by
  unfold Counted at *
  cases hstep with
  | add now when cb hlooping hclock hwhen =>
      simp only [List.countP_append, List.countP_singleton, TimerHeap.add, List.length_append,
        List.length_singleton]
      simp only [Bool.false_eq_true, if_false, if_true]
      omega
  | cancel id hlooping => simpa [List.countP_append] using h
  | expire now hphase hclock => simpa [List.countP_append] using h
  | pop t fired k e heap hphase hpop =>
      have hlength : heap.heap.length + 1 = s.heap.heap.length := by
        unfold TimerHeap.pop? at hpop
        split at hpop
        · rename_i hk
          obtain ⟨hlt, -⟩ := List.getElem?_eq_some_iff.mp hk
          simp only [Option.ite_none_right_eq_some, Option.some.injEq, Prod.mk.injEq] at hpop
          rw [← hpop.2.2, List.length_eraseIdx_of_lt hlt]
          exact Nat.sub_add_cancel (Nat.zero_lt_of_lt hlt)
        · simp at hpop
      unfold Timers.popped
      split <;>
        simp only [List.countP_append, List.countP_singleton, TimerHeap.forget, Bool.false_eq_true,
          if_false, if_true] <;>
        omega
  | leave t fired hphase => exact h
  | finish t fired hphase hdone => simpa [List.countP_append] using h

theorem counted_run (now : TimePoint) (labels : List (TimersLabel φ)) :
    Counted (Transition.run step (start now) labels) :=
  run_invariant (fun _ _ _ h hstep => hstep.counted h) (by simp [Counted, start]) labels

end Timers

end WsServer
