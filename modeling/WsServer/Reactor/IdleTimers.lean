import WsServer.Reactor.Table

/-!
# The idle timers

With a timeout every open connection has one entry in the heap that is not cancelled, the one that
it knows as `idle_timer_`, and there are no others (`Timed`).  The callback of the entry uses it up
and either closes the connection or arms a new one, and closing elsewhere cancels it.

The entry is not moved when there is activity, so it says little about the time of the last
activity; but it was set when that was less than the timeout ago, and so it lies less than two
timeouts behind it.
-/

namespace WsServer.Reactor

open Session TimerHeap

variable {idleTimeoutS : ℤ} {clock now t : TimePoint} {r r' : Reactor} {todo : List Action}
  {c : ConnId} {s s' : Session}

structure Timed (idleTimeoutS : ℤ) (clock : TimePoint) (r : Reactor) : Prop where
  numbered : r.timers.WellNumbered
  armed : ∀ c s, r.IsOpen c s → ∃ e ∈ r.timers.live, e.cb = c ∧ e.id = s.conn.idleTimer
  belongs : ∀ e ∈ r.timers.live, ∃ s, r.IsOpen e.cb s ∧ s.conn.idleTimer = e.id ∧
    e.when < s.conn.lastActivity + 2 * (idleTimeoutS * 1000000000)
  activity : ∀ s ∈ r.sessions, s.conn.lastActivity ≤ clock

theorem timed_empty : Timed idleTimeoutS clock {} := by
  refine ⟨wellNumbered_empty, ?_, ?_, by simp⟩
  · rintro c s ⟨hs, -⟩
    simp at hs
  · intro e he
    simp [live] at he

theorem Timed.mono (h : Timed idleTimeoutS clock r) (hle : clock ≤ now) :
    Timed idleTimeoutS now r :=
  ⟨h.numbered, h.armed, h.belongs, fun s hs => (h.activity s hs).trans hle⟩

/-- An open connection has only one entry. -/
theorem Timed.eq_of_cb (h : Timed idleTimeoutS clock r) {e e' : Entry ConnId}
    (he : e ∈ r.timers.live) (he' : e' ∈ r.timers.live) (hcb : e.cb = e'.cb) : e = e' := by
  obtain ⟨s, hs, hid, -⟩ := h.belongs e he
  obtain ⟨s', hs', hid', -⟩ := h.belongs e' he'
  have hsame : s = s' := by
    rw [hcb] at hs
    exact Option.some.inj (hs.1.symm.trans hs'.1)
  refine h.numbered.eq_of_id (mem_live.mp he).1 (mem_live.mp he').1 ?_
  rw [← hid, ← hid', hsame]

/-- Another connection has another entry. -/
theorem Timed.ne_of_ne (h : Timed idleTimeoutS clock r) (hs : r.IsOpen c s) {e : Entry ConnId}
    (he : e ∈ r.timers.live) : e.id = s.conn.idleTimer ↔ e.cb = c := by
  obtain ⟨e₁, he₁, rfl, hid₁⟩ := h.armed c s hs
  constructor
  · intro hid
    rw [h.numbered.eq_of_id (mem_live.mp he).1 (mem_live.mp he₁).1 (hid.trans hid₁.symm)]
  · intro hcb
    rw [h.eq_of_cb he he₁ hcb, hid₁]

/-! ## One connection changes -/

theorem activity_set (h : ∀ s ∈ r.sessions, s.conn.lastActivity ≤ clock) 
    (hactivity : s'.conn.lastActivity ≤ clock) :
    ∀ s₁ ∈ r.sessions.set c s', s₁.conn.lastActivity ≤ clock := by
  intro s₁ hmem
  rcases List.mem_or_eq_of_mem_set hmem with hmem | rfl
  · exact h s₁ hmem
  · exact hactivity

/-- A connection is left with its entry. -/
theorem timed_set_same (h : Timed idleTimeoutS clock r) (hs : r.sessions[c]? = some s)
    (hclosed : s'.conn.closed = s.conn.closed) (hidle : s'.conn.idleTimer = s.conn.idleTimer)
    (hlater : s.conn.lastActivity ≤ s'.conn.lastActivity)
    (hactivity : s'.conn.lastActivity ≤ clock) (hset : r'.sessions = r.sessions.set c s')
    (htimers : r'.timers = r.timers) : Timed idleTimeoutS clock r' := by
  refine ⟨htimers ▸ h.numbered, ?_, ?_, hset ▸ activity_set h.activity hactivity⟩
  · intro c' s₁ hopen
    rw [htimers]
    by_cases hc : c' = c
    · subst hc
      obtain ⟨rfl, hopen'⟩ := (isOpen_set_self hs hset).mp hopen
      rw [hidle]
      exact h.armed c' s ⟨hs, hclosed.symm.trans hopen'⟩
    · exact h.armed c' s₁ ((isOpen_set_ne hc hset).mp hopen)
  · intro e he
    rw [htimers] at he
    obtain ⟨s₁, hs₁, hid, hwhen⟩ := h.belongs e he
    by_cases hc : e.cb = c
    · subst hc
      obtain ⟨rfl, hopen⟩ := (isOpen_iff hs).mp hs₁
      refine ⟨s', (isOpen_set_self hs hset).mpr ⟨rfl, hclosed.trans hopen⟩, hidle.trans hid, ?_⟩
      exact hwhen.trans_le (by linarith)
    · exact ⟨s₁, (isOpen_set_ne hc hset).mpr hs₁, hid, hwhen⟩

/-- A connection is closed, and its entry dropped. -/
theorem timed_set_ended (h : Timed idleTimeoutS clock r) (hs : r.IsOpen c s)
    (hclosed : s'.conn.closed = true) (hactivity : s'.conn.lastActivity ≤ clock)
    (hset : r'.sessions = r.sessions.set c s') (hnumbered : r'.timers.WellNumbered)
    (hlive : ∀ e, e ∈ r'.timers.live ↔ e ∈ r.timers.live ∧ e.id ≠ s.conn.idleTimer) :
    Timed idleTimeoutS clock r' := by
  refine ⟨hnumbered, ?_, ?_, hset ▸ activity_set h.activity hactivity⟩
  · intro c' s₁ hopen
    by_cases hc : c' = c
    · subst hc
      have hopen' := ((isOpen_set_self hs.1 hset).mp hopen).2
      rw [hclosed] at hopen'
      simp at hopen'
    · obtain ⟨e, he, rfl, hid⟩ := h.armed c' s₁ ((isOpen_set_ne hc hset).mp hopen)
      exact ⟨e, (hlive e).mpr ⟨he, mt (h.ne_of_ne hs he).mp hc⟩, rfl, hid⟩
  · intro e he
    obtain ⟨he, hid⟩ := (hlive e).mp he
    obtain ⟨s₁, hs₁, hid₁, hwhen⟩ := h.belongs e he
    have hc : e.cb ≠ c := mt (h.ne_of_ne hs he).mpr hid
    exact ⟨s₁, (isOpen_set_ne hc hset).mpr hs₁, hid₁, hwhen⟩

/-- The entry of a connection is replaced by a new one. -/
theorem timed_set_rearmed (h : Timed idleTimeoutS clock r) (hs : r.IsOpen c s) (e' : Entry ConnId)
    (hopen : s'.conn.closed = false) (hidle : s'.conn.idleTimer = e'.id) (hcb : e'.cb = c)
    (hwhen : e'.when < s'.conn.lastActivity + 2 * (idleTimeoutS * 1000000000))
    (hactivity : s'.conn.lastActivity ≤ clock) (hset : r'.sessions = r.sessions.set c s')
    (hnumbered : r'.timers.WellNumbered)
    (hlive : ∀ e, e ∈ r'.timers.live ↔
      (e ∈ r.timers.live ∧ e.id ≠ s.conn.idleTimer) ∨ e = e') : Timed idleTimeoutS clock r' := by
  refine ⟨hnumbered, ?_, ?_, hset ▸ activity_set h.activity hactivity⟩
  · intro c' s₁ hopen₁
    by_cases hc : c' = c
    · subst hc
      obtain ⟨rfl, -⟩ := (isOpen_set_self hs.1 hset).mp hopen₁
      exact ⟨e', (hlive e').mpr (.inr rfl), hcb, hidle.symm⟩
    · obtain ⟨e, he, rfl, hid⟩ := h.armed c' s₁ ((isOpen_set_ne hc hset).mp hopen₁)
      exact ⟨e, (hlive e).mpr (.inl ⟨he, mt (h.ne_of_ne hs he).mp hc⟩), rfl, hid⟩
  · intro e he
    rcases (hlive e).mp he with ⟨he, hid⟩ | rfl
    · obtain ⟨s₁, hs₁, hid₁, hwhen₁⟩ := h.belongs e he
      have hc : e.cb ≠ c := mt (h.ne_of_ne hs he).mpr hid
      exact ⟨s₁, (isOpen_set_ne hc hset).mpr hs₁, hid₁, hwhen₁⟩
    · subst hcb
      exact ⟨s', (isOpen_set_self hs.1 hset).mpr ⟨rfl, hopen⟩, hidle, hwhen⟩

/-- A connection is made, with a new entry. -/
theorem timed_concat (h : Timed idleTimeoutS clock r) (e' : Entry ConnId)
    (hopen : s'.conn.closed = false) (hidle : s'.conn.idleTimer = e'.id)
    (hcb : e'.cb = r.sessions.length)
    (hwhen : e'.when < s'.conn.lastActivity + 2 * (idleTimeoutS * 1000000000))
    (hactivity : s'.conn.lastActivity ≤ clock) (hset : r'.sessions = r.sessions ++ [s'])
    (hnumbered : r'.timers.WellNumbered)
    (hlive : ∀ e, e ∈ r'.timers.live ↔ e ∈ r.timers.live ∨ e = e') :
    Timed idleTimeoutS clock r' := by
  refine ⟨hnumbered, ?_, ?_, ?_⟩
  · intro c' s₁ hopen₁
    rcases (isOpen_concat hopen hset).mp hopen₁ with hopen₁ | ⟨rfl, rfl⟩
    · obtain ⟨e, he, hcb, hid⟩ := h.armed c' s₁ hopen₁
      exact ⟨e, (hlive e).mpr (.inl he), hcb, hid⟩
    · exact ⟨e', (hlive e').mpr (.inr rfl), hcb, hidle.symm⟩
  · intro e he
    rcases (hlive e).mp he with he | rfl
    · obtain ⟨s₁, hs₁, hid₁, hwhen₁⟩ := h.belongs e he
      exact ⟨s₁, (isOpen_concat hopen hset).mpr (.inl hs₁), hid₁, hwhen₁⟩
    · exact ⟨s', (isOpen_concat hopen hset).mpr (.inr ⟨hcb, rfl⟩), hidle, hwhen⟩
  · rw [hset]
    intro s₁ hmem
    rcases List.mem_append.mp hmem with hmem | hmem
    · exact h.activity s₁ hmem
    · rw [List.mem_singleton.mp hmem]
      exact hactivity

/-! ## Handlers -/

theorem timed_handles (htabled : Tabled idleTimeoutS r) (h : Timed idleTimeoutS now r)
    {fd : ℤ} (hrun : Handles r fd now r' todo) : Timed idleTimeoutS now (r'.settle todo) := by
  cases hrun with
  | nothing => exact h
  | stays c s s' hs houtcome hsame =>
      have hle := h.activity s (List.mem_of_getElem? hs)
      obtain ⟨hlater, hactivity⟩ := houtcome.le_lastActivity hle
      exact timed_set_same h hs hsame.closed hsame.idleTimer hlater hactivity rfl rfl
  | closes c s s' hfind hs houtcome hended =>
      have hopen : r.IsOpen c s := ⟨hs, hended.wasOpen⟩
      have hle := h.activity s (List.mem_of_getElem? hs)
      have hfd := ((htabled.whole s (List.mem_of_getElem? hs)).opened hended.wasOpen).1
      have hknown : s.conn.idleTimer < r.timers.nextId := by
        obtain ⟨e, he, -, hid⟩ := h.armed c s hopen
        exact hid ▸ (h.numbered.range e (mem_live.mp he).1).2
      rw [settle_closing _ c hfd]
      refine timed_set_ended h hopen hended.closed (houtcome.le_lastActivity hle).2 rfl
        (h.numbered.cancel _) fun e => ?_
      exact mem_live_cancel h.numbered hknown

/-- The callback of an entry that has just been popped. -/
theorem timed_fires (hpos : 0 < idleTimeoutS) (htabled : Tabled idleTimeoutS r)
    (h : Timed idleTimeoutS now r) {e : Entry ConnId} (he : e ∈ r.timers.live)
    (hrun : Fires
      { r with timers := { r.timers with heap := r.timers.heap.filter fun e' => e'.id ≠ e.id } }
      e.cb now r' todo) : Timed idleTimeoutS now (r'.settle todo) := by
  obtain ⟨s₀, hopen₀, hid, -⟩ := h.belongs e he
  have hwhole := htabled.whole s₀ (List.mem_of_getElem? hopen₀.1)
  have hle := h.activity s₀ (List.mem_of_getElem? hopen₀.1)
  cases hrun with
  | nothing hnone =>
      have hnot := hnone s₀ hopen₀.1 hopen₀.2
      rw [hwhole.timeout] at hnot
      exact absurd hpos hnot
  | reaps s s' hs hdue hlives hended =>
      obtain rfl : s₀ = s := Option.some.inj (hopen₀.1.symm.trans hs)
      rw [settle_closing _ e.cb (hwhole.opened hopen₀.2).1]
      refine timed_set_ended h hopen₀ hended.closed (hlives.lastActivity.trans_le hle) rfl
        ((h.numbered.pop e.id).cancel 0) fun e₁ => ?_
      rw [hid]
      exact mem_live_pop
  | rearms s hs hopen htimeout hrecent =>
      obtain rfl : s₀ = s := Option.some.inj (hopen₀.1.symm.trans hs)
      have hnumbered := (h.numbered.pop e.id).add (now + s₀.conn.idleTimeoutS * 1000 * 1000000) e.cb
      rw [hwhole.timeout] at htimeout hrecent
      rw [hwhole.timeout] at hnumbered ⊢
      refine timed_set_rearmed h hopen₀ ⟨now + idleTimeoutS * 1000 * 1000000, e.cb, r.timers.nextId⟩
        ?_ ?_ rfl ?_ ?_ rfl hnumbered ?_
      · rw [conn_armIdleTimer hopen]
        exact hopen
      · rw [conn_armIdleTimer hopen, hwhole.timeout, if_pos hpos]
      · rw [conn_armIdleTimer hopen, hwhole.timeout]
        show now + idleTimeoutS * 1000 * 1000000 < s₀.conn.lastActivity + _
        linarith
      · rw [conn_armIdleTimer hopen]
        exact hle
      · intro e₁
        rw [hid, ← mem_live_pop]
        exact mem_live_add (h.numbered.pop e.id) _ _

theorem timed_attachConnection (hpos : 0 < idleTimeoutS) (htabled : Tabled idleTimeoutS r)
    (h : Timed idleTimeoutS now r) {fd : ℤ} (hfree : r.connections.find? fd = none) :
    Timed idleTimeoutS now ((r.attachConnection idleTimeoutS fd now).1.settle
      (r.attachConnection idleTimeoutS fd now).2) := by
  have hunregistered : r.registered.find? fd = none := by rw [htabled.registered, hfree]
  have hnumbered := h.numbered.add (now + idleTimeoutS * 1000 * 1000000) r.sessions.length
  rw [attachConnection_eq]
  dsimp only
  rw [settle_attaching, if_pos hpos]
  · refine timed_concat h ⟨now + idleTimeoutS * 1000 * 1000000, r.sessions.length, r.timers.nextId⟩
      ?_ ?_ rfl ?_ ?_ rfl hnumbered fun e => ?_
    · rw [conn_armIdleTimer rfl]
      rfl
    · rw [conn_armIdleTimer rfl]
      exact if_pos hpos
    · rw [conn_armIdleTimer rfl]
      show now + idleTimeoutS * 1000 * 1000000 < now + 2 * (idleTimeoutS * 1000000000)
      linarith
    · rw [conn_armIdleTimer rfl]
      exact le_rfl
    · exact mem_live_add h.numbered _ _
  · exact hunregistered

/-- A cancelled entry is dropped. -/
theorem timed_forget (h : Timed idleTimeoutS clock r) {id : TimerId}
    (hid : id ∈ r.timers.cancelled) :
    Timed idleTimeoutS clock { r with
      timers := forget { r.timers with heap := r.timers.heap.filter fun e => e.id ≠ id } id } := by
  refine ⟨(h.numbered.pop id).forget id, ?_, ?_, h.activity⟩
  · intro c s hopen
    obtain ⟨e, he, hcb, hsame⟩ := h.armed c s hopen
    exact ⟨e, (mem_live_forget hid).mpr he, hcb, hsame⟩
  · intro e he
    exact h.belongs e ((mem_live_forget hid).mp he)

/-- When no entry is due at `t`, every open connection has been active less than two timeouts
before. -/
theorem Timed.recent (h : Timed idleTimeoutS clock r) (hdue : r.timers.isDue t = false)
    (hopen : r.IsOpen c s) : t - s.conn.lastActivity < 2 * (idleTimeoutS * 1000000000) := by
  obtain ⟨e, he, rfl, -⟩ := h.armed c s hopen
  obtain ⟨s₁, hs₁, -, hwhen⟩ := h.belongs e he
  obtain rfl : s = s₁ := Option.some.inj (hopen.1.symm.trans hs₁.1)
  have hlater : t < e.when := by
    rw [isDue, List.any_eq_false] at hdue
    simpa using hdue e (mem_live.mp he).1
  linarith

end WsServer.Reactor
