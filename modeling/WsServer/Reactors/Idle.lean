import WsServer.Reactors.Descriptors

/-!
# One timer for each connection, and idle connections

What `Timed` says of a loop between two handlers, for the loops of a server: how many entries the
heap has does not depend on how many requests were served, and an idle connection is closed no
earlier than the timeout and no later than the first `expire()` after two of them.
-/

namespace WsServer

open Ledger Reactor TimerHeap

namespace Reactor

variable {idleTimeoutS : ℤ} {clock : TimePoint} {r : Reactor}

/-- The entries that are not cancelled and the open connections belong together, one to one. -/
structure OneTimerEach (r : Reactor) : Prop where
  entry : ∀ c conn, r.IsOpen c conn → ∃ e, r.timers.live.filter (fun e => e.cb = c) = [e] ∧
    e.id = conn.conn.idleTimer
  belongs : ∀ e ∈ r.timers.live, ∃ conn, r.IsOpen e.cb conn
  count : r.timers.live.length = r.openCount

theorem nodup_live (h : r.timers.WellNumbered) : r.timers.live.Nodup :=
  (List.Nodup.of_map _ h.nodup).sublist List.filter_sublist

theorem filter_live_eq (h : Timed idleTimeoutS clock r) {c : ConnId} {e : Entry ConnId}
    (he : e ∈ r.timers.live) (hcb : e.cb = c) :
    r.timers.live.filter (fun e => e.cb = c) = [e] := by
  have hnodup := (nodup_live h.numbered).filter (fun e => decide (e.cb = c))
  refine List.perm_singleton.mp ((List.perm_ext_iff_of_nodup hnodup (by simp)).mpr fun e' => ?_)
  rw [List.mem_filter, decide_eq_true_eq, List.mem_singleton]
  constructor
  · rintro ⟨he', hcb'⟩
    exact h.eq_of_cb he' he (hcb'.trans hcb.symm)
  · rintro rfl
    exact ⟨he, hcb⟩

/-- The places of the open connections. -/
def openIds (r : Reactor) : Finset ConnId :=
  (Finset.range r.sessions.length).filter fun c => (r.sessions[c]?).any fun s => !s.conn.closed

theorem mem_openIds {c : ConnId} : c ∈ r.openIds ↔ ∃ s, r.IsOpen c s := by
  rw [openIds, Finset.mem_filter, Finset.mem_range]
  constructor
  · rintro ⟨hlt, hopen⟩
    rw [List.getElem?_eq_getElem hlt] at hopen
    exact ⟨r.sessions[c], List.getElem?_eq_getElem hlt, by simpa using hopen⟩
  · rintro ⟨s, hs, hopen⟩
    refine ⟨(List.getElem?_eq_some_iff.mp hs).1, ?_⟩
    rw [hs]
    simpa using hopen

theorem card_openIds (r : Reactor) : r.openIds.card = r.openCount := by
  rw [openIds, Finset.card_filter, openCount, total_eq_sum_range]
  refine Finset.sum_congr rfl fun c _ => ?_
  cases r.sessions[c]? with
  | none => rfl
  | some s =>
      show (if (!s.conn.closed) = true then 1 else 0) = if s.conn.closed = true then 0 else 1
      cases s.conn.closed with
      | _ => rfl

theorem Timed.length_live (h : Timed idleTimeoutS clock r) :
    r.timers.live.length = r.openCount := by
  have hnodup : (r.timers.live.map Entry.cb).Nodup :=
    (nodup_live h.numbered).map_on fun e he e' he' hcb => h.eq_of_cb he he' hcb
  have hsame : (r.timers.live.map Entry.cb).toFinset = r.openIds := by
    ext c
    rw [List.mem_toFinset, List.mem_map, mem_openIds]
    constructor
    · rintro ⟨e, he, rfl⟩
      obtain ⟨s, hs, -⟩ := h.belongs e he
      exact ⟨s, hs⟩
    · rintro ⟨s, hs⟩
      obtain ⟨e, he, hcb, -⟩ := h.armed c s hs
      exact ⟨e, he, hcb⟩
  rw [← card_openIds, ← hsame, List.toFinset_card_of_nodup hnodup, List.length_map]

theorem Timed.oneTimerEach (h : Timed idleTimeoutS clock r) : OneTimerEach r := by
  refine ⟨?_, ?_, h.length_live⟩
  · intro c conn hopen
    obtain ⟨e, he, hcb, hid⟩ := h.armed c conn hopen
    exact ⟨e, filter_live_eq h he hcb, hid⟩
  · intro e he
    obtain ⟨conn, hopen, -⟩ := h.belongs e he
    exact ⟨conn, hopen⟩

end Reactor

namespace LoopThread

theorem due_of_fire {idleTimeoutS : ℤ} {l l' : LoopThread}
    (htabled : Tabled idleTimeoutS l.reactor) {k : ℕ} {t : TimePoint}
    (h : l.step? idleTimeoutS (.fire k t) = some l') {c : ConnId} {conn conn' : Session}
    (hopen : l.reactor.IsOpen c conn) (hconn' : l'.reactor.sessions[c]? = some conn')
    (hclosed : conn'.conn.closed = true) :
    conn.conn.idleTimeoutS * 1000000000 ≤ t - conn.conn.lastActivity := by
  unfold step? at h
  split at h
  all_goals try contradiction
  rename_i t₀ k' now' hphase hlabel
  obtain ⟨rfl, rfl⟩ := ThreadLabel.fire.inj hlabel
  simp only [Option.ite_none_right_eq_some, Option.map_eq_some_iff] at h
  obtain ⟨-, result, hone, rfl⟩ := h
  obtain ⟨e, timers, -, ⟨-, rfl⟩ | ⟨-, hrun⟩⟩ := expireOne_cases htabled hone
  · obtain rfl : conn = conn' := Option.some.inj (hopen.1.symm.trans hconn')
    rw [hopen.2] at hclosed
    simp at hclosed
  · exact due_of_fires hrun hopen hconn' hclosed

end LoopThread

namespace Reactors

variable {opts : Options} {s : Reactors} {l : LoopThread}

theorem Inv.timed (h : Inv opts s) (hpos : 0 < opts.idleTimeoutS) (hl : l ∈ s.loops)
    (htodo : l.todo = []) : Timed opts.idleTimeoutS l.clock l.reactor :=
  LoopThread.settled_of_todo_nil htodo ▸ (h.healthy l hl).timed hpos

/-- A step of one loop. -/
theorem step?_thread {i : ℕ} {label : ThreadLabel} {s s' : Reactors} {l l' : LoopThread}
    (h : s.step? opts (.thread i label) = some s') (hl : s.loops[i]? = some l)
    (hl' : s'.loops[i]? = some l') :
    l.todo = [] ∧ l.step? opts.idleTimeoutS label = some l' := by
  simp only [step?, hl, Option.ite_none_right_eq_some, Option.map_eq_some_iff] at h
  obtain ⟨⟨htodo, -⟩, l₁, hstep, rfl⟩ := h
  rw [List.getElem?_set_self (List.getElem?_eq_some_iff.mp hl).1, Option.some.injEq] at hl'
  exact ⟨List.isEmpty_iff.mp htodo, hl' ▸ hstep⟩

/-- On every loop on which no handler is running, the entries are in order. -/
structure TimersInOrder (s : Reactors) : Prop where
  each : ∀ l ∈ s.loops, l.todo = [] → l.reactor.OneTimerEach

/-- **One timer for each connection**, in every state of every run. -/
theorem timers_run (opts : Options) (hpos : 0 < opts.idleTimeoutS) (inUse : Finset ℤ)
    (now : TimePoint) (labels : List ReactorsLabel) :
    TimersInOrder (Transition.run (step opts) (start opts inUse now) labels) := by
  have h := inv_run opts inUse now labels
  exact ⟨fun l hl htodo => (h.timed hpos hl htodo).oneTimerEach⟩

/-- A run in which one connection is attached and stays open. -/
theorem timers_run_sample :
    let labels : List ReactorsLabel := [.thread 0 (.ready [.acceptor]), .onAccept, .accept 5,
      .loadOpened, .loadClosed, .check 7, .perform 0, .perform 0, .perform 0, .perform 0]
    let s := Transition.run (step {}) (start {} ∅ 0) labels
    s.loops.map (fun l => l.reactor.timers.live.length) = [1] ∧ TimersInOrder s := by
  exact ⟨by decide, timers_run {} (by decide) ∅ 0 _⟩

/-- What the idle timer does, in nanoseconds. -/
structure Reaps (opts : Options) (s : Reactors) : Prop where
  /-- The callback of a timer closes only what has been idle for the timeout. -/
  notEarly : ∀ i k t s' l l' c conn conn', s.step? opts (.thread i (.fire k t)) = some s' →
    s.loops[i]? = some l → s'.loops[i]? = some l' → l.reactor.IsOpen c conn →
    l'.reactor.sessions[c]? = some conn' → conn'.conn.closed = true →
    opts.idleTimeoutS * 1000000000 ≤ t - conn.conn.lastActivity
  /-- Behind `expire()` at `t` nothing has been idle for two timeouts. -/
  notLate : ∀ l ∈ s.loops, ∀ t, l.phase = .calling t → ∀ c conn, l.reactor.IsOpen c conn →
    t - conn.conn.lastActivity < 2 * (opts.idleTimeoutS * 1000000000)

/-- **Idle connections**, in every state of every run. -/
theorem reaps_run (opts : Options) (hpos : 0 < opts.idleTimeoutS) (inUse : Finset ℤ)
    (now : TimePoint) (labels : List ReactorsLabel) :
    Reaps opts (Transition.run (step opts) (start opts inUse now) labels) := by
  have h := inv_run opts inUse now labels
  refine ⟨?_, ?_⟩
  · intro i k t s' l l' c conn conn' hstep hl hl' hopen hconn' hclosed
    have hmem := List.mem_of_getElem? hl
    obtain ⟨htodo, hfire⟩ := step?_thread hstep hl hl'
    have htabled := h.tabled hmem htodo
    rw [← (htabled.whole conn (List.mem_of_getElem? hopen.1)).timeout]
    exact LoopThread.due_of_fire htabled hfire hopen hconn' hclosed
  · intro l hl t hphase c conn hopen
    obtain ⟨htodo, hdue⟩ := (h.healthy l hl).called t hphase
    exact (h.timed hpos hl htodo).recent hdue hopen

/-- A run in which one connection is attached, and closed when it has been idle for a minute. -/
theorem reaps_run_sample :
    let labels : List ReactorsLabel := [.thread 0 (.ready [.acceptor]), .onAccept, .accept 5,
      .loadOpened, .loadClosed, .check 7, .perform 0, .perform 0, .perform 0, .perform 0,
      .acceptFailed, .thread 0 (.expire 60000000007), .thread 0 (.fire 0 60000000008), .perform 0,
      .perform 0, .perform 0, .perform 0, .thread 0 .expired]
    let s := Transition.run (step {}) (start {} ∅ 0) labels
    (s.opened, s.closed) = (1, 1) ∧ Reaps {} s := by
  exact ⟨by decide, reaps_run {} (by decide) ∅ 0 _⟩

end Reactors

end WsServer
