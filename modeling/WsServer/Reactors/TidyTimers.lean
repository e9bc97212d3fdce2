import WsServer.Reactor.TidyTimers
import WsServer.Reactors.EachLoop
import WsServer.Reactors.Idle

/-!
# The heaps of a server

What `Tidy` says of a loop between two handlers, for the loops of a server: the heap of a loop
holds its open connections and those that were closed less than a timeout before the last
`expire()`, each once, and `cancelled_` is the set of the latter.  Cancelling the id of an entry
that has left the heap, which would stay in the set for good, is something that no server does.
-/

namespace WsServer

open Reactor TimerHeap

variable {idleTimeoutS : ℤ} {l l' : LoopThread}

namespace Reactor

variable {clock : TimePoint} {r : Reactor}

theorem Tidy.nodup_cb (h : Tidy idleTimeoutS clock r) : (r.timers.heap.map Entry.cb).Nodup :=
  (List.Nodup.of_map _ h.numbered.nodup).map_on fun _ he _ he' hcb => h.eq_of_cb he he' hcb

theorem Tidy.mem_cancelled (h : Tidy idleTimeoutS clock r) (id : TimerId) :
    id ∈ r.timers.cancelled ↔ ∃ e ∈ r.timers.heap, e.id = id ∧
      ∃ s, r.sessions[e.cb]? = some s ∧ s.conn.closed = true := by
  constructor
  · intro hid
    obtain ⟨e, he, rfl⟩ := h.marked id hid
    obtain ⟨s, hs⟩ := h.exists_session he
    exact ⟨e, he, rfl, s, hs, ((h.filed e.cb s hs).cancelled e he rfl).mp hid⟩
  · rintro ⟨e, he, rfl, s, hs, hclosed⟩
    exact ((h.filed e.cb s hs).cancelled e he rfl).mpr hclosed

/-- The entries that are cancelled are as many as the ids in the set. -/
theorem Tidy.length_heap (h : Tidy idleTimeoutS clock r) :
    r.timers.heap.length = r.timers.live.length + r.timers.cancelled.card := by
  let dead := r.timers.heap.filter fun e => !r.timers.isLive e
  have hnodup : (dead.map Entry.id).Nodup := h.numbered.nodup.sublist (List.filter_sublist.map _)
  have hsame : (dead.map Entry.id).toFinset = r.timers.cancelled := by
    ext id
    rw [List.mem_toFinset, List.mem_map]
    constructor
    · rintro ⟨e, he, rfl⟩
      simpa [isLive] using (List.mem_filter.mp he).2
    · intro hid
      obtain ⟨e, he, rfl⟩ := h.marked id hid
      exact ⟨e, List.mem_filter.mpr ⟨he, by simpa [isLive] using hid⟩, rfl⟩
  have hdead : dead.length = r.timers.cancelled.card := by
    rw [← hsame, List.toFinset_card_of_nodup hnodup, List.length_map]
  rw [← hdead, live]
  exact List.length_eq_length_filter_add r.timers.isLive

end Reactor

namespace LoopThread

/-- The heap of a loop when all actions have been performed. -/
def TidyTimers (idleTimeoutS : ℤ) (l : LoopThread) : Prop := Tidy idleTimeoutS l.clock l.settled

theorem tidyTimers_runs (h : TidyTimers idleTimeoutS l) (htabled : Tabled idleTimeoutS l.reactor)
    (htodo : l.todo = [])
    (hfree : ∀ fd rest, l.phase = .executing (fd :: rest) →
      0 ≤ fd ∧ l.reactor.connections.find? fd = none)
    (hrun : Runs idleTimeoutS l l') : TidyTimers idleTimeoutS l' := by
  have htidy : Tidy idleTimeoutS l.clock l.reactor := settled_of_todo_nil htodo ▸ h
  cases hrun with
  | ready batch hphase hreports => exact h
  | wakeup rest hphase => exact h
  | dispatch fd c hangup readable writable rest now r' todo hphase hle hrun =>
      exact tidy_handles htabled (htidy.mono hle) hrun
  | expire now hphase hle => exact Tidy.mono h hle
  | drop t k now e timers hphase hle hpop hcancelled =>
      obtain ⟨hmem, -, -, rfl⟩ := TimerHeap.pop?_spec htidy.numbered hpop
      exact tidy_forget (htidy.mono hle) hmem (by simpa [isLive] using hcancelled)
  | fire t k now e timers r' todo hphase hle hpop hlive hrun =>
      obtain ⟨hmem, -, -, rfl⟩ := TimerHeap.pop?_spec htidy.numbered hpop
      exact tidy_fires htabled (htidy.mono hle) (List.mem_filter.mpr ⟨hmem, hlive⟩) hrun
  | expired t hphase hdue => exact h
  | swap t hphase => exact h
  | execute fd rest now hphase hle =>
      have hunregistered : l.reactor.registered.find? fd = none := by
        rw [htabled.registered, (hfree fd rest hphase).2]
      exact tidy_attachConnection (htidy.mono hle) hunregistered
  | poll hphase => exact h

end LoopThread

namespace Reactors

variable {opts : Options}

theorem kept_tidyTimers (opts : Options) :
    Kept opts (LoopThread.TidyTimers opts.idleTimeoutS) := by
  refine ⟨fun listens now => tidy_empty, fun i label l l' h hhappens => ?_⟩
  cases hhappens with
  | nothing hother => exact h
  | goesOn l' action hlabel hwork hstep =>
      have hrun := LoopThread.step?_cases hwork.tabled hstep
      exact LoopThread.tidyTimers_runs h hwork.tabled hwork.todo hwork.free hrun
  | performs a rest hlabel htodo =>
      unfold LoopThread.TidyTimers LoopThread.settled at h
      rw [htodo] at h
      exact h
  | returns rest hother hphase => exact h
  | attaches fd now rest hlabel hone hphase hwork hfd hfree hle =>
      have htidy : Tidy opts.idleTimeoutS l.clock l.reactor :=
        LoopThread.settled_of_todo_nil hwork.todo ▸ h
      have hunregistered : l.reactor.registered.find? fd = none := by
        rw [hwork.tabled.registered, hfree]
      exact tidy_attachConnection (htidy.mono hle) hunregistered
  | queues fd hother => exact h

/-- What the heap of a loop holds. -/
structure HeapBounded (opts : Options) (l : LoopThread) : Prop where
  /-- Each connection has one entry at most. -/
  once : (l.reactor.timers.heap.map Entry.cb).Nodup
  attached : ∀ e ∈ l.reactor.timers.heap, e.cb < l.reactor.sessions.length
  /-- The cancelled ids are those of the closed connections that are still in the heap. -/
  cancelled : ∀ id, id ∈ l.reactor.timers.cancelled ↔ ∃ e ∈ l.reactor.timers.heap, e.id = id ∧
    ∃ conn, l.reactor.sessions[e.cb]? = some conn ∧ conn.conn.closed = true
  length : l.reactor.timers.heap.length =
    (if 0 < opts.idleTimeoutS then l.reactor.openCount else 0) + l.reactor.timers.cancelled.card
  /-- No entry is more than a timeout ahead. -/
  horizon : ∀ e ∈ l.reactor.timers.heap, e.when ≤ l.clock + opts.idleTimeoutS * 1000000000
  /-- Behind `expire()` at `t` none is left that was due. -/
  swept : ∀ t, l.phase = .calling t → ∀ e ∈ l.reactor.timers.heap, t < e.when

theorem heapBounded {l : LoopThread} (hhealthy : l.Healthy opts.idleTimeoutS) (htodo : l.todo = [])
    (htidy : Tidy opts.idleTimeoutS l.clock l.reactor) : HeapBounded opts l := by
  refine ⟨htidy.nodup_cb, htidy.attached, htidy.mem_cancelled, ?_, ?_, ?_⟩
  · rw [htidy.length_heap]
    congr 1
    by_cases hpos : 0 < opts.idleTimeoutS
    · have htimed : Timed opts.idleTimeoutS l.clock l.reactor :=
        LoopThread.settled_of_todo_nil htodo ▸ hhealthy.timed hpos
      rw [if_pos hpos, htimed.length_live]
    · rw [if_neg hpos, live, htidy.off (not_lt.mp hpos)]
      rfl
  · intro e he
    obtain ⟨s, hs⟩ := htidy.exists_session he
    exact (htidy.filed e.cb s hs).horizon e he rfl
  · intro t hphase e he
    have hdue := (hhealthy.called t hphase).2
    rw [isDue, List.any_eq_false] at hdue
    simpa using hdue e he

/-- Between the handlers of a loop its heap holds no more than that. -/
structure HeapsBounded (opts : Options) (s : Reactors) : Prop where
  each : ∀ l ∈ s.loops, l.todo = [] → HeapBounded opts l

/-- **The heaps of a server**, in every state of every run. -/
theorem heaps_run (opts : Options) (inUse : Finset ℤ) (now : TimePoint)
    (labels : List ReactorsLabel) :
    HeapsBounded opts (Transition.run (step opts) (start opts inUse now) labels) := by
  refine ⟨fun l hl htodo => ?_⟩
  have htidy := (kept_tidyTimers opts).run inUse now labels l hl
  unfold LoopThread.TidyTimers at htidy
  rw [LoopThread.settled_of_todo_nil htodo] at htidy
  exact heapBounded ((inv_run opts inUse now labels).healthy l hl) htodo htidy

/-- A connection that hangs up at once leaves an entry and its id behind, for a minute. -/
example :
    let env : Env := ⟨fun _ _ => {}, fun _ => .failed⟩
    let labels : List ReactorsLabel := [.thread 0 (.ready [.acceptor]), .onAccept, .accept 5,
      .loadOpened, .loadClosed, .check 7, .perform 0, .perform 0, .perform 0, .perform 0,
      .acceptFailed, .thread 0 (.expire 8), .thread 0 .expired, .thread 0 .swap, .thread 0 .poll,
      .thread 0 (.ready [.connection 5 0 true false false]),
      .thread 0 (.dispatch env ⟨[], .eof⟩), .perform 0, .perform 0, .perform 0, .perform 0,
      .perform 0]
    let s := Transition.run (step {}) (start {} ∅ 0) labels
    s.closed = 1 ∧ s.loops.map (fun l => l.reactor.timers.heap) = [[⟨60000000007, 0, 1⟩]] ∧
      s.loops.map (fun l => l.reactor.timers.cancelled) = [{1}] := by
  exact ⟨by decide, by decide, by decide⟩

end Reactors

end WsServer
