import WsServer.Reactors.Idle

/-!
# The accounts of connections

`opened - closed` is what `onAccept` takes for the number of connections.  The two counters are
incremented behind everything else, so they are exact when no handler is running, and then they
agree with the tables.
-/

namespace WsServer

open Ledger Reactor

namespace Reactor

variable {idleTimeoutS : ℤ} {r : Reactor}

theorem mem_openFds {fd : ℤ} (h : Tabled idleTimeoutS r) :
    fd ∈ r.openFds ↔ (r.connections.find? fd).isSome := by
  rw [Option.isSome_iff_exists, openFds, mem_total]
  simp only [h.find]
  constructor
  · rintro ⟨s, hs, hfd⟩
    obtain ⟨c, hc⟩ := List.mem_iff_getElem?.mp hs
    unfold Session.openFd at hfd
    split at hfd
    · simp at hfd
    · rename_i hopen
      exact ⟨c, s, ⟨hc, by simpa using hopen⟩, (Multiset.mem_singleton.mp hfd).symm⟩
  · rintro ⟨c, s, ⟨hs, hopen⟩, rfl⟩
    refine ⟨s, List.mem_of_getElem? hs, ?_⟩
    rw [Session.openFd, if_neg (by simp [hopen])]
    exact Multiset.mem_singleton_self _

/-- The table has an entry for each open connection. -/
theorem size_connections (h : Tabled idleTimeoutS r) (hnodup : r.openFds.Nodup) :
    r.connections.size = r.openCount := by
  have hkeys : r.connections.keys.toFinset = r.openFds.toFinset := by
    ext fd
    rw [List.mem_toFinset, SortedMap.mem_keys_iff, Multiset.mem_toFinset, mem_openFds h]
  rw [SortedMap.size_eq_card_keys, hkeys, Multiset.toFinset_card_of_nodup hnodup, card_openFds]

/-- Every connection attached is open or has been closed once. -/
theorem openCount_add_closedCount (h : Tabled idleTimeoutS r) :
    r.openCount + r.closedCount = r.sessions.length := by
  rw [openCount, closedCount, ← total_add, ← total_one]
  refine total_congr fun s hs => ?_
  have hwhole := h.whole s hs
  unfold Session.openCount
  cases hclosed : s.conn.closed with
  | true => simp [(hwhole.ended hclosed).2.2]
  | false => simp [(hwhole.opened hclosed).2]

/-- The four signs of a closed connection. -/
structure ClosedAlike (idleTimeoutS : ℤ) (r : Reactor) (c : ConnId) (s : Session) : Prop where
  fd : s.conn.closed = true ↔ s.conn.fd = -1
  absent : s.conn.closed = true ↔ ∀ fd, r.connections.find? fd ≠ some c
  timer : 0 < idleTimeoutS → (s.conn.closed = true ↔ ∀ e ∈ r.timers.live, e.cb ≠ c)

theorem closedAlike {clock : TimePoint} (h : Tabled idleTimeoutS r)
    (htimed : 0 < idleTimeoutS → Timed idleTimeoutS clock r) {c : ConnId} {s : Session}
    (hs : r.sessions[c]? = some s) : ClosedAlike idleTimeoutS r c s := by
  have hwhole := h.whole s (List.mem_of_getElem? hs)
  cases hclosed : s.conn.closed with
  | true =>
      have hgone : ∀ s₁, ¬r.IsOpen c s₁ := by
        intro s₁ hopen
        rw [isOpen_iff hs, hclosed] at hopen
        simp at hopen
      refine ⟨iff_of_true hclosed (hwhole.ended hclosed).1, iff_of_true hclosed fun fd hfind => ?_,
        fun hpos => iff_of_true hclosed fun e he hcb => ?_⟩
      · obtain ⟨s₁, hopen, -⟩ := (h.find fd c).mp hfind
        exact hgone s₁ hopen
      · obtain ⟨s₁, hopen, -⟩ := (htimed hpos).belongs e he
        exact hgone s₁ (hcb ▸ hopen)
  | false =>
      have hopen : r.IsOpen c s := ⟨hs, hclosed⟩
      have hnot : ¬s.conn.closed = true := by simp [hclosed]
      refine ⟨iff_of_false hnot ?_, iff_of_false hnot fun hall => ?_,
        fun hpos => iff_of_false hnot fun hall => ?_⟩
      · have hfd := (hwhole.opened hclosed).1
        omega
      · exact hall s.conn.fd ((h.find s.conn.fd c).mpr ⟨s, hopen, rfl⟩)
      · obtain ⟨e, he, hcb, -⟩ := (htimed hpos).armed c s hopen
        exact hall e he hcb

end Reactor

namespace Reactors

variable {opts : Options} {s : Reactors} {l : LoopThread}

/-- No handler is running. -/
def Quiet (s : Reactors) : Prop := ∀ l ∈ s.loops, l.todo = []

theorem total_todo_of_quiet (h : s.Quiet) (f : Action → ℕ) :
    total (fun l => total f l.todo) s.loops = 0 := by
  refine total_eq_zero fun l hl => ?_
  rw [h l hl, total_nil]

theorem Inv.openFds_nodup (h : Inv opts s) (hl : l ∈ s.loops) : l.reactor.openFds.Nodup := by
  have hnodup := h.nodup
  rw [held] at hnodup
  have howned := nodup_of_total (Multiset.nodup_add.mp hnodup).2.1 hl
  exact (Multiset.nodup_add.mp (Multiset.nodup_add.mp howned).2.1).1

/-- The counters, when no handler is running. -/
theorem Inv.counters (h : Inv opts s) (hquiet : s.Quiet) :
    s.opened = total (fun l => l.reactor.sessions.length) s.loops ∧
      s.closed = total (fun l => l.reactor.closedCount) s.loops := by
  have hopened := h.opened
  have hclosed := h.closed
  have := total_todo_of_quiet hquiet Action.openedCount
  have := total_todo_of_quiet hquiet Action.closedCount
  unfold LoopThread.uncountedOpened at hopened
  unfold LoopThread.uncountedClosed at hclosed
  omega

/-- `opened - closed`, when no handler is running. -/
theorem Inv.opened_eq (h : Inv opts s) (hquiet : s.Quiet) :
    s.opened = s.closed + total (fun l => l.reactor.openCount) s.loops := by
  obtain ⟨hopened, hclosed⟩ := h.counters hquiet
  rw [hopened, hclosed, ← total_add]
  refine total_congr fun l hl => ?_
  rw [← openCount_add_closedCount (h.tabled hl (hquiet l hl)), add_comm]

/-- **Accounts.**  In every state of every run in which no handler is running, `opened - closed` is
the number of entries in all tables, with every connection counted once in `opened` and in `closed`
as often as it has been closed, which is at most once; and on every loop on which none is running,
the signs of a closed connection agree. -/
theorem accounting_run (opts : Options) (inUse : Finset ℤ) (now : TimePoint)
    (labels : List ReactorsLabel) :
    let s := Transition.run (step opts) (start opts inUse now) labels
    (s.Quiet → (s.opened : ℤ) - s.closed = total (fun l => l.reactor.connections.size) s.loops ∧
      s.opened = total (fun l => l.reactor.sessions.length) s.loops ∧
      s.closed = total (fun l => l.reactor.closedCount) s.loops) ∧
    (∀ l ∈ s.loops, ∀ conn ∈ l.reactor.sessions, conn.counters.closed ≤ 1) ∧
    (∀ l ∈ s.loops, l.todo = [] → ∀ c conn, l.reactor.sessions[c]? = some conn →
      ClosedAlike opts.idleTimeoutS l.reactor c conn) := by
  intro s
  have h : Inv opts s := inv_run opts inUse now labels
  refine ⟨fun hquiet => ⟨?_, h.counters hquiet⟩, ?_, ?_⟩
  · have hsizes : total (fun l => l.reactor.connections.size) s.loops =
        total (fun l => l.reactor.openCount) s.loops :=
      total_congr fun l hl => size_connections (h.tabled hl (hquiet l hl)) (h.openFds_nodup hl)
    have hopened := h.opened_eq hquiet
    rw [hsizes]
    omega
  · intro l hl conn hconn
    have hsessions : l.settled.sessions = l.reactor.sessions := sessions_settle _ _
    have hwhole := (h.healthy l hl).tabled.whole conn (hsessions ▸ hconn)
    cases hclosed : conn.conn.closed with
    | true => exact (hwhole.ended hclosed).2.2.le
    | false => exact (hwhole.opened hclosed).2.trans_le (Nat.zero_le 1)
  · intro l hl htodo c conn hconn
    exact closedAlike (h.tabled hl htodo) (fun hpos => h.timed hpos hl htodo) hconn

end Reactors

end WsServer
