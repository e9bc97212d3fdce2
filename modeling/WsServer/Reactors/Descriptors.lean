import WsServer.Reactors.Invariant

/-!
# Events reach the right connection

`close` gives the descriptor back before it removes its entry from the table, and the kernel may
hand the number out again at once, to `onAccept` on another thread or later in the same batch.  The
tables are safe nevertheless: a number that is in the table belongs to an open connection or to a
handler that is about to remove it, on the thread that would have to insert it again.
-/

namespace WsServer.Reactors

open Reactor

variable {opts : Options} {s : Reactors} {l : LoopThread}

theorem Inv.tabled (h : Inv opts s) (hl : l ∈ s.loops) (htodo : l.todo = []) :
    Tabled opts.idleTimeoutS l.reactor :=
  LoopThread.settled_of_todo_nil htodo ▸ (h.healthy l hl).tabled

/-- Also while a handler is running, open connections have different descriptors. -/
theorem Inv.fd_inj (h : Inv opts s) (hl : l ∈ s.loops) {c c' : ConnId} {conn conn' : Session}
    (hopen : l.reactor.IsOpen c conn) (hopen' : l.reactor.IsOpen c' conn')
    (hfd : conn.conn.fd = conn'.conn.fd) : c = c' := by
  have hsessions : l.settled.sessions = l.reactor.sessions := sessions_settle _ _
  have htabled := (h.healthy l hl).tabled
  exact htabled.fd_inj ⟨hsessions ▸ hopen.1, hopen.2⟩ ⟨hsessions ▸ hopen'.1, hopen'.2⟩ hfd

/-- **Descriptors.**  In every state of every run: open connections of a loop have different
descriptors, and between handlers each stands in the table under its own; what `addConnection`
inserts is not in the table; what `removeConnection` removes is the entry of the connection that is
being closed; and the next event of a batch finds the connection that was registered when
`epoll_wait` returned. -/
theorem descriptors_run (opts : Options) (inUse : Finset ℤ) (now : TimePoint)
    (labels : List ReactorsLabel) :
    let s := Transition.run (step opts) (start opts inUse now) labels
    (∀ l ∈ s.loops, ∀ c c' conn conn', l.reactor.IsOpen c conn → l.reactor.IsOpen c' conn' →
      conn.conn.fd = conn'.conn.fd → c = c') ∧
    (∀ l ∈ s.loops, l.todo = [] → ∀ fd c, l.reactor.connections.find? fd = some c ↔
      ∃ conn, l.reactor.IsOpen c conn ∧ conn.conn.fd = fd) ∧
    (∀ l ∈ s.loops, ∀ fd c rest, l.todo = .addConnection fd c :: rest →
      l.reactor.connections.find? fd = none) ∧
    (∀ l ∈ s.loops, ∀ fd c rest, l.todo = .removeConnection fd c :: rest →
      l.reactor.connections.find? fd = some c) ∧
    (∀ l ∈ s.loops, l.todo = [] → ∀ fd c hangup readable writable rest,
      l.phase = .dispatching (.connection fd c hangup readable writable :: rest) →
      l.reactor.connections.find? fd = some c) := by
  intro s
  have h : Inv opts s := inv_run opts inUse now labels
  refine ⟨?_, ?_, ?_, ?_, ?_⟩
  · intro l hl c c' conn conn' hopen hopen' hfd
    exact h.fd_inj hl hopen hopen' hfd
  · intro l hl htodo fd c
    exact (h.tabled hl htodo).find fd c
  · intro l hl fd c rest htodo
    have hsound := (h.healthy l hl).sound
    rw [htodo] at hsound
    exact hsound.1
  · intro l hl fd c rest htodo
    have hsound := (h.healthy l hl).sound
    rw [htodo] at hsound
    exact hsound.1
  · intro l hl htodo fd c hangup readable writable rest hphase
    have hawaits := (h.healthy l hl).batch _ hphase
    rw [LoopThread.settled_of_todo_nil htodo] at hawaits
    exact hawaits.find fd c hangup readable writable List.mem_cons_self

end WsServer.Reactors
