import WsServer.Connection.Pipelining
import WsServer.Parser.Retention

/-!
# What a connection has read and not answered

A call of `handleRead` reads all that has arrived, however much it is, and takes the complete
requests out of it.  What is left on a connection that goes on is the beginning of one line, or of
one body of the length that its head has announced (`Waiting`), and no request is left in the
parser that has been answered.  Everything before that the parser has taken in whole lines and
bodies, without a byte lost or repeated (`Taken`).

A connection that waits for its output to be sent before it is closed may have stopped in the middle
of its input, and what arrives after that stays in the buffer.
-/

namespace WsServer

open CString HttpParser

namespace Session

variable {s s' : Session} {data : Bytes}

/-! ## Waiting -/

structure Waiting (s : Session) : Prop where
  valid : Valid s.conn.parser
  waits : s.conn.closed = false → s.conn.closeAfterWrite = false →
    Waits s.conn.parser s.conn.input.readable

theorem waits_fresh : Waits {} [] := .inl ⟨.inl rfl, Nat.zero_le _, rfl⟩

theorem waiting_start (fd idleTimeoutS : ℤ) (now : TimePoint) :
    Waiting (start fd idleTimeoutS now) := by
  refine ⟨Valid.fresh, fun _ _ => ?_⟩
  rw [readable_input_start]
  exact waits_fresh

/-- What does not touch the reading half of a connection. -/
theorem Waiting.of_sameReading (h : Waiting s) (hsame : SameReading s s')
    (hclosing : s'.conn.closeAfterWrite = s.conn.closeAfterWrite) : Waiting s' := by
  refine ⟨?_, fun hopen hflag => ?_⟩
  · rw [hsame.parser]
    exact h.valid
  · rw [hsame.parser, hsame.input]
    exact h.waits (hsame.keepsFd hopen).1 (hclosing.symm.trans hflag)

theorem waiting_of_closed (hvalid : Valid s.conn.parser) (hclosed : s.conn.closed = true) :
    Waiting s := by
  refine ⟨hvalid, fun hopen => ?_⟩
  rw [hclosed] at hopen
  cases hopen

/-- The last response sets the flag. -/
theorem closing_of_keepAlive_eq_false (env : Env)
    (hkeep : (s.answerRequest env).conn.keepAlive = false) :
    (s.answerRequest env).conn.closeAfterWrite = true := by
  rw [keepAlive_answerRequest] at hkeep
  rw [closing_answerRequest, if_neg (by simp [hkeep])]

theorem closing_rejectRequest (env : Env) (s : Session) :
    (s.rejectRequest env).conn.closeAfterWrite = true := by
  unfold rejectRequest
  rw [closing_send]
  rfl

/-- The request loop leaves no complete request, unless it stops at the last one. -/
theorem waiting_handleRequest (env : Env) (s : Session) (h : Valid s.conn.parser) :
    Waiting (s.handleRequest env) := by
  fun_induction handleRequest env s with
  | case1 s hret =>
      exact ⟨h.parse s.conn.input, fun _ _ => waits_of_incomplete h hret⟩
  | case2 s hret =>
      have hsame := sameReading_send env s.parseInput.2.countError.markClosing badRequest.toString
      refine ⟨?_, fun _ hflag => ?_⟩
      · show Valid (s.parseInput.2.countError.markClosing.send env _).conn.parser
        rw [hsame.parser]
        exact h.parse s.conn.input
      · rw [closing_rejectRequest] at hflag
        cases hflag
  | case3 s hret s' hlast =>
      refine ⟨Valid.fresh, fun _ hflag => ?_⟩
      rw [closing_of_keepAlive_eq_false env (by simpa using hlast)] at hflag
      cases hflag
  | case4 s hret s' hkeep hempty =>
      refine ⟨Valid.fresh, fun _ _ => ?_⟩
      rw [List.length_eq_zero_iff.mp ((Buffer.length_readable _).trans hempty)]
      exact waits_fresh
  | case5 s hret s' hkeep hmore ih => exact ih Valid.fresh

theorem waiting_handleRead (env : Env) (h : Waiting s) (call : ReadCall) :
    Waiting (s.handleRead env call) := by
  have hvalid : Valid (call.steps.foldl readStep s).conn.parser := by
    rw [(onlyInput_readSteps s call.steps).parser]
    exact h.valid
  unfold handleRead
  cases call.last with
  | eagain now => exact waiting_handleRequest env _ hvalid
  | eof =>
      refine waiting_of_closed ?_ (closed_close _)
      rw [(sameReading_close _).parser]
      exact hvalid
  | failed =>
      refine waiting_of_closed ?_ (closed_close _)
      rw [(sameReading_handleError _).parser]
      exact hvalid

theorem waiting_step (env : Env) (s : Session) (event : Event) (h : Waiting s) :
    Waiting (s.step env event) := by
  unfold step
  split
  · exact h
  · cases event with
    | hangup => exact h.of_sameReading (sameReading_handleError s) (silent_handleError s).closing
    | read call => exact waiting_handleRead env h call
    | write => exact h.of_sameReading (sameReading_handleWrite env s) (closing_handleWrite env s)
    | idle now fresh =>
        exact h.of_sameReading (sameReading_onIdleTimer s now fresh)
          (silent_onIdleTimer s now fresh).closing
    | send data => exact h.of_sameReading (sameReading_send env s data) (closing_send env s data)

theorem waiting_run (env : Env) (fd idleTimeoutS : ℤ) (now : TimePoint) (events : List Event) :
    Waiting (run env (start fd idleTimeoutS now) events) :=
  Transition.run_invariant (waiting_step env) (waiting_start fd idleTimeoutS now) events

/-- The limits on the input bound what is left of it. -/
theorem Waiting.length_le (h : Waiting s) (hopen : s.conn.closed = false)
    (hflag : s.conn.closeAfterWrite = false) : s.conn.input.readableBytes ≤ kMaxBody := by
  rw [← Buffer.length_readable]
  rcases h.waits hopen hflag with ⟨-, hle, -⟩ | ⟨-, hlt, hle⟩
  · exact hle.trans (by decide)
  · exact hlt.le.trans hle

/-! ## What has been taken -/

/-- The parser has taken the bytes in whole items, up to those that are left in the input. -/
def Taken (s : Session) (data : Bytes) : Prop :=
  ∃ items, HasRead items s.conn.parser ∧ data = itemBytes items ++ s.conn.input.readable

theorem Taken.of_sameReading (h : Taken s data) (hsame : SameReading s s') : Taken s' data := by
  obtain ⟨items, hread, hbytes⟩ := h
  refine ⟨items, ?_, ?_⟩
  · rw [hsame.parser]
    exact hread
  · rw [hsame.input]
    exact hbytes

theorem taken_start (fd idleTimeoutS : ℤ) (now : TimePoint) :
    Taken (start fd idleTimeoutS now) [] := by
  refine ⟨[], .fresh, ?_⟩
  rw [readable_input_start]
  rfl

theorem Taken.parseInput (h : Taken s data) : Taken s.parseInput.2 data := by
  obtain ⟨items, hread, hbytes⟩ := h
  obtain ⟨later, hlater, hrest⟩ := hread.parse s.conn.input
  exact ⟨later, hlater, hbytes.trans hrest.symm⟩

/-- The request that has been answered is forgotten, the input behind it is not. -/
theorem Taken.answerRequest (env : Env) (h : Taken s data) : Taken (s.answerRequest env) data := by
  obtain ⟨items, hread, hbytes⟩ := h
  refine ⟨items, hread.reset, ?_⟩
  rw [input_answerRequest]
  exact hbytes

theorem taken_handleRequest (env : Env) (h : Taken s data) : Taken (s.handleRequest env) data := by
  apply handleRequest_invariant (P := fun s => Taken s data) env
  · exact fun _ h => h.parseInput
  · exact fun _ h => h.answerRequest env
  · intro s h
    have hmarked : Taken s.countError.markClosing data := h
    exact hmarked.of_sameReading (sameReading_send env _ badRequest.toString)
  · exact h

theorem taken_handleRead (env : Env) (h : Taken s data) (call : ReadCall) :
    Taken (s.handleRead env call) (data ++ call.received) := by
  obtain ⟨items, hread, hbytes⟩ := h
  have hsteps : Taken (call.steps.foldl readStep s) (data ++ call.received) := by
    refine ⟨items, ?_, ?_⟩
    · rw [(onlyInput_readSteps s call.steps).parser]
      exact hread
    · rw [readable_readSteps, ← List.append_assoc, ← hbytes]
      rfl
  unfold handleRead
  cases call.last with
  | eagain now => exact taken_handleRequest env hsteps
  | eof => exact hsteps.of_sameReading (sameReading_close _)
  | failed => exact hsteps.of_sameReading (sameReading_handleError _)

theorem taken_step (env : Env) (h : Taken s data) (hopen : s.conn.closed = false) (event : Event) :
    Taken (s.step env event) (data ++ event.received) := by
  unfold step
  rw [if_neg (by simp [hopen])]
  -- the other events bring no bytes and leave the input as it is
  have hnone {s' : Session} (hsame : SameReading s s') : Taken s' (data ++ []) := by
    rw [List.append_nil]
    exact h.of_sameReading hsame
  cases event with
  | read call => exact taken_handleRead env h call
  | hangup => exact hnone (sameReading_handleError s)
  | write => exact hnone (sameReading_handleWrite env s)
  | idle now fresh => exact hnone (sameReading_onIdleTimer s now fresh)
  | send text => exact hnone (sameReading_send env s text)

/-- Everything that an open connection has received has been taken, or is in its input. -/
theorem taken_run (env : Env) (fd idleTimeoutS : ℤ) (now : TimePoint) {events : List Event}
    (hopen : (run env (start fd idleTimeoutS now) events).conn.closed = false) :
    Taken (run env (start fd idleTimeoutS now) events) (received events) := by
  induction events using List.reverseRecOn with
  | nil => exact taken_start fd idleTimeoutS now
  | append_singleton events event ih =>
      have hrun : run env (start fd idleTimeoutS now) (events ++ [event]) =
          (run env (start fd idleTimeoutS now) events).step env event :=
        Transition.run_concat _ _ _
      rw [hrun] at hopen ⊢
      have hbefore := (keepsFd_step env _ event hopen).1
      rw [received_concat]
      exact taken_step env (ih hbefore) hbefore event

end Session

end WsServer
