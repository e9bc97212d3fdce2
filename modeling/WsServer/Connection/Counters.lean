import WsServer.Connection.Finished
import WsServer.Connection.Pipelining

/-!
# The counters of a connection

`ServerCounters` is incremented where things happen (`stats.h`), so that the counters agree with
what a connection has done is a law about every path through it: each byte that `readv` has
delivered and each byte that `write` has taken is counted once, requests and responses are counted
with the calls of the handler, and a connection is counted as closed once, as timed out at most
once and only if it has been closed (`Accounted`).
-/

namespace WsServer

open CString

namespace Session

variable {env : Env} {s s' s'' : Session}

/-! ## Bytes -/

/-- What has been taken by `write` has been counted, and nothing else. -/
structure Metered (s s' : Session) : Prop where
  bytesRead : s'.counters.bytesRead = s.counters.bytesRead
  bytesWritten : s'.counters.bytesWritten + (accepted s.trace).length =
    s.counters.bytesWritten + (accepted s'.trace).length
  timeoutsClosed : s'.counters.timeoutsClosed = s.counters.timeoutsClosed

theorem Metered.refl (s : Session) : Metered s s := ⟨rfl, rfl, rfl⟩

theorem Metered.trans (h : Metered s s') (h' : Metered s' s'') : Metered s s'' := by
  refine ⟨h'.bytesRead.trans h.bytesRead, ?_, h'.timeoutsClosed.trans h.timeoutsClosed⟩
  have hfirst := h.bytesWritten
  have hsecond := h'.bytesWritten
  omega

/-- Nothing has been read or written. -/
theorem metered_of_accepted (hread : s'.counters.bytesRead = s.counters.bytesRead)
    (hwritten : s'.counters.bytesWritten = s.counters.bytesWritten)
    (htimeouts : s'.counters.timeoutsClosed = s.counters.timeoutsClosed)
    (haccepted : accepted s'.trace = accepted s.trace) : Metered s s' :=
  ⟨hread, by rw [hwritten, haccepted], htimeouts⟩

theorem metered_close (s : Session) : Metered s s.close := by
  have haccepted := (grows_close s).accepted_eq
  unfold close at haccepted ⊢
  split
  · exact .refl s
  · rename_i hopen
    rw [if_neg hopen] at haccepted
    exact metered_of_accepted rfl rfl rfl haccepted

theorem metered_handleError (s : Session) : Metered s s.handleError := by
  have hcount : Metered s s.countError := ⟨rfl, rfl, rfl⟩
  exact hcount.trans (metered_close _)

theorem metered_enableWriting (s : Session) (on : Bool) : Metered s (s.enableWriting on) := by
  have haccepted := (silent_enableWriting s on).grows.accepted_eq
  unfold enableWriting at haccepted ⊢
  split
  · exact .refl s
  · rename_i hopen
    rw [if_neg hopen] at haccepted
    exact metered_of_accepted rfl rfl rfl haccepted

theorem metered_afterWrite (s : Session) : Metered s s.afterWrite := by
  have hoff : Metered s (if s.conn.writing then s.enableWriting false else s) := by
    split
    · exact metered_enableWriting s false
    · exact .refl s
  unfold afterWrite
  split
  · unfold outputSent
    split
    · exact hoff.trans (metered_close _)
    · exact hoff
  · split
    · exact metered_enableWriting s true
    · exact .refl s

/-- What `write` takes is at the front of what it is offered. -/
theorem metered_noteWrite (s : Session) (result : WriteResult) :
    Metered s (s.noteWrite result) := by
  refine ⟨rfl, ?_, rfl⟩
  have hle := accepted_le result s.conn.output.readableBytes
  have htaken : (accepted (s.noteWrite result).trace).length =
      (accepted s.trace).length + result.accepted s.conn.output.readableBytes := by
    show (accepted (s.trace ++ [.write s.conn.output.readable s.conn.writing result])).length = _
    rw [accepted_append, List.length_append]
    simp [accepted, Effect.acceptedBytes, hle]
  rw [htaken]
  show s.counters.bytesWritten + result.accepted s.conn.output.readableBytes + _ = _
  omega

theorem metered_handleWrite (env : Env) (s : Session) : Metered s (s.handleWrite env) := by
  apply handleWrite_elim env
  · exact .refl s
  · exact metered_afterWrite s
  · exact fun result => (metered_noteWrite s result).trans (metered_afterWrite _)
  · exact metered_noteWrite s .eintr
  · exact (metered_noteWrite s .failed).trans (metered_handleError _)

theorem metered_send (env : Env) (s : Session) (data : Bytes) : Metered s (s.send env data) := by
  unfold send
  split
  · exact .refl s
  · have hqueue : Metered s (s.queue data) := by
      refine metered_of_accepted rfl rfl rfl ?_
      show accepted (s.trace ++ [.queue data s.conn.closeAfterWrite]) = _
      rw [accepted_append]
      exact List.append_nil _
    exact hqueue.trans (metered_handleWrite env _)

theorem metered_answerRequest (env : Env) (s : Session) : Metered s (s.answerRequest env) := by
  have hcall : Metered s (s.afterCall env (s.callHandler env).1) := by
    have haccepted : accepted (s.trace ++ [.handle s.conn.parser.request]) = accepted s.trace := by
      rw [accepted_append]
      exact List.append_nil _
    unfold afterCall
    split
    · exact metered_of_accepted rfl rfl rfl haccepted
    · exact metered_of_accepted rfl rfl rfl haccepted
  have hsend := hcall.trans (metered_send env _
    (finalResponse s.conn.parser.request (s.callHandler env).1).toString)
  exact ⟨hsend.bytesRead, hsend.bytesWritten, hsend.timeoutsClosed⟩

theorem metered_rejectRequest (env : Env) (s : Session) : Metered s (s.rejectRequest env) := by
  have hmark : Metered s s.countError.markClosing := ⟨rfl, rfl, rfl⟩
  exact hmark.trans (metered_send env _ _)

theorem metered_handleRequest (env : Env) (s : Session) : Metered s (s.handleRequest env) :=
  handleRequest_invariant (P := Metered s) env (fun _ h => ⟨h.bytesRead, h.bytesWritten,
    h.timeoutsClosed⟩) (fun s' h => h.trans (metered_answerRequest env s'))
    (fun s' h => h.trans (metered_rejectRequest env s')) (.refl s)

theorem metered_armIdleTimer (s : Session) (fresh : TimerId) :
    Metered s (s.armIdleTimer fresh) := by
  have haccepted := (silent_armIdleTimer s fresh).grows.accepted_eq
  unfold armIdleTimer at haccepted ⊢
  split
  · exact .refl s
  · rename_i harmed
    rw [if_neg harmed] at haccepted
    exact metered_of_accepted rfl rfl rfl haccepted

/-- The bytes of a read are counted as they come. -/
theorem readSteps_counters (s : Session) (steps : List ReadStep) :
    (steps.foldl readStep s).counters = { s.counters with
      bytesRead := s.counters.bytesRead + (steps.flatMap ReadStep.bytes).length } := by
  induction steps generalizing s with
  | nil => rfl
  | cons first rest ih =>
      rw [List.foldl_cons, ih, List.flatMap_cons, List.length_append]
      cases first with
      | data chunk nonempty => simp [readStep, ReadStep.bytes, Nat.add_assoc]
      | eintr => simp [readStep, ReadStep.bytes]

/-! ## The law -/

/-- The counters agree with what the connection has done. -/
structure Accounted (s : Session) : Prop where
  requests : s.counters.requests = (handled s.trace).length
  responses : s.counters.responses = s.counters.requests
  bytesWritten : s.counters.bytesWritten = (accepted s.trace).length
  closed : s.counters.closed = if s.conn.closed then 1 else 0
  timeoutsClosed : s.counters.timeoutsClosed ≤ s.counters.closed

/-- The counters of bytes and ends; requests are counted by `Tallied`. -/
structure Measured (s : Session) : Prop where
  bytesWritten : s.counters.bytesWritten = (accepted s.trace).length
  closed : s.counters.closed = if s.conn.closed then 1 else 0
  timeoutsClosed : s.counters.timeoutsClosed ≤ s.counters.closed

theorem Lives.closed_count (h : Lives s s')
    (hs : s.counters.closed = if s.conn.closed then 1 else 0) :
    s'.counters.closed = if s'.conn.closed then 1 else 0 := by
  rcases h.course with hsame | hended
  · rw [hsame.count, hsame.closed, hs]
  · rw [hended.count, hs, hended.wasOpen, hended.closed]
    rfl

theorem Lives.count_le (h : Lives s s') : s.counters.closed ≤ s'.counters.closed := by
  rcases h.course with hsame | hended
  · exact hsame.count.ge
  · exact hended.count ▸ Nat.le_succ _

theorem Measured.next (hs : Measured s) (hlives : Lives s s') (h : Metered s s') :
    Measured s' := by
  refine ⟨?_, hlives.closed_count hs.closed, ?_⟩
  · have hwritten := h.bytesWritten
    rw [hs.bytesWritten] at hwritten
    omega
  · rw [h.timeoutsClosed]
    exact hs.timeoutsClosed.trans hlives.count_le

theorem measured_handleRead (env : Env) (hs : Measured s) (call : ReadCall) :
    Measured (s.handleRead env call) := by
  have hcounters := readSteps_counters s call.steps
  have hread : Measured (call.steps.foldl readStep s) := by
    obtain ⟨-, -, hclosed, -, -, -, htrace⟩ := onlyInput_readSteps s call.steps
    refine ⟨?_, ?_, ?_⟩
    · rw [hcounters, htrace]
      exact hs.bytesWritten
    · rw [hcounters, hclosed]
      exact hs.closed
    · rw [hcounters]
      exact hs.timeoutsClosed
  unfold handleRead
  cases call.last with
  | eagain now =>
      have htouch : Measured ((call.steps.foldl readStep s).touch now) :=
        ⟨hread.bytesWritten, hread.closed, hread.timeoutsClosed⟩
      exact htouch.next (lives_handleRequest env _) (metered_handleRequest env _)
  | eof => exact hread.next (lives_close _) (metered_close _)
  | failed => exact hread.next (lives_handleError _) (metered_handleError _)

/-- A connection is only counted as timed out when it is closed at once. -/
theorem measured_onIdleTimer (hs : Measured s) (hopen : s.conn.closed = false) (now : TimePoint)
    (fresh : TimerId) : Measured (s.onIdleTimer now fresh) := by
  have hzero : s.counters.closed = 0 := by rw [hs.closed, hopen]; rfl
  have htimeouts := hs.timeoutsClosed
  unfold onIdleTimer
  split
  · let due : Session := { s with
      conn := { s.conn with idleTimer := 0 }
      counters := { s.counters with timeoutsClosed := s.counters.timeoutsClosed + 1 } }
    have hmetered : Metered due due.close := metered_close due
    have hcount := (lives_close due).closed_count hs.closed
    have hwritten : due.close.counters.bytesWritten + (accepted s.trace).length =
        s.counters.bytesWritten + (accepted due.close.trace).length := hmetered.bytesWritten
    refine ⟨?_, hcount, ?_⟩
    · show due.close.counters.bytesWritten = (accepted due.close.trace).length
      rw [hs.bytesWritten] at hwritten
      omega
    · show due.close.counters.timeoutsClosed ≤ due.close.counters.closed
      rw [hmetered.timeoutsClosed, hcount, closed_close]
      show s.counters.timeoutsClosed + 1 ≤ 1
      omega
  · have hlives : (s.armIdleTimer fresh).counters = s.counters ∧
        (s.armIdleTimer fresh).conn.closed = s.conn.closed := by
      unfold armIdleTimer
      split <;> exact ⟨rfl, rfl⟩
    have hmetered := (metered_armIdleTimer s fresh).bytesWritten
    rw [hlives.1] at hmetered
    refine ⟨?_, ?_, ?_⟩
    · rw [hlives.1, hs.bytesWritten]
      omega
    · rw [hlives.1, hlives.2, hs.closed]
    · rw [hlives.1]
      exact htimeouts

theorem measured_step (env : Env) (s : Session) (event : Event) (hs : Measured s) :
    Measured (s.step env event) := by
  unfold Session.step
  split
  · exact hs
  · rename_i hopen
    cases event with
    | hangup => exact hs.next (lives_handleError s) (metered_handleError s)
    | read call => exact measured_handleRead env hs call
    | write => exact hs.next (lives_handleWrite env s) (metered_handleWrite env s)
    | idle now fresh => exact measured_onIdleTimer hs (by simpa using hopen) now fresh
    | send data => exact hs.next (lives_send env s data) (metered_send env s data)

/-- The counters in every state of a run. -/
theorem accounted_run (env : Env) (fd idleTimeoutS : ℤ) (now : TimePoint) (events : List Event) :
    Accounted (run env (start fd idleTimeoutS now) events) := by
  have htallied : Tallied (run env (start fd idleTimeoutS now) events) :=
    Transition.run_invariant (tallied_step env) (tallied_start fd idleTimeoutS now) events
  have hmeasured : Measured (run env (start fd idleTimeoutS now) events) :=
    Transition.run_invariant (measured_step env) ⟨rfl, rfl, le_rfl⟩ events
  exact ⟨htallied.requests, htallied.responses, hmeasured.bytesWritten, hmeasured.closed,
    hmeasured.timeoutsClosed⟩

/-- The events that find the connection open. -/
def heeded (env : Env) : Session → List Event → List Event
  | _, [] => []
  | s, event :: rest =>
    if s.conn.closed then [] else event :: heeded env (s.step env event) rest

theorem bytesRead_step (env : Env) (s : Session) (event : Event) :
    (s.step env event).counters.bytesRead =
      s.counters.bytesRead + if s.conn.closed then 0 else event.received.length := by
  unfold Session.step
  split
  · rfl
  · cases event with
    | hangup => exact (metered_handleError s).bytesRead
    | read call =>
        have hread := congrArg ServerCounters.bytesRead (readSteps_counters s call.steps)
        show (s.handleRead env call).counters.bytesRead = _
        refine Eq.trans ?_ hread
        unfold handleRead
        cases call.last with
        | eagain now => exact (metered_handleRequest env _).bytesRead
        | eof => exact (metered_close _).bytesRead
        | failed => exact (metered_handleError _).bytesRead
    | write => exact (metered_handleWrite env s).bytesRead
    | idle now fresh =>
        show (s.onIdleTimer now fresh).counters.bytesRead = _
        unfold onIdleTimer
        split
        · exact (metered_close _).bytesRead
        · exact (metered_armIdleTimer s fresh).bytesRead
    | send data => exact (metered_send env s data).bytesRead

/-- What has been read is counted, as long as the connection was open. -/
theorem bytesRead_run (env : Env) (s : Session) (events : List Event) :
    (run env s events).counters.bytesRead =
      s.counters.bytesRead + (received (heeded env s events)).length := by
  induction events generalizing s with
  | nil => rfl
  | cons event rest ih =>
      have hrun : run env s (event :: rest) = run env (s.step env event) rest := rfl
      rw [hrun, ih, bytesRead_step, heeded]
      split
      · rename_i hclosed
        rw [step_of_closed env hclosed]
        cases rest with
        | nil => rfl
        | cons next later =>
            rw [heeded, if_pos hclosed]
            rfl
      · have hcons (later : List Event) : (received (event :: later)).length =
            event.received.length + (received later).length := by
          rw [received, List.flatMap_cons, List.length_append, received]
        rw [hcons, Nat.add_assoc]

end Session

end WsServer
