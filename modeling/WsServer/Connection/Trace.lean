import WsServer.Connection.Basic
import WsServer.Lib.Transition

/-!
# What a connection has done

The trace of a session read as data: the requests handled (`handled`), the bytes
queued for sending (`queued`), and those the kernel has taken (`accepted`).

Each function of the writing half has one lemma that says how far it can go:
closing and registering leave the output alone (`Silent`), `handleWrite` moves
bytes from the front of the output to the kernel, `send` puts bytes behind it.
From these, by induction over the request loop and over the events of a run, no
byte is lost, repeated or reordered: what the kernel has taken, followed by the
output, is what has been queued (`conserved_run`).
-/

namespace WsServer

open CString

namespace Effect

/-- Registration, timers and closing. -/
def isControl : Effect → Bool
  | .handle _ => false
  | .queue _ _ => false
  | .write _ _ _ => false
  | _ => true

/-- Neither a call of the handler nor output. -/
def isIo : Effect → Bool
  | .handle _ => false
  | .queue _ _ => false
  | _ => true

def request? : Effect → Option HttpRequest
  | .handle request => some request
  | _ => none

def queuedBytes : Effect → Bytes
  | .queue data _ => data
  | _ => []

/-- The front of the bytes offered that the kernel has taken. -/
def acceptedBytes : Effect → Bytes
  | .write offered _ result => offered.take (result.accepted offered.length)
  | _ => []

theorem isIo_of_isControl {effect : Effect} (h : effect.isControl = true) :
    effect.isIo = true := by
  cases effect with
  | handle _ => exact h
  | queue _ _ => exact h
  | _ => rfl

theorem request?_of_isIo {effect : Effect} (h : effect.isIo = true) : effect.request? = none := by
  cases effect with
  | handle _ => exact absurd h Bool.false_ne_true
  | _ => rfl

theorem queuedBytes_of_isIo {effect : Effect} (h : effect.isIo = true) :
    effect.queuedBytes = [] := by
  cases effect with
  | queue _ _ => exact absurd h Bool.false_ne_true
  | _ => rfl

theorem acceptedBytes_of_isControl {effect : Effect} (h : effect.isControl = true) :
    effect.acceptedBytes = [] := by
  cases effect with
  | write _ _ _ => exact absurd h Bool.false_ne_true
  | _ => rfl

end Effect

/-- The requests that the handler has been called with. -/
def handled (trace : List Effect) : List HttpRequest := trace.filterMap Effect.request?

/-- The bytes queued for sending. -/
def queued (trace : List Effect) : Bytes := trace.flatMap Effect.queuedBytes

/-- The bytes that the kernel has taken. -/
def accepted (trace : List Effect) : Bytes := trace.flatMap Effect.acceptedBytes

theorem handled_append (first second : List Effect) :
    handled (first ++ second) = handled first ++ handled second := List.filterMap_append

theorem queued_append (first second : List Effect) :
    queued (first ++ second) = queued first ++ queued second := List.flatMap_append

theorem accepted_append (first second : List Effect) :
    accepted (first ++ second) = accepted first ++ accepted second := List.flatMap_append

theorem handled_of_isIo {effects : List Effect} (h : ∀ e ∈ effects, e.isIo = true) :
    handled effects = [] := by
  rw [handled, List.filterMap_eq_nil_iff]
  intro e he
  exact Effect.request?_of_isIo (h e he)

theorem queued_of_isIo {effects : List Effect} (h : ∀ e ∈ effects, e.isIo = true) :
    queued effects = [] := by
  rw [queued, List.flatMap_eq_nil_iff]
  intro e he
  exact Effect.queuedBytes_of_isIo (h e he)

theorem accepted_of_isControl {effects : List Effect} (h : ∀ e ∈ effects, e.isControl = true) :
    accepted effects = [] := by
  rw [accepted, List.flatMap_eq_nil_iff]
  intro e he
  exact Effect.acceptedBytes_of_isControl (h e he)

namespace Session

/-! ## Growth of the trace -/

/-- The trace has grown by effects with the property `P`. -/
def Grows (P : Effect → Bool) (s s' : Session) : Prop :=
  ∃ effects, s'.trace = s.trace ++ effects ∧ ∀ e ∈ effects, P e = true

variable {P : Effect → Bool} {s s' s'' : Session}

theorem Grows.of_eq (h : s'.trace = s.trace) : Grows P s s' := ⟨[], by simp [h], by simp⟩

theorem Grows.trans (h : Grows P s s') (h' : Grows P s' s'') : Grows P s s'' := by
  obtain ⟨first, hfirst, hp⟩ := h
  obtain ⟨second, hsecond, hp'⟩ := h'
  refine ⟨first ++ second, by rw [hsecond, hfirst, List.append_assoc], ?_⟩
  intro e he
  rcases List.mem_append.mp he with he | he
  · exact hp e he
  · exact hp' e he

theorem Grows.isIo (h : Grows Effect.isControl s s') : Grows Effect.isIo s s' := by
  obtain ⟨effects, htrace, hcontrol⟩ := h
  exact ⟨effects, htrace, fun e he => Effect.isIo_of_isControl (hcontrol e he)⟩

theorem Grows.handled_eq (h : Grows Effect.isIo s s') : handled s'.trace = handled s.trace := by
  obtain ⟨effects, htrace, hio⟩ := h
  rw [htrace, handled_append, handled_of_isIo hio, List.append_nil]

theorem Grows.queued_eq (h : Grows Effect.isIo s s') : queued s'.trace = queued s.trace := by
  obtain ⟨effects, htrace, hio⟩ := h
  rw [htrace, queued_append, queued_of_isIo hio, List.append_nil]

theorem Grows.accepted_eq (h : Grows Effect.isControl s s') :
    accepted s'.trace = accepted s.trace := by
  obtain ⟨effects, htrace, hcontrol⟩ := h
  rw [htrace, accepted_append, accepted_of_isControl hcontrol, List.append_nil]

/-- Registration, timers or closing, with the output as it was. -/
structure Silent (s s' : Session) : Prop where
  output : s'.conn.output = s.conn.output
  closing : s'.conn.closeAfterWrite = s.conn.closeAfterWrite
  stays : s.conn.closed = true → s'.conn.closed = true
  grows : Grows Effect.isControl s s'

theorem Silent.refl (s : Session) : Silent s s := ⟨rfl, rfl, id, .of_eq rfl⟩

theorem Silent.trans (h : Silent s s') (h' : Silent s' s'') : Silent s s'' :=
  ⟨h'.output.trans h.output, h'.closing.trans h.closing, h'.stays ∘ h.stays,
    h.grows.trans h'.grows⟩

@[simp] theorem closed_close (s : Session) : s.close.conn.closed = true := by
  unfold close
  split
  · assumption
  · rfl

theorem enableWriting_of_open (hopen : s.conn.closed = false) (on : Bool) :
    (s.enableWriting on).conn.writing = on ∧ (s.enableWriting on).conn.closed = false := by
  unfold enableWriting
  rw [if_neg (by simp [hopen])]
  exact ⟨rfl, hopen⟩

/-- The timer is cancelled, the descriptor closed, and the table entry removed. -/
def closeEffects (s : Session) : List Effect :=
  let timer := if s.conn.idleTimer ≠ 0 then [Effect.cancelTimer s.conn.idleTimer] else []
  let socket := if 0 ≤ s.conn.fd then [Effect.epollDel s.conn.fd, .closeFd s.conn.fd] else []
  timer ++ (socket ++ [.removeConnection s.conn.fd])

theorem trace_close (hopen : s.conn.closed = false) :
    s.close.trace = s.trace ++ s.closeEffects := by
  rw [close, if_neg (by simp [hopen]), closeEffects, ← List.append_assoc, ← List.append_assoc]

theorem isControl_of_mem_closeEffects {e : Effect} (h : e ∈ s.closeEffects) :
    e.isControl = true := by
  simp only [closeEffects, List.mem_append, List.mem_ite_nil_right, List.mem_cons,
    List.not_mem_nil, or_false] at h
  rcases h with ⟨-, rfl⟩ | ⟨-, rfl | rfl⟩ | rfl <;> rfl

theorem grows_close (s : Session) : Grows Effect.isControl s s.close := by
  cases hclosed : s.conn.closed with
  | true =>
      rw [close, if_pos hclosed]
      exact .of_eq rfl
  | false => exact ⟨s.closeEffects, trace_close hclosed, fun _ => isControl_of_mem_closeEffects⟩

theorem silent_close (s : Session) : Silent s s.close := by
  refine ⟨?_, ?_, fun _ => closed_close s, grows_close s⟩
  · unfold close
    split <;> rfl
  · unfold close
    split <;> rfl

theorem silent_handleError (s : Session) : Silent s s.handleError := by
  have hcount : Silent s s.countError := ⟨rfl, rfl, id, .of_eq rfl⟩
  exact hcount.trans (silent_close _)

theorem silent_enableWriting (s : Session) (on : Bool) : Silent s (s.enableWriting on) := by
  unfold enableWriting
  split
  · exact .refl s
  · exact ⟨rfl, rfl, id, [.epollMod s.conn.fd on], rfl, by simp [Effect.isControl]⟩

theorem silent_outputSent (s : Session) : Silent s s.outputSent := by
  have hoff : Silent s (if s.conn.writing then s.enableWriting false else s) := by
    split
    · exact silent_enableWriting s false
    · exact .refl s
  unfold outputSent
  split
  · exact hoff.trans (silent_close _)
  · exact hoff

theorem silent_afterWrite (s : Session) : Silent s s.afterWrite := by
  unfold afterWrite
  split
  · exact silent_outputSent s
  · split
    · exact silent_enableWriting s true
    · exact .refl s

theorem silent_armIdleTimer (s : Session) (fresh : TimerId) : Silent s (s.armIdleTimer fresh) := by
  unfold armIdleTimer
  split
  · exact .refl s
  · exact ⟨rfl, rfl, id, [.addTimer fresh (s.conn.idleTimeoutS * 1000)], rfl,
      by simp [Effect.isControl]⟩

theorem silent_onIdleTimer (s : Session) (now : TimePoint) (fresh : TimerId) :
    Silent s (s.onIdleTimer now fresh) := by
  unfold onIdleTimer
  split
  · refine Silent.trans ?_ (silent_close _)
    exact ⟨rfl, rfl, id, .of_eq rfl⟩
  · exact silent_armIdleTimer s fresh

/-! ## Conservation of bytes -/

/-- What the kernel has taken, followed by the output, is what has been queued. -/
def Conserved (s : Session) : Prop :=
  accepted s.trace ++ s.conn.output.readable = queued s.trace

theorem Silent.conserved (h : Silent s s') (hs : Conserved s) : Conserved s' := by
  unfold Conserved at hs ⊢
  rw [h.grows.accepted_eq, h.output, h.grows.isIo.queued_eq, hs]

theorem readable_noteWrite (s : Session) (result : WriteResult) :
    (s.noteWrite result).conn.output.readable =
      s.conn.output.readable.drop (result.accepted s.conn.output.readableBytes) := by
  show (if result.accepted s.conn.output.readableBytes > 0 then
      s.conn.output.retrieve (result.accepted s.conn.output.readableBytes)
    else s.conn.output).readable = _
  split
  · exact Buffer.readable_retrieve _ _
  · rename_i hzero
    rw [Nat.eq_zero_of_not_pos hzero, List.drop_zero]

theorem grows_noteWrite (s : Session) (result : WriteResult) :
    Grows Effect.isIo s (s.noteWrite result) :=
  ⟨[.write s.conn.output.readable s.conn.writing result], rfl, by simp [Effect.isIo]⟩

/-- A write moves bytes from the front of the output to the kernel. -/
theorem conserved_noteWrite (hs : Conserved s) (result : WriteResult) :
    Conserved (s.noteWrite result) := by
  unfold Conserved at hs ⊢
  have haccepted : accepted (s.noteWrite result).trace = accepted s.trace ++
      s.conn.output.readable.take (result.accepted s.conn.output.readable.length) := by
    show accepted (s.trace ++ [_]) = _
    rw [accepted_append]
    simp [accepted, Effect.acceptedBytes]
  rw [Buffer.length_readable] at haccepted
  calc accepted (s.noteWrite result).trace ++ (s.noteWrite result).conn.output.readable
      = accepted s.trace ++ (s.conn.output.readable.take (result.accepted _) ++
          s.conn.output.readable.drop (result.accepted _)) := by
        rw [haccepted, readable_noteWrite, List.append_assoc]
    _ = queued s.trace := by rw [List.take_append_drop, hs]
    _ = queued (s.noteWrite result).trace := (grows_noteWrite s result).queued_eq.symm

theorem grows_handleWrite (env : Env) (s : Session) :
    Grows Effect.isIo s (s.handleWrite env) := by
  apply handleWrite_elim env
  · exact .of_eq rfl
  · exact (silent_afterWrite s).grows.isIo
  · exact fun _ => (grows_noteWrite s _).trans (silent_afterWrite _).grows.isIo
  · exact grows_noteWrite s _
  · exact (grows_noteWrite s _).trans (silent_handleError _).grows.isIo

theorem closing_handleWrite (env : Env) (s : Session) :
    (s.handleWrite env).conn.closeAfterWrite = s.conn.closeAfterWrite := by
  apply handleWrite_elim (P := fun s' => s'.conn.closeAfterWrite = s.conn.closeAfterWrite) env
  · rfl
  · exact (silent_afterWrite s).closing
  · exact fun result => (silent_afterWrite (s.noteWrite result)).closing
  · rfl
  · exact (silent_handleError (s.noteWrite .failed)).closing

theorem handleWrite_of_closed (env : Env) (h : s.conn.closed = true) : s.handleWrite env = s := by
  rw [handleWrite, if_pos h]

theorem conserved_handleWrite (env : Env) (hs : Conserved s) : Conserved (s.handleWrite env) := by
  apply handleWrite_elim env
  · exact hs
  · exact (silent_afterWrite s).conserved hs
  · exact fun _ => (silent_afterWrite _).conserved (conserved_noteWrite hs _)
  · exact conserved_noteWrite hs _
  · exact (silent_handleError _).conserved (conserved_noteWrite hs _)

theorem queued_queue (s : Session) (data : Bytes) :
    queued (s.queue data).trace = queued s.trace ++ data := by
  show queued (s.trace ++ [_]) = _
  rw [queued_append]
  simp [queued, Effect.queuedBytes]

theorem conserved_queue (hs : Conserved s) (data : Bytes) : Conserved (s.queue data) := by
  unfold Conserved at hs ⊢
  have haccepted : accepted (s.queue data).trace = accepted s.trace := by
    show accepted (s.trace ++ [_]) = _
    rw [accepted_append]
    simp [accepted, Effect.acceptedBytes]
  calc accepted (s.queue data).trace ++ (s.queue data).conn.output.readable
      = accepted s.trace ++ (s.conn.output.readable ++ data) := by
        rw [haccepted]
        exact congrArg _ (Buffer.readable_append _ _)
    _ = queued s.trace ++ data := by rw [← List.append_assoc, hs]
    _ = queued (s.queue data).trace := (queued_queue s data).symm

theorem conserved_send (env : Env) (hs : Conserved s) (data : Bytes) :
    Conserved (s.send env data) := by
  unfold send
  split
  · exact hs
  · exact conserved_handleWrite env (conserved_queue hs data)

theorem send_of_closed (env : Env) (h : s.conn.closed = true) (data : Bytes) :
    s.send env data = s := by
  rw [send, if_pos (by simp [h])]

theorem send_nil (env : Env) (s : Session) : s.send env [] = s := by
  rw [send, if_pos (by simp)]

/-- On an open connection `send` queues its bytes and does no more than write. -/
theorem trace_send (env : Env) (hopen : s.conn.closed = false) {data : Bytes} (hne : data ≠ []) :
    ∃ io, (s.send env data).trace = s.trace ++ .queue data s.conn.closeAfterWrite :: io ∧
      ∀ e ∈ io, e.isIo = true := by
  obtain ⟨io, htrace, hio⟩ := grows_handleWrite env (s.queue data)
  refine ⟨io, ?_, hio⟩
  rw [send, if_neg (by simp [hopen, hne]), htrace]
  simp [queue]

theorem closing_send (env : Env) (s : Session) (data : Bytes) :
    (s.send env data).conn.closeAfterWrite = s.conn.closeAfterWrite := by
  unfold send
  split
  · rfl
  · exact closing_handleWrite env _

/-! ## The request loop -/

/-- The handler is called between two states with the same output. -/
theorem conserved_callHandler (env : Env) (hs : Conserved s) :
    Conserved (s.callHandler env).2 := by
  unfold Conserved at hs ⊢
  show accepted (s.trace ++ [_]) ++ s.conn.output.readable = queued (s.trace ++ [_])
  rw [accepted_append, queued_append, List.append_assoc]
  simpa [accepted, queued, Effect.acceptedBytes, Effect.queuedBytes] using hs

theorem trace_afterCall (env : Env) (s : Session) (response : HttpResponse) :
    (s.afterCall env response).trace = s.trace ++ [.handle s.conn.parser.request] ∧
      (s.afterCall env response).conn.closed = s.conn.closed := by
  unfold afterCall
  split <;> exact ⟨rfl, rfl⟩

/-- On an open connection a request is handled by one call of the handler and one
response. -/
theorem trace_answerRequest (env : Env) (hopen : s.conn.closed = false) :
    ∃ io, (s.answerRequest env).trace = s.trace ++ .handle s.conn.parser.request ::
        .queue (finalResponse s.conn.parser.request (s.callHandler env).1).toString
          (s.answerRequest env).conn.closeAfterWrite :: io ∧
      ∀ e ∈ io, e.isIo = true := by
  -- the flag is set before `send`, which does not change it
  obtain ⟨htrace, hclosed⟩ := trace_afterCall env s (s.callHandler env).1
  have hne := (finalResponse s.conn.parser.request (s.callHandler env).1).toString_ne_nil
  obtain ⟨io, hsend, hio⟩ := trace_send env (hclosed.trans hopen) hne
  have hclosing := closing_send env (s.afterCall env (s.callHandler env).1)
    (finalResponse s.conn.parser.request (s.callHandler env).1).toString
  refine ⟨io, ?_, hio⟩
  show ((s.afterCall env (s.callHandler env).1).send env _).trace = _ ++ _ :: .queue _
    ((s.afterCall env (s.callHandler env).1).send env _).conn.closeAfterWrite :: io
  rw [hsend, hclosing, htrace, List.append_assoc]
  rfl

/-- On a connection that has been closed meanwhile the response is dropped. -/
theorem trace_answerRequest_of_closed (env : Env) (hclosed : s.conn.closed = true) :
    (s.answerRequest env).trace = s.trace ++ [.handle s.conn.parser.request] := by
  obtain ⟨htrace, hclosed'⟩ := trace_afterCall env s (s.callHandler env).1
  show ((s.afterCall env (s.callHandler env).1).send env _).trace = _
  rw [send_of_closed env (hclosed'.trans hclosed), htrace]

theorem closing_answerRequest (env : Env) (s : Session) :
    (s.answerRequest env).conn.closeAfterWrite =
      if s.conn.parser.request.keepAlive &&
        !(env.handler s.calls s.conn.parser.request).closeConnection
      then s.conn.closeAfterWrite else true := by
  calc (s.answerRequest env).conn.closeAfterWrite
      = (s.afterCall env (s.callHandler env).1).conn.closeAfterWrite := closing_send env _ _
    _ = _ := by
        unfold afterCall
        split
        · rename_i hkeep
          exact (if_pos hkeep).symm
        · rename_i hclose
          exact (if_neg hclose).symm

theorem conserved_answerRequest (env : Env) (hs : Conserved s) :
    Conserved (s.answerRequest env) := by
  refine conserved_send env (s := s.afterCall env (s.callHandler env).1) ?_ _
  unfold afterCall
  split
  · exact conserved_callHandler env hs
  · exact conserved_callHandler env hs

theorem conserved_rejectRequest (env : Env) (hs : Conserved s) :
    Conserved (s.rejectRequest env) := by
  unfold rejectRequest
  exact conserved_send env (s := s.countError.markClosing) hs _

theorem conserved_handleRequest (env : Env) (hs : Conserved s) :
    Conserved (s.handleRequest env) :=
  -- parsing touches neither the output nor the trace
  handleRequest_invariant env (fun _ h => h) (fun _ h => conserved_answerRequest env h)
    (fun _ h => conserved_rejectRequest env h) hs

/-- Two states that differ in the input only, and in counters. -/
structure OnlyInput (s s' : Session) : Prop where
  output : s'.conn.output = s.conn.output
  parser : s'.conn.parser = s.conn.parser
  closed : s'.conn.closed = s.conn.closed
  writing : s'.conn.writing = s.conn.writing
  closing : s'.conn.closeAfterWrite = s.conn.closeAfterWrite
  calls : s'.calls = s.calls
  trace : s'.trace = s.trace

theorem onlyInput_readSteps (s : Session) (steps : List ReadStep) :
    OnlyInput s (steps.foldl readStep s) := by
  induction steps generalizing s with
  | nil => exact ⟨rfl, rfl, rfl, rfl, rfl, rfl, rfl⟩
  | cons first rest ih =>
      obtain ⟨houtput, hparser, hclosed, hwriting, hclosing, hcalls, htrace⟩ := ih (readStep s first)
      rw [List.foldl_cons]
      cases first <;> exact ⟨houtput, hparser, hclosed, hwriting, hclosing, hcalls, htrace⟩

theorem readable_readSteps (s : Session) (steps : List ReadStep) :
    (steps.foldl readStep s).conn.input.readable =
      s.conn.input.readable ++ steps.flatMap ReadStep.bytes := by
  induction steps generalizing s with
  | nil => simp
  | cons first rest ih =>
      rw [List.foldl_cons, ih, List.flatMap_cons]
      cases first with
      | data chunk _ => simp [readStep, ReadStep.bytes]
      | eintr => simp [readStep, ReadStep.bytes]

theorem conserved_handleRead (env : Env) (hs : Conserved s) (call : ReadCall) :
    Conserved (s.handleRead env call) := by
  have hread : Conserved (call.steps.foldl readStep s) := by
    unfold Conserved at hs ⊢
    rw [(onlyInput_readSteps s call.steps).trace, (onlyInput_readSteps s call.steps).output, hs]
  unfold handleRead
  cases call.last with
  | eagain now => exact conserved_handleRequest env hread
  | eof => exact (silent_close _).conserved hread
  | failed => exact (silent_handleError _).conserved hread

theorem step_of_closed (env : Env) (hclosed : s.conn.closed = true) (event : Event) :
    s.step env event = s := by
  unfold step
  rw [if_pos hclosed]

theorem conserved_step (env : Env) (s : Session) (event : Event) (hs : Conserved s) :
    Conserved (s.step env event) := by
  unfold step
  split
  · exact hs
  · cases event with
    | hangup => exact (silent_handleError s).conserved hs
    | read call => exact conserved_handleRead env hs call
    | write => exact conserved_handleWrite env hs
    | idle now fresh => exact (silent_onIdleTimer s now fresh).conserved hs
    | send data => exact conserved_send env hs data

/-- The state after a list of events. -/
def run (env : Env) (s : Session) (events : List Event) : Session :=
  Transition.run (step env) s events

/-- **Conservation.**  In every run, what the kernel has taken followed by the
output is what has been queued. -/
theorem conserved_run (env : Env) (fd idleTimeoutS : ℤ) (now : TimePoint) (events : List Event) :
    Conserved (run env (start fd idleTimeoutS now) events) := by
  refine Transition.run_invariant (conserved_step env) ?_ events
  show accepted [] ++ (Buffer.ofSize Buffer.kInitialSize).readable = queued []
  rw [Buffer.readable_ofSize]
  rfl

/-! ## The event loop -/

theorem keepsFd_answerRequest (env : Env) (s : Session) : KeepsFd s (s.answerRequest env) := by
  have hcall : KeepsFd s (s.afterCall env (s.callHandler env).1) := by
    unfold afterCall
    split <;> exact .refl s
  exact hcall.trans (sameReading_send env _ _).keepsFd

theorem keepsFd_handleRequest (env : Env) (s : Session) : KeepsFd s (s.handleRequest env) := by
  apply handleRequest_invariant env (fun _ h => h)
  · exact fun s' h => h.trans (keepsFd_answerRequest env s')
  · exact fun s' h => h.trans (sameReading_send env s'.countError.markClosing _).keepsFd
  · exact .refl s

theorem keepsFd_readSteps (s : Session) (steps : List ReadStep) :
    KeepsFd s (steps.foldl readStep s) := by
  induction steps generalizing s with
  | nil => exact .refl s
  | cons first rest ih =>
      have hfirst : KeepsFd s (readStep s first) := by
        cases first <;> exact .refl s
      exact hfirst.trans (ih _)

theorem keepsFd_handleRead (env : Env) (s : Session) (call : ReadCall) :
    KeepsFd s (s.handleRead env call) := by
  unfold handleRead
  refine (keepsFd_readSteps s call.steps).trans ?_
  cases call.last with
  | eagain now => exact keepsFd_handleRequest env _
  | eof => exact (sameReading_close _).keepsFd
  | failed => exact (sameReading_handleError _).keepsFd

theorem keepsFd_step (env : Env) (s : Session) (event : Event) : KeepsFd s (s.step env event) := by
  unfold step
  split
  · exact .refl s
  · cases event with
    | hangup => exact (sameReading_handleError s).keepsFd
    | read call => exact keepsFd_handleRead env s call
    | write => exact (sameReading_handleWrite env s).keepsFd
    | idle now fresh => exact (sameReading_onIdleTimer s now fresh).keepsFd
    | send data => exact (sameReading_send env s data).keepsFd

theorem keepsFd_run (env : Env) (s : Session) (events : List Event) :
    KeepsFd s (run env s events) :=
  Transition.run_invariant (fun _ event h => h.trans (keepsFd_step env _ event)) (.refl s) events

/-- The events that one round of `EventLoop::loop` reports for a connection. -/
def reported (hangup : Bool) (read : Option ReadCall) (write : Bool) : List Event :=
  if hangup then [.hangup]
  else (read.map Event.read).toList ++ if write then [.write] else []

/-- The loop asks the descriptor before `handleWrite`, and a closed connection
ignores the call. -/
theorem handleWrite_if_fd (env : Env) {s : Session}
    (hfd : s.conn.closed = false → 0 ≤ s.conn.fd) (write : Bool) :
    (if 0 ≤ s.conn.fd && write then s.handleWrite env else s) =
      run env s (if write then [.write] else []) := by
  cases write with
  | false => simp [run]
  | true =>
      rw [Bool.and_true, if_pos rfl]
      show _ = s.step env .write
      by_cases hclosed : s.conn.closed = true
      · rw [step_of_closed env hclosed, handleWrite_of_closed env hclosed, ite_self]
      · have hopen : s.conn.closed = false := by simpa using hclosed
        rw [if_pos (by simpa using hfd hopen), step, if_neg hclosed]

/-- **One round.**  What the loop does with an open connection is a run of the
events reported for it. -/
theorem dispatch_eq_run (env : Env) {s : Session} (hopen : s.conn.closed = false)
    (hfd : 0 ≤ s.conn.fd) (hangup : Bool) (read : Option ReadCall) (write : Bool) :
    dispatch env s hangup read write = run env s (reported hangup read write) := by
  have hstep (event : Event) : run env s [event] = s.step env event := rfl
  unfold dispatch reported
  cases hangup with
  | true =>
      rw [if_pos rfl, if_pos rfl, hstep, step, if_neg (by simp [hopen])]
  | false =>
      rw [if_neg Bool.false_ne_true, if_neg Bool.false_ne_true]
      cases read with
      | none => exact handleWrite_if_fd env (fun _ => hfd) write
      | some call =>
          have hread : run env s [.read call] = s.handleRead env call := by
            rw [hstep, step, if_neg (by simp [hopen])]
          -- what is still open after the read has its descriptor
          have hkeeps := keepsFd_handleRead env s call
          show _ = run env s ([.read call] ++ _)
          rw [run, Transition.run_append, ← run, ← run, hread]
          refine handleWrite_if_fd env (fun hstill => ?_) write
          rw [(hkeeps hstill).2]
          exact hfd

/-- What the loop does, round after round, with a connection on a valid descriptor
is a run of events. -/
theorem dispatch_run (env : Env) {fd : ℤ} (hfd : 0 ≤ fd) (idleTimeoutS : ℤ) (now : TimePoint)
    {events : List Event} (hopen : (run env (start fd idleTimeoutS now) events).conn.closed = false)
    (hangup : Bool) (read : Option ReadCall) (write : Bool) :
    dispatch env (run env (start fd idleTimeoutS now) events) hangup read write =
      run env (start fd idleTimeoutS now) (events ++ reported hangup read write) := by
  obtain ⟨-, hsame⟩ := keepsFd_run env (start fd idleTimeoutS now) events hopen
  have hvalid : 0 ≤ (run env (start fd idleTimeoutS now) events).conn.fd := by
    rw [hsame]
    exact hfd
  rw [dispatch_eq_run env hopen hvalid, run, run, run, Transition.run_append]

end Session

end WsServer
