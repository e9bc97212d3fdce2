import WsServer.Parser.Machine

/-!
# A connection

`Connection` (`connection.h`, `connection.cpp`): one TCP connection, driven by
its event loop.  A `Session` is a connection together with what it does to the
rest of the program, in order: calls of the handler, bytes appended to the output
buffer, `write` and `epoll_ctl` system calls, timers, and the removal from the
loop's table (`Effect`).

What comes from outside is a parameter: the handler and the results of `write`
(`Env`), and for each event what the system calls in it return (`ReadCall`, the
clock).  A closed connection has been removed from the table, and gets no more
events.
-/

namespace WsServer

open CString

/-! ## The outside -/

/-- A reading of the steady clock, in nanoseconds. -/
abbrev TimePoint := ℤ

abbrev TimerId := ℕ

/-- The result of `write`: a number of bytes, or `errno`. -/
inductive WriteResult
  | wrote (n : ℕ)
  | eagain
  | eintr
  | failed
  deriving DecidableEq, Repr

/-- The number of bytes taken of those offered. -/
def WriteResult.accepted : WriteResult → ℕ → ℕ
  | .wrote n, offered => min n offered
  | _, _ => 0

/-- The handler and the kernel, call by call. -/
structure Env where
  handler : ℕ → HttpRequest → HttpResponse
  write : ℕ → WriteResult

/-- A `readv` that does not end the read loop. -/
inductive ReadStep
  | data (chunk : Bytes) (nonempty : chunk ≠ [])
  | eintr

/-- The `readv` that ends the read loop.  After `EAGAIN` the clock is read. -/
inductive ReadEnd
  | eagain (now : TimePoint)
  | eof
  | failed

/-- What `readv` returns in one call of `handleRead`. -/
structure ReadCall where
  steps : List ReadStep
  last : ReadEnd

namespace ReadStep

def bytes : ReadStep → Bytes
  | .data chunk _ => chunk
  | .eintr => []

end ReadStep

/-- The bytes received in one call of `handleRead`. -/
def ReadCall.received (call : ReadCall) : Bytes := call.steps.flatMap ReadStep.bytes

/-! ## State -/

structure Connection where
  fd : ℤ
  input : Buffer
  output : Buffer := Buffer.ofSize Buffer.kInitialSize
  parser : HttpParser := {}
  idleTimeoutS : ℤ
  idleTimer : TimerId := 0
  lastActivity : TimePoint
  closed : Bool := false
  writing : Bool := false
  closeAfterWrite : Bool := false
  keepAlive : Bool := true

/-- The counters that a connection increments. -/
structure ServerCounters where
  closed : ℕ := 0
  requests : ℕ := 0
  responses : ℕ := 0
  errors : ℕ := 0
  timeoutsClosed : ℕ := 0
  bytesRead : ℕ := 0
  bytesWritten : ℕ := 0

/-- What a connection does, seen from outside. -/
inductive Effect
  /-- The handler is called. -/
  | handle (request : HttpRequest)
  /-- Bytes are appended to the output; `closing` when the connection is to be
  closed after them. -/
  | queue (data : Bytes) (closing : Bool)
  /-- `write` is offered bytes; `armed` when `EPOLLOUT` is registered. -/
  | write (offered : Bytes) (armed : Bool) (result : WriteResult)
  /-- `EPOLL_CTL_MOD`, with or without `EPOLLOUT`. -/
  | epollMod (fd : ℤ) (out : Bool)
  | epollDel (fd : ℤ)
  | closeFd (fd : ℤ)
  | removeConnection (fd : ℤ)
  | addTimer (id : TimerId) (ms : ℤ)
  | cancelTimer (id : TimerId)
  deriving DecidableEq

structure Session where
  conn : Connection
  counters : ServerCounters := {}
  /-- Calls of the handler so far. -/
  calls : ℕ := 0
  /-- Calls of `write` so far. -/
  writes : ℕ := 0
  trace : List Effect := []

/-- The constructor. -/
def Connection.ofFd (fd : ℤ) (idleTimeoutS : ℤ) (now : TimePoint) : Connection where
  fd := fd
  input := (Buffer.ofSize Buffer.kInitialSize).ensureWritableBytes 2048
  idleTimeoutS := idleTimeoutS
  lastActivity := now

theorem Connection.readable_input_ofFd (fd : ℤ) (idleTimeoutS : ℤ) (now : TimePoint) :
    (Connection.ofFd fd idleTimeoutS now).input.readable = [] := by
  simp only [Connection.ofFd, Buffer.readable_ensureWritableBytes, Buffer.readable_ofSize]

namespace Session

/-- A connection that has just been made. -/
def start (fd : ℤ) (idleTimeoutS : ℤ) (now : TimePoint) : Session where
  conn := Connection.ofFd fd idleTimeoutS now

/-! ## Closing -/

def close (s : Session) : Session :=
  if s.conn.closed then s
  else
    let fd := s.conn.fd
    { s with
      conn := { s.conn with closed := true, idleTimer := 0, fd := -1 }
      counters := { s.counters with closed := s.counters.closed + 1 }
      trace := s.trace ++ (if s.conn.idleTimer ≠ 0 then [.cancelTimer s.conn.idleTimer] else []) ++
        (if 0 ≤ fd then [.epollDel fd, .closeFd fd] else []) ++ [.removeConnection fd] }

def countError (s : Session) : Session :=
  { s with counters := { s.counters with errors := s.counters.errors + 1 } }

def handleError (s : Session) : Session := s.countError.close

/-! ## The idle timer -/

/-- Arm the idle timer; `fresh` is the id that the timer heap hands out. -/
def armIdleTimer (s : Session) (fresh : TimerId) : Session :=
  if s.conn.closed || s.conn.idleTimeoutS ≤ 0 then s
  else
    { s with
      conn := { s.conn with idleTimer := fresh }
      trace := s.trace ++ [.addTimer fresh (s.conn.idleTimeoutS * 1000)] }

/-- The callback of the idle timer: close when idle for long enough, else arm it
again. -/
def onIdleTimer (s : Session) (now : TimePoint) (fresh : TimerId) : Session :=
  if now - s.conn.lastActivity ≥ s.conn.idleTimeoutS * 1000000000 then
    close { s with
      conn := { s.conn with idleTimer := 0 }
      counters := { s.counters with timeoutsClosed := s.counters.timeoutsClosed + 1 } }
  else s.armIdleTimer fresh

def touch (s : Session) (now : TimePoint) : Session :=
  { s with conn := { s.conn with lastActivity := now } }

/-! ## Writing -/

def enableWriting (s : Session) (on : Bool) : Session :=
  if s.conn.closed then s
  else
    { s with
      conn := { s.conn with writing := on }
      trace := s.trace ++ [.epollMod s.conn.fd on] }

/-- A call of `write` on all of the output, with its result. -/
def noteWrite (s : Session) (result : WriteResult) : Session :=
  let taken := result.accepted s.conn.output.readableBytes
  { s with
    conn := { s.conn with
      output := if taken > 0 then s.conn.output.retrieve taken else s.conn.output }
    counters := { s.counters with bytesWritten := s.counters.bytesWritten + taken }
    writes := s.writes + 1
    trace := s.trace ++ [.write s.conn.output.readable s.conn.writing result] }

/-- The end of `handleWrite` when all output has been sent: `EPOLLOUT` is not
needed, and the connection is closed if it is to be. -/
def outputSent (s : Session) : Session :=
  if s.conn.closeAfterWrite then close (if s.conn.writing then s.enableWriting false else s)
  else if s.conn.writing then s.enableWriting false
  else s

/-- The end of `handleWrite`. -/
def afterWrite (s : Session) : Session :=
  if s.conn.output.readableBytes = 0 then s.outputSent
  else if !s.conn.writing then s.enableWriting true
  else s

def handleWrite (env : Env) (s : Session) : Session :=
  if s.conn.closed then s
  else if s.conn.output.readableBytes > 0 then
    match env.write s.writes with
    | .wrote n => (s.noteWrite (.wrote n)).afterWrite
    | .eintr => s.noteWrite .eintr
    -- the kernel's buffer is full: `EPOLLOUT` is needed
    | .eagain => (s.noteWrite .eagain).afterWrite
    | .failed => (s.noteWrite .failed).handleError
  else s.afterWrite

/-- `output_.append(data)`. -/
def queue (s : Session) (data : Bytes) : Session :=
  { s with
    conn := { s.conn with output := s.conn.output.append data }
    trace := s.trace ++ [.queue data s.conn.closeAfterWrite] }

def send (env : Env) (s : Session) (data : Bytes) : Session :=
  if s.conn.closed || data.isEmpty then s else (s.queue data).handleWrite env

/-! ## Reading -/

def readStep (s : Session) : ReadStep → Session
  | .data chunk _ =>
    { s with
      conn := { s.conn with input := s.conn.input.readFd chunk }
      counters := { s.counters with bytesRead := s.counters.bytesRead + chunk.length } }
  | .eintr => s

/-- The response to a request that could not be parsed. -/
def badRequest : HttpResponse :=
  (HttpResponse.make 400 (bytes "400 Bad Request\n") HttpResponse.textPlain).setHeader
    (bytes "Connection") (bytes "close")

/-- The flags set with the last response. -/
def markClosing (s : Session) : Session :=
  { s with conn := { s.conn with closeAfterWrite := true, keepAlive := false } }

/-- After a parse error: queue the 400, to be closed after it. -/
def rejectRequest (env : Env) (s : Session) : Session :=
  s.countError.markClosing.send env badRequest.toString

/-- The response as it is sent: with `Connection: close` when it is the last one. -/
def finalResponse (request : HttpRequest) (response : HttpResponse) : HttpResponse :=
  if request.keepAlive && !response.closeConnection then response
  else response.setHeader (bytes "Connection") (bytes "close")

/-- The handler is called: what it answers, and the state after it. -/
def callHandler (env : Env) (s : Session) : HttpResponse × Session :=
  (env.handler s.calls s.conn.parser.request,
    { s with
      counters := { s.counters with requests := s.counters.requests + 1 }
      calls := s.calls + 1
      trace := s.trace ++ [.handle s.conn.parser.request] })

/-- The response has been sent: forget the request. -/
def finishRequest (s : Session) : Session :=
  { s with
    conn := { s.conn with parser := s.conn.parser.reset }
    counters := { s.counters with responses := s.counters.responses + 1 } }

/-- The handler has answered: the connection is kept, or closed after the response. -/
def afterCall (env : Env) (s : Session) (response : HttpResponse) : Session :=
  if s.conn.parser.request.keepAlive && !response.closeConnection then
    { (s.callHandler env).2 with conn := { s.conn with keepAlive := true } }
  else (s.callHandler env).2.markClosing

/-- After a complete request: call the handler, send its response and forget the
request. -/
def answerRequest (env : Env) (s : Session) : Session :=
  let response := (s.callHandler env).1
  ((s.afterCall env response).send env
    (finalResponse s.conn.parser.request response).toString).finishRequest

/-- The parser and the input after a call of `parse`. -/
def parseInput (s : Session) : HttpParser.Ret × Session :=
  let r := s.conn.parser.parse s.conn.input
  (r.ret, { s with conn := { s.conn with parser := r.parser, input := r.buf } })

/-! ### What writing leaves alone -/

/-- What `handleWrite` can do: nothing on a closed connection, only its end when
there is no output, and otherwise a call of `write` whose result decides. -/
theorem handleWrite_elim {P : Session → Prop} (env : Env) {s : Session} (hskip : P s)
    (hidle : P s.afterWrite) (hwrote : ∀ result, P (s.noteWrite result).afterWrite)
    (heintr : P (s.noteWrite .eintr)) (hfailed : P (s.noteWrite .failed).handleError) :
    P (s.handleWrite env) := by
  unfold handleWrite
  split
  · exact hskip
  · split
    · cases env.write s.writes with
      | wrote n => exact hwrote (.wrote n)
      | eintr => exact heintr
      | eagain => exact hwrote .eagain
      | failed => exact hfailed
    · exact hidle

/-- What is open was open before, with the same descriptor. -/
def KeepsFd (s s' : Session) : Prop :=
  s'.conn.closed = false → s.conn.closed = false ∧ s'.conn.fd = s.conn.fd

theorem KeepsFd.refl (s : Session) : KeepsFd s s := fun hopen => ⟨hopen, rfl⟩

theorem KeepsFd.trans {s s' s'' : Session} (h : KeepsFd s s') (h' : KeepsFd s' s'') :
    KeepsFd s s'' := by
  intro hopen
  obtain ⟨hmiddle, hfd'⟩ := h' hopen
  obtain ⟨hfirst, hfd⟩ := h hmiddle
  exact ⟨hfirst, hfd'.trans hfd⟩

/-- The reading half of a connection is the same in two states. -/
structure SameReading (s s' : Session) : Prop where
  input : s'.conn.input = s.conn.input
  parser : s'.conn.parser = s.conn.parser
  keepAlive : s'.conn.keepAlive = s.conn.keepAlive
  calls : s'.calls = s.calls
  keepsFd : KeepsFd s s'

theorem SameReading.refl (s : Session) : SameReading s s := ⟨rfl, rfl, rfl, rfl, .refl s⟩

theorem SameReading.trans {s s' s'' : Session} (h : SameReading s s') (h' : SameReading s' s'') :
    SameReading s s'' :=
  ⟨h'.input.trans h.input, h'.parser.trans h.parser, h'.keepAlive.trans h.keepAlive,
    h'.calls.trans h.calls, h.keepsFd.trans h'.keepsFd⟩

theorem sameReading_close (s : Session) : SameReading s s.close := by
  unfold close
  split
  · exact .refl s
  · exact ⟨rfl, rfl, rfl, rfl, nofun⟩

theorem sameReading_handleError (s : Session) : SameReading s s.handleError := by
  have hcount : SameReading s s.countError := ⟨rfl, rfl, rfl, rfl, .refl s⟩
  exact hcount.trans (sameReading_close _)

theorem sameReading_armIdleTimer (s : Session) (fresh : TimerId) :
    SameReading s (s.armIdleTimer fresh) := by
  unfold armIdleTimer
  split
  · exact .refl s
  · exact ⟨rfl, rfl, rfl, rfl, .refl s⟩

theorem sameReading_onIdleTimer (s : Session) (now : TimePoint) (fresh : TimerId) :
    SameReading s (s.onIdleTimer now fresh) := by
  unfold onIdleTimer
  split
  · refine SameReading.trans ?_ (sameReading_close _)
    exact ⟨rfl, rfl, rfl, rfl, .refl s⟩
  · exact sameReading_armIdleTimer s fresh

theorem sameReading_enableWriting (s : Session) (on : Bool) :
    SameReading s (s.enableWriting on) := by
  unfold enableWriting
  split
  · exact .refl s
  · exact ⟨rfl, rfl, rfl, rfl, .refl s⟩

theorem sameReading_afterWrite (s : Session) : SameReading s s.afterWrite := by
  have hoff : SameReading s (if s.conn.writing then s.enableWriting false else s) := by
    split
    · exact sameReading_enableWriting s false
    · exact .refl s
  unfold afterWrite
  split
  · unfold outputSent
    split
    · exact hoff.trans (sameReading_close _)
    · exact hoff
  · split
    · exact sameReading_enableWriting s true
    · exact .refl s

theorem sameReading_noteWrite (s : Session) (result : WriteResult) :
    SameReading s (s.noteWrite result) := ⟨rfl, rfl, rfl, rfl, .refl s⟩

theorem sameReading_handleWrite (env : Env) (s : Session) :
    SameReading s (s.handleWrite env) := by
  apply handleWrite_elim env
  · exact .refl s
  · exact sameReading_afterWrite s
  · exact fun _ => (sameReading_noteWrite s _).trans (sameReading_afterWrite _)
  · exact sameReading_noteWrite s _
  · exact (sameReading_noteWrite s _).trans (sameReading_handleError _)

theorem sameReading_send (env : Env) (s : Session) (data : Bytes) :
    SameReading s (s.send env data) := by
  unfold send
  split
  · exact .refl s
  · have hqueue : SameReading s (s.queue data) := ⟨rfl, rfl, rfl, rfl, .refl s⟩
    exact hqueue.trans (sameReading_handleWrite env _)

theorem parser_answerRequest (env : Env) (s : Session) :
    (s.answerRequest env).conn.parser = {} := rfl

theorem input_answerRequest (env : Env) (s : Session) :
    (s.answerRequest env).conn.input = s.conn.input := by
  calc (s.answerRequest env).conn.input
      = (s.afterCall env (s.callHandler env).1).conn.input := (sameReading_send env _ _).input
    _ = s.conn.input := by
        unfold afterCall
        split <;> rfl

theorem keepAlive_answerRequest (env : Env) (s : Session) :
    (s.answerRequest env).conn.keepAlive = (s.conn.parser.request.keepAlive &&
      !(env.handler s.calls s.conn.parser.request).closeConnection) := by
  calc (s.answerRequest env).conn.keepAlive
      = (s.afterCall env (s.callHandler env).1).conn.keepAlive :=
        (sameReading_send env _ _).keepAlive
    _ = _ := by
        unfold afterCall
        split
        · rename_i hkeep
          exact hkeep.symm
        · rename_i hclose
          exact (Bool.not_eq_true _ ▸ hclose).symm

theorem calls_answerRequest (env : Env) (s : Session) :
    (s.answerRequest env).calls = s.calls + 1 := by
  calc (s.answerRequest env).calls
      = (s.afterCall env (s.callHandler env).1).calls := (sameReading_send env _ _).calls
    _ = s.calls + 1 := by
        unfold afterCall
        split <;> rfl

/-! ### The request loop -/

/-- Decreases with every request: the parser starts each but the first one in its
initial state, where a request takes at least one byte. -/
def pending (s : Session) : ℕ :=
  s.conn.input.readableBytes + if s.conn.parser.state = .requestLine then 0 else 1

theorem pending_answerRequest_lt (env : Env) {s : Session} (hok : s.parseInput.1 = .ok) :
    (s.parseInput.2.answerRequest env).pending < s.pending := by
  unfold pending
  rw [parser_answerRequest, input_answerRequest]
  show (s.conn.parser.parse s.conn.input).buf.readableBytes + 0 < _
  by_cases hstate : s.conn.parser.state = .requestLine
  · have := HttpParser.readableBytes_parse_lt hstate hok
    rw [if_pos hstate]
    omega
  · have := HttpParser.readableBytes_parse_le s.conn.parser s.conn.input
    rw [if_neg hstate]
    omega

/-- Answer the requests in the input until one is incomplete or malformed, the
connection is to be closed, or the input is empty. -/
def handleRequest (env : Env) (s : Session) : Session :=
  match _hret : s.parseInput.1 with
  | .incomplete => s.parseInput.2
  | .error => s.parseInput.2.rejectRequest env
  | .ok =>
    let s' := s.parseInput.2.answerRequest env
    if !s'.conn.keepAlive then s'
    else if s'.conn.input.readableBytes = 0 then s'
    else handleRequest env s'
termination_by s.pending
decreasing_by exact pending_answerRequest_lt env _hret

/-- What parsing, answering and rejecting a request preserve, the request loop
preserves. -/
theorem handleRequest_invariant {P : Session → Prop} (env : Env)
    (hparse : ∀ s, P s → P s.parseInput.2) (hanswer : ∀ s, P s → P (s.answerRequest env))
    (hreject : ∀ s, P s → P (s.rejectRequest env)) {s : Session} (hs : P s) :
    P (s.handleRequest env) := by
  fun_induction handleRequest env s with
  | case1 s => exact hparse s hs
  | case2 s => exact hreject _ (hparse s hs)
  | case3 s => exact hanswer _ (hparse s hs)
  | case4 s => exact hanswer _ (hparse s hs)
  | case5 s _ _ _ _ ih => exact ih (hanswer _ (hparse s hs))

/-- Read until `EAGAIN`, then handle the requests.  The loop ends at once when
the peer has closed or there is an error. -/
def handleRead (env : Env) (s : Session) (call : ReadCall) : Session :=
  let s := call.steps.foldl readStep s
  match call.last with
  | .eof => s.close
  | .failed => s.handleError
  | .eagain now => (s.touch now).handleRequest env

/-! ## Events -/

/-- What a connection is called for. -/
inductive Event
  /-- `EPOLLHUP` or `EPOLLERR`. -/
  | hangup
  /-- `EPOLLIN` or `EPOLLRDHUP`. -/
  | read (call : ReadCall)
  /-- `EPOLLOUT`. -/
  | write
  /-- The idle timer has fired. -/
  | idle (now : TimePoint) (fresh : TimerId)
  /-- `send` is called from outside. -/
  | send (data : Bytes)

/-- One event.  A closed connection is not in the table any more. -/
def step (env : Env) (s : Session) (event : Event) : Session :=
  if s.conn.closed then s
  else
    match event with
    | .hangup => s.handleError
    | .read call => s.handleRead env call
    | .write => s.handleWrite env
    | .idle now fresh => s.onIdleTimer now fresh
    | .send data => s.send env data

/-- The part of `EventLoop::loop` that handles what `epoll_wait` reports for one
connection of the table. -/
def dispatch (env : Env) (s : Session) (hangup : Bool) (read : Option ReadCall) (write : Bool) :
    Session :=
  if hangup then s.handleError
  else
    let s := match read with
      | some call => s.handleRead env call
      | none => s
    if 0 ≤ s.conn.fd && write then s.handleWrite env else s

end Session

end WsServer
