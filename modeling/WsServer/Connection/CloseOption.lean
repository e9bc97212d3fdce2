import WsServer.Connection.Arming
import WsServer.Connection.Pipelining
import WsServer.Parser.Framing
import WsServer.Parser.Spelling

/-!
# The option `close`

A request asks for the connection to be closed when an element of one of its `Connection` lines is
`close`.  `keepAlive` compares the value of the last such line with one word, so it sees the option
only when it stands alone there (`DecidesToClose`), or when the version is 1.0 and the value is not
`keep-alive`.

Where `keepAlive` is false the connection does what it should: the response says
`Connection: close`, the request is the last one of the loop, and from then on the connection is
closed or waits for its output to be sent (`closesAfter_handleRequest`).
-/

namespace WsServer

open CString HttpParser

/-! ## The request -/

/-- The values of the `Connection` lines. -/
def connectionValues (lines : List Bytes) : List Bytes := fieldValues (bytes "connection") lines

/-- An element of a list of options is `close`, with white space around it. -/
def IsClose (element : Bytes) : Prop :=
  ∃ before option after, element = before ++ option ++ after ∧ Blank before ∧ Blank after ∧
    toLower option = bytes "close"

/-- One of the `Connection` lines has the option `close`. -/
def AsksToClose (lines : List Bytes) : Prop :=
  ∃ value ∈ connectionValues lines, ∃ element ∈ value.splitOn 44, IsClose element

/-- What `keepAlive` looks at: the last `Connection` line as a whole. -/
def DecidesToClose (version : Bytes) (lines : List Bytes) : Prop :=
  let last := (connectionValues lines).getLast?.getD []
  if version = bytes "HTTP/1.0" then toLower last ≠ bytes "keep-alive"
  else toLower last = bytes "close"

theorem iequals_iff_toLower {value option : Bytes} (hoption : toLower option = option) :
    iequals value option = true ↔ toLower value = option := by
  rw [iequals_iff]
  exact Eq.congr_right hoption

/-- The request of an accepted head is kept alive unless its last `Connection` line decides. -/
theorem keepAlive_request (h : RequestHead) (line : RequestLine) (body : Bytes) :
    (h.request line body).keepAlive = false ↔ DecidesToClose line.version h.lines := by
  have hvalue : (h.request line body).getHeader (bytes "connection") =
      (connectionValues h.lines).getLast?.getD [] :=
    getHeader_afterLines {} h.lines _
  have hversion : (h.request line body).version = line.version := rfl
  simp only [HttpRequest.keepAlive, DecidesToClose, hvalue, hversion]
  split
  · rw [← Bool.not_eq_true, iequals_iff_toLower (by decide)]
  · rw [Bool.not_eq_false', iequals_iff_toLower (by decide)]

namespace Session

variable {s s' : Session}

/-! ## The connection -/

/-- The flag is not taken back. -/
theorem flag_answerRequest (env : Env) (h : s.conn.closeAfterWrite = true) :
    (s.answerRequest env).conn.closeAfterWrite = true := by
  rw [closing_answerRequest]
  split
  · exact h
  · rfl

theorem flag_handleRequest (env : Env) (h : s.conn.closeAfterWrite = true) :
    (s.handleRequest env).conn.closeAfterWrite = true := by
  have hreject : ∀ s : Session, (s.rejectRequest env).conn.closeAfterWrite = true := by
    intro s
    unfold rejectRequest
    rw [closing_send]
    rfl
  exact handleRequest_invariant env (P := fun s => s.conn.closeAfterWrite = true) (fun _ h => h)
    (fun _ h => flag_answerRequest env h) (fun s _ => hreject s) h

theorem flag_handleRead (env : Env) (h : s.conn.closeAfterWrite = true) (call : ReadCall) :
    (s.handleRead env call).conn.closeAfterWrite = true := by
  have hread : (call.steps.foldl readStep s).conn.closeAfterWrite = true :=
    (onlyInput_readSteps s call.steps).closing.trans h
  unfold handleRead
  cases call.last with
  | eagain now => exact flag_handleRequest env hread
  | eof => exact (silent_close _).closing.trans hread
  | failed => exact (silent_handleError _).closing.trans hread

theorem flag_step (env : Env) (s : Session) (event : Event) (h : s.conn.closeAfterWrite = true) :
    (s.step env event).conn.closeAfterWrite = true := by
  unfold step
  split
  · exact h
  · cases event with
    | hangup => exact (silent_handleError s).closing.trans h
    | read call => exact flag_handleRead env h call
    | write => exact (closing_handleWrite env s).trans h
    | idle now fresh => exact (silent_onIdleTimer s now fresh).closing.trans h
    | send data => exact (closing_send env s data).trans h

/-- The request that has been read is answered with `Connection: close`, and from then on the
connection is closed, or it waits for the rest of its output to be sent. -/
structure ClosesAfter (env : Env) (s : Session) : Prop where
  answered : ∃ io, (s.handleRequest env).trace = s.trace ++
      .handle s.parseInput.2.conn.parser.request ::
      .queue ((env.handler s.calls s.parseInput.2.conn.parser.request).setHeader
        (bytes "Connection") (bytes "close")).toString true :: io ∧
    ∀ e ∈ io, e.isIo = true
  closes : ∀ events, (run env (s.handleRequest env) events).conn.closed = true ∨
    (run env (s.handleRequest env) events).conn.closeAfterWrite = true ∧
      (run env (s.handleRequest env) events).conn.output.readable ≠ []

/-- Where `keepAlive` is false, the connection is closed after the response. -/
theorem closesAfter_handleRequest (env : Env) (hopen : s.conn.closed = false)
    (hok : s.parseInput.1 = .ok)
    (hkeep : s.parseInput.2.conn.parser.request.keepAlive = false) : ClosesAfter env s := by
  have hlast : s.handleRequest env = s.parseInput.2.answerRequest env := by
    rw [handleRequest_of_ok env hok, keepAlive_answerRequest, hkeep]
    rfl
  have hflag : (s.handleRequest env).conn.closeAfterWrite = true := by
    rw [hlast, closing_answerRequest, hkeep]
    rfl
  constructor
  · obtain ⟨io, htrace, hio⟩ := trace_answerRequest env (s := s.parseInput.2) hopen
    refine ⟨io, ?_, hio⟩
    rw [hlast, htrace, ← hlast, hflag, finalResponse, hkeep]
    rfl
  · intro events
    have hsettled : Settled (s.handleRequest env) := by
      rw [hlast]
      exact settled_answerRequest env _
    have hstep : ∀ (s : Session) event, Settled s ∧ s.conn.closeAfterWrite = true →
        Settled (s.step env event) ∧ (s.step env event).conn.closeAfterWrite = true :=
      fun s event h => ⟨settled_step env s event h.1, flag_step env s event h.2⟩
    have hrun : Settled (run env (s.handleRequest env) events) ∧
        (run env (s.handleRequest env) events).conn.closeAfterWrite = true :=
      Transition.run_invariant hstep ⟨hsettled, hflag⟩ events
    cases hclosed : (run env (s.handleRequest env) events).conn.closed with
    | true => exact .inl rfl
    | false => exact .inr ⟨hrun.2, hrun.1.closing hclosed hrun.2⟩

end Session

/-! ## The law -/

/-- A request that asks to close is not kept alive, however it is delivered, and the connection
that has read it is closed after the response. -/
structure HonoursClose (h : RequestHead) : Prop where
  keepAlive : AsksToClose h.lines → ∀ d : Delivery h, d.outcome.ret = .ok →
    d.outcome.parser.request.keepAlive = false
  closes : AsksToClose h.lines → ∀ d : Delivery h, d.outcome.ret = .ok →
    ∀ (env : Env) (s : Session), s.conn.closed = false → s.parseInput.1 = .ok →
      s.parseInput.2.conn.parser = d.outcome.parser → s.ClosesAfter env

/-- **The option `close`.**  It is honoured exactly when the head is not accepted, or does not have
the option, or its last `Connection` line is the whole word `close`; or, for HTTP/1.0, anything but
the whole word `keep-alive`. -/
theorem honoursClose_iff (h : RequestHead) : HonoursClose h ↔
    ∀ line, h.Accepted line → AsksToClose h.lines → DecidesToClose line.version h.lines := by
  constructor
  · intro hlaw line hacc hasks
    have hbody : (List.replicate (statedLength h.lines) (0 : UInt8)).length =
        statedLength h.lines := List.length_replicate
    obtain ⟨hok, hrequest⟩ := Delivery.whole_of_accepted hacc hbody
    have hkeep := hlaw.keepAlive hasks _ hok
    rw [hrequest] at hkeep
    exact (keepAlive_request h line _).mp hkeep
  · intro hcond
    have hkeep : AsksToClose h.lines → ∀ d : Delivery h, d.outcome.ret = .ok →
        d.outcome.parser.request.keepAlive = false := by
      intro hasks d hok
      obtain ⟨line, hacc, body, -, hrequest⟩ := d.of_ret_ok hok
      rw [hrequest]
      exact (keepAlive_request h line body).mpr (hcond line hacc hasks)
    refine ⟨hkeep, fun hasks d hok env s hopen hparsed hparser => ?_⟩
    apply Session.closesAfter_handleRequest env hopen hparsed
    rw [hparser]
    exact hkeep hasks d hok

/-- The option stands in a list. -/
def closeInList : RequestHead where
  requestLine := bytes "GET /old HTTP/1.1"
  lines := [bytes "Connection: close, TE"]
  requestLine_whole := by decide
  lines_whole := by decide

theorem not_honoursClose : ¬HonoursClose closeInList := by
  intro hlaw
  have hasks : AsksToClose closeInList.lines :=
    ⟨bytes "close, TE", by decide +kernel, bytes "close", by decide +kernel,
      [], bytes "close", [], by decide, by decide, by decide, by decide +kernel⟩
  have hkeep := hlaw.keepAlive hasks (Delivery.whole _ []) (by decide +kernel)
  revert hkeep
  decide +kernel

end WsServer
