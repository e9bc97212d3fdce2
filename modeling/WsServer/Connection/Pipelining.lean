import WsServer.Connection.Trace
import WsServer.Parser.RoundTrip

/-!
# Pipelining

A client writes requests one after another without waiting for responses.
However their bytes are cut into reads, and however the kernel takes the output,
each request that has arrived completely is handled once and in order, and the
responses go out in the same order without a byte lost or repeated
(`pipelining`).

Four loops take part: the read loop, the request loop, the parser and the
partial writes.  `Served` is what holds between events: the requests handled so
far, the bytes that belong to the next one, and a parser and input that agree
with parsing those bytes from scratch.  Parsing a front of a message and then the
rest is parsing all of it (`Message.parse_cut`), so a read re-establishes the
agreement, and the request loop is an induction over the messages that are
complete.  Writing is covered by the conservation of bytes (`conserved_run`).

A response that closes the connection ends the exchange, so the requests behind
it are not handled.  The law therefore asks that only the last response does so
(`not_pipelining_of_closing`).
-/

namespace WsServer

open CString HttpParser

namespace Session

/-! ## The exchange -/

/-- The responses to messages, with the number of the first one. -/
def responses (env : Env) : ℕ → List Message → Bytes
  | _, [] => []
  | i, m :: rest =>
    (finalResponse m.request (env.handler i m.request)).toString ++ responses env (i + 1) rest

/-- The messages that are complete in the first `n` bytes of a stream. -/
def arrived : List Message → ℕ → List Message
  | [], _ => []
  | m :: rest, n =>
    if m.encode.length ≤ n then m :: arrived rest (n - m.encode.length) else []

/-- A read until `EAGAIN`, or a write. -/
def Event.isExchange : Event → Bool
  | .read ⟨_, .eagain _⟩ => true
  | .write => true
  | _ => false

def Event.received : Event → Bytes
  | .read call => call.received
  | _ => []

/-- The bytes received in a list of events. -/
def received (events : List Event) : Bytes := events.flatMap Event.received

/-- A list of requests that a client may send without waiting: their lines are
short, and only the last one may ask for the connection to be closed. -/
structure Pipelined (messages : List Message) : Prop where
  short : ∀ m ∈ messages, m.Short
  keepAlive : ∀ m ∈ messages.dropLast, m.request.keepAlive = true

/-- Only the last response may close the connection. -/
def AnswersKeepOpen (env : Env) (messages : List Message) : Prop :=
  ∀ i (hi : i < messages.dropLast.length),
    (env.handler i messages.dropLast[i].request).closeConnection = false

theorem dropLast_of_split {messages before after : List Message} {m : Message}
    (h : messages = before ++ m :: after) (hne : after ≠ []) :
    messages.dropLast = before ++ m :: after.dropLast := by
  rw [h, List.dropLast_append_cons, List.dropLast_cons_of_ne_nil hne]

theorem Pipelined.keepAlive_of_split {messages before after : List Message} {m : Message}
    (hp : Pipelined messages) (h : messages = before ++ m :: after) (hne : after ≠ []) :
    m.request.keepAlive = true := by
  apply hp.keepAlive
  rw [dropLast_of_split h hne]
  simp

theorem AnswersKeepOpen.of_split {env : Env} {messages before after : List Message} {m : Message}
    (hanswers : AnswersKeepOpen env messages) (h : messages = before ++ m :: after)
    (hne : after ≠ []) : (env.handler before.length m.request).closeConnection = false := by
  have hdrop := dropLast_of_split h hne
  have hlt : before.length < messages.dropLast.length := by
    rw [hdrop]
    simp
  have hget : messages.dropLast[before.length] = m := by
    simp [hdrop]
  have := hanswers before.length hlt
  rwa [hget] at this

theorem responses_concat (env : Env) (i : ℕ) (messages : List Message) (m : Message) :
    responses env i (messages ++ [m]) = responses env i messages ++
      (finalResponse m.request (env.handler (i + messages.length) m.request)).toString := by
  induction messages generalizing i with
  | nil => simp [responses]
  | cons first rest ih =>
      rw [List.cons_append, responses, responses, ih, List.append_assoc, List.length_cons,
        Nat.add_right_comm, Nat.add_assoc]

theorem encodeAll_append (first second : List Message) :
    encodeAll (first ++ second) = encodeAll first ++ encodeAll second := List.flatMap_append

theorem arrived_append (first rest : List Message) (n : ℕ) :
    arrived (first ++ rest) ((encodeAll first).length + n) = first ++ arrived rest n := by
  induction first with
  | nil => simp [encodeAll]
  | cons m first ih =>
      have hlength : (encodeAll (m :: first)).length =
          m.encode.length + (encodeAll first).length := by
        simp [encodeAll]
      calc arrived (m :: (first ++ rest)) ((encodeAll (m :: first)).length + n)
          = m :: arrived (first ++ rest)
              ((encodeAll (m :: first)).length + n - m.encode.length) := by
            rw [arrived, if_pos (by omega)]
        _ = m :: arrived (first ++ rest) ((encodeAll first).length + n) := by
            rw [hlength, Nat.add_assoc, Nat.add_sub_cancel_left]
        _ = m :: (first ++ arrived rest n) := by rw [ih]

/-! ## Writing keeps the connection open -/

variable {s : Session}

/-- Without a hard error a connection that is not to be closed stays open. -/
theorem open_handleWrite {env : Env} (hwrite : ∀ k, env.write k ≠ .failed)
    (hopen : s.conn.closed = false) (hflag : s.conn.closeAfterWrite = false) :
    (s.handleWrite env).conn.closed = false := by
  have hafter : ∀ {s : Session}, s.conn.closed = false → s.conn.closeAfterWrite = false →
      s.afterWrite.conn.closed = false := by
    intro s hopen hflag
    unfold afterWrite outputSent
    rw [if_neg (show ¬ s.conn.closeAfterWrite = true by simp [hflag])]
    split
    · split
      · exact (enableWriting_of_open hopen false).2
      · exact hopen
    · split
      · exact (enableWriting_of_open hopen true).2
      · exact hopen
  unfold handleWrite
  rw [if_neg (by simp [hopen])]
  split
  · cases hresult : env.write s.writes with
    | wrote n => exact hafter hopen hflag
    | eintr => exact hopen
    | eagain => exact hafter hopen hflag
    | failed => exact absurd hresult (hwrite _)
  · exact hafter hopen hflag

theorem open_send {env : Env} (hwrite : ∀ k, env.write k ≠ .failed)
    (hopen : s.conn.closed = false) (hflag : s.conn.closeAfterWrite = false) (data : Bytes) :
    (s.send env data).conn.closed = false := by
  unfold send
  split
  · exact hopen
  · exact open_handleWrite hwrite hopen hflag

/-! ## One request -/

/-- The parser has read a message: `m` is next in the input, before `rest`. -/
structure Reads (s : Session) (m : Message) (rest : Bytes) : Prop where
  ret : s.parseInput.1 = .ok
  parser : s.parseInput.2.conn.parser = m.finished
  input : s.parseInput.2.conn.input.readable = rest

/-- What one request does on an open connection. -/
structure Answered (env : Env) (s s' : Session) (m : Message) : Prop where
  handled : handled s'.trace = handled s.trace ++ [m.request]
  queued : queued s'.trace = queued s.trace ++
    (finalResponse m.request (env.handler s.calls m.request)).toString
  calls : s'.calls = s.calls + 1
  parser : s'.conn.parser = {}

theorem answered_answerRequest (env : Env) {m : Message} {rest : Bytes} (h : Reads s m rest)
    (hopen : s.conn.closed = false) :
    Answered env s (s.parseInput.2.answerRequest env) m := by
  have hrequest : s.parseInput.2.conn.parser.request = m.request := by
    rw [h.parser]
    rfl
  have hcall : (s.parseInput.2.callHandler env).1 = env.handler s.calls m.request := by
    rw [← hrequest]
    rfl
  obtain ⟨io, htrace, hio⟩ := trace_answerRequest env (s := s.parseInput.2) hopen
  rw [hrequest, hcall] at htrace
  constructor
  · rw [htrace, List.append_cons, List.append_cons, handled_append, handled_of_isIo hio,
      handled_append, handled_append]
    simp [handled, Effect.request?, parseInput]
  · rw [htrace, List.append_cons, List.append_cons, queued_append, queued_of_isIo hio,
      queued_append, queued_append]
    simp [queued, Effect.queuedBytes, parseInput]
  · exact calls_answerRequest env _
  · exact parser_answerRequest env _

/-- A request that is kept open, with a response that is, leaves the connection
open. -/
theorem open_answerRequest {env : Env} (hwrite : ∀ k, env.write k ≠ .failed) {m : Message}
    {rest : Bytes} (h : Reads s m rest) (hopen : s.conn.closed = false)
    (hflag : s.conn.closeAfterWrite = false) (hkeep : m.request.keepAlive = true)
    (hanswer : (env.handler s.calls m.request).closeConnection = false) :
    (s.parseInput.2.answerRequest env).conn.closed = false ∧
      (s.parseInput.2.answerRequest env).conn.closeAfterWrite = false ∧
      (s.parseInput.2.answerRequest env).conn.keepAlive = true := by
  have hrequest : s.parseInput.2.conn.parser.request = m.request := by
    rw [h.parser]
    rfl
  have hstay : (s.parseInput.2.conn.parser.request.keepAlive &&
      !(env.handler s.parseInput.2.calls s.parseInput.2.conn.parser.request).closeConnection) =
      true := by
    rw [hrequest, hkeep, show s.parseInput.2.calls = s.calls from rfl, hanswer]
    rfl
  have hclosing := closing_answerRequest env s.parseInput.2
  have hkept := keepAlive_answerRequest env s.parseInput.2
  rw [if_pos hstay] at hclosing
  rw [hstay] at hkept
  refine ⟨?_, hclosing.trans hflag, hkept⟩
  have hcall : (s.parseInput.2.afterCall env (s.parseInput.2.callHandler env).1).conn.closed =
      false := (trace_afterCall env s.parseInput.2 _).2.trans hopen
  apply open_send hwrite hcall
  -- the flag after `send` is the flag before it
  rw [← closing_send env _
    (finalResponse s.parseInput.2.conn.parser.request (s.parseInput.2.callHandler env).1).toString]
  exact hclosing.trans hflag

/-! ## What holds between events -/

/-- The messages `done` have been handled, and nothing else. -/
structure Progress (env : Env) (s : Session) (done : List Message) : Prop where
  handled : handled s.trace = done.map Message.request
  queued : queued s.trace = responses env 0 done
  calls : s.calls = done.length

theorem Progress.next {env : Env} {s s' : Session} {done : List Message} {m : Message}
    (hs : Progress env s done) (h : Answered env s s' m) : Progress env s' (done ++ [m]) := by
  constructor
  · rw [h.handled, hs.handled, List.map_append]
    rfl
  · rw [h.queued, hs.queued, responses_concat, hs.calls, Nat.zero_add]
  · rw [h.calls, hs.calls, List.length_append]
    rfl

/-- Between events: `tail` has been received of the messages `rest`, and is a
front of the first of them. -/
structure Served (env : Env) (s : Session) (done rest : List Message) (tail : Bytes) : Prop where
  progress : Progress env s done
  reading : s.conn.closed = false →
    guard.parse {} tail = (s.conn.parser, s.conn.input.readable)
  active : rest ≠ [] → s.conn.closed = false ∧ s.conn.closeAfterWrite = false
  front : tail <+: encodeAll rest
  waiting : ∀ m later, rest = m :: later → tail.length < m.encode.length

/-- Inside the request loop: `stream` has been received of the messages `rest`. -/
structure Unread (env : Env) (s : Session) (done rest : List Message) (stream : Bytes) : Prop where
  progress : Progress env s done
  opened : s.conn.closed = false
  reading : guard.parse s.conn.parser s.conn.input.readable = guard.parse {} stream
  flag : rest ≠ [] → s.conn.closeAfterWrite = false
  front : stream <+: encodeAll rest

theorem handleRequest_of_incomplete (env : Env) (h : s.parseInput.1 = .incomplete) :
    s.handleRequest env = s.parseInput.2 := by
  rw [handleRequest]
  split <;> simp_all

theorem handleRequest_of_ok (env : Env) (h : s.parseInput.1 = .ok) :
    s.handleRequest env =
      if !(s.parseInput.2.answerRequest env).conn.keepAlive then s.parseInput.2.answerRequest env
      else if (s.parseInput.2.answerRequest env).conn.input.readableBytes = 0 then
        s.parseInput.2.answerRequest env
      else (s.parseInput.2.answerRequest env).handleRequest env := by
  rw [handleRequest]
  split <;> simp_all

theorem ret_parseInput (s : Session) : s.parseInput.1 =
    verdict (guard.parse s.conn.parser s.conn.input.readable).1.state :=
  ret_parse _ _

theorem conn_parseInput (s : Session) :
    (s.parseInput.2.conn.parser, s.parseInput.2.conn.input.readable) =
      guard.parse s.conn.parser s.conn.input.readable :=
  parse_eq _ _

/-- The bytes received do not make up the next message: the loop stops. -/
theorem Unread.served_of_incomplete {env : Env} {done rest : List Message} {stream : Bytes}
    (h : Unread env s done rest stream)
    (hverdict : verdict (guard.parse {} stream).1.state = .incomplete)
    (hwaiting : ∀ m later, rest = m :: later → stream.length < m.encode.length) :
    Served env (s.handleRequest env) done rest stream := by
  have hret : s.parseInput.1 = .incomplete := by rw [ret_parseInput, h.reading, hverdict]
  rw [handleRequest_of_incomplete env hret]
  constructor
  · exact ⟨h.progress.handled, h.progress.queued, h.progress.calls⟩
  · intro _
    rw [conn_parseInput, h.reading]
  · exact fun hne => ⟨h.opened, h.flag hne⟩
  · exact h.front
  · exact hwaiting

theorem Unread.reads {env : Env} {done rest : List Message} {m : Message} {later : Bytes}
    (h : Unread env s done rest (m.encode ++ later)) : Reads s m later := by
  have hparse := h.reading.trans (m.guard_parse_encode later)
  have hconn := (conn_parseInput s).trans hparse
  refine ⟨?_, congrArg Prod.fst hconn, congrArg Prod.snd hconn⟩
  rw [ret_parseInput, hparse]
  rfl

theorem readable_answerRequest (env : Env) {m : Message} {rest : Bytes} (h : Reads s m rest) :
    (s.parseInput.2.answerRequest env).conn.input.readable = rest := by
  rw [input_answerRequest, h.input]

/-- With nothing behind it the last message ends the loop. -/
theorem handleRequest_of_last (env : Env) {m : Message} (h : Reads s m []) :
    s.handleRequest env = s.parseInput.2.answerRequest env := by
  have hzero : (s.parseInput.2.answerRequest env).conn.input.readableBytes = 0 := by
    rw [← Buffer.length_readable, readable_answerRequest env h]
    rfl
  rw [handleRequest_of_ok env h.ret, if_pos hzero]
  split <;> rfl

section RequestLoop

variable {env : Env} (hwrite : ∀ k, env.write k ≠ .failed) {messages : List Message}
  (hpipelined : Pipelined messages) (hanswers : AnswersKeepOpen env messages)

include hwrite hpipelined hanswers

/-- Before another message the connection stays open. -/
theorem Unread.stays_open {done later : List Message} {m : Message} {left : Bytes}
    (hsplit : messages = done ++ m :: later) (h : Unread env s done (m :: later) (m.encode ++ left))
    (hne : later ≠ []) :
    (s.parseInput.2.answerRequest env).conn.closed = false ∧
      (s.parseInput.2.answerRequest env).conn.closeAfterWrite = false ∧
      (s.parseInput.2.answerRequest env).conn.keepAlive = true := by
  have hkeep := hpipelined.keepAlive_of_split hsplit hne
  have hanswer := hanswers.of_split hsplit hne
  rw [← h.progress.calls] at hanswer
  exact open_answerRequest hwrite h.reads h.opened (h.flag (by simp)) hkeep hanswer

/-- A message with nothing behind it is answered, whether the connection is kept or
not. -/
theorem Unread.served_of_last {done later : List Message} {m : Message}
    (hsplit : messages = done ++ m :: later) (h : Unread env s done (m :: later) (m.encode ++ [])) :
    Served env (s.handleRequest env) (done ++ [m]) later [] := by
  have hreads := h.reads
  have hanswered := answered_answerRequest env hreads h.opened
  rw [handleRequest_of_last env hreads]
  constructor
  · exact h.progress.next hanswered
  · intro _
    rw [readable_answerRequest env hreads, hanswered.parser, guard_parse_nil]
  · intro hne
    obtain ⟨hopen, hflag, -⟩ := h.stays_open hwrite hpipelined hanswers hsplit hne
    exact ⟨hopen, hflag⟩
  · exact List.nil_prefix
  · intro next _ _
    exact List.length_pos_iff.mpr next.encode_ne_nil

/-- **The request loop.**  It handles the messages that are complete, in order,
and leaves the front of the next one. -/
theorem served_handleRequest {s : Session} {done rest : List Message} {stream : Bytes}
    (hsplit : messages = done ++ rest) (h : Unread env s done rest stream) :
    ∃ done' rest' tail, messages = done' ++ rest' ∧
      encodeAll done ++ stream = encodeAll done' ++ tail ∧
      Served env (s.handleRequest env) done' rest' tail := by
  induction rest generalizing s done stream with
  | nil =>
      have hnil : stream = [] := List.prefix_nil.mp h.front
      subst hnil
      refine ⟨done, [], [], hsplit, rfl, h.served_of_incomplete ?_ (by simp)⟩
      rw [guard_parse_nil]
      rfl
  | cons m later ih =>
      have hshort : m.Short := hpipelined.short m (by simp [hsplit])
      have hfront : stream <+: m.encode ++ encodeAll later := h.front
      by_cases hlength : stream.length < m.encode.length
      · -- the parser waits for the rest of the message
        refine ⟨done, m :: later, stream, hsplit, rfl, h.served_of_incomplete ?_ ?_⟩
        · exact m.verdict_front hshort hfront hlength
        · intro m' later' heq
          cases heq
          exact hlength
      · -- the message is complete
        obtain ⟨left, rfl⟩ : m.encode <+: stream :=
          List.prefix_of_prefix_length_le (List.prefix_append _ _) hfront (not_lt.mp hlength)
        have hleft : left <+: encodeAll later := (List.prefix_append_right_inj _).mp hfront
        have hsplit' : messages = (done ++ [m]) ++ later := by simp [hsplit]
        have hbytes : encodeAll done ++ (m.encode ++ left) = encodeAll (done ++ [m]) ++ left := by
          simp [encodeAll]
        by_cases hempty : left = []
        · subst hempty
          exact ⟨done ++ [m], later, [], hsplit', hbytes,
            h.served_of_last hwrite hpipelined hanswers hsplit⟩
        · -- more has been received, so there is a next message
          have hne : later ≠ [] := by
            rintro rfl
            exact hempty (List.prefix_nil.mp hleft)
          have hreads := h.reads
          have hanswered := answered_answerRequest env hreads h.opened
          have hreadable := readable_answerRequest env hreads
          obtain ⟨hopen, hflag, hkept⟩ := h.stays_open hwrite hpipelined hanswers hsplit hne
          have hpos : (s.parseInput.2.answerRequest env).conn.input.readableBytes ≠ 0 := by
            rw [← Buffer.length_readable, hreadable]
            exact (List.length_pos_iff.mpr hempty).ne'
          rw [handleRequest_of_ok env hreads.ret, hkept, if_neg (by simp), if_neg hpos]
          obtain ⟨done', rest', tail, hsplit'', hbytes', hserved⟩ := ih hsplit'
            ⟨h.progress.next hanswered, hopen, by rw [hanswered.parser, hreadable],
              fun _ => hflag, hleft⟩
          exact ⟨done', rest', tail, hsplit'', hbytes.trans hbytes', hserved⟩

end RequestLoop

/-! ## Runs -/

theorem handleRead_eagain (env : Env) (s : Session) (steps : List ReadStep) (now : TimePoint) :
    s.handleRead env ⟨steps, .eagain now⟩ =
      ((steps.foldl readStep s).touch now).handleRequest env := rfl

/-- What has been read goes behind the unread bytes, and the parser has yet to
look at it. -/
theorem Served.unread {env : Env} {messages done rest : List Message} {tail : Bytes}
    (hpipelined : Pipelined messages) (hsplit : messages = done ++ rest)
    (hs : Served env s done rest tail) (hopen : s.conn.closed = false) {steps : List ReadStep}
    (hfront : tail ++ steps.flatMap ReadStep.bytes <+: encodeAll rest) (now : TimePoint) :
    Unread env ((steps.foldl readStep s).touch now) done rest
      (tail ++ steps.flatMap ReadStep.bytes) := by
  have hread := onlyInput_readSteps s steps
  have hcut : guard.parse (guard.parse {} tail).1
      ((guard.parse {} tail).2 ++ steps.flatMap ReadStep.bytes) =
        guard.parse {} (tail ++ steps.flatMap ReadStep.bytes) := by
    cases rest with
    | nil =>
        -- everything has arrived, so nothing is read
        obtain ⟨htail, hnew⟩ := List.append_eq_nil_iff.mp (List.prefix_nil.mp hfront)
        rw [htail, hnew, guard_parse_nil]
    | cons m later => exact m.parse_cut (hpipelined.short m (by simp [hsplit])) hfront
  constructor
  · exact ⟨by rw [← hs.progress.handled, ← hread.trace]; rfl,
      by rw [← hs.progress.queued, ← hread.trace]; rfl, hread.calls.trans hs.progress.calls⟩
  · exact hread.closed.trans hopen
  · show guard.parse (steps.foldl readStep s).conn.parser
      (steps.foldl readStep s).conn.input.readable = _
    rw [← hcut, hs.reading hopen, hread.parser, readable_readSteps]
  · exact fun hne => hread.closing.trans (hs.active hne).2
  · exact hfront

/-- On a connection that has been closed everything has been handled. -/
theorem Served.rest_of_closed {env : Env} {done rest : List Message} {tail : Bytes}
    (hs : Served env s done rest tail) (hclosed : s.conn.closed = true) : rest = [] := by
  by_contra hne
  rw [(hs.active hne).1] at hclosed
  simp at hclosed

theorem served_handleWrite {env : Env} (hwrite : ∀ k, env.write k ≠ .failed)
    {done rest : List Message} {tail : Bytes} (hs : Served env s done rest tail)
    (hopen : s.conn.closed = false) : Served env (s.handleWrite env) done rest tail := by
  have hreading := sameReading_handleWrite env s
  have hgrows := grows_handleWrite env s
  constructor
  · exact ⟨hgrows.handled_eq.trans hs.progress.handled, hgrows.queued_eq.trans hs.progress.queued,
      hreading.calls.trans hs.progress.calls⟩
  · intro _
    rw [hreading.parser, hreading.input]
    exact hs.reading hopen
  · -- with messages to come no response has been a closing one
    intro hne
    exact ⟨open_handleWrite hwrite hopen (hs.active hne).2,
      (closing_handleWrite env s).trans (hs.active hne).2⟩
  · exact hs.front
  · exact hs.waiting

theorem served_step {env : Env} (hwrite : ∀ k, env.write k ≠ .failed) {messages : List Message}
    (hpipelined : Pipelined messages) (hanswers : AnswersKeepOpen env messages)
    {done rest : List Message} {tail : Bytes} (hsplit : messages = done ++ rest)
    (hs : Served env s done rest tail) {event : Event} (hevent : event.isExchange = true)
    (hfront : tail ++ event.received <+: encodeAll rest) :
    ∃ done' rest' tail', messages = done' ++ rest' ∧
      encodeAll done ++ (tail ++ event.received) = encodeAll done' ++ tail' ∧
      Served env (s.step env event) done' rest' tail' := by
  cases hclosed : s.conn.closed with
  | true =>
      -- no more events are delivered, and no more bytes are sent
      have hrest := hs.rest_of_closed hclosed
      subst hrest
      obtain ⟨htail, hnew⟩ := List.append_eq_nil_iff.mp (List.prefix_nil.mp hfront)
      refine ⟨done, [], tail, hsplit, by rw [hnew, List.append_nil], ?_⟩
      rwa [step_of_closed env hclosed]
  | false =>
      unfold Session.step
      rw [if_neg (by simp [hclosed])]
      match event, hevent with
      | .read ⟨steps, .eagain now⟩, _ =>
          show ∃ done' rest' tail', _ ∧ _ ∧ Served env (s.handleRead env ⟨steps, .eagain now⟩)
            done' rest' tail'
          rw [handleRead_eagain]
          exact served_handleRequest hwrite hpipelined hanswers hsplit
            (hs.unread hpipelined hsplit hclosed hfront now)
      | .write, _ =>
          refine ⟨done, rest, tail, hsplit, ?_, served_handleWrite hwrite hs hclosed⟩
          simp [Event.received]

theorem readable_input_start (fd idleTimeoutS : ℤ) (now : TimePoint) :
    (start fd idleTimeoutS now).conn.input.readable = [] :=
  Connection.readable_input_ofFd fd idleTimeoutS now

theorem served_start (env : Env) (fd idleTimeoutS : ℤ) (now : TimePoint)
    (messages : List Message) : Served env (start fd idleTimeoutS now) [] messages [] := by
  constructor
  · exact ⟨rfl, rfl, rfl⟩
  · intro _
    rw [readable_input_start, guard_parse_nil]
    rfl
  · exact fun _ => ⟨rfl, rfl⟩
  · exact List.nil_prefix
  · intro m _ _
    exact List.length_pos_iff.mpr m.encode_ne_nil

theorem received_concat (events : List Event) (event : Event) :
    received (events ++ [event]) = received events ++ event.received := by
  simp [received]

theorem served_run {env : Env} (hwrite : ∀ k, env.write k ≠ .failed) {messages : List Message}
    (hpipelined : Pipelined messages) (hanswers : AnswersKeepOpen env messages)
    (fd idleTimeoutS : ℤ) (now : TimePoint) {events : List Event}
    (hevents : ∀ event ∈ events, event.isExchange = true)
    (hbytes : received events <+: encodeAll messages) :
    ∃ done rest tail, messages = done ++ rest ∧ received events = encodeAll done ++ tail ∧
      Served env (run env (start fd idleTimeoutS now) events) done rest tail := by
  induction events using List.reverseRecOn with
  | nil => exact ⟨[], messages, [], rfl, rfl, served_start env fd idleTimeoutS now messages⟩
  | append_singleton events event ih =>
      rw [received_concat] at hbytes
      obtain ⟨done, rest, tail, hsplit, hreceived, hs⟩ :=
        ih (fun e he => hevents e (by simp [he])) ((List.prefix_append _ _).trans hbytes)
      have hfront : tail ++ event.received <+: encodeAll rest := by
        rwa [hreceived, hsplit, encodeAll_append, List.append_assoc,
          List.prefix_append_right_inj] at hbytes
      obtain ⟨done', rest', tail', hsplit', hreceived', hs'⟩ :=
        served_step hwrite hpipelined hanswers hsplit hs (hevents event (by simp)) hfront
      refine ⟨done', rest', tail', hsplit', ?_, ?_⟩
      · calc received (events ++ [event]) = received events ++ event.received :=
              received_concat events event
          _ = encodeAll done ++ (tail ++ event.received) := by
              rw [hreceived, List.append_assoc]
          _ = encodeAll done' ++ tail' := hreceived'
      · rw [run, Transition.run_concat]
        exact hs'

/-- The messages handled are those that have arrived. -/
theorem Served.arrived_eq {env : Env} {messages done rest : List Message} {tail bytes : Bytes}
    (hs : Served env s done rest tail) (hsplit : messages = done ++ rest)
    (hbytes : bytes = encodeAll done ++ tail) : arrived messages bytes.length = done := by
  rw [hsplit, hbytes, List.length_append, arrived_append]
  cases rest with
  | nil => exact List.append_nil _
  | cons m later =>
      have hlt := hs.waiting m later rfl
      rw [arrived, if_neg (by omega), List.append_nil]

/-- The handler has been called once with each request that has arrived, in
order, and what the kernel has taken followed by the output are the responses, in
the same order. -/
structure InOrder (env : Env) (messages : List Message) (events : List Event) (s : Session) :
    Prop where
  handled : handled s.trace =
    (arrived messages (received events).length).map Message.request
  sent : accepted s.trace ++ s.conn.output.readable =
    responses env 0 (arrived messages (received events).length)

/-- **Pipelining.**  Requests are handled as they arrive, once and in order, and
so are their responses: for every cut of the stream into reads, every order of
reads and writes, and every result of `write` but a hard error. -/
theorem pipelining {env : Env} (hwrite : ∀ k, env.write k ≠ .failed) {messages : List Message}
    (hpipelined : Pipelined messages) (hanswers : AnswersKeepOpen env messages)
    (fd idleTimeoutS : ℤ) (now : TimePoint) {events : List Event}
    (hevents : ∀ event ∈ events, event.isExchange = true)
    (hbytes : received events <+: encodeAll messages) :
    InOrder env messages events (run env (start fd idleTimeoutS now) events) := by
  obtain ⟨done, rest, tail, hsplit, hreceived, hs⟩ :=
    served_run hwrite hpipelined hanswers fd idleTimeoutS now hevents hbytes
  have harrived := hs.arrived_eq hsplit hreceived
  constructor
  · rw [harrived, hs.progress.handled]
  · rw [harrived, ← hs.progress.queued]
    exact conserved_run env fd idleTimeoutS now events

/-- A handler that answers by the number of the call, and a kernel that takes five
bytes at a time and none in between. -/
def sampleEnv : Env where
  handler := fun i _ => { status := 200 + i }
  write := fun k => if k % 2 = 0 then .wrote 5 else .eagain

/-- Two requests in three reads, the second of which has the end of the first and
the beginning of the second request. -/
def sampleEvents : List Event :=
  [.read ⟨[.data (sampleGet.encode.take 7) (by decide)], .eagain 1⟩,
    .write,
    .read ⟨[.data (sampleGet.encode.drop 7) (by decide), .eintr,
      .data (samplePost.encode.take 60) (by decide)], .eagain 2⟩,
    .write,
    .read ⟨[.data (samplePost.encode.drop 60) (by decide)], .eagain 3⟩,
    .write]

/-- The law on this exchange. -/
theorem pipelining_sample :
    InOrder sampleEnv [sampleGet.message, samplePost.message] sampleEvents
      (run sampleEnv (start 5 60 0) sampleEvents) := by
  refine pipelining (fun k => ?_) ⟨?_, ?_⟩ ?_ 5 60 0 ?_ ?_
  · show (if k % 2 = 0 then WriteResult.wrote 5 else .eagain) ≠ .failed
    split <;> simp
  · decide +kernel
  · decide +kernel
  · intro i _
    rfl
  · decide
  · decide +kernel

/-- A handler that closes the connection with every response: of two requests
that arrive together it gets only the first. -/
theorem not_pipelining_of_closing : ¬ ∀ (env : Env) (messages : List Message)
    (events : List Event), (∀ k, env.write k ≠ .eintr ∧ env.write k ≠ .failed) →
      Pipelined messages → (∀ event ∈ events, event.isExchange = true) →
      received events <+: encodeAll messages →
        InOrder env messages events (run env (start 5 60 0) events) := by
  intro hall
  have hlaw := hall ⟨fun _ _ => { closeConnection := true }, fun _ => .wrote 1000⟩
    [sampleGet.message, sampleGet.message]
    [.read ⟨[.data (sampleGet.encode ++ sampleGet.encode) (by decide)], .eagain 1⟩]
    (by simp) ⟨by decide +kernel, by decide +kernel⟩ (by decide)
    (by decide +kernel)
  have hhandled := congrArg List.length hlaw.handled
  revert hhandled
  decide +kernel

end Session

end WsServer
