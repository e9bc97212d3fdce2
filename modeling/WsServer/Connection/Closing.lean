import WsServer.Connection.Trace

/-!
# The end of a connection

Two laws about how a connection ends, and where the code keeps them.

Requests that have arrived before the peer's end-of-stream should be answered
before the connection is closed.  `handleRead` closes as soon as it reads the end
of the stream, and never looks at what it has read in the same call
(`answersBeforeClosing_iff`).

Nothing should follow a closing response.  The response is marked by
`close_after_write_`, but `handleRead` does not consult the flag: while the
output drains, a read event parses and answers what has arrived.  The law holds
in exactly the runs in which such an event finds nothing to parse
(`nothingFollows_run_iff`).
-/

namespace WsServer

open CString

namespace Session

/-! ## The end of the stream -/

/-- The requests that are complete in the bytes of a buffer: what alternating
`parse` and `reset` returns before the first result that is not `ok`. -/
def completeRequests (p : HttpParser) (b : Buffer) : List HttpRequest :=
  if _hok : (p.parse b).ret = .ok then
    (p.parse b).parser.request :: completeRequests (p.parse b).parser.reset (p.parse b).buf
  else []
termination_by b.readableBytes + if p.state = .requestLine then 0 else 1
decreasing_by
  show (p.parse b).buf.readableBytes + 0 < _
  by_cases hstate : p.state = .requestLine
  · have := HttpParser.readableBytes_parse_lt hstate _hok
    rw [if_pos hstate]
    omega
  · have := HttpParser.readableBytes_parse_le p b
    rw [if_neg hstate]
    omega

theorem completeRequests_eq_nil {p : HttpParser} {b : Buffer} :
    completeRequests p b = [] ↔ (p.parse b).ret ≠ .ok := by
  unfold completeRequests
  split <;> simp_all

/-- The effects of a call of `handleRead` before the connection is closed. -/
def beforeClosing (env : Env) (s : Session) (call : ReadCall) : List Effect :=
  ((s.handleRead env call).trace.drop s.trace.length).takeWhile fun e =>
    match e with
    | .closeFd _ => false
    | .removeConnection _ => false
    | _ => true

/-- The input after the reads of a call. -/
def inputRead (s : Session) (steps : List ReadStep) : Buffer := (steps.foldl readStep s).conn.input

/-- The requests for which the handler is called and a response queued. -/
def answered : List Effect → List HttpRequest
  | .handle request :: .queue _ _ :: rest => request :: answered rest
  | _ :: rest => answered rest
  | [] => []

theorem answered_of_isIo {effects : List Effect} (h : ∀ e ∈ effects, e.isIo = true) :
    answered effects = [] := by
  induction effects with
  | nil => rfl
  | cons first rest ih =>
      have hrest := ih fun e he => h e (List.mem_cons_of_mem _ he)
      have hfirst := h first List.mem_cons_self
      cases first with
      | handle request => simp [Effect.isIo] at hfirst
      | _ => exact hrest

/-- Every request that is complete in the input is passed to the handler, and its
response to `send`, before the connection is closed. -/
def AnswersBeforeClosing (env : Env) (s : Session) (call : ReadCall) : Prop :=
  completeRequests s.conn.parser (s.inputRead call.steps) <+: answered (s.beforeClosing env call)

/-- A call that reads the end of the stream answers nothing. -/
theorem answered_beforeClosing_eof (env : Env) (s : Session) (steps : List ReadStep) :
    answered (s.beforeClosing env ⟨steps, .eof⟩) = [] := by
  obtain ⟨effects, htrace, hcontrol⟩ := (silent_close (steps.foldl readStep s)).grows
  rw [(onlyInput_readSteps s steps).trace] at htrace
  have hnew : (s.handleRead env ⟨steps, .eof⟩).trace.drop s.trace.length = effects := by
    show (steps.foldl readStep s).close.trace.drop s.trace.length = effects
    rw [htrace, List.drop_left]
  unfold beforeClosing
  rw [hnew]
  refine answered_of_isIo fun e he => ?_
  exact Effect.isIo_of_isControl (hcontrol e (List.takeWhile_subset _ he))

/-- **The end of the stream.**  Requests are answered before the connection is
closed exactly when none is complete. -/
theorem answersBeforeClosing_iff (env : Env) (s : Session) (steps : List ReadStep) :
    AnswersBeforeClosing env s ⟨steps, .eof⟩ ↔
      (s.conn.parser.parse (s.inputRead steps)).ret ≠ .ok := by
  unfold AnswersBeforeClosing
  rw [answered_beforeClosing_eof, List.prefix_nil, completeRequests_eq_nil]

/-- A connection whose peer sends one request and closes its sending side. -/
theorem not_answersBeforeClosing : ¬ ∀ (env : Env) (s : Session) (steps : List ReadStep),
    AnswersBeforeClosing env s ⟨steps, .eof⟩ := by
  intro hall
  have hanswers := hall ⟨fun _ _ => {}, fun _ => .wrote 1000⟩ (start 5 60 0)
    [.data (bytes "GET / HTTP/1.1\r\n\r\n") (by decide)]
  unfold AnswersBeforeClosing at hanswers
  rw [answered_beforeClosing_eof, List.prefix_nil, completeRequests_eq_nil] at hanswers
  exact hanswers (by decide +kernel)

/-! ## Nothing after a closing response -/

/-- A response after which the connection is to be closed. -/
def isClosing : Effect → Bool
  | .queue _ closing => closing
  | _ => false

/-- After a closing response the handler is not called and nothing is queued. -/
def NothingFollows (trace : List Effect) : Prop :=
  trace.Pairwise fun first later => isClosing first = true → later.isIo = true

instance (trace : List Effect) : Decidable (NothingFollows trace) :=
  inferInstanceAs (Decidable (trace.Pairwise _))

/-- A closing response has been queued. -/
def HasClosing (trace : List Effect) : Prop := ∃ e ∈ trace, isClosing e = true

theorem hasClosing_append {first second : List Effect} :
    HasClosing (first ++ second) ↔ HasClosing first ∨ HasClosing second := by
  simp only [HasClosing, List.mem_append, or_and_right, exists_or]

theorem not_hasClosing_of_isIo {effects : List Effect} (h : ∀ e ∈ effects, e.isIo = true) :
    ¬ HasClosing effects := by
  rintro ⟨e, he, hclosing⟩
  have hio := h e he
  cases e with
  | queue _ _ => exact absurd hio Bool.false_ne_true
  | _ => exact absurd hclosing Bool.false_ne_true

theorem nothingFollows_of_not_hasClosing {trace : List Effect} (h : ¬ HasClosing trace) :
    NothingFollows trace := by
  unfold NothingFollows
  rw [List.pairwise_iff_forall_sublist]
  intro first later hsub hclosing
  exact absurd ⟨first, hsub.subset List.mem_cons_self, hclosing⟩ h

/-- Registration, writes and closing may follow. -/
theorem nothingFollows_append_isIo {trace effects : List Effect}
    (h : ∀ e ∈ effects, e.isIo = true) :
    NothingFollows (trace ++ effects) ↔ NothingFollows trace := by
  unfold NothingFollows
  rw [List.pairwise_append]
  constructor
  · exact fun hall => hall.1
  · intro htrace
    refine ⟨htrace, ?_, fun _ _ later hlater _ => h later hlater⟩
    exact nothingFollows_of_not_hasClosing (not_hasClosing_of_isIo h)

theorem nothingFollows_concat {trace : List Effect} {e : Effect} (he : e.isIo = false) :
    NothingFollows (trace ++ [e]) ↔ ¬ HasClosing trace := by
  constructor
  · rintro hfollows ⟨first, hfirst, hclosing⟩
    have := (List.pairwise_append.mp hfollows).2.2 first hfirst e (by simp) hclosing
    rw [he] at this
    simp at this
  · intro hnone
    refine List.pairwise_append.mpr ⟨nothingFollows_of_not_hasClosing hnone, by simp, ?_⟩
    intro first hfirst _ _ hclosing
    exact absurd ⟨first, hfirst, hclosing⟩ hnone

theorem NothingFollows.of_front {trace longer : List Effect} (h : NothingFollows longer)
    (hfront : trace <+: longer) : NothingFollows trace :=
  List.Pairwise.sublist hfront.sublist h

/-- In particular at most one closing response is queued, and so at most one 400. -/
theorem length_filter_isClosing_le {trace : List Effect} (h : NothingFollows trace) :
    (trace.filter isClosing).length ≤ 1 := by
  -- of two closing responses the second would follow the first
  by_contra hmany
  have hsub : NothingFollows (trace.filter isClosing) := List.Pairwise.sublist List.filter_sublist h
  obtain ⟨first, rest, hcons⟩ := List.exists_cons_of_ne_nil
    (show trace.filter isClosing ≠ [] by rintro hnil; simp [hnil] at hmany)
  obtain ⟨second, rest', hcons'⟩ := List.exists_cons_of_ne_nil
    (show rest ≠ [] by rintro rfl; simp [hcons] at hmany)
  have hclosing : ∀ e ∈ trace.filter isClosing, isClosing e = true :=
    fun e he => (List.mem_filter.mp he).2
  rw [hcons, hcons'] at hsub hclosing
  have hio := (List.pairwise_cons.mp hsub).1 second (by simp) (hclosing first (by simp))
  have hsecond : HasClosing [second] := ⟨second, by simp, hclosing second (by simp)⟩
  exact not_hasClosing_of_isIo (by simpa using hio) hsecond

/-- The flag marks exactly the open connections with a closing response. -/
structure Marked (s : Session) : Prop where
  flag : HasClosing s.trace → s.conn.closeAfterWrite = true
  response : s.conn.closed = false → s.conn.closeAfterWrite = true → HasClosing s.trace

variable {s s' : Session}

theorem Marked.hasClosing_iff (h : Marked s) (hopen : s.conn.closed = false) :
    HasClosing s.trace ↔ s.conn.closeAfterWrite = true :=
  ⟨h.flag, h.response hopen⟩

/-! ### Marking is kept -/

theorem hasClosing_grows (h : Grows Effect.isIo s s') :
    HasClosing s'.trace ↔ HasClosing s.trace := by
  obtain ⟨effects, htrace, hio⟩ := h
  rw [htrace, hasClosing_append]
  simp [not_hasClosing_of_isIo hio]

theorem nothingFollows_grows (h : Grows Effect.isIo s s') :
    NothingFollows s'.trace ↔ NothingFollows s.trace := by
  obtain ⟨effects, htrace, hio⟩ := h
  rw [htrace, nothingFollows_append_isIo hio]

theorem Marked.of_grows (h : Marked s) (hgrows : Grows Effect.isIo s s')
    (hclosing : s'.conn.closeAfterWrite = s.conn.closeAfterWrite)
    (hstays : s.conn.closed = true → s'.conn.closed = true) : Marked s' := by
  constructor
  · intro hhas
    rw [hclosing]
    exact h.flag ((hasClosing_grows hgrows).mp hhas)
  · intro hopen hflag
    have hopen' : s.conn.closed = false := by
      by_contra hclosed
      rw [hstays (by simpa using hclosed)] at hopen
      simp at hopen
    exact (hasClosing_grows hgrows).mpr (h.response hopen' (hclosing ▸ hflag))

theorem Silent.marked (h : Silent s s') (hs : Marked s) : Marked s' :=
  hs.of_grows h.grows.isIo h.closing h.stays

theorem marked_handleWrite (env : Env) (hs : Marked s) : Marked (s.handleWrite env) := by
  refine hs.of_grows (grows_handleWrite env s) (closing_handleWrite env s) fun hclosed => ?_
  rw [handleWrite_of_closed env hclosed]
  exact hclosed

/-- Sending a response marks it when the flag has just been set. -/
theorem marked_send (env : Env) (hflag : HasClosing s.trace → s.conn.closeAfterWrite = true)
    {data : Bytes} (hne : data ≠ []) : Marked (s.send env data) := by
  by_cases hclosed : s.conn.closed = true
  · rw [send_of_closed env hclosed]
    refine ⟨hflag, fun hopen => ?_⟩
    rw [hclosed] at hopen
    simp at hopen
  · obtain ⟨io, htrace, hio⟩ := trace_send env (by simpa using hclosed) hne
    constructor
    · rw [htrace, closing_send, hasClosing_append]
      rintro (hbefore | ⟨e, he, hclosing⟩)
      · exact hflag hbefore
      · rcases List.mem_cons.mp he with rfl | hmem
        · exact hclosing
        · exact absurd ⟨e, hmem, hclosing⟩ (not_hasClosing_of_isIo hio)
    · intro _ hset
      rw [closing_send] at hset
      rw [htrace]
      exact ⟨.queue data s.conn.closeAfterWrite, by simp, hset⟩

theorem marked_rejectRequest (env : Env) (s : Session) : Marked (s.rejectRequest env) := by
  unfold rejectRequest
  exact marked_send env (s := s.countError.markClosing) (fun _ => rfl)
    badRequest.toString_ne_nil

theorem marked_answerRequest (env : Env) (hs : Marked s) : Marked (s.answerRequest env) := by
  obtain ⟨htrace, -⟩ := trace_afterCall env s (s.callHandler env).1
  have hflag : HasClosing (s.afterCall env (s.callHandler env).1).trace →
      (s.afterCall env (s.callHandler env).1).conn.closeAfterWrite = true := by
    rw [htrace, hasClosing_append]
    intro hhas
    have hbefore : HasClosing s.trace := by
      simpa [HasClosing, isClosing] using hhas
    unfold afterCall
    split
    · exact hs.flag hbefore
    · rfl
  have hsend := marked_send env hflag
    (finalResponse s.conn.parser.request (s.callHandler env).1).toString_ne_nil
  -- forgetting the request changes neither the trace nor the flags
  exact ⟨hsend.flag, hsend.response⟩

theorem marked_handleRequest (env : Env) (hs : Marked s) : Marked (s.handleRequest env) := by
  apply handleRequest_invariant env
  · exact fun _ h => ⟨h.flag, h.response⟩
  · exact fun _ h => marked_answerRequest env h
  · exact fun s' _ => marked_rejectRequest env s'
  · exact hs

theorem OnlyInput.marked (h : OnlyInput s s') (hs : Marked s) : Marked s' := by
  constructor
  · rw [h.trace, h.closing]
    exact hs.flag
  · rw [h.trace, h.closing, h.closed]
    exact hs.response

theorem marked_handleRead (env : Env) (hs : Marked s) (call : ReadCall) :
    Marked (s.handleRead env call) := by
  have hread := (onlyInput_readSteps s call.steps).marked hs
  unfold handleRead
  cases call.last with
  | eagain now => exact marked_handleRequest env ⟨hread.flag, hread.response⟩
  | eof => exact (silent_close _).marked hread
  | failed => exact (silent_handleError _).marked hread

theorem marked_step (env : Env) (s : Session) (event : Event) (hs : Marked s) :
    Marked (s.step env event) := by
  unfold step
  split
  · exact hs
  · cases event with
    | hangup => exact (silent_handleError s).marked hs
    | read call => exact marked_handleRead env hs call
    | write => exact marked_handleWrite env hs
    | idle now fresh => exact (silent_onIdleTimer s now fresh).marked hs
    | send data =>
        show Marked (s.send env data)
        by_cases hne : data = []
        · rw [hne, send_nil]
          exact hs
        · exact marked_send env hs.flag hne

/-! ### What breaks the law -/

/-- The trace only grows. -/
theorem prefix_send (env : Env) (s : Session) (data : Bytes) :
    s.trace <+: (s.send env data).trace := by
  by_cases hclosed : s.conn.closed = true
  · rw [send_of_closed env hclosed]
  · by_cases hne : data = []
    · rw [hne, send_nil]
    · obtain ⟨io, htrace, -⟩ := trace_send env (by simpa using hclosed) hne
      exact ⟨_, htrace.symm⟩

theorem prefix_answerRequest (env : Env) (s : Session) :
    s.trace ++ [.handle s.conn.parser.request] <+: (s.answerRequest env).trace := by
  by_cases hclosed : s.conn.closed = true
  · rw [trace_answerRequest_of_closed env hclosed]
  · obtain ⟨io, htrace, -⟩ := trace_answerRequest env (by simpa using hclosed)
    exact ⟨_, by rw [htrace, List.append_assoc]; rfl⟩

theorem prefix_handleRequest (env : Env) (s : Session) :
    s.trace <+: (s.handleRequest env).trace := by
  apply handleRequest_invariant (P := fun s' => s.trace <+: s'.trace) env (fun _ h => h)
  · intro s' h
    exact (h.trans (List.prefix_append _ _)).trans (prefix_answerRequest env s')
  · exact fun s' h => h.trans (prefix_send env s'.countError.markClosing _)
  · exact List.prefix_rfl

/-- Without a closing response before, one request cannot break the law. -/
theorem nothingFollows_answerRequest (env : Env) (hnone : ¬ HasClosing s.trace) :
    NothingFollows (s.answerRequest env).trace := by
  have hcall : ¬ HasClosing (s.trace ++ [.handle s.conn.parser.request]) := by
    rw [hasClosing_append]
    rintro (hbefore | ⟨e, he, hclosing⟩)
    · exact hnone hbefore
    · rw [List.mem_singleton.mp he] at hclosing
      simp [isClosing] at hclosing
  by_cases hclosed : s.conn.closed = true
  · rw [trace_answerRequest_of_closed env hclosed]
    exact nothingFollows_of_not_hasClosing hcall
  · obtain ⟨io, htrace, hio⟩ := trace_answerRequest env (by simpa using hclosed)
    rw [htrace, List.append_cons, List.append_cons, nothingFollows_append_isIo hio,
      nothingFollows_concat rfl]
    exact hcall

/-- One response appended where there may already be a closing one. -/
theorem nothingFollows_send_iff (env : Env) (hopen : s.conn.closed = false) {data : Bytes}
    (hne : data ≠ []) : NothingFollows (s.send env data).trace ↔ ¬ HasClosing s.trace := by
  obtain ⟨io, htrace, hio⟩ := trace_send env hopen hne
  rw [htrace, List.append_cons, nothingFollows_append_isIo hio, nothingFollows_concat rfl]

/-- The request loop keeps the law when it starts without a closing response: it
stops after the first one. -/
theorem nothingFollows_handleRequest (env : Env) (hflag : s.conn.closeAfterWrite = false)
    (hnone : ¬ HasClosing s.trace) : NothingFollows (s.handleRequest env).trace := by
  fun_induction handleRequest env s with
  | case1 s => exact nothingFollows_of_not_hasClosing hnone
  | case2 s =>
      unfold rejectRequest
      cases hclosed : s.conn.closed with
      | true =>
          rw [send_of_closed env (s := s.parseInput.2.countError.markClosing) hclosed]
          exact nothingFollows_of_not_hasClosing hnone
      | false =>
          rw [nothingFollows_send_iff env (s := s.parseInput.2.countError.markClosing) hclosed
            badRequest.toString_ne_nil]
          exact hnone
  | case3 s => exact nothingFollows_answerRequest env (s := s.parseInput.2) hnone
  | case4 s => exact nothingFollows_answerRequest env (s := s.parseInput.2) hnone
  | case5 s _ _ hkeep _ ih =>
      -- the loop goes on, so the response was not a closing one
      have hkeep' := keepAlive_answerRequest env s.parseInput.2
      have hflag' := closing_answerRequest env s.parseInput.2
      rw [← hkeep', if_pos (by simpa using hkeep)] at hflag'
      have hmarked : Marked s.parseInput.2 :=
        ⟨fun h => absurd h hnone, fun _ h => absurd (h.symm.trans hflag) (by simp)⟩
      refine ih (hflag'.trans hflag) fun hhas => ?_
      have := (marked_answerRequest env hmarked).flag hhas
      rw [hflag'] at this
      exact absurd (this.symm.trans hflag) (by simp)

/-- Behind a closing response the request loop keeps the law only by finding
nothing to parse. -/
theorem nothingFollows_handleRequest_iff (env : Env) (hopen : s.conn.closed = false)
    (hhas : HasClosing s.trace) :
    NothingFollows (s.handleRequest env).trace ↔
      NothingFollows s.trace ∧ (s.conn.parser.parse s.conn.input).ret = .incomplete := by
  have hanswer : ¬ NothingFollows (s.trace ++ [.handle (s.parseInput.2.conn.parser.request)]) := by
    rw [nothingFollows_concat rfl]
    exact not_not.mpr hhas
  show _ ↔ NothingFollows s.trace ∧ s.parseInput.1 = .incomplete
  unfold handleRequest
  split
  · -- nothing is complete, and the trace stays as it was
    rename_i hret
    simp only [hret, and_true]
    exact Iff.rfl
  · -- a 400 is queued behind the closing response
    rename_i hret
    unfold rejectRequest
    rw [nothingFollows_send_iff env (s := s.parseInput.2.countError.markClosing) hopen
      badRequest.toString_ne_nil, hret]
    simp only [reduceCtorEq, and_false, iff_false, not_not]
    exact hhas
  · -- the handler is called, whatever the loop does after it
    rename_i hret
    rw [hret]
    simp only [reduceCtorEq, and_false, iff_false]
    intro hfollows
    refine hanswer (hfollows.of_front ?_)
    have hfirst := prefix_answerRequest env s.parseInput.2
    split
    · exact hfirst
    · split
      · exact hfirst
      · exact hfirst.trans (prefix_handleRequest env _)

/-- The events that do not break the law: on an open connection whose closing
response is waiting to be sent, a read event must find nothing to parse, and
nothing may be sent. -/
def Quiet (s : Session) (event : Event) : Prop :=
  s.conn.closed = true ∨ s.conn.closeAfterWrite = false ∨
    match event with
    | .read ⟨steps, .eagain _⟩ => (s.conn.parser.parse (s.inputRead steps)).ret = .incomplete
    | .send data => data = []
    | _ => True

theorem nothingFollows_of_flag (hs : Marked s) (hflag : s.conn.closeAfterWrite = false) :
    ¬ HasClosing s.trace := by
  intro hhas
  rw [hs.flag hhas] at hflag
  simp at hflag

theorem nothingFollows_handleRead_iff (env : Env) (hs : Marked s) (hopen : s.conn.closed = false)
    (call : ReadCall) : NothingFollows (s.handleRead env call).trace ↔
      NothingFollows s.trace ∧ Quiet s (.read call) := by
  obtain ⟨steps, last⟩ := call
  have hread := onlyInput_readSteps s steps
  cases last with
  | eagain now =>
      show NothingFollows (((steps.foldl readStep s).touch now).handleRequest env).trace ↔ _
      cases hflag : s.conn.closeAfterWrite with
      | false =>
          -- no closing response before the call, and at most one in it
          have hnone := nothingFollows_of_flag hs hflag
          have hkept := nothingFollows_handleRequest env (s := (steps.foldl readStep s).touch now)
            (hread.closing.trans hflag) (by rw [← hread.trace] at hnone; exact hnone)
          simp [hkept, nothingFollows_of_not_hasClosing hnone, Quiet, hflag]
      | true =>
          -- the flag is set but not looked at
          have hhas := hs.response hopen hflag
          rw [nothingFollows_handleRequest_iff env (s := (steps.foldl readStep s).touch now)
            (hread.closed.trans hopen) (by rw [← hread.trace] at hhas; exact hhas)]
          show NothingFollows (steps.foldl readStep s).trace ∧
            ((steps.foldl readStep s).conn.parser.parse (s.inputRead steps)).ret = _ ↔ _
          rw [hread.trace, hread.parser]
          simp [Quiet, hopen, hflag]
  | eof =>
      show NothingFollows (steps.foldl readStep s).close.trace ↔ _
      rw [nothingFollows_grows (silent_close _).grows.isIo, hread.trace]
      simp [Quiet]
  | failed =>
      show NothingFollows (steps.foldl readStep s).handleError.trace ↔ _
      rw [nothingFollows_grows (silent_handleError _).grows.isIo, hread.trace]
      simp [Quiet]

/-- One event keeps the law exactly when it is quiet. -/
theorem nothingFollows_step_iff (env : Env) (s : Session) (event : Event) (hs : Marked s) :
    NothingFollows (s.step env event).trace ↔ NothingFollows s.trace ∧ Quiet s event := by
  unfold step
  split
  · rename_i hclosed
    simp [Quiet, hclosed]
  · rename_i hclosed
    have hopen : s.conn.closed = false := by simpa using hclosed
    cases event with
    | hangup =>
        show NothingFollows s.handleError.trace ↔ _
        rw [nothingFollows_grows (silent_handleError s).grows.isIo]
        simp [Quiet]
    | read call => exact nothingFollows_handleRead_iff env hs hopen call
    | write =>
        show NothingFollows (s.handleWrite env).trace ↔ _
        rw [nothingFollows_grows (grows_handleWrite env s)]
        simp [Quiet]
    | idle now fresh =>
        show NothingFollows (s.onIdleTimer now fresh).trace ↔ _
        rw [nothingFollows_grows (silent_onIdleTimer s now fresh).grows.isIo]
        simp [Quiet]
    | send data =>
        show NothingFollows (s.send env data).trace ↔ _
        by_cases hne : data = []
        · rw [hne, send_nil]
          simp [Quiet]
        · rw [nothingFollows_send_iff env hopen hne, hs.hasClosing_iff hopen]
          constructor
          · intro hflag
            have hflag' : s.conn.closeAfterWrite = false := by simpa using hflag
            exact ⟨nothingFollows_of_not_hasClosing (nothingFollows_of_flag hs hflag'),
              .inr (.inl hflag')⟩
          · rintro ⟨-, hquiet⟩
            simpa [Quiet, hopen, hne] using hquiet

theorem marked_start (fd idleTimeoutS : ℤ) (now : TimePoint) :
    Marked (start fd idleTimeoutS now) :=
  ⟨fun ⟨_, he, _⟩ => by simp [start] at he, fun _ hflag => by simp [start, Connection.ofFd] at hflag⟩

/-- **Nothing after a closing response.**  A run keeps the law exactly when all
its events are quiet. -/
theorem nothingFollows_run_iff (env : Env) (fd idleTimeoutS : ℤ) (now : TimePoint)
    (events : List Event) :
    NothingFollows (run env (start fd idleTimeoutS now) events).trace ↔
      Transition.AllSteps (step env) Quiet (start fd idleTimeoutS now) events := by
  have hiff := Transition.good_run_iff (fun s => NothingFollows s.trace) (marked_step env)
    (nothingFollows_step_iff env) (marked_start fd idleTimeoutS now) events
  have hstart : NothingFollows (start fd idleTimeoutS now).trace := List.Pairwise.nil
  exact hiff.trans (and_iff_right hstart)

/-- The peer asks to close, does not read its response, and sends another request. -/
theorem not_nothingFollows : ¬ ∀ (env : Env) (events : List Event),
    NothingFollows (run env (start 5 60 0) events).trace := by
  intro hall
  have hfollows := hall ⟨fun _ _ => {}, fun _ => .eagain⟩
    [.read ⟨[.data (bytes "GET / HTTP/1.1\r\nConnection: close\r\n\r\n") (by decide)], .eagain 1⟩,
      .read ⟨[.data (bytes "GET / HTTP/1.1\r\n\r\n") (by decide)], .eagain 2⟩]
  revert hfollows
  decide +kernel

end Session

end WsServer
