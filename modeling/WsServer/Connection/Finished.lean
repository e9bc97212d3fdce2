import WsServer.Connection.Closing
import WsServer.Connection.Lifecycle

/-!
# Closed means finished

Once a connection is closed, the handler should not be called for it, and no
response should be counted that has not been queued.  `send` may close the
connection several calls deep, when `write` fails or when the output of a
connection that waits to be closed is drained, and the request loop does not look
at `closed_`: it goes on with the next request in the input.  The law holds in
exactly the runs in which no complete request stands behind one whose response
closes the connection (`finished_run_iff`).

The requests handled are counted on both sides of the removal from the table,
which is the last effect of `close`: `whileOpen` is the trace before it, and
`lateCalls` are the requests handled after it.
-/

namespace WsServer

open CString

def Effect.isRemoval : Effect → Bool
  | .removeConnection _ => true
  | _ => false

/-- The trace up to the removal from the table. -/
def whileOpen (trace : List Effect) : List Effect := trace.takeWhile fun e => !e.isRemoval

/-- The requests handled after the removal from the table. -/
def lateCalls (trace : List Effect) : List HttpRequest :=
  handled (trace.dropWhile fun e => !e.isRemoval)

/-- The connection has been removed from the table. -/
def Removed (trace : List Effect) : Prop := ∃ e ∈ trace, e.isRemoval = true

/-- Every request handled has been answered. -/
def Replied (trace : List Effect) : Prop := Session.answered trace = handled trace

theorem handled_whileOpen_append_lateCalls (trace : List Effect) :
    handled (whileOpen trace) ++ lateCalls trace = handled trace := by
  rw [whileOpen, lateCalls, ← handled_append, List.takeWhile_append_dropWhile]

theorem removed_append {first second : List Effect} :
    Removed (first ++ second) ↔ Removed first ∨ Removed second := by
  simp only [Removed, List.mem_append, or_and_right, exists_or]

theorem removed_lifecycle {trace : List Effect} : Removed (lifecycle trace) ↔ Removed trace := by
  have hlifecycle (e : Effect) (h : e.isRemoval = true) : e.isLifecycle = true := by
    cases e with
    | removeConnection _ => rfl
    | _ => simp [Effect.isRemoval] at h
  constructor
  · rintro ⟨e, he, hremoval⟩
    exact ⟨e, List.mem_of_mem_filter he, hremoval⟩
  · rintro ⟨e, he, hremoval⟩
    exact ⟨e, List.mem_filter.mpr ⟨he, hlifecycle e hremoval⟩, hremoval⟩

theorem isEmpty_dropWhile_iff {trace : List Effect} :
    (trace.dropWhile fun e => !e.isRemoval).isEmpty = true ↔ ¬ Removed trace := by
  simp [List.isEmpty_iff, List.dropWhile_eq_nil_iff, Removed]

theorem whileOpen_append_of_removed {first : List Effect} (h : Removed first)
    (second : List Effect) : whileOpen (first ++ second) = whileOpen first := by
  obtain ⟨e, he, hremoval⟩ := h
  rw [whileOpen, whileOpen, List.takeWhile_append, if_neg]
  intro hlength
  have hall := (List.takeWhile_prefix _).eq_of_length hlength
  have := List.takeWhile_eq_self_iff.mp hall e he
  simp [hremoval] at this

theorem not_isRemoval_of_not_removed {trace : List Effect} (h : ¬ Removed trace) :
    ∀ e ∈ trace, (!e.isRemoval) = true := by
  intro e he
  by_contra hremoval
  exact h ⟨e, he, by simpa using hremoval⟩

theorem whileOpen_append_of_not_removed {first : List Effect} (h : ¬ Removed first)
    (second : List Effect) : whileOpen (first ++ second) = first ++ whileOpen second :=
  List.takeWhile_append_of_pos (not_isRemoval_of_not_removed h)

theorem whileOpen_of_not_removed {trace : List Effect} (h : ¬ Removed trace) :
    whileOpen trace = trace :=
  List.takeWhile_eq_self_iff.mpr (not_isRemoval_of_not_removed h)

theorem lateCalls_append_of_removed {first : List Effect} (h : Removed first)
    (second : List Effect) : lateCalls (first ++ second) = lateCalls first ++ handled second := by
  have hnonempty := mt isEmpty_dropWhile_iff.mp (not_not.mpr h)
  rw [lateCalls, List.dropWhile_append, if_neg hnonempty, handled_append]
  rfl

theorem lateCalls_append_of_not_removed {first : List Effect} (h : ¬ Removed first)
    (second : List Effect) : lateCalls (first ++ second) = lateCalls second := by
  rw [lateCalls, List.dropWhile_append_of_pos (not_isRemoval_of_not_removed h)]
  rfl

theorem lateCalls_of_not_removed {trace : List Effect} (h : ¬ Removed trace) :
    lateCalls trace = [] := by
  have hnil := lateCalls_append_of_not_removed h []
  rwa [List.append_nil] at hnil

theorem lateCalls_of_handled_nil {trace : List Effect} (h : handled trace = []) :
    lateCalls trace = [] := by
  rw [← handled_whileOpen_append_lateCalls, List.append_eq_nil_iff] at h
  exact h.2

/-- Without calls of the handler there are no late ones. -/
theorem lateCalls_append_of_handled_nil (first : List Effect) {second : List Effect}
    (h : handled second = []) : lateCalls (first ++ second) = lateCalls first := by
  by_cases hremoved : Removed first
  · rw [lateCalls_append_of_removed hremoved, h, List.append_nil]
  · rw [lateCalls_append_of_not_removed hremoved, lateCalls_of_handled_nil h,
      lateCalls_of_not_removed hremoved]

/-! ## Replies -/

theorem handled_cons (e : Effect) (rest : List Effect) :
    handled (e :: rest) = e.request?.toList ++ handled rest := by
  rw [handled, List.filterMap_cons]
  cases e.request? <;> rfl

theorem length_answered_le (trace : List Effect) :
    (Session.answered trace).length ≤ (handled trace).length := by
  fun_induction Session.answered trace with
  | case1 request data closing rest ih =>
      rw [handled_cons, handled_cons]
      simpa [Effect.request?] using ih
  | case2 e rest _ ih =>
      rw [handled_cons, List.length_append]
      omega
  | case3 => exact Nat.zero_le _

/-- When every request has been answered, what follows stands by itself. -/
theorem answered_append_of_replied {first : List Effect} (h : Replied first)
    (second : List Effect) :
    Session.answered (first ++ second) = handled first ++ Session.answered second := by
  unfold Replied at h
  fun_induction Session.answered first with
  | case1 request data closing rest ih =>
      rw [handled_cons, handled_cons] at h ⊢
      have hrest := ih (by simpa [Effect.request?] using h)
      simpa [Session.answered, Effect.request?] using hrest
  | case2 e rest _ ih =>
      have hle := length_answered_le rest
      rw [handled_cons] at h ⊢
      cases e with
      | handle request =>
          -- one request more than replies
          rw [h] at hle
          simp [Effect.request?] at hle
      | _ => exact ih h
  | case3 => rfl

theorem Replied.append {first second : List Effect} (h : Replied first) (h' : Replied second) :
    Replied (first ++ second) := by
  unfold Replied at h' ⊢
  rw [answered_append_of_replied h, h', handled_append]

theorem replied_of_isIo {effects : List Effect} (h : ∀ e ∈ effects, e.isIo = true) :
    Replied effects := by
  rw [Replied, Session.answered_of_isIo h, handled_of_isIo h]

namespace Session

variable {s s' s'' : Session}

/-! ## Counting -/

/-- The counters of requests and responses are the same in two states. -/
structure SameCounts (s s' : Session) : Prop where
  requests : s'.counters.requests = s.counters.requests
  responses : s'.counters.responses = s.counters.responses

theorem SameCounts.refl (s : Session) : SameCounts s s := ⟨rfl, rfl⟩

theorem SameCounts.trans (h : SameCounts s s') (h' : SameCounts s' s'') : SameCounts s s'' :=
  ⟨h'.requests.trans h.requests, h'.responses.trans h.responses⟩

theorem sameCounts_close (s : Session) : SameCounts s s.close := by
  unfold close
  split
  · exact .refl s
  · exact ⟨rfl, rfl⟩

theorem sameCounts_handleError (s : Session) : SameCounts s s.handleError := by
  have hcount : SameCounts s s.countError := ⟨rfl, rfl⟩
  exact hcount.trans (sameCounts_close _)

theorem sameCounts_enableWriting (s : Session) (on : Bool) :
    SameCounts s (s.enableWriting on) := by
  unfold enableWriting
  split <;> exact ⟨rfl, rfl⟩

theorem sameCounts_afterWrite (s : Session) : SameCounts s s.afterWrite := by
  have hoff : SameCounts s (if s.conn.writing then s.enableWriting false else s) := by
    split
    · exact sameCounts_enableWriting s false
    · exact .refl s
  unfold afterWrite
  split
  · unfold outputSent
    split
    · exact hoff.trans (sameCounts_close _)
    · exact hoff
  · split
    · exact sameCounts_enableWriting s true
    · exact .refl s

theorem sameCounts_handleWrite (env : Env) (s : Session) : SameCounts s (s.handleWrite env) := by
  have hnote (result : WriteResult) : SameCounts s (s.noteWrite result) := ⟨rfl, rfl⟩
  apply handleWrite_elim env
  · exact .refl s
  · exact sameCounts_afterWrite s
  · exact fun result => (hnote result).trans (sameCounts_afterWrite _)
  · exact hnote .eintr
  · exact (hnote .failed).trans (sameCounts_handleError _)

theorem sameCounts_send (env : Env) (s : Session) (data : Bytes) :
    SameCounts s (s.send env data) := by
  unfold send
  split
  · exact .refl s
  · have hqueue : SameCounts s (s.queue data) := ⟨rfl, rfl⟩
    exact hqueue.trans (sameCounts_handleWrite env _)

/-- A request is counted, and its response is counted, sent or not. -/
theorem counts_answerRequest (env : Env) (s : Session) :
    (s.answerRequest env).counters.requests = s.counters.requests + 1 ∧
      (s.answerRequest env).counters.responses = s.counters.responses + 1 := by
  obtain ⟨hrequests, hresponses⟩ := sameCounts_send env (s.afterCall env (s.callHandler env).1)
    (finalResponse s.conn.parser.request (s.callHandler env).1).toString
  have hcall : (s.afterCall env (s.callHandler env).1).counters =
      { s.counters with requests := s.counters.requests + 1 } := by
    unfold afterCall
    split <;> rfl
  rw [hcall] at hrequests hresponses
  exact ⟨hrequests, congrArg (· + 1) hresponses⟩

/-! ## The books -/

/-- What holds of every connection between events, finished or not: it is in the
table while it is open, every request was answered as long as it was, and the
counters count the calls of the handler. -/
structure Tallied (s : Session) : Prop where
  listed : s.conn.closed = true ↔ Removed s.trace
  replied : Replied (whileOpen s.trace)
  requests : s.counters.requests = (handled s.trace).length
  responses : s.counters.responses = s.counters.requests

theorem Tallied.not_removed (h : Tallied s) (hopen : s.conn.closed = false) :
    ¬ Removed s.trace := by
  rw [← h.listed, hopen]
  exact Bool.false_ne_true

/-- Being in the table is kept by every function. -/
theorem Lives.listed (h : Lives s s') (hs : s.conn.closed = true ↔ Removed s.trace) :
    s'.conn.closed = true ↔ Removed s'.trace := by
  rw [← removed_lifecycle] at hs ⊢
  rcases h.course with hsame | hended
  · rw [hsame.closed, hsame.effects]
    exact hs
  · rw [hended.effects, removed_append]
    refine ⟨fun _ => .inr ⟨.removeConnection s.conn.fd, ?_, rfl⟩, fun _ => hended.closed⟩
    simp [closeEffects]

/-- While the connection is open, the replies of a piece are its own affair. -/
theorem Tallied.replied_append {effects : List Effect} (hs : Tallied s)
    (hopen : s.conn.closed = false) (h : Replied (whileOpen effects)) :
    Replied (whileOpen (s.trace ++ effects)) := by
  have hremoved := hs.not_removed hopen
  have hreplied := hs.replied
  rw [whileOpen_of_not_removed hremoved] at hreplied
  rw [whileOpen_append_of_not_removed hremoved]
  exact hreplied.append h

theorem Tallied.replied_append_of_closed (hs : Tallied s) (hclosed : s.conn.closed = true)
    (effects : List Effect) : Replied (whileOpen (s.trace ++ effects)) := by
  rw [whileOpen_append_of_removed (hs.listed.mp hclosed)]
  exact hs.replied

/-- Pieces without requests and responses. -/
theorem Tallied.of_grows (hs : Tallied s) (hlisted : s'.conn.closed = true ↔ Removed s'.trace)
    (hgrows : Grows Effect.isIo s s') (hcounts : SameCounts s s') : Tallied s' := by
  have hhandled := hgrows.handled_eq
  obtain ⟨io, htrace, hio⟩ := hgrows
  refine ⟨hlisted, ?_, ?_, ?_⟩
  · rw [htrace]
    cases hclosed : s.conn.closed with
    | true => exact hs.replied_append_of_closed hclosed io
    | false =>
        refine hs.replied_append hclosed (replied_of_isIo fun e he => hio e ?_)
        exact List.takeWhile_subset _ he
  · rw [hhandled, hcounts.requests, hs.requests]
  · rw [hcounts.requests, hcounts.responses, hs.responses]

theorem tallied_send (env : Env) (hs : Tallied s) (data : Bytes) : Tallied (s.send env data) := by
  by_cases hnothing : s.conn.closed = true ∨ data = []
  · have hsame : s.send env data = s := by
      rcases hnothing with hclosed | hnil
      · exact send_of_closed env hclosed data
      · rw [hnil, send_nil]
    rw [hsame]
    exact hs
  · rw [not_or, Bool.not_eq_true] at hnothing
    obtain ⟨hopen, hne⟩ := hnothing
    have hcounts := sameCounts_send env s data
    obtain ⟨io, htrace, hio⟩ := trace_send env hopen hne
    have hquiet : handled (.queue data s.conn.closeAfterWrite :: io) = [] := by
      rw [handled_cons, handled_of_isIo hio]
      rfl
    refine ⟨(lives_send env s data).listed hs.listed, ?_, ?_, ?_⟩
    · rw [htrace]
      refine hs.replied_append hopen ?_
      -- a response from outside answers no request
      have hrest := replied_of_isIo fun e he =>
        hio e (List.takeWhile_subset (fun e : Effect => !e.isRemoval) he)
      simpa [whileOpen, Effect.isRemoval, Replied, answered, handled_cons, Effect.request?]
        using hrest
    · rw [hcounts.requests, htrace, handled_append, hquiet, List.append_nil, hs.requests]
    · rw [hcounts.requests, hcounts.responses, hs.responses]

/-- An answered request, on an open connection. -/
theorem replied_answer {io : List Effect} (hio : ∀ e ∈ io, e.isIo = true)
    (request : HttpRequest) (data : Bytes) (closing : Bool) :
    Replied (whileOpen (.handle request :: .queue data closing :: io)) := by
  have hrest : Replied (whileOpen io) :=
    replied_of_isIo fun e he => hio e (List.takeWhile_subset _ he)
  simpa [whileOpen, Effect.isRemoval, Replied, answered, handled_cons, Effect.request?]
    using hrest

theorem handled_answerRequest (env : Env) (s : Session) :
    handled (s.answerRequest env).trace = handled s.trace ++ [s.conn.parser.request] := by
  cases hclosed : s.conn.closed with
  | true =>
      rw [trace_answerRequest_of_closed env hclosed, handled_append]
      rfl
  | false =>
      obtain ⟨io, htrace, hio⟩ := trace_answerRequest env hclosed
      rw [htrace, handled_append, handled_cons, handled_cons, handled_of_isIo hio]
      rfl

theorem tallied_answerRequest (env : Env) (hs : Tallied s) : Tallied (s.answerRequest env) := by
  obtain ⟨hrequests, hresponses⟩ := counts_answerRequest env s
  refine ⟨(lives_answerRequest env s).listed hs.listed, ?_, ?_, ?_⟩
  · cases hclosed : s.conn.closed with
    | true =>
        rw [trace_answerRequest_of_closed env hclosed]
        exact hs.replied_append_of_closed hclosed _
    | false =>
        obtain ⟨io, htrace, hio⟩ := trace_answerRequest env hclosed
        rw [htrace]
        exact hs.replied_append hclosed (replied_answer hio _ _ _)
  · rw [handled_answerRequest, List.length_append, hrequests, hs.requests]
    rfl
  · rw [hrequests, hresponses, hs.responses]

theorem tallied_rejectRequest (env : Env) (hs : Tallied s) : Tallied (s.rejectRequest env) := by
  have hmark : Tallied s.countError.markClosing :=
    ⟨hs.listed, hs.replied, hs.requests, hs.responses⟩
  exact tallied_send env hmark _

theorem tallied_handleRequest (env : Env) (hs : Tallied s) : Tallied (s.handleRequest env) :=
  handleRequest_invariant env (fun _ h => ⟨h.listed, h.replied, h.requests, h.responses⟩)
    (fun _ h => tallied_answerRequest env h) (fun _ h => tallied_rejectRequest env h) hs

theorem tallied_readSteps (hs : Tallied s) (steps : List ReadStep) :
    Tallied (steps.foldl readStep s) := by
  induction steps generalizing s with
  | nil => exact hs
  | cons first rest ih =>
      refine ih ?_
      cases first <;> exact ⟨hs.listed, hs.replied, hs.requests, hs.responses⟩

theorem tallied_handleRead (env : Env) (hs : Tallied s) (call : ReadCall) :
    Tallied (s.handleRead env call) := by
  have hread := tallied_readSteps hs call.steps
  unfold handleRead
  cases call.last with
  | eagain now =>
      refine tallied_handleRequest env ?_
      exact ⟨hread.listed, hread.replied, hread.requests, hread.responses⟩
  | eof =>
      exact hread.of_grows ((lives_close _).listed hread.listed) (grows_close _).isIo
        (sameCounts_close _)
  | failed =>
      exact hread.of_grows ((lives_handleError _).listed hread.listed)
        (silent_handleError _).grows.isIo (sameCounts_handleError _)

theorem tallied_armIdleTimer (hs : Tallied s) (fresh : TimerId) :
    Tallied (s.armIdleTimer fresh) := by
  refine hs.of_grows ?_ (silent_armIdleTimer s fresh).grows.isIo ?_
  · have hlisted := hs.listed
    unfold armIdleTimer
    split
    · exact hlisted
    · simpa [Removed, Effect.isRemoval] using hlisted
  · unfold armIdleTimer
    split <;> exact ⟨rfl, rfl⟩

theorem tallied_onIdleTimer (hs : Tallied s) (now : TimePoint) (fresh : TimerId) :
    Tallied (s.onIdleTimer now fresh) := by
  unfold onIdleTimer
  split
  · have hs' : Tallied { s with
        conn := { s.conn with idleTimer := 0 }
        counters := { s.counters with timeoutsClosed := s.counters.timeoutsClosed + 1 } } :=
      ⟨hs.listed, hs.replied, hs.requests, hs.responses⟩
    exact hs'.of_grows ((lives_close _).listed hs'.listed) (grows_close _).isIo
      (sameCounts_close _)
  · exact tallied_armIdleTimer hs fresh

theorem tallied_step (env : Env) (s : Session) (event : Event) (hs : Tallied s) :
    Tallied (s.step env event) := by
  unfold Session.step
  split
  · exact hs
  · cases event with
    | hangup =>
        exact hs.of_grows ((lives_handleError s).listed hs.listed)
          (silent_handleError s).grows.isIo (sameCounts_handleError s)
    | read call => exact tallied_handleRead env hs call
    | write =>
        exact hs.of_grows ((lives_handleWrite env s).listed hs.listed) (grows_handleWrite env s)
          (sameCounts_handleWrite env s)
    | idle now fresh => exact tallied_onIdleTimer hs now fresh
    | send data => exact tallied_send env hs data

theorem tallied_start (fd idleTimeoutS : ℤ) (now : TimePoint) :
    Tallied (start fd idleTimeoutS now) := by
  refine ⟨?_, rfl, rfl, rfl⟩
  simp [start, Connection.ofFd, Removed]

/-! ## The law -/

/-- The handler has not been called, nor a request counted, after the connection was
closed, and the responses counted are those queued while it was open. -/
structure Finished (s : Session) : Prop where
  calls : handled s.trace = handled (whileOpen s.trace)
  requests : s.counters.requests = (handled (whileOpen s.trace)).length
  responses : s.counters.responses = (answered (whileOpen s.trace)).length

/-- The three parts of the law say the same. -/
theorem Tallied.finished_iff (hs : Tallied s) : Finished s ↔ lateCalls s.trace = [] := by
  have hsplit := handled_whileOpen_append_lateCalls s.trace
  constructor
  · intro h
    rw [h.calls] at hsplit
    exact List.append_right_eq_self.mp hsplit
  · intro hnone
    rw [hnone, List.append_nil] at hsplit
    refine ⟨hsplit.symm, ?_, ?_⟩
    · rw [hs.requests, hsplit]
    · rw [hs.responses, hs.requests, hs.replied, hsplit]

/-- Sending `data` closes the connection: `write` fails, or it takes all the output of
a connection that waits to be closed. -/
def SendCloses (env : Env) (s : Session) (data : Bytes) : Prop :=
  let offered := s.conn.output.readableBytes + data.length
  env.write s.writes = .failed ∨
    s.conn.closeAfterWrite = true ∧ (env.write s.writes).accepted offered = offered

/-- The response to the request that stands parsed. -/
def response (env : Env) (s : Session) : Bytes :=
  (finalResponse s.conn.parser.request (s.callHandler env).1).toString

/-- In the request loop, no complete request stands behind one whose response closes
the connection. -/
def NoneBehind (env : Env) (s : Session) : Prop :=
  match _hret : s.parseInput.1 with
  | .ok =>
    let s' := s.parseInput.2.answerRequest env
    s'.conn.keepAlive = true →
      (SendCloses env s.parseInput.2 (s.parseInput.2.response env) → s'.parseInput.1 ≠ .ok) ∧
        NoneBehind env s'
  | _ => True
termination_by s.pending
decreasing_by exact pending_answerRequest_lt env _hret

/-- The events that keep the law: on an open connection, a read event must not find a
complete request behind one whose response closes the connection. -/
def EndsWithClose (env : Env) (s : Session) (event : Event) : Prop :=
  s.conn.closed = true ∨
    match event with
    | .read ⟨steps, .eagain now⟩ => NoneBehind env ((steps.foldl readStep s).touch now)
    | _ => True

/-! ## When sending closes the connection -/

theorem closed_enableWriting (s : Session) (on : Bool) :
    (s.enableWriting on).conn.closed = s.conn.closed := by
  unfold enableWriting
  split <;> rfl

theorem closed_afterWrite_iff (hopen : s.conn.closed = false) :
    s.afterWrite.conn.closed = true ↔
      s.conn.closeAfterWrite = true ∧ s.conn.output.readableBytes = 0 := by
  unfold afterWrite
  split
  · rename_i hzero
    unfold outputSent
    split
    · rename_i hflag
      exact ⟨fun _ => ⟨hflag, hzero⟩, fun _ => closed_close _⟩
    · rename_i hflag
      have hstays : (if s.conn.writing then s.enableWriting false else s).conn.closed = false := by
        split
        · exact (closed_enableWriting s false).trans hopen
        · exact hopen
      simp [hstays, hflag]
  · rename_i hzero
    have hstays : (if !s.conn.writing then s.enableWriting true else s).conn.closed = false := by
      split
      · exact (closed_enableWriting s true).trans hopen
      · exact hopen
    rw [hstays]
    exact iff_of_false Bool.false_ne_true fun h => hzero h.2

theorem readableBytes_noteWrite (s : Session) (result : WriteResult) :
    (s.noteWrite result).conn.output.readableBytes =
      s.conn.output.readableBytes - result.accepted s.conn.output.readableBytes := by
  rw [← Buffer.length_readable, readable_noteWrite, List.length_drop, Buffer.length_readable]

theorem accepted_le (result : WriteResult) (offered : ℕ) : result.accepted offered ≤ offered := by
  cases result with
  | wrote n => exact Nat.min_le_right n offered
  | _ => exact Nat.zero_le _

/-- After a call of `write` that is not an error, the connection is closed when it
waits for that and nothing is left. -/
theorem closed_noteWrite_afterWrite_iff (hopen : s.conn.closed = false) (result : WriteResult) :
    (s.noteWrite result).afterWrite.conn.closed = true ↔
      s.conn.closeAfterWrite = true ∧
        result.accepted s.conn.output.readableBytes = s.conn.output.readableBytes := by
  have hle := accepted_le result s.conn.output.readableBytes
  rw [closed_afterWrite_iff (s := s.noteWrite result) hopen, readableBytes_noteWrite]
  refine and_congr Iff.rfl ?_
  omega

theorem closed_send_iff (env : Env) (hopen : s.conn.closed = false) {data : Bytes}
    (hne : data ≠ []) : (s.send env data).conn.closed = true ↔ SendCloses env s data := by
  have hlength : (s.queue data).conn.output.readableBytes =
      s.conn.output.readableBytes + data.length := by
    show (s.conn.output.append data).readableBytes = _
    rw [← Buffer.length_readable, Buffer.readable_append, List.length_append,
      Buffer.length_readable]
  have hpos : (s.queue data).conn.output.readableBytes > 0 := by
    have := List.length_pos_iff.mpr hne
    omega
  have hnot : ¬ (s.queue data).conn.closed = true := by
    rw [show (s.queue data).conn.closed = s.conn.closed from rfl, hopen]
    exact Bool.false_ne_true
  have hafter (result : WriteResult) :
      ((s.queue data).noteWrite result).afterWrite.conn.closed = true ↔
        s.conn.closeAfterWrite = true ∧ result.accepted (s.conn.output.readableBytes + data.length) =
          s.conn.output.readableBytes + data.length := by
    rw [← hlength]
    exact closed_noteWrite_afterWrite_iff (s := s.queue data) hopen result
  rw [send, if_neg (by simp [hopen, hne]), handleWrite, if_neg hnot, if_pos hpos]
  unfold SendCloses
  have hwrites : (s.queue data).writes = s.writes := rfl
  rw [hwrites]
  cases env.write s.writes with
  | wrote n => simpa using hafter (.wrote n)
  | eagain => simpa using hafter .eagain
  | eintr =>
      -- nothing is taken of an output that is not empty
      rw [hlength] at hpos
      simp only [noteWrite, queue, hopen, WriteResult.accepted, reduceCtorEq, false_or,
        Bool.false_eq_true, false_iff, not_and]
      omega
  | failed => simp [handleError]

theorem closed_answerRequest_iff (env : Env) (hopen : s.conn.closed = false)
    (hkeep : (s.answerRequest env).conn.keepAlive = true) :
    (s.answerRequest env).conn.closed = true ↔ SendCloses env s (s.response env) := by
  rw [keepAlive_answerRequest] at hkeep
  have hcall : s.afterCall env (s.callHandler env).1 =
      { (s.callHandler env).2 with conn := { s.conn with keepAlive := true } } := if_pos hkeep
  have hne : s.response env ≠ [] := (finalResponse _ _).toString_ne_nil
  have hsend := closed_send_iff env (s := s.afterCall env (s.callHandler env).1)
    ((trace_afterCall env s _).2.trans hopen) hne
  -- the call of the handler changes nothing that the write depends on
  have hsame : SendCloses env (s.afterCall env (s.callHandler env).1) (s.response env) ↔
      SendCloses env s (s.response env) := by
    rw [hcall]
    exact Iff.rfl
  exact hsend.trans hsame

/-! ## The request loop -/

theorem lateCalls_send (env : Env) (s : Session) (data : Bytes) :
    lateCalls (s.send env data).trace = lateCalls s.trace := by
  by_cases hnothing : s.conn.closed = true ∨ data = []
  · rcases hnothing with hclosed | hnil
    · rw [send_of_closed env hclosed]
    · rw [hnil, send_nil]
  · rw [not_or, Bool.not_eq_true] at hnothing
    obtain ⟨io, htrace, hio⟩ := trace_send env hnothing.1 hnothing.2
    rw [htrace, lateCalls_append_of_handled_nil]
    rw [handled_cons, handled_of_isIo hio]
    rfl

theorem Grows.lateCalls_eq (h : Grows Effect.isIo s s') :
    lateCalls s'.trace = lateCalls s.trace := by
  obtain ⟨io, htrace, hio⟩ := h
  rw [htrace, lateCalls_append_of_handled_nil _ (handled_of_isIo hio)]

/-- A request is handled late exactly when the connection is closed before. -/
theorem lateCalls_answerRequest (env : Env) (hs : Tallied s) :
    lateCalls (s.answerRequest env).trace =
      lateCalls s.trace ++ if s.conn.closed then [s.conn.parser.request] else [] := by
  cases hclosed : s.conn.closed with
  | true =>
      rw [trace_answerRequest_of_closed env hclosed,
        lateCalls_append_of_removed (hs.listed.mp hclosed)]
      rfl
  | false =>
      have hremoved := hs.not_removed hclosed
      obtain ⟨io, htrace, hio⟩ := trace_answerRequest env hclosed
      rw [htrace, lateCalls_append_of_not_removed hremoved, lateCalls_of_not_removed hremoved]
      show lateCalls io = []
      exact lateCalls_of_handled_nil (handled_of_isIo hio)

theorem lateCalls_rejectRequest (env : Env) (s : Session) :
    lateCalls (s.rejectRequest env).trace = lateCalls s.trace :=
  lateCalls_send env s.countError.markClosing _

/-- Late calls are not taken back. -/
theorem lateCalls_ne_nil_of_prefix (hremoved : Removed s.trace) (hlate : lateCalls s.trace ≠ [])
    (hfront : s.trace <+: s'.trace) : lateCalls s'.trace ≠ [] := by
  obtain ⟨effects, htrace⟩ := hfront
  rw [← htrace, lateCalls_append_of_removed hremoved]
  exact fun hnil => hlate (List.append_eq_nil_iff.mp hnil).1

/-- On a closed connection the request loop calls the handler exactly when a request is
complete. -/
theorem lateCalls_handleRequest_of_closed (env : Env) (hs : Tallied s)
    (hclosed : s.conn.closed = true) (hnone : lateCalls s.trace = []) :
    lateCalls (s.handleRequest env).trace = [] ↔ s.parseInput.1 ≠ .ok := by
  have hready : Tallied s.parseInput.2 := ⟨hs.listed, hs.replied, hs.requests, hs.responses⟩
  have hclosed' : s.parseInput.2.conn.closed = true := hclosed
  have hcalled : lateCalls (s.parseInput.2.answerRequest env).trace ≠ [] := by
    rw [lateCalls_answerRequest env hready, if_pos hclosed']
    simp
  have hremoved : Removed (s.parseInput.2.answerRequest env).trace := by
    rw [trace_answerRequest_of_closed env hclosed', removed_append]
    exact .inl (hs.listed.mp hclosed)
  unfold handleRequest
  split
  · rename_i hret
    exact iff_of_true hnone (by simp [hret])
  · rename_i hret
    rw [lateCalls_rejectRequest]
    exact iff_of_true hnone (by simp [hret])
  · rename_i hret
    refine iff_of_false ?_ (not_not.mpr hret)
    dsimp only
    split
    · exact hcalled
    · split
      · exact hcalled
      · exact lateCalls_ne_nil_of_prefix hremoved hcalled (prefix_handleRequest env _)

/-- Nothing is complete in an empty input. -/
theorem parseInput_ne_ok_of_empty (hstate : s.conn.parser.state = .requestLine)
    (hempty : s.conn.input.readableBytes = 0) : s.parseInput.1 ≠ .ok := by
  intro hok
  have := HttpParser.readableBytes_parse_lt hstate hok
  omega

theorem noneBehind_of_ne_ok (env : Env) (hret : s.parseInput.1 ≠ .ok) : NoneBehind env s := by
  unfold NoneBehind
  split
  · rename_i hok
    exact absurd hok hret
  · trivial

theorem noneBehind_of_ok (env : Env) (hret : s.parseInput.1 = .ok) :
    NoneBehind env s ↔ ((s.parseInput.2.answerRequest env).conn.keepAlive = true →
      (SendCloses env s.parseInput.2 (s.parseInput.2.response env) →
        (s.parseInput.2.answerRequest env).parseInput.1 ≠ .ok) ∧
      NoneBehind env (s.parseInput.2.answerRequest env)) := by
  conv_lhs => unfold NoneBehind
  split
  · exact Iff.rfl
  · rename_i hne
    exact absurd hret hne

/-- **The request loop** on an open connection. -/
theorem lateCalls_handleRequest_iff (env : Env) (hs : Tallied s) (hopen : s.conn.closed = false) :
    lateCalls (s.handleRequest env).trace = [] ↔ NoneBehind env s := by
  have hfirst {s : Session} (hs : Tallied s) (hopen : s.conn.closed = false) :
      lateCalls (s.answerRequest env).trace = [] := by
    rw [lateCalls_answerRequest env hs, lateCalls_of_not_removed (hs.not_removed hopen), hopen]
    rfl
  fun_induction handleRequest env s with
  | case1 s hret =>
      refine iff_of_true ?_ (noneBehind_of_ne_ok env (by simp [hret]))
      exact lateCalls_of_not_removed (hs.not_removed hopen)
  | case2 s hret =>
      refine iff_of_true ?_ (noneBehind_of_ne_ok env (by simp [hret]))
      rw [lateCalls_rejectRequest]
      exact lateCalls_of_not_removed (hs.not_removed hopen)
  | case3 s hret s' hkeep =>
      have hready : Tallied s.parseInput.2 := ⟨hs.listed, hs.replied, hs.requests, hs.responses⟩
      rw [noneBehind_of_ok env hret]
      refine iff_of_true (hfirst hready hopen) fun hkeep' => ?_
      exact absurd hkeep' (by simpa [s'] using hkeep)
  | case4 s hret s' _ hempty =>
      have hready : Tallied s.parseInput.2 := ⟨hs.listed, hs.replied, hs.requests, hs.responses⟩
      have hnothing : s'.parseInput.1 ≠ .ok := parseInput_ne_ok_of_empty rfl hempty
      rw [noneBehind_of_ok env hret]
      exact iff_of_true (hfirst hready hopen) fun _ =>
        ⟨fun _ => hnothing, noneBehind_of_ne_ok env hnothing⟩
  | case5 s hret s' hkeep _ ih =>
      have hready : Tallied s.parseInput.2 := ⟨hs.listed, hs.replied, hs.requests, hs.responses⟩
      have hs' : Tallied s' := tallied_answerRequest env hready
      have hkeep' : s'.conn.keepAlive = true := by simpa using hkeep
      have hcloses := closed_answerRequest_iff env (s := s.parseInput.2) hopen hkeep'
      rw [noneBehind_of_ok env hret, forall_prop_of_true hkeep']
      cases hclosed : s'.conn.closed with
      | false =>
          -- the loop goes on with an open connection
          have hnot := mt hcloses.mpr (ne_true_of_eq_false hclosed)
          refine (ih hs' hclosed).trans ?_
          exact ⟨fun h => ⟨fun hsend => absurd hsend hnot, h⟩, fun h => h.2⟩
      | true =>
          rw [lateCalls_handleRequest_of_closed env hs' hclosed (hfirst hready hopen)]
          exact ⟨fun h => ⟨fun _ => h, noneBehind_of_ne_ok env h⟩, fun h => h.1 (hcloses.mp hclosed)⟩

/-! ## Runs -/

theorem lateCalls_handleRead_iff (env : Env) (hs : Tallied s) (hopen : s.conn.closed = false)
    (call : ReadCall) :
    lateCalls (s.handleRead env call).trace = [] ↔ EndsWithClose env s (.read call) := by
  obtain ⟨steps, last⟩ := call
  have hread := tallied_readSteps hs steps
  have hstill := (onlyInput_readSteps s steps).closed.trans hopen
  have hnone := lateCalls_of_not_removed (hread.not_removed hstill)
  cases last with
  | eagain now =>
      have htouched : Tallied ((steps.foldl readStep s).touch now) :=
        ⟨hread.listed, hread.replied, hread.requests, hread.responses⟩
      show lateCalls (((steps.foldl readStep s).touch now).handleRequest env).trace = [] ↔ _
      rw [lateCalls_handleRequest_iff env htouched hstill]
      simp [EndsWithClose, hopen]
  | eof =>
      have hclose := (grows_close (steps.foldl readStep s)).isIo.lateCalls_eq
      exact iff_of_true (hclose.trans hnone) (.inr trivial)
  | failed =>
      have herror := (silent_handleError (steps.foldl readStep s)).grows.isIo.lateCalls_eq
      exact iff_of_true (herror.trans hnone) (.inr trivial)

/-- One event keeps the law exactly when it ends with the close. -/
theorem finished_step_iff (env : Env) (s : Session) (event : Event) (hs : Tallied s) :
    Finished (s.step env event) ↔ Finished s ∧ EndsWithClose env s event := by
  rw [(tallied_step env s event hs).finished_iff, hs.finished_iff]
  cases hclosed : s.conn.closed with
  | true =>
      rw [step_of_closed env hclosed]
      simp [EndsWithClose, hclosed]
  | false =>
      have hnone := lateCalls_of_not_removed (hs.not_removed hclosed)
      have hquiet {s' : Session} (hgrows : Grows Effect.isIo s s') : lateCalls s'.trace = [] :=
        hgrows.lateCalls_eq.trans hnone
      rw [and_iff_right hnone]
      unfold Session.step
      rw [if_neg (by simp [hclosed])]
      cases event with
      | hangup => exact iff_of_true (hquiet (silent_handleError s).grows.isIo) (.inr trivial)
      | read call => exact lateCalls_handleRead_iff env hs hclosed call
      | write => exact iff_of_true (hquiet (grows_handleWrite env s)) (.inr trivial)
      | idle now fresh =>
          exact iff_of_true (hquiet (silent_onIdleTimer s now fresh).grows.isIo) (.inr trivial)
      | send data => exact iff_of_true ((lateCalls_send env s data).trans hnone) (.inr trivial)

/-- **Closed means finished.**  A run keeps the law exactly when every event ends with
the close. -/
theorem finished_run_iff (env : Env) (fd idleTimeoutS : ℤ) (now : TimePoint)
    (events : List Event) :
    Finished (run env (start fd idleTimeoutS now) events) ↔
      Transition.AllSteps (Session.step env) (EndsWithClose env) (start fd idleTimeoutS now)
        events := by
  have hiff := Transition.good_run_iff Finished (tallied_step env) (finished_step_iff env)
    (tallied_start fd idleTimeoutS now) events
  exact hiff.trans (and_iff_right ⟨rfl, rfl, rfl⟩)

/-- Two requests arrive together, and the write of the first response fails. -/
theorem not_finished : ¬ ∀ (env : Env) (events : List Event),
    Finished (run env (start 5 60 0) events) := by
  intro hall
  have hfinished := hall ⟨fun _ _ => {}, fun _ => .failed⟩
    [.read ⟨[.data (bytes "GET / HTTP/1.1\r\n\r\nGET / HTTP/1.1\r\n\r\n") (by decide)],
      .eagain 1⟩]
  have hcalls := hfinished.calls
  revert hcalls
  decide +kernel

end Session

end WsServer
