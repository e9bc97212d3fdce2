import WsServer.Connection.Trace

/-!
# Unsent output is armed

With edge-triggered `epoll` a connection that has output to send, or that waits
to be closed, goes on only when `EPOLLOUT` is registered.  `handleWrite` restores
this from any state in which there is output to offer, whatever `write` returns,
with one exception: after `EINTR` it returns at once, so `EPOLLOUT` stays as it
was.  When it was not registered, the output is left without an event that would
resume it (`armed_run_iff`).

The strategy is therefore to follow the last call of `write`.  `Settled` says what
the state is after an interrupted and after any other call; `handleWrite` on a
nonempty output establishes it without assuming anything about the state before,
and so do `send` and the request loop.
-/

namespace WsServer

open CString

/-- Whether `EPOLLOUT` was registered when `write` was called, and its result. -/
def Effect.write? : Effect → Option (Bool × WriteResult)
  | .write _ armed result => some (armed, result)
  | _ => none

/-- The last call of `write`. -/
def lastWrite (trace : List Effect) : Option (Bool × WriteResult) :=
  (trace.filterMap Effect.write?).getLast?

theorem write?_of_isControl {effects : List Effect} (h : ∀ e ∈ effects, e.isControl = true) :
    effects.filterMap Effect.write? = [] := by
  rw [List.filterMap_eq_nil_iff]
  intro e he
  have hcontrol := h e he
  cases e with
  | write _ _ _ => exact absurd hcontrol Bool.false_ne_true
  | _ => rfl

namespace Session

variable {s s' : Session}

theorem Grows.lastWrite_eq (h : Grows Effect.isControl s s') :
    lastWrite s'.trace = lastWrite s.trace := by
  obtain ⟨effects, htrace, hcontrol⟩ := h
  rw [lastWrite, lastWrite, htrace, List.filterMap_append, write?_of_isControl hcontrol,
    List.append_nil]

/-- The last call of `write` was interrupted while `EPOLLOUT` was not registered. -/
def Interrupted (s : Session) : Prop := lastWrite s.trace = some (false, .eintr)

instance (s : Session) : Decidable (Interrupted s) :=
  inferInstanceAs (Decidable (lastWrite s.trace = _))

/-- On an open connection `EPOLLOUT` is registered exactly when there is output,
and there is output when the connection waits to be closed. -/
def Armed (s : Session) : Prop :=
  s.conn.closed = false →
    (s.conn.writing = true ↔ s.conn.output.readable ≠ []) ∧
      (s.conn.closeAfterWrite = true → s.conn.output.readable ≠ [])

instance (s : Session) : Decidable (Armed s) :=
  inferInstanceAs (Decidable (s.conn.closed = false → _))

/-- An open connection after a call of `write`: the output is armed, or the call
was interrupted. -/
structure Settled (s : Session) : Prop where
  output : s.conn.closed = false → s.conn.writing = true → s.conn.output.readable ≠ []
  closing : s.conn.closed = false → s.conn.closeAfterWrite = true → s.conn.output.readable ≠ []
  armed : s.conn.closed = false → ¬ Interrupted s → s.conn.output.readable ≠ [] →
    s.conn.writing = true
  interrupted : s.conn.closed = false → Interrupted s →
    s.conn.writing = false ∧ s.conn.output.readable ≠ []

theorem Settled.of_closed (h : s.conn.closed = true) : Settled s := by
  have hnot : s.conn.closed ≠ false := by simp [h]
  constructor <;> intro hopen <;> exact absurd hopen hnot

theorem Settled.armed_iff (h : Settled s) :
    Armed s ↔ s.conn.closed = true ∨ ¬ Interrupted s := by
  constructor
  · intro harmed
    by_cases hclosed : s.conn.closed = true
    · exact .inl hclosed
    · have hopen : s.conn.closed = false := by simpa using hclosed
      refine .inr fun hinterrupted => ?_
      obtain ⟨hoff, houtput⟩ := h.interrupted hopen hinterrupted
      have hon := (harmed hopen).1.mpr houtput
      rw [hoff] at hon
      simp at hon
  · rintro (hclosed | hcalm) hopen
    · rw [hclosed] at hopen
      simp at hopen
    · exact ⟨⟨h.output hopen, h.armed hopen hcalm⟩, h.closing hopen⟩

/-! ## Writing -/

/-- All output has been sent: the connection is closed if it is to be, and
otherwise `EPOLLOUT` is not registered. -/
theorem settled_outputSent (hopen : s.conn.closed = false) (hempty : s.conn.output.readable = [])
    (hcalm : ¬ Interrupted s) : Settled s.outputSent := by
  have hsilent := silent_outputSent s
  unfold outputSent at hsilent ⊢
  split at hsilent
  · rename_i hflag
    rw [if_pos hflag]
    exact .of_closed (closed_close _)
  · rename_i hflag
    rw [if_neg hflag]
    have hoff : (if s.conn.writing then s.enableWriting false else s).conn.writing = false := by
      split
      · exact (enableWriting_of_open hopen false).1
      · rename_i hoff
        simpa using hoff
    constructor
    · intro _ hon
      rw [hoff] at hon
      simp at hon
    · intro _ hset
      rw [hsilent.closing] at hset
      exact absurd hset hflag
    · intro _ _ houtput
      rw [hsilent.output] at houtput
      exact absurd hempty houtput
    · intro _ hinterrupted
      rw [Interrupted, hsilent.grows.lastWrite_eq] at hinterrupted
      exact absurd hinterrupted hcalm

theorem settled_afterWrite (hopen : s.conn.closed = false) (hcalm : ¬ Interrupted s) :
    Settled s.afterWrite := by
  have hsilent := silent_afterWrite s
  by_cases hzero : s.conn.output.readableBytes = 0
  · have hempty : s.conn.output.readable = [] := by
      apply List.eq_nil_of_length_eq_zero
      rw [Buffer.length_readable, hzero]
    rw [afterWrite, if_pos hzero]
    exact settled_outputSent hopen hempty hcalm
  · have houtput : s.afterWrite.conn.output.readable ≠ [] := by
      rw [hsilent.output]
      intro hempty
      rw [← Buffer.length_readable, hempty] at hzero
      exact hzero rfl
    have hon : s.afterWrite.conn.writing = true := by
      rw [afterWrite, if_neg hzero]
      split
      · exact (enableWriting_of_open hopen true).1
      · rename_i hoff
        simpa using hoff
    constructor
    · exact fun _ _ => houtput
    · exact fun _ _ => houtput
    · exact fun _ _ _ => hon
    · intro _ hinterrupted
      rw [Interrupted, hsilent.grows.lastWrite_eq] at hinterrupted
      exact absurd hinterrupted hcalm

theorem lastWrite_noteWrite (s : Session) (result : WriteResult) :
    lastWrite (s.noteWrite result).trace = some (s.conn.writing, result) := by
  show lastWrite (s.trace ++ [_]) = _
  rw [lastWrite, List.filterMap_append]
  simp [Effect.write?]

theorem not_interrupted_noteWrite {result : WriteResult} (hresult : result ≠ .eintr) :
    ¬ Interrupted (s.noteWrite result) := by
  rw [Interrupted, lastWrite_noteWrite]
  intro heq
  simp only [Option.some.injEq, Prod.mk.injEq] at heq
  exact hresult heq.2

/-- An interrupted call changes nothing but the trace. -/
theorem settled_noteWrite_eintr (houtput : s.conn.output.readable ≠ []) :
    Settled (s.noteWrite .eintr) := by
  have hkept : (s.noteWrite .eintr).conn.output.readable ≠ [] := by
    rw [readable_noteWrite]
    exact houtput
  constructor
  · exact fun _ _ => hkept
  · exact fun _ _ => hkept
  · intro _ hcalm _
    rw [Interrupted, lastWrite_noteWrite] at hcalm
    show s.conn.writing = true
    -- without registration this call would be the interrupted one
    cases hwriting : s.conn.writing with
    | true => rfl
    | false => exact absurd (by rw [hwriting]) hcalm
  · intro _ hinterrupted
    rw [Interrupted, lastWrite_noteWrite] at hinterrupted
    simp only [Option.some.injEq, Prod.mk.injEq, and_true] at hinterrupted
    exact ⟨hinterrupted, hkept⟩

/-- **One call.**  With output to offer, `handleWrite` settles the connection from
any state. -/
theorem settled_handleWrite_of_output (env : Env) (houtput : s.conn.output.readable ≠ []) :
    Settled (s.handleWrite env) := by
  cases hclosed : s.conn.closed with
  | true =>
      rw [handleWrite_of_closed env hclosed]
      exact .of_closed hclosed
  | false =>
      have hpos : s.conn.output.readableBytes > 0 := by
        rw [← Buffer.length_readable]
        exact List.length_pos_iff.mpr houtput
      rw [handleWrite, if_neg (by simp [hclosed]), if_pos hpos]
      cases env.write s.writes with
      | wrote n => exact settled_afterWrite hclosed (not_interrupted_noteWrite (by simp))
      -- the early return: nothing has changed, registration included
      | eintr => exact settled_noteWrite_eintr houtput
      | eagain => exact settled_afterWrite hclosed (not_interrupted_noteWrite (by simp))
      | failed => exact .of_closed (closed_close _)

/-- Without output nothing was interrupted, and there is nothing to do. -/
theorem settled_handleWrite (env : Env) (hs : Settled s) : Settled (s.handleWrite env) := by
  by_cases houtput : s.conn.output.readable = []
  · cases hclosed : s.conn.closed with
    | true =>
        rw [handleWrite_of_closed env hclosed]
        exact hs
    | false =>
        -- an interrupted call would have left its output behind
        have hzero : s.conn.output.readableBytes = 0 := by
          rw [← Buffer.length_readable, houtput]
          rfl
        rw [handleWrite, if_neg (by simp [hclosed]), if_neg (by omega)]
        apply settled_afterWrite hclosed
        intro hinterrupted
        exact (hs.interrupted hclosed hinterrupted).2 houtput
  · exact settled_handleWrite_of_output env houtput

theorem settled_send (env : Env) (s : Session) {data : Bytes} (hne : data ≠ []) :
    Settled (s.send env data) := by
  cases hclosed : s.conn.closed with
  | true =>
      rw [send_of_closed env hclosed]
      exact .of_closed hclosed
  | false =>
      rw [send, if_neg (by simp [hclosed, hne])]
      apply settled_handleWrite_of_output
      show (s.conn.output.append data).readable ≠ []
      rw [Buffer.readable_append]
      simp [hne]

/-! ## Reading -/

theorem settled_answerRequest (env : Env) (s : Session) : Settled (s.answerRequest env) := by
  have hsend := settled_send env (s.afterCall env (s.callHandler env).1)
    (finalResponse s.conn.parser.request (s.callHandler env).1).toString_ne_nil
  exact ⟨hsend.output, hsend.closing, hsend.armed, hsend.interrupted⟩

theorem settled_rejectRequest (env : Env) (s : Session) : Settled (s.rejectRequest env) := by
  unfold rejectRequest
  exact settled_send env s.countError.markClosing badRequest.toString_ne_nil

theorem settled_handleRequest (env : Env) (hs : Settled s) : Settled (s.handleRequest env) := by
  apply handleRequest_invariant env
  · exact fun _ h => ⟨h.output, h.closing, h.armed, h.interrupted⟩
  · exact fun s' _ => settled_answerRequest env s'
  · exact fun s' _ => settled_rejectRequest env s'
  · exact hs

theorem OnlyInput.settled (h : OnlyInput s s') (hs : Settled s) : Settled s' := by
  constructor
  · rw [h.closed, h.writing, h.output]
    exact hs.output
  · rw [h.closed, h.closing, h.output]
    exact hs.closing
  · rw [h.closed, Interrupted, h.trace, h.output, h.writing]
    exact hs.armed
  · rw [h.closed, Interrupted, h.trace, h.output, h.writing]
    exact hs.interrupted

theorem settled_handleRead (env : Env) (hs : Settled s) (call : ReadCall) :
    Settled (s.handleRead env call) := by
  have hread := (onlyInput_readSteps s call.steps).settled hs
  unfold handleRead
  cases call.last with
  | eagain now =>
      exact settled_handleRequest env ⟨hread.output, hread.closing, hread.armed, hread.interrupted⟩
  | eof => exact .of_closed (closed_close _)
  | failed => exact .of_closed (closed_close _)

theorem settled_onIdleTimer (hs : Settled s) (now : TimePoint) (fresh : TimerId) :
    Settled (s.onIdleTimer now fresh) := by
  unfold onIdleTimer
  split
  · exact .of_closed (closed_close _)
  · have hlast := (silent_armIdleTimer s fresh).grows.lastWrite_eq
    unfold armIdleTimer at hlast ⊢
    split at hlast
    · rename_i hskip
      rw [if_pos hskip]
      exact hs
    · rename_i harm
      rw [if_neg harm]
      refine ⟨hs.output, hs.closing, ?_, ?_⟩
      · rw [Interrupted, hlast]
        exact hs.armed
      · rw [Interrupted, hlast]
        exact hs.interrupted

theorem settled_step (env : Env) (s : Session) (event : Event) (hs : Settled s) :
    Settled (s.step env event) := by
  unfold step
  split
  · exact hs
  · cases event with
    | hangup => exact .of_closed (closed_close _)
    | read call => exact settled_handleRead env hs call
    | write => exact settled_handleWrite env hs
    | idle now fresh => exact settled_onIdleTimer hs now fresh
    | send data =>
        show Settled (s.send env data)
        by_cases hne : data = []
        · rw [hne, send_nil]
          exact hs
        · exact settled_send env s hne

theorem settled_start (fd idleTimeoutS : ℤ) (now : TimePoint) :
    Settled (start fd idleTimeoutS now) := by
  have hempty : (start fd idleTimeoutS now).conn.output.readable = [] := Buffer.readable_ofSize _
  constructor
  · intro _ hon
    cases hon
  · intro _ hflag
    cases hflag
  · intro _ _ houtput
    exact absurd hempty houtput
  · intro _ hinterrupted
    cases hinterrupted

/-- **Unsent output is armed.**  In every state that a connection can reach, it is
closed, or its output is armed, or the last call of `write` was interrupted while
`EPOLLOUT` was not registered; and in the last case the output is not armed. -/
theorem armed_run_iff (env : Env) (fd idleTimeoutS : ℤ) (now : TimePoint) (events : List Event) :
    Armed (run env (start fd idleTimeoutS now) events) ↔
      (run env (start fd idleTimeoutS now) events).conn.closed = true ∨
        ¬ Interrupted (run env (start fd idleTimeoutS now) events) := by
  apply Settled.armed_iff
  exact Transition.run_invariant (settled_step env) (settled_start fd idleTimeoutS now) events

/-- A signal arrives during the first `write`: the response stays in the buffer,
and no event will send it. -/
theorem not_armed : ¬ ∀ (env : Env) (events : List Event),
    Armed (run env (start 5 60 0) events) := by
  intro hall
  have harmed := hall ⟨fun _ _ => {}, fun _ => .eintr⟩
    [.read ⟨[.data (bytes "GET / HTTP/1.1\r\n\r\n") (by decide)], .eagain 1⟩]
  revert harmed
  decide +kernel

end Session

end WsServer
