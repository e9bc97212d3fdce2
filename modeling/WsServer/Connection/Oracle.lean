import WsServer.Connection.Pipelining
import WsServer.Lib.Oracle

/-!
# Where a connection asks

A connection asks its surroundings two kinds of questions: it calls the handler and it calls
`write`.  `calls` and `writes` number them, so no question is asked twice, and every function of a
connection depends on `Env` only where it asks (`local_step`).  Therefore it makes no difference
whether the events of a connection are all handled in one environment or each in its own
(`exists_run_concat`).
-/

namespace WsServer

open CString Oracle

inductive Question
  | handler
  | write

namespace Question

abbrev Answer : Question → Type
  | .handler => HttpRequest → HttpResponse
  | .write => WriteResult

end Question

/-- The handler and the results of `write`, as an oracle. -/
def Env.interface : Interface Env Question Question.Answer where
  answer env
    | .handler => env.handler
    | .write => env.write
  build f := ⟨f .handler, f .write⟩
  answer_build f := by
    funext q
    cases q <;> rfl

namespace Session

/-- How often a connection has asked. -/
def asked (s : Session) : Question → ℕ
  | .handler => s.calls
  | .write => s.writes

/-- The part depends on the environment only where it asks. -/
abbrev IsLocal (act : Env → Session → Session) : Prop := Local Env.interface asked act

variable {s s' : Session}

/-! ## What asks nothing -/

@[simp] theorem asked_close (s : Session) : s.close.asked = s.asked := by
  unfold close
  split <;> rfl

@[simp] theorem asked_handleError (s : Session) : s.handleError.asked = s.asked :=
  asked_close s.countError

@[simp] theorem asked_armIdleTimer (s : Session) (fresh : TimerId) :
    (s.armIdleTimer fresh).asked = s.asked := by
  unfold armIdleTimer
  split <;> rfl

@[simp] theorem asked_onIdleTimer (s : Session) (now : TimePoint) (fresh : TimerId) :
    (s.onIdleTimer now fresh).asked = s.asked := by
  unfold onIdleTimer
  split
  · exact asked_close _
  · exact asked_armIdleTimer s fresh

@[simp] theorem asked_enableWriting (s : Session) (on : Bool) :
    (s.enableWriting on).asked = s.asked := by
  unfold enableWriting
  split <;> rfl

@[simp] theorem asked_afterWrite (s : Session) : s.afterWrite.asked = s.asked := by
  have hoff : (if s.conn.writing then s.enableWriting false else s).asked = s.asked := by
    split
    · exact asked_enableWriting s false
    · rfl
  unfold afterWrite
  split
  · unfold outputSent
    split
    · rw [asked_close, hoff]
    · exact hoff
  · split
    · exact asked_enableWriting s true
    · rfl

@[simp] theorem asked_readSteps (s : Session) (steps : List ReadStep) :
    (steps.foldl readStep s).asked = s.asked := by
  induction steps generalizing s with
  | nil => rfl
  | cons first rest ih =>
      rw [List.foldl_cons, ih]
      cases first <;> rfl

/-! ## Calls of `write` -/

/-- What becomes of the result of `write`. -/
def afterResult (s : Session) : WriteResult → Session
  | .wrote n => (s.noteWrite (.wrote n)).afterWrite
  | .eintr => s.noteWrite .eintr
  | .eagain => (s.noteWrite .eagain).afterWrite
  | .failed => (s.noteWrite .failed).handleError

theorem handleWrite_eq (env : Env) (s : Session) : s.handleWrite env =
    if s.conn.closed then s
    else if s.conn.output.readableBytes > 0 then s.afterResult (env.write s.writes)
    else s.afterWrite := by
  unfold handleWrite
  split
  · rfl
  · split
    · cases env.write s.writes <;> rfl
    · rfl

theorem asked_afterResult (s : Session) (result : WriteResult) :
    (s.afterResult result).asked = (s.noteWrite result).asked := by
  cases result with
  | wrote n => exact asked_afterWrite _
  | eagain => exact asked_afterWrite _
  | eintr => rfl
  | failed => exact asked_handleError _

theorem asked_le_noteWrite (s : Session) (result : WriteResult) :
    s.asked ≤ (s.noteWrite result).asked := by
  intro q
  cases q with
  | handler => exact le_rfl
  | write => exact Nat.le_succ s.writes

theorem local_handleWrite : IsLocal fun env s => s.handleWrite env := by
  have hasks : IsLocal fun env s => s.afterResult (env.write s.writes) := by
    refine Local.ask (O := Env.interface) (i := .write)
      (g := fun result _ s => afterResult s result) ?_ ?_
    · intro result
      refine .of_le fun s => ?_
      rw [asked_afterResult]
      exact asked_le_noteWrite s result
    · intro result _ s
      rw [asked_afterResult]
      exact Nat.lt_succ_self s.writes
  simp only [IsLocal, handleWrite_eq]
  refine .ite (.of_le fun _ => le_rfl) (.ite hasks (.of_le fun s => ?_))
  rw [asked_afterWrite]

theorem local_send (data : Bytes) : IsLocal fun env s => s.send env data :=
  .ite (.of_le fun _ => le_rfl) (.comp (.of_le (f := (queue · data)) fun _ => le_rfl)
    local_handleWrite)

/-! ## Calls of the handler -/

theorem local_afterCall (response : HttpResponse) :
    IsLocal fun env s => s.afterCall env response := by
  refine ⟨fun env s => ?_, fun _ _ _ _ => rfl⟩
  have hcall : s.asked ≤ (s.callHandler env).2.asked := by
    intro q
    cases q with
    | handler => exact Nat.le_succ s.calls
    | write => exact le_rfl
  unfold afterCall
  split <;> exact hcall

/-- A request is answered with what the handler makes of it. -/
def answerWith (env : Env) (answer : HttpRequest → HttpResponse) (request : HttpRequest)
    (s : Session) : Session :=
  ((s.afterCall env (answer request)).send env
    (finalResponse request (answer request)).toString).finishRequest

theorem local_answerWith (answer : HttpRequest → HttpResponse) (request : HttpRequest) :
    IsLocal fun env s => answerWith env answer request s :=
  ((local_afterCall _).comp (local_send _)).comp (.of_le (f := finishRequest) fun _ => le_rfl)

theorem local_answerRequest : IsLocal fun env s => s.answerRequest env := by
  refine Local.ask (O := Env.interface) (i := .handler)
    (g := fun answer env s => answerWith env answer s.conn.parser.request s) ?_ ?_
  · intro answer
    exact Local.dep (g := fun request env s => answerWith env answer request s)
      (local_answerWith answer) fun s => s.conn.parser.request
  · intro answer env s
    have hcall : (s.afterCall env (answer s.conn.parser.request)).calls = s.calls + 1 := by
      unfold afterCall
      split <;> rfl
    calc s.calls < s.calls + 1 := Nat.lt_succ_self _
      _ = (answerWith env answer s.conn.parser.request s).calls :=
        hcall.symm.trans (sameReading_send env _ _).calls.symm

theorem local_rejectRequest : IsLocal fun env s => s.rejectRequest env := by
  unfold rejectRequest
  generalize badRequest.toString = text
  exact .comp (.of_le (f := fun s => s.countError.markClosing) fun _ => le_rfl) (local_send text)

/-! ## The request loop -/

theorem handleRequest_of_error (env : Env) (h : s.parseInput.1 = .error) :
    s.handleRequest env = s.parseInput.2.rejectRequest env := by
  rw [handleRequest]
  split <;> simp_all

theorem asked_le_handleRequest (env : Env) (s : Session) : s.asked ≤ (s.handleRequest env).asked :=
  handleRequest_invariant (P := fun s' => s.asked ≤ s'.asked) env (fun _ h => h)
    (fun s' h => h.trans (local_answerRequest.advances env s'))
    (fun s' h => h.trans (local_rejectRequest.advances env s')) le_rfl

/-- The loop depends on the environment where its rounds do. -/
theorem local_handleRequest : IsLocal fun env s => s.handleRequest env := by
  refine ⟨asked_le_handleRequest, fun env env' s h => ?_⟩
  fun_induction handleRequest env s with
  | case1 s hret => exact handleRequest_of_incomplete env' hret
  | case2 s hret =>
      rw [handleRequest_of_error env' hret]
      exact local_rejectRequest.congr env env' s.parseInput.2 h
  | case3 s hret s' hclose =>
      have hround : s.parseInput.2.answerRequest env' = s' :=
        local_answerRequest.congr env env' s.parseInput.2 h
      rw [handleRequest_of_ok env' hret, hround, if_pos hclose]
  | case4 s hret s' hkeep hempty =>
      have hround : s.parseInput.2.answerRequest env' = s' :=
        local_answerRequest.congr env env' s.parseInput.2 h
      rw [handleRequest_of_ok env' hret, hround, if_neg hkeep, if_pos hempty]
  | case5 s hret s' hkeep hmore ih =>
      have hround : s.parseInput.2.answerRequest env' = s' :=
        local_answerRequest.congr env env' s.parseInput.2 (h.left (asked_le_handleRequest env s'))
      rw [handleRequest_of_ok env' hret, hround, if_neg hkeep, if_neg hmore]
      exact ih (h.right (local_answerRequest.advances env s.parseInput.2))

theorem local_handleRead (call : ReadCall) : IsLocal fun env s => s.handleRead env call := by
  have hread : IsLocal fun _ s => call.steps.foldl readStep s :=
    .of_le fun s => (asked_readSteps s call.steps).ge
  unfold handleRead
  cases call.last with
  | eof => exact hread.comp (.of_le fun s => (asked_close s).ge)
  | failed => exact hread.comp (.of_le fun s => (asked_handleError s).ge)
  | eagain now =>
      exact (hread.comp (.of_le (f := (touch · now)) fun _ => le_rfl)).comp local_handleRequest

/-! ## Events -/

theorem local_step (event : Event) : IsLocal fun env s => s.step env event := by
  refine .ite (.of_le fun _ => le_rfl) ?_
  cases event with
  | hangup => exact .of_le fun s => (asked_handleError s).ge
  | read call => exact local_handleRead call
  | write => exact local_handleWrite
  | idle now fresh => exact .of_le fun s => (asked_onIdleTimer s now fresh).ge
  | send data => exact local_send data

/-- **One environment.**  A run and a run behind it, each in its own environment, are one run in a
single one. -/
theorem exists_run_append (env env' : Env) (s : Session) (events events' : List Event) :
    ∃ both, run both s (events ++ events') = run env' (run env s events) events' :=
  Oracle.exists_run_append local_step env env' s events events'

end Session

end WsServer
