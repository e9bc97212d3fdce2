import WsServer.Connection.Trace
import WsServer.Parser.Iterations

/-!
# The request loop returns

`handleRequest` is a loop around `parse`, which is a loop around `parseHeaders`.  A parser that is
complete would answer at once and take nothing from the input, so what makes the outer loop return
is that no turn of it begins with such a parser: `reset` follows every request that is answered, and
what ends without an answer is not complete (`Ready`).

Then every turn that goes on takes at least a byte, and the turns of the innermost loop pay for
themselves, two bytes a turn, but for one that finds no line and ends all three loops
(`requestLoop_run`).
-/

namespace WsServer

open CString HttpParser

namespace Session

/-- One turn of the loop in `handleRequest`. -/
def requestBody (env : Env) (s : Session) : Session ⊕ Session :=
  match s.parseInput.1 with
  | .incomplete => .inl s.parseInput.2
  | .error => .inl (s.parseInput.2.rejectRequest env)
  | .ok =>
    let s' := s.parseInput.2.answerRequest env
    if !s'.conn.keepAlive then .inl s'
    else if s'.conn.input.readableBytes = 0 then .inl s'
    else .inr s'

variable {env : Env} {s s' : Session}

/-- A turn goes on behind a request that has been answered. -/
theorem requestBody_eq_inr (h : requestBody env s = .inr s') :
    s.parseInput.1 = .ok ∧ s' = s.parseInput.2.answerRequest env := by
  unfold requestBody at h
  split at h
  · cases h
  · cases h
  · rename_i hok
    dsimp only at h
    split at h
    · cases h
    · split at h
      · cases h
      · exact ⟨hok, (Sum.inr.inj h).symm⟩

theorem requestBody_eq_inl (h : requestBody env s = .inl s') :
    s.parseInput.1 = .incomplete ∧ s' = s.parseInput.2 ∨
      s.parseInput.1 = .error ∧ s' = s.parseInput.2.rejectRequest env ∨
      s.parseInput.1 = .ok ∧ s' = s.parseInput.2.answerRequest env := by
  unfold requestBody at h
  split at h
  · rename_i hincomplete
    exact .inl ⟨hincomplete, (Sum.inl.inj h).symm⟩
  · rename_i herror
    exact .inr (.inl ⟨herror, (Sum.inl.inj h).symm⟩)
  · rename_i hok
    dsimp only at h
    split at h
    · exact .inr (.inr ⟨hok, (Sum.inl.inj h).symm⟩)
    · split at h
      · exact .inr (.inr ⟨hok, (Sum.inl.inj h).symm⟩)
      · cases h

def requestLoop (env : Env) : Loop Session Session where
  body := requestBody env
  measure := pending
  decreases := by
    intro s s' hbody
    obtain ⟨hok, rfl⟩ := requestBody_eq_inr hbody
    exact pending_answerRequest_lt env hok

/-- `handleRequest` is the loop with this body. -/
theorem handleRequest_eq_result (env : Env) (s : Session) :
    s.handleRequest env = (requestLoop env).result s := by
  refine (requestLoop env).eq_result_of_unfold (fun s => ?_) s
  show s.handleRequest env = (requestBody env s).elim id _
  rw [handleRequest, requestBody]
  split
  all_goals
    rename_i hret
    simp only [hret]
  · rfl
  · rfl
  · split
    · rfl
    · split <;> rfl

/-! ## No turn begins with a complete parser -/

/-- The parser waits for a request. -/
structure Ready (s : Session) : Prop where
  valid : s.conn.parser.Valid
  waits : s.conn.parser.state ≠ .complete

theorem Ready.congr (h : Ready s) (hparser : s'.conn.parser = s.conn.parser) : Ready s' := by
  constructor
  · rw [hparser]
    exact h.valid
  · rw [hparser]
    exact h.waits

theorem ready_of_fresh (h : s.conn.parser = {}) : Ready s := by
  constructor
  · rw [h]
    exact Valid.fresh
  · rw [h]
    exact State.noConfusion

/-- What is not answered is not complete. -/
theorem Ready.parseInput (h : Ready s) (hret : s.parseInput.1 ≠ .ok) : Ready s.parseInput.2 := by
  refine ⟨h.valid.parse s.conn.input, fun hcomplete => hret ?_⟩
  rw [show s.parseInput.1 = _ from (agrees_parse s.conn.parser s.conn.input).2]
  exact congrArg verdict hcomplete

theorem Ready.of_inr (hbody : requestBody env s = .inr s') : Ready s' := by
  obtain ⟨-, rfl⟩ := requestBody_eq_inr hbody
  exact ready_of_fresh (parser_answerRequest env _)

theorem Ready.of_inl (h : Ready s) (hbody : requestBody env s = .inl s') : Ready s' := by
  rcases requestBody_eq_inl hbody with ⟨hret, rfl⟩ | ⟨hret, rfl⟩ | ⟨-, rfl⟩
  · exact h.parseInput (by rw [hret]; exact Ret.noConfusion)
  · have hparsed : Ready s.parseInput.2 := h.parseInput (by rw [hret]; exact Ret.noConfusion)
    exact hparsed.congr (sameReading_send env s.parseInput.2.countError.markClosing _).parser
  · exact ready_of_fresh (parser_answerRequest env _)

theorem Ready.handleRequest (h : Ready s) (env : Env) : Ready (s.handleRequest env) := by
  rw [handleRequest_eq_result]
  exact ((requestLoop env).returns s).result_spec (fun _ _ _ hbody => .of_inr hbody)
    (fun _ _ ht hbody => ht.of_inl hbody) h

theorem Ready.entry (h : Ready s) (steps : List ReadStep) (now : TimePoint) :
    Ready ((steps.foldl readStep s).touch now) :=
  h.congr (onlyInput_readSteps s steps).parser

theorem ready_step (env : Env) (s : Session) (event : Event) (h : Ready s) :
    Ready (s.step env event) := by
  unfold step
  split
  · exact h
  · cases event with
    | hangup => exact h.congr (sameReading_handleError s).parser
    | write => exact h.congr (sameReading_handleWrite env s).parser
    | idle now fresh => exact h.congr (sameReading_onIdleTimer s now fresh).parser
    | send data => exact h.congr (sameReading_send env s data).parser
    | read call =>
        have hread : Ready (call.steps.foldl readStep s) :=
          h.congr (onlyInput_readSteps s call.steps).parser
        show Ready (s.handleRead env call)
        unfold handleRead
        cases call.last with
        | eagain now => exact (h.entry call.steps now).handleRequest env
        | eof => exact hread.congr (sameReading_close _).parser
        | failed => exact hread.congr (sameReading_handleError _).parser

theorem ready_run (env : Env) (fd idleTimeoutS : ℤ) (now : TimePoint) (events : List Event) :
    Ready (run env (start fd idleTimeoutS now) events) :=
  Transition.run_invariant (ready_step env) (ready_of_fresh rfl) events

/-! ## What the turns take -/

/-- The unread bytes. -/
def unread (s : Session) : ℕ := s.conn.input.readableBytes

/-- A request that is answered has taken at least one byte. -/
theorem Ready.takes (h : Ready s) (hok : s.parseInput.1 = .ok) :
    s.parseInput.2.unread + 1 ≤ s.unread :=
  readableBytes_parse_add_one_le (fun hbody => (h.valid.waiting hbody).1) h.waits hok

theorem unread_answerRequest (env : Env) (s : Session) :
    (s.answerRequest env).unread = s.unread :=
  congrArg Buffer.readableBytes (input_answerRequest env s)

theorem calls_rejectRequest (env : Env) (s : Session) : (s.rejectRequest env).calls = s.calls :=
  (sameReading_send env s.countError.markClosing _).calls

/-- The handler is called at most once for each byte. -/
theorem Ready.calls_le (h : Ready s) (env : Env) :
    (s.handleRequest env).calls ≤ s.calls + s.unread := by
  have hsum := ((requestLoop env).returns s).sum_cost_le Ready (fun _ => 0)
    (fun t => t.calls + t.unread) (fun t => t.calls) ?_ ?_ h
  · rw [← handleRequest_eq_result] at hsum
    omega
  · intro t t' ht hbody
    refine ⟨.of_inr hbody, ?_⟩
    obtain ⟨hok, rfl⟩ := requestBody_eq_inr hbody
    have htakes := ht.takes hok
    rw [unread_answerRequest, calls_answerRequest]
    show 0 + (t.calls + 1 + t.parseInput.2.unread) ≤ _
    omega
  · intro t t' ht hbody
    rcases requestBody_eq_inl hbody with ⟨-, rfl⟩ | ⟨-, rfl⟩ | ⟨hok, rfl⟩
    · show 0 + t.calls ≤ _
      omega
    · rw [calls_rejectRequest]
      show 0 + t.calls ≤ _
      omega
    · have htakes := ht.takes hok
      rw [calls_answerRequest]
      show 0 + (t.calls + 1) ≤ _
      omega

/-- The turns of the innermost loop in one turn of `handleRequest`. -/
def lineTurns (s : Session) : List (HttpParser × Buffer) :=
  headerTurns s.conn.parser s.conn.input

/-- The turns of the innermost loop in all of `handleRequest`: half a turn for each byte, and one
more. -/
theorem lineTurns_le (env : Env) (s : Session) :
    2 * (((requestLoop env).turns s).flatMap lineTurns).length ≤ s.unread + 2 := by
  have hcall (t : Session) : 2 * t.lineTurns.length + (t.parseInput.2.unread +
      if t.parseInput.1 = .ok then 2 else 0) ≤ t.unread + 2 :=
    headerTurns_le t.conn.parser t.conn.input
  have hsum := ((requestLoop env).returns s).sum_cost_le (fun _ => True)
    (fun t => 2 * t.lineTurns.length) (fun t => t.unread + 2) (fun _ => 0) ?_ ?_ trivial
  · rw [List.length_flatMap]
    rwa [List.sum_map_mul_left] at hsum
  · intro t t' _ hbody
    obtain ⟨hok, rfl⟩ := requestBody_eq_inr hbody
    have hcost := hcall t
    rw [if_pos hok] at hcost
    refine ⟨trivial, ?_⟩
    rw [unread_answerRequest]
    omega
  · intro t t' _ _
    have hcost := hcall t
    omega

/-! ## The law -/

/-- `handleRequest` returns: through which turns, what each of them takes, and how much there is to
do in all. -/
structure Finishes (env : Env) (s : Session) : Prop where
  returns : Loop.Returns (requestBody env) s ((requestLoop env).turns s) (s.handleRequest env)
  waits : ∀ t ∈ (requestLoop env).turns s, t.conn.parser.state ≠ .complete
  takes : ∀ t ∈ (requestLoop env).turns s, ∀ t', requestBody env t = .inr t' →
    t'.unread + 1 ≤ t.unread
  /-- In a call of `parse` the state advances three times at most. -/
  advances : ∀ t ∈ (requestLoop env).turns s,
    Loop.Returns stateBody (t.conn.parser, t.conn.input)
      (stateLoop.turns (t.conn.parser, t.conn.input)) (t.conn.parser.parse t.conn.input) ∧
    (stateLoop.turns (t.conn.parser, t.conn.input)).length ≤ 3 + 1
  /-- A header line that is found takes two bytes at least. -/
  lines : ∀ t ∈ (requestLoop env).turns s, ∀ q ∈ t.lineTurns, peekLine q.2 ≠ none →
    (bufferAfter (headerBody q)).readableBytes + 2 ≤ q.2.readableBytes
  /-- Where none is found, nothing is taken, and all three loops end. -/
  ends : ∀ t ∈ (requestLoop env).turns s, ∀ q ∈ t.lineTurns, peekLine q.2 = none →
    headerBody q = .inl (t.conn.parser.parse t.conn.input) ∧
      (t.conn.parser.parse t.conn.input).buf = q.2 ∧
      requestBody env t = .inl (s.handleRequest env)
  calls : (s.handleRequest env).calls ≤ s.calls + s.unread
  lineTurns : 2 * (((requestLoop env).turns s).flatMap lineTurns).length ≤ s.unread + 2

/-- A call of `parse` without success is the last one. -/
theorem requestBody_of_failure {t : Session} (ht : t ∈ (requestLoop env).turns s)
    (hret : t.parseInput.1 ≠ .ok) : requestBody env t = .inl (s.handleRequest env) := by
  cases hbody : requestBody env t with
  | inr t' => exact absurd (requestBody_eq_inr hbody).1 hret
  | inl t' =>
      have hlast := ((requestLoop env).returns s).eq_of_mem ht hbody
      rw [hlast, handleRequest_eq_result]

theorem Ready.finishes (h : Ready s) (env : Env) : Finishes env s := by
  have hready : ∀ t ∈ (requestLoop env).turns s, Ready t :=
    ((requestLoop env).returns s).forall_mem (fun _ _ _ hbody => .of_inr hbody) h
  constructor
  case returns =>
    rw [handleRequest_eq_result]
    exact (requestLoop env).returns s
  case waits => exact fun t ht => (hready t ht).waits
  case takes =>
    intro t ht t' hbody
    obtain ⟨hok, rfl⟩ := requestBody_eq_inr hbody
    rw [unread_answerRequest]
    exact (hready t ht).takes hok
  case advances =>
    intro t _
    refine ⟨?_, length_stateLoop_turns _ _⟩
    rw [parse_eq_result]
    exact stateLoop.returns _
  case lines =>
    intro t _ q _ hline
    obtain ⟨⟨line, consumed⟩, hfound⟩ := Option.ne_none_iff_exists'.mp hline
    exact readableBytes_bufferAfter hfound
  case ends =>
    intro t ht q hq hline
    obtain ⟨hlast, hret, hbuf⟩ := parse_of_no_line hq hline
    exact ⟨hlast, hbuf, requestBody_of_failure ht hret⟩
  case calls => exact h.calls_le env
  case lineTurns => exact lineTurns_le env s

/-- **The request loop.**  In every run, whenever `handleRequest` is called and whatever is in the
input then, it returns: no turn begins with a complete parser, each one that goes on takes at least
one byte, and in a call of `parse` the state advances three times at most.  Each turn of the
innermost loop takes two bytes at least, or finds no line and ends all loops.  So the handler is
called at most once for each byte, and there are at most half as many turns of the innermost loop,
and one. -/
theorem requestLoop_run (env : Env) (fd idleTimeoutS : ℤ) (now : TimePoint) (events : List Event)
    (steps : List ReadStep) (now' : TimePoint) (input : Buffer) :
    let s := (steps.foldl readStep (run env (start fd idleTimeoutS now) events)).touch now'
    Finishes env { s with conn := { s.conn with input := input } } := by
  intro s
  have hready : Ready s := (ready_run env fd idleTimeoutS now events).entry steps now'
  have hentry : Ready { s with conn := { s.conn with input := input } } := hready.congr rfl
  exact hentry.finishes env

/-- The request line of a request has come; `readv` is called again and finds nothing. -/
def requestLineOnly : List Event :=
  [.read ⟨[.data (bytes "GET /slow HTTP/1.1\r\n") (by decide)], .eagain 0⟩]

/-- A call on an empty input: there is a turn of the innermost loop, and it takes nothing. -/
theorem not_requestLoop_run : ¬∀ (env : Env) (fd idleTimeoutS : ℤ) (now : TimePoint)
    (events : List Event) (steps : List ReadStep) (now' : TimePoint),
    let s := (steps.foldl readStep (run env (start fd idleTimeoutS now) events)).touch now'
    (∀ t ∈ (requestLoop env).turns s, ∀ q ∈ t.lineTurns,
      (bufferAfter (headerBody q)).readableBytes + 2 ≤ q.2.readableBytes) ∧
    (((requestLoop env).turns s).flatMap lineTurns).length ≤ s.unread := by
  intro hlaw
  let env : Env := ⟨fun _ _ => {}, fun _ => .eagain⟩
  have htakes := (hlaw env 5 60 0 requestLineOnly [] 0).1
  generalize hs : ([].foldl readStep (run env (start 5 60 0) requestLineOnly)).touch 0 = s at htakes
  have hstate : s.conn.parser.state = .headers := by
    rw [← hs]
    decide +kernel
  have hempty : s.conn.input.readableBytes = 0 := by
    rw [← hs]
    decide +kernel
  have hturn : (s.conn.parser, s.conn.input) ∈ s.lineTurns := by
    refine List.mem_flatMap.mpr ⟨_, (stateLoop.returns _).first_mem, ?_⟩
    rw [if_pos hstate]
    exact (headerLoop.returns _).first_mem
  have htwo := htakes s ((requestLoop env).returns s).first_mem _ hturn
  rw [hempty] at htwo
  omega

end Session

end WsServer
