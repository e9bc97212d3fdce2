import WsServer.Connection.Trace

/-!
# What a handler does to its loop

Besides reading and writing, a handler touches what its connection shares with
the loop: the descriptor, the entry in the table, and the idle timer.  It does so
in one way only, by closing.  `Lives s s'` says this of the states before and after
a piece of a handler: either all of it is as before, or the connection has been
closed in between, once, and the loop has seen exactly the effects of `close`.

Every function but the idle timer's callback, which may arm the timer again, keeps this
relation, and it composes, so each handler has one lemma (`lives_handleRead`,
`lives_handleWrite`, `lives_handleError`).
-/

namespace WsServer

open CString

namespace Effect

/-- Effects on the timers, the registration, the descriptor and the table of the
loop. -/
def isLifecycle : Effect → Bool
  | .epollDel _ => true
  | .closeFd _ => true
  | .removeConnection _ => true
  | .addTimer _ _ => true
  | .cancelTimer _ => true
  | _ => false

end Effect

/-- The effects on the loop. -/
def lifecycle (trace : List Effect) : List Effect := trace.filter Effect.isLifecycle

theorem lifecycle_append (first second : List Effect) :
    lifecycle (first ++ second) = lifecycle first ++ lifecycle second := List.filter_append _ _

namespace Session

variable {s s' s'' : Session}

theorem lifecycle_closeEffects (s : Session) : lifecycle s.closeEffects = s.closeEffects := by
  rw [lifecycle, List.filter_eq_self]
  intro e he
  simp only [closeEffects, List.mem_append, List.mem_ite_nil_right, List.mem_cons,
    List.not_mem_nil, or_false] at he
  rcases he with ⟨-, rfl⟩ | ⟨-, rfl | rfl⟩ | rfl <;> rfl

/-! ## The relation -/

/-- Open or closed, nothing has been done to the loop. -/
structure Untouched (s s' : Session) : Prop where
  closed : s'.conn.closed = s.conn.closed
  fd : s'.conn.fd = s.conn.fd
  idleTimer : s'.conn.idleTimer = s.conn.idleTimer
  count : s'.counters.closed = s.counters.closed
  effects : lifecycle s'.trace = lifecycle s.trace

/-- The connection has been closed. -/
structure Ended (s s' : Session) : Prop where
  wasOpen : s.conn.closed = false
  closed : s'.conn.closed = true
  fd : s'.conn.fd = -1
  idleTimer : s'.conn.idleTimer = 0
  count : s'.counters.closed = s.counters.closed + 1
  effects : lifecycle s'.trace = lifecycle s.trace ++ s.closeEffects

/-- What a piece of a handler may do: nothing to the loop, or close. -/
structure Lives (s s' : Session) : Prop where
  idleTimeoutS : s'.conn.idleTimeoutS = s.conn.idleTimeoutS
  lastActivity : s'.conn.lastActivity = s.conn.lastActivity
  course : Untouched s s' ∨ Ended s s'

theorem Untouched.refl (s : Session) : Untouched s s := ⟨rfl, rfl, rfl, rfl, rfl⟩

theorem Untouched.trans (h : Untouched s s') (h' : Untouched s' s'') : Untouched s s'' :=
  ⟨h'.closed.trans h.closed, h'.fd.trans h.fd, h'.idleTimer.trans h.idleTimer,
    h'.count.trans h.count, h'.effects.trans h.effects⟩

theorem Untouched.closeEffects_eq (h : Untouched s s') : s'.closeEffects = s.closeEffects := by
  rw [closeEffects, closeEffects, h.fd, h.idleTimer]

theorem Untouched.ended (h : Untouched s s') (h' : Ended s' s'') : Ended s s'' :=
  ⟨h.closed.symm.trans h'.wasOpen, h'.closed, h'.fd, h'.idleTimer, by rw [h'.count, h.count],
    by rw [h'.effects, h.effects, h.closeEffects_eq]⟩

theorem Ended.untouched (h : Ended s s') (h' : Untouched s' s'') : Ended s s'' :=
  ⟨h.wasOpen, h'.closed.trans h.closed, h'.fd.trans h.fd, h'.idleTimer.trans h.idleTimer,
    h'.count.trans h.count, h'.effects.trans h.effects⟩

theorem Untouched.lives (h : Untouched s s')
    (htimeout : s'.conn.idleTimeoutS = s.conn.idleTimeoutS)
    (hactivity : s'.conn.lastActivity = s.conn.lastActivity) : Lives s s' :=
  ⟨htimeout, hactivity, .inl h⟩

theorem Lives.refl (s : Session) : Lives s s := (Untouched.refl s).lives rfl rfl

theorem Lives.trans (h : Lives s s') (h' : Lives s' s'') : Lives s s'' := by
  refine ⟨h'.idleTimeoutS.trans h.idleTimeoutS, h'.lastActivity.trans h.lastActivity, ?_⟩
  rcases h.course with hfirst | hfirst
  · exact h'.course.imp hfirst.trans hfirst.ended
  · rcases h'.course with hsecond | hsecond
    · exact .inr (hfirst.untouched hsecond)
    · -- a connection is closed only once
      have hopen := hsecond.wasOpen
      rw [hfirst.closed] at hopen
      simp at hopen

/-- Effects that are not the loop's. -/
theorem lifecycle_concat {trace : List Effect} {e : Effect} (he : e.isLifecycle = false) :
    lifecycle (trace ++ [e]) = lifecycle trace := by
  rw [lifecycle_append]
  simp [lifecycle, he]

/-! ## Closing and writing -/

theorem lives_close (s : Session) : Lives s s.close := by
  cases hclosed : s.conn.closed with
  | true =>
      rw [close, if_pos hclosed]
      exact .refl s
  | false =>
      have heffects : lifecycle s.close.trace = lifecycle s.trace ++ s.closeEffects := by
        rw [trace_close hclosed, lifecycle_append, lifecycle_closeEffects]
      have hclose : s.close.conn = { s.conn with closed := true, idleTimer := 0, fd := -1 } ∧
          s.close.counters = { s.counters with closed := s.counters.closed + 1 } := by
        rw [close, if_neg (by simp [hclosed])]
        exact ⟨rfl, rfl⟩
      obtain ⟨hconn, hcounters⟩ := hclose
      refine ⟨by rw [hconn], by rw [hconn], .inr ?_⟩
      exact ⟨hclosed, by rw [hconn], by rw [hconn], by rw [hconn], by rw [hcounters], heffects⟩

theorem lives_handleError (s : Session) : Lives s s.handleError := by
  have hcount : Lives s s.countError := Untouched.lives ⟨rfl, rfl, rfl, rfl, rfl⟩ rfl rfl
  exact hcount.trans (lives_close _)

theorem lives_enableWriting (s : Session) (on : Bool) : Lives s (s.enableWriting on) := by
  unfold enableWriting
  split
  · exact .refl s
  · exact Untouched.lives ⟨rfl, rfl, rfl, rfl, lifecycle_concat rfl⟩ rfl rfl

theorem lives_afterWrite (s : Session) : Lives s s.afterWrite := by
  have hoff : Lives s (if s.conn.writing then s.enableWriting false else s) := by
    split
    · exact lives_enableWriting s false
    · exact .refl s
  unfold afterWrite
  split
  · unfold outputSent
    split
    · exact hoff.trans (lives_close _)
    · exact hoff
  · split
    · exact lives_enableWriting s true
    · exact .refl s

theorem lives_noteWrite (s : Session) (result : WriteResult) : Lives s (s.noteWrite result) :=
  Untouched.lives ⟨rfl, rfl, rfl, rfl, lifecycle_concat rfl⟩ rfl rfl

theorem lives_handleWrite (env : Env) (s : Session) : Lives s (s.handleWrite env) := by
  apply handleWrite_elim env
  · exact .refl s
  · exact lives_afterWrite s
  · exact fun _ => (lives_noteWrite s _).trans (lives_afterWrite _)
  · exact lives_noteWrite s _
  · exact (lives_noteWrite s _).trans (lives_handleError _)

theorem lives_send (env : Env) (s : Session) (data : Bytes) : Lives s (s.send env data) := by
  unfold send
  split
  · exact .refl s
  · have hqueue : Lives s (s.queue data) :=
      Untouched.lives ⟨rfl, rfl, rfl, rfl, lifecycle_concat rfl⟩ rfl rfl
    exact hqueue.trans (lives_handleWrite env _)

/-! ## Reading -/

theorem lives_answerRequest (env : Env) (s : Session) : Lives s (s.answerRequest env) := by
  have hcall : Lives s (s.afterCall env (s.callHandler env).1) := by
    unfold afterCall
    split
    · exact Untouched.lives ⟨rfl, rfl, rfl, rfl, lifecycle_concat rfl⟩ rfl rfl
    · exact Untouched.lives ⟨rfl, rfl, rfl, rfl, lifecycle_concat rfl⟩ rfl rfl
  have hfinish (s : Session) : Lives s s.finishRequest :=
    Untouched.lives ⟨rfl, rfl, rfl, rfl, rfl⟩ rfl rfl
  exact (hcall.trans (lives_send env _ _)).trans (hfinish _)

theorem lives_rejectRequest (env : Env) (s : Session) : Lives s (s.rejectRequest env) := by
  have hmark : Lives s s.countError.markClosing := Untouched.lives ⟨rfl, rfl, rfl, rfl, rfl⟩ rfl rfl
  exact hmark.trans (lives_send env _ _)

theorem lives_handleRequest (env : Env) (s : Session) : Lives s (s.handleRequest env) := by
  apply handleRequest_invariant (P := Lives s) env
  · exact fun _ h => h.trans (Untouched.lives ⟨rfl, rfl, rfl, rfl, rfl⟩ rfl rfl)
  · exact fun s' h => h.trans (lives_answerRequest env s')
  · exact fun s' h => h.trans (lives_rejectRequest env s')
  · exact .refl s

theorem lives_readSteps (s : Session) (steps : List ReadStep) :
    Lives s (steps.foldl readStep s) := by
  induction steps generalizing s with
  | nil => exact .refl s
  | cons first rest ih =>
      have hfirst : Lives s (readStep s first) := by
        cases first with
        | data _ _ => exact Untouched.lives ⟨rfl, rfl, rfl, rfl, rfl⟩ rfl rfl
        | eintr => exact .refl s
      exact hfirst.trans (ih _)

/-- The state with the time of the last activity that a read event leaves: a call
that is read to its end is activity. -/
def touched (s : Session) (call : ReadCall) : Session :=
  match call.last with
  | .eagain now => s.touch now
  | _ => s

theorem lives_handleRead (env : Env) (s : Session) (call : ReadCall) :
    Lives (s.touched call) (s.handleRead env call) := by
  have hsteps := lives_readSteps s call.steps
  unfold handleRead touched
  cases call.last with
  | eagain now =>
      have htouch : Lives (s.touch now) ((call.steps.foldl readStep s).touch now) := by
        refine ⟨hsteps.idleTimeoutS, rfl, hsteps.course.imp ?_ ?_⟩
        · exact fun h => ⟨h.closed, h.fd, h.idleTimer, h.count, h.effects⟩
        · exact fun h => ⟨h.wasOpen, h.closed, h.fd, h.idleTimer, h.count, h.effects⟩
      exact htouch.trans (lives_handleRequest env _)
  | eof => exact hsteps.trans (lives_close _)
  | failed => exact hsteps.trans (lives_handleError _)

end Session

end WsServer
