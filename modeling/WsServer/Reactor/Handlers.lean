import WsServer.Model.Reactors

/-!
# What a handler does to its loop

The handlers of `Reactor` taken apart once: a handler leaves its connection open, closes it, or
arms its timer again (`Handles`), and `attachConnection` makes a new one.  The actions of each are
a fixed list, and `settle` of it a change of the record that can be read off (`settle_closing`,
`settle_attaching`).
-/

namespace WsServer

namespace Session

variable {s s' : Session}

/-- What a handler that reads the clock at `now` leaves: the connection as far as the loop sees it,
or its end. -/
structure Outcome (s s' : Session) (now : TimePoint) : Prop where
  idleTimeoutS : s'.conn.idleTimeoutS = s.conn.idleTimeoutS
  lastActivity : s'.conn.lastActivity = s.conn.lastActivity ∨ s'.conn.lastActivity = now
  course : Untouched s s' ∨ Ended s s'

theorem Lives.outcome (h : Lives s s') (now : TimePoint) : Outcome s s' now :=
  ⟨h.idleTimeoutS, .inl h.lastActivity, h.course⟩

theorem outcome_of_lives_touched {s : Session} (call : ReadCall) (clock : TimePoint)
    (h : Lives (s.touched call) s') : Outcome s s' (call.reading clock) := by
  unfold touched ReadCall.reading at *
  cases hlast : call.last with
  | eagain now =>
      rw [hlast] at h
      refine ⟨h.idleTimeoutS, .inr h.lastActivity, h.course.imp ?_ ?_⟩
      · exact fun h => ⟨h.closed, h.fd, h.idleTimer, h.count, h.effects⟩
      · exact fun h => ⟨h.wasOpen, h.closed, h.fd, h.idleTimer, h.count, h.effects⟩
  | eof =>
      rw [hlast] at h
      exact h.outcome _
  | failed =>
      rw [hlast] at h
      exact h.outcome _

theorem outcome_dispatch (env : Env) (s : Session) (hangup readable write : Bool)
    (call : ReadCall) (clock : TimePoint) :
    Outcome s (s.dispatch env hangup (if readable then some call else none) write)
      (call.reading clock) := by
  unfold dispatch
  split
  · exact (lives_handleError s).outcome _
  · have hwrite (s₁ : Session) :
        Lives s₁ (if 0 ≤ s₁.conn.fd && write then s₁.handleWrite env else s₁) := by
      split
      · exact lives_handleWrite env s₁
      · exact .refl s₁
    cases readable with
    | false => exact (hwrite s).outcome _
    | true => 
        exact outcome_of_lives_touched call clock ((lives_handleRead env s call).trans (hwrite _))

theorem ended_close (hopen : s.conn.closed = false) : Ended s s.close := by
  refine (lives_close s).course.resolve_left fun hsame => ?_
  have hclosed : s.close.conn.closed = true := closed_close s
  rw [hsame.closed, hopen] at hclosed
  simp at hclosed

/-- The callback of the idle timer before it calls `close`: its entry is used up. -/
def unarmed (s : Session) : Session :=
  { s with
    conn := { s.conn with idleTimer := 0 }
    counters := { s.counters with timeoutsClosed := s.counters.timeoutsClosed + 1 } }

theorem onIdleTimer_of_due {s : Session} {now : TimePoint}
    (hdue : s.conn.idleTimeoutS * 1000000000 ≤ now - s.conn.lastActivity) (fresh : TimerId) :
    s.onIdleTimer now fresh = s.unarmed.close := by
  rw [onIdleTimer, if_pos hdue]
  rfl

theorem onIdleTimer_of_recent {s : Session} {now : TimePoint}
    (hrecent : now - s.conn.lastActivity < s.conn.idleTimeoutS * 1000000000) (fresh : TimerId) :
    s.onIdleTimer now fresh = s.armIdleTimer fresh := by
  rw [onIdleTimer, if_neg (not_le.mpr hrecent)]

theorem armIdleTimer_of_pos {s : Session} (hopen : s.conn.closed = false)
    (htimeout : 0 < s.conn.idleTimeoutS) (fresh : TimerId) :
    s.armIdleTimer fresh = { s with
      conn := { s.conn with idleTimer := fresh }
      trace := s.trace ++ [.addTimer fresh (s.conn.idleTimeoutS * 1000)] } := by
  have hnot : ¬((s.conn.closed || decide (s.conn.idleTimeoutS ≤ 0)) = true) := by
    simpa [hopen] using htimeout
  rw [armIdleTimer, if_neg hnot]

theorem armIdleTimer_of_not_pos {s : Session} (htimeout : ¬0 < s.conn.idleTimeoutS)
    (fresh : TimerId) : s.armIdleTimer fresh = s := by
  have hskip : (s.conn.closed || decide (s.conn.idleTimeoutS ≤ 0)) = true := by
    simpa using Or.inr (not_lt.mp htimeout)
  rw [armIdleTimer, if_pos hskip]

end Session

namespace Reactor

open Session

variable {r r' : Reactor} {s s' : Session}

/-! ## Actions -/

/-- The actions of `close`. -/
def closing (c : ConnId) (fd : ℤ) (timer : TimerId) : List Action :=
  let entry := if timer ≠ 0 then [Action.cancelTimer timer] else []
  let socket := if 0 ≤ fd then [Action.epollDel fd, .closeFd fd] else []
  entry ++ (socket ++ [.removeConnection fd c, .countClosed])

/-- The actions of `attachConnection`. -/
def attaching (c : ConnId) (idleTimeoutS : ℤ) (fd : ℤ) (now : TimePoint) : List Action :=
  let entry := if 0 < idleTimeoutS then [Action.addTimer now (idleTimeoutS * 1000) c] else []
  [.addConnection fd c, .epollAdd fd c] ++ entry ++ [.countOpened]

theorem newEffects_of_untouched (h : Untouched s s') : newEffects s s' = [] := by
  rw [newEffects, h.effects, List.drop_length]

theorem newEffects_of_ended (h : Ended s s') : newEffects s s' = s.closeEffects := by
  rw [newEffects, h.effects, List.drop_left]

theorem newEffects_unarmed (s s' : Session) : newEffects s s' = newEffects s.unarmed s' := rfl

theorem flatMap_closeEffects (s : Session) (c : ConnId) (now : TimePoint) :
    s.closeEffects.flatMap (actions c now) = closing c s.conn.fd s.conn.idleTimer := by
  unfold closeEffects closing
  dsimp only
  rw [List.flatMap_append, List.flatMap_append]
  congr 1
  · split <;> rfl
  · congr 1
    split <;> rfl

theorem newEffects_armIdleTimer (hopen : s.conn.closed = false)
    (htimeout : 0 < s.conn.idleTimeoutS) (fresh : TimerId) :
    newEffects s (s.armIdleTimer fresh) = [.addTimer fresh (s.conn.idleTimeoutS * 1000)] := by
  rw [newEffects, armIdleTimer_of_pos hopen htimeout, lifecycle_append, List.drop_left]
  rfl

/-! ## Handlers -/

/-- A connection that is left as it was. -/
theorem set_getElem?_self {c : ConnId} (hs : r.sessions[c]? = some s) :
    r.sessions.set c s = r.sessions := by
  obtain ⟨hlt, rfl⟩ := List.getElem?_eq_some_iff.mp hs
  exact List.set_getElem_self hlt

/-- What the handler of an event on `fd` does, when it reads the clock at `now`. -/
inductive Handles (r : Reactor) (fd : ℤ) (now : TimePoint) : Reactor → List Action → Prop
  /-- There is no such connection. -/
  | nothing : Handles r fd now r []
  | stays (c : ConnId) (s s' : Session) (hs : r.sessions[c]? = some s)
      (houtcome : Outcome s s' now) (hsame : Untouched s s') :
      Handles r fd now { r with sessions := r.sessions.set c s' } []
  | closes (c : ConnId) (s s' : Session) (hfind : r.connections.find? fd = some c)
      (hs : r.sessions[c]? = some s) (houtcome : Outcome s s' now) (hended : Ended s s') :
      Handles r fd now { r with sessions := r.sessions.set c s' }
        (closing c s.conn.fd s.conn.idleTimer)

theorem handles_dispatch (r : Reactor) (env : Env) (fd : ℤ) (hangup readable writable : Bool)
    (call : ReadCall) (clock : TimePoint) :
    Handles r fd (call.reading clock)
      (r.dispatch env fd hangup readable writable call (call.reading clock)).1
      (r.dispatch env fd hangup readable writable call (call.reading clock)).2 := by
  unfold dispatch
  split
  · exact .nothing
  · rename_i c hfind
    split
    · exact .nothing
    · rename_i s hs
      have houtcome := outcome_dispatch env s hangup readable writable call clock
      unfold handled
      rcases houtcome.course with hsame | hended
      · rw [newEffects_of_untouched hsame]
        exact .stays c s _ hs houtcome hsame
      · rw [newEffects_of_ended hended, flatMap_closeEffects]
        exact .closes c s _ hfind hs houtcome hended

/-- What the callback of the idle timer of a connection does. -/
inductive Fires (r : Reactor) (c : ConnId) (now : TimePoint) : Reactor → List Action → Prop
  /-- The connection is gone, or has no timeout. -/
  | nothing (hnone : ∀ s, r.sessions[c]? = some s → s.conn.closed = false →
      ¬0 < s.conn.idleTimeoutS) : Fires r c now r []
  | reaps (s s' : Session) (hs : r.sessions[c]? = some s)
      (hdue : s.conn.idleTimeoutS * 1000000000 ≤ now - s.conn.lastActivity)
      (hlives : Lives s.unarmed s') (hended : Ended s.unarmed s') :
      Fires r c now { r with sessions := r.sessions.set c s' } (closing c s.conn.fd 0)
  | rearms (s : Session) (hs : r.sessions[c]? = some s) (hopen : s.conn.closed = false)
      (htimeout : 0 < s.conn.idleTimeoutS)
      (hrecent : now - s.conn.lastActivity < s.conn.idleTimeoutS * 1000000000) :
      Fires r c now
        { r with sessions := r.sessions.set c (s.armIdleTimer r.timers.nextId) }
        [.addTimer now (s.conn.idleTimeoutS * 1000) c]

theorem fires_onIdleTimer (r : Reactor) (c : ConnId) (now : TimePoint)
    (halive : r.isAlive c = true ↔ ∃ s, r.sessions[c]? = some s ∧ s.conn.closed = false) :
    Fires r c now (r.onIdleTimer c now).1 (r.onIdleTimer c now).2 := by
  unfold onIdleTimer
  split
  · rename_i hnone
    exact .nothing fun s hs => by simp [hnone] at hs
  · rename_i s hs
    split
    · rename_i hlock
      have hopen : s.conn.closed = false := by
        obtain ⟨s₁, hs₁, hopen⟩ := halive.mp hlock
        rw [hs, Option.some.injEq] at hs₁
        exact hs₁ ▸ hopen
      unfold handled
      by_cases hdue : s.conn.idleTimeoutS * 1000000000 ≤ now - s.conn.lastActivity
      · have hended := ended_close (s := s.unarmed) hopen
        rw [onIdleTimer_of_due hdue, newEffects_unarmed, newEffects_of_ended hended,
          flatMap_closeEffects]
        exact .reaps s _ hs hdue (lives_close _) hended
      · rw [onIdleTimer_of_recent (not_le.mp hdue)]
        by_cases htimeout : 0 < s.conn.idleTimeoutS
        · rw [newEffects_armIdleTimer hopen htimeout]
          exact .rearms s hs hopen htimeout (not_le.mp hdue)
        · rw [armIdleTimer_of_not_pos htimeout, newEffects_of_untouched (.refl s),
            set_getElem?_self hs]
          refine .nothing fun s₁ hs₁ _ => ?_
          rw [hs, Option.some.injEq] at hs₁
          exact hs₁ ▸ htimeout
    · rename_i hlock
      refine .nothing fun s₁ hs₁ hopen => ?_
      exact absurd (halive.mpr ⟨s₁, hs₁, hopen⟩) hlock

theorem attachConnection_eq (r : Reactor) (idleTimeoutS fd : ℤ) (now : TimePoint) :
    r.attachConnection idleTimeoutS fd now =
      ({ r with sessions := r.sessions ++
          [(start fd idleTimeoutS now).armIdleTimer r.timers.nextId] },
        attaching r.sessions.length idleTimeoutS fd now) := by
  have hopen : (start fd idleTimeoutS now).conn.closed = false := rfl
  unfold attachConnection attaching
  dsimp only
  congr 3
  by_cases htimeout : 0 < idleTimeoutS
  · rw [newEffects_armIdleTimer hopen htimeout, if_pos htimeout]
    rfl
  · rw [armIdleTimer_of_not_pos htimeout, newEffects_of_untouched (.refl _), if_neg htimeout]
    rfl

/-! ## After all actions -/

theorem settle_append (r : Reactor) (first second : List Action) :
    r.settle (first ++ second) = (r.settle first).settle second := List.foldl_append

theorem sessions_perform (r : Reactor) (a : Action) : (r.perform a).sessions = r.sessions := by
  cases a with
  | epollAdd fd c =>
      dsimp only [perform]
      split <;> rfl
  | _ => rfl

@[simp] theorem sessions_settle (r : Reactor) (todo : List Action) :
    (r.settle todo).sessions = r.sessions := by
  induction todo generalizing r with
  | nil => rfl
  | cons a rest ih => rw [settle_cons, ih, sessions_perform]

theorem settle_closing (r : Reactor) (c : ConnId) {fd : ℤ} (hfd : 0 ≤ fd) (timer : TimerId) :
    r.settle (closing c fd timer) = { r with
      connections := r.connections.erase fd
      registered := r.registered.erase fd
      timers := r.timers.cancel timer } := by
  unfold closing
  rw [if_pos hfd, settle_append]
  split
  · rfl
  · rename_i hzero
    rw [not_not.mp hzero]
    rfl

theorem settle_attaching (r : Reactor) (c : ConnId) (idleTimeoutS : ℤ) {fd : ℤ}
    (hfree : r.registered.find? fd = none) (now : TimePoint) :
    r.settle (attaching c idleTimeoutS fd now) = { r with
      connections := r.connections.insert fd c
      registered := r.registered.insert fd c
      timers := if 0 < idleTimeoutS then r.timers.addAfter now (idleTimeoutS * 1000) c
        else r.timers } := by
  have hadd : (r.perform (.addConnection fd c)).perform (.epollAdd fd c) = { r with
      connections := r.connections.insert fd c
      registered := r.registered.insert fd c } := by
    simp only [perform, hfree]
  unfold attaching
  simp only [settle_append, settle_cons, settle_nil, hadd]
  split
  · rfl
  · rfl

end Reactor

end WsServer
