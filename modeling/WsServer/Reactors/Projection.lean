import WsServer.Connection.Oracle
import WsServer.Reactors.EachLoop

/-!
# A connection among others

The connections of a server share its loops, the descriptors of the process and the counters.  None
of this reaches into a connection: in every state of every run, whatever the threads of the server
and the kernel do, each connection is in a state that it gets into by itself, on its own descriptor,
from the events that its loop has handled for it (`projection_run`).  So every law about the runs of
one connection holds for all connections of a server.

A handler of the server runs in an environment of its own, since the handler and the kernel answer
at that moment; one environment for the whole life of a connection is put together from these
(`exists_run_append`).
-/

namespace WsServer

namespace Session

/-- What a loop calls a connection for; `send` from outside is left. -/
def Event.fromLoop : Event → Bool
  | .send _ => false
  | _ => true

/-- The states that a connection gets into by itself. -/
def Reached (idleTimeoutS : ℤ) (s : Session) : Prop :=
  ∃ env fd now events, 0 ≤ fd ∧ (∀ event ∈ events, event.fromLoop = true) ∧
    s = run env (start fd idleTimeoutS now) events

/-- An environment for events that ask nothing. -/
def unasked : Env where
  handler _ _ := {}
  write _ := .eagain

variable {idleTimeoutS : ℤ} {s : Session}

/-- More events, in an environment of their own. -/
theorem Reached.run (h : Reached idleTimeoutS s) (env : Env) (events : List Event)
    (hevents : ∀ event ∈ events, event.fromLoop = true) : Reached idleTimeoutS (run env s events) := by
  obtain ⟨before, fd, now, earlier, hfd, hearlier, rfl⟩ := h
  obtain ⟨both, hboth⟩ := exists_run_append before env (start fd idleTimeoutS now) earlier events
  refine ⟨both, fd, now, earlier ++ events, hfd, fun event hevent => ?_, hboth.symm⟩
  rcases List.mem_append.mp hevent with hevent | hevent
  · exact hearlier event hevent
  · exact hevents event hevent

/-- A connection that has just been attached: its idle timer is armed as if it had fired early. -/
theorem reached_start {fd : ℤ} (hfd : 0 ≤ fd) (idleTimeoutS : ℤ) (now : TimePoint)
    (fresh : TimerId) : Reached idleTimeoutS ((start fd idleTimeoutS now).armIdleTimer fresh) := by
  have hstart : Reached idleTimeoutS (start fd idleTimeoutS now) :=
    ⟨unasked, fd, now, [], hfd, by simp, rfl⟩
  by_cases hpos : 0 < idleTimeoutS
  · have hrecent : now - (start fd idleTimeoutS now).conn.lastActivity <
        (start fd idleTimeoutS now).conn.idleTimeoutS * 1000000000 := by
      calc now - now = 0 := sub_self now
        _ < idleTimeoutS * 1000000000 := mul_pos hpos (by decide)
    rw [← onIdleTimer_of_recent hrecent]
    exact hstart.run unasked [.idle now fresh] (by simp [Event.fromLoop])
  · rw [armIdleTimer_of_not_pos hpos]
    exact hstart

/-- The descriptor of an open connection is the one that it was made for. -/
theorem Reached.fd_nonneg (h : Reached idleTimeoutS s) (hopen : s.conn.closed = false) :
    0 ≤ s.conn.fd := by
  obtain ⟨env, fd, now, events, hfd, -, rfl⟩ := h
  rw [(keepsFd_run env (start fd idleTimeoutS now) events hopen).2]
  exact hfd

theorem Reached.dispatch (h : Reached idleTimeoutS s) (hopen : s.conn.closed = false) (env : Env)
    (hangup : Bool) (read : Option ReadCall) (write : Bool) :
    Reached idleTimeoutS (s.dispatch env hangup read write) := by
  rw [dispatch_eq_run env hopen (h.fd_nonneg hopen)]
  refine h.run env _ fun event hevent => ?_
  cases hangup with
  | true => rw [List.mem_singleton.mp hevent]; rfl
  | false =>
      rcases List.mem_append.mp hevent with hevent | hevent
      · cases read with
        | none => cases hevent
        | some call => rw [List.mem_singleton.mp hevent]; rfl
      · cases write with
        | false => cases hevent
        | true => rw [List.mem_singleton.mp hevent]; rfl

theorem Reached.onIdleTimer (h : Reached idleTimeoutS s) (hopen : s.conn.closed = false)
    (now : TimePoint) (fresh : TimerId) : Reached idleTimeoutS (s.onIdleTimer now fresh) := by
  have hstep : s.step unasked (.idle now fresh) = s.onIdleTimer now fresh := by
    rw [step, if_neg (by simp [hopen])]
  rw [← hstep]
  exact h.run unasked [.idle now fresh] (by simp [Event.fromLoop])

end Session

namespace Reactor

/-- All connections of the loop. -/
def Projected (idleTimeoutS : ℤ) (r : Reactor) : Prop :=
  ∀ s ∈ r.sessions, Session.Reached idleTimeoutS s

variable {idleTimeoutS : ℤ} {r : Reactor}

theorem Projected.handled (h : Projected idleTimeoutS r) {s' : Session}
    (hs' : Session.Reached idleTimeoutS s') (c : ConnId) (now : TimePoint) (s : Session) :
    Projected idleTimeoutS (r.handled c now s s').1 := by
  intro s₁ hs₁
  rcases List.mem_or_eq_of_mem_set hs₁ with hs₁ | rfl
  · exact h s₁ hs₁
  · exact hs'

theorem Projected.dispatch (h : Projected idleTimeoutS r) (htabled : Tabled idleTimeoutS r)
    (env : Env) (fd : ℤ) (hangup readable writable : Bool) (call : ReadCall) (now : TimePoint) :
    Projected idleTimeoutS (r.dispatch env fd hangup readable writable call now).1 := by
  unfold Reactor.dispatch
  split
  · exact h
  · rename_i c hfind
    split
    · exact h
    · rename_i s hs
      obtain ⟨s₁, hopen, -⟩ := (htabled.find fd c).mp hfind
      obtain rfl : s = s₁ := Option.some.inj (hs.symm.trans hopen.1)
      have hreached := h s (List.mem_of_getElem? hs)
      exact h.handled (hreached.dispatch hopen.2 env hangup _ writable) c now s

theorem Projected.onIdleTimer (h : Projected idleTimeoutS r) (htabled : Tabled idleTimeoutS r)
    (c : ConnId) (now : TimePoint) : Projected idleTimeoutS (r.onIdleTimer c now).1 := by
  unfold Reactor.onIdleTimer
  split
  · exact h
  · rename_i s hs
    split
    · rename_i halive
      obtain ⟨s₁, hopen⟩ := (htabled.isAlive_iff c).mp halive
      obtain rfl : s = s₁ := Option.some.inj (hs.symm.trans hopen.1)
      have hreached := h s (List.mem_of_getElem? hs)
      exact h.handled (hreached.onIdleTimer hopen.2 now r.timers.nextId) c now s
    · exact h

theorem Projected.expireOne (h : Projected idleTimeoutS r) (htabled : Tabled idleTimeoutS r)
    {t : TimePoint} {k : ℕ} {now : TimePoint} {result : Reactor × List Action}
    (hone : r.expireOne t k now = some result) : Projected idleTimeoutS result.1 := by
  unfold Reactor.expireOne at hone
  split at hone
  · cases hone
  · rename_i e timers hpop
    split at hone
    · obtain rfl := Option.some.inj hone
      exact Projected.onIdleTimer (r := { r with timers := timers }) h (htabled.congr rfl rfl rfl)
        e.cb now
    · obtain rfl := Option.some.inj hone
      exact h

theorem Projected.attachConnection (h : Projected idleTimeoutS r) {fd : ℤ} (hfd : 0 ≤ fd)
    (now : TimePoint) : Projected idleTimeoutS (r.attachConnection idleTimeoutS fd now).1 := by
  intro s hs
  rcases List.mem_append.mp hs with hs | hs
  · exact h s hs
  · rw [List.mem_singleton.mp hs]
    exact Session.reached_start hfd idleTimeoutS now r.timers.nextId

end Reactor

namespace LoopThread

open Reactor

variable {idleTimeoutS : ℤ} {l l' : LoopThread}

theorem projected_step? (h : Projected idleTimeoutS l.reactor)
    (htabled : Tabled idleTimeoutS l.reactor)
    (hfd : ∀ fd rest, l.phase = .executing (fd :: rest) → 0 ≤ fd) {label : ThreadLabel}
    (hstep : l.step? idleTimeoutS label = some l') : Projected idleTimeoutS l'.reactor := by
  unfold step? at hstep
  split at hstep
  · simp only [Option.ite_none_right_eq_some, Option.some.injEq] at hstep
    obtain ⟨-, rfl⟩ := hstep
    exact h
  · obtain rfl := Option.some.inj hstep
    exact h
  · simp only [Option.ite_none_right_eq_some, Option.some.injEq] at hstep
    obtain ⟨-, rfl⟩ := hstep
    exact h.dispatch htabled _ _ _ _ _ _ _
  · simp only [Option.ite_none_right_eq_some, Option.some.injEq] at hstep
    obtain ⟨-, rfl⟩ := hstep
    exact h
  · simp only [Option.ite_none_right_eq_some, Option.map_eq_some_iff] at hstep
    obtain ⟨-, result, hone, rfl⟩ := hstep
    exact h.expireOne htabled hone
  · split at hstep
    · cases hstep
    · obtain rfl := Option.some.inj hstep
      exact h
  · obtain rfl := Option.some.inj hstep
    exact h
  · rename_i fd rest now hphase
    simp only [Option.ite_none_right_eq_some, Option.some.injEq] at hstep
    obtain ⟨-, rfl⟩ := hstep
    exact h.attachConnection (hfd fd rest hphase) now
  · obtain rfl := Option.some.inj hstep
    exact h
  · cases hstep

end LoopThread

namespace Reactors

open Reactor

theorem kept_projected (opts : Options) :
    Kept opts fun l => Projected opts.idleTimeoutS l.reactor := by
  refine ⟨?_, ?_⟩
  · intro listens now s hs
    cases hs
  · intro i label l l' h hhappens
    cases hhappens with
    | nothing hother => exact h
    | goesOn l' action hlabel hwork hstep =>
        exact LoopThread.projected_step? h hwork.tabled
          (fun fd rest hphase => (hwork.free fd rest hphase).1) hstep
    | performs a rest hlabel htodo =>
        intro s hs
        rw [sessions_perform] at hs
        exact h s hs
    | returns rest hother hphase => exact h
    | attaches fd now rest hlabel hone hphase hwork hfd hfree hle =>
        exact Projected.attachConnection h hfd now
    | queues fd hother => exact h

/-- All connections of the server. -/
theorem allProjected_run (opts : Options) (inUse : Finset ℤ) (now : TimePoint)
    (labels : List ReactorsLabel) :
    ∀ l ∈ (Transition.run (step opts) (start opts inUse now) labels).loops,
      Projected opts.idleTimeoutS l.reactor :=
  (kept_projected opts).run inUse now labels

/-- Each connection of each loop is in a state that it gets into by itself: on a descriptor of its
own, in one environment, from events of its loop. -/
structure Projects (opts : Options) (s : Reactors) : Prop where
  alone : ∀ l ∈ s.loops, ∀ conn ∈ l.reactor.sessions, ∃ env fd t events, 0 ≤ fd ∧
    (∀ event ∈ events, event.fromLoop = true) ∧
    conn = Session.run env (Session.start fd opts.idleTimeoutS t) events

/-- **A connection among others**, in every state of every run. -/
theorem projection_run (opts : Options) (inUse : Finset ℤ) (now : TimePoint)
    (labels : List ReactorsLabel) :
    Projects opts (Transition.run (step opts) (start opts inUse now) labels) :=
  ⟨allProjected_run opts inUse now labels⟩

end Reactors

end WsServer
