import WsServer.Lib.Ledger
import WsServer.Reactor.Table

/-!
# What a loop accounts for

Three things are counted on both sides of a handler and its actions: the descriptors of the open
connections and those still to be closed, the connections attached and those still to be counted in
`opened`, and the connections closed and those still to be counted in `closed`.  A handler moves
them from the one to the other and loses none (`Balanced`).
-/

namespace WsServer

open Ledger

namespace Session

/-- The descriptor of a connection while it is open. -/
def openFd (s : Session) : Multiset ℤ := if s.conn.closed then 0 else {s.conn.fd}

def openCount (s : Session) : ℕ := if s.conn.closed then 0 else 1

theorem card_openFd (s : Session) : Multiset.card s.openFd = s.openCount := by
  unfold openFd openCount
  split <;> rfl

end Session

namespace Action

/-- The descriptor that the action closes. -/
def closedFd : Action → Multiset ℤ
  | .closeFd fd => {fd}
  | _ => 0

def openedCount : Action → ℕ
  | .countOpened => 1
  | _ => 0

def closedCount : Action → ℕ
  | .countClosed => 1
  | _ => 0

end Action

namespace Reactor

open Session

variable {idleTimeoutS : ℤ} {now : TimePoint} {r r' : Reactor} {todo : List Action}

/-- The descriptors of the open connections. -/
def openFds (r : Reactor) : Multiset ℤ := total openFd r.sessions

/-- How many connections are open. -/
def openCount (r : Reactor) : ℕ := total Session.openCount r.sessions

/-- How often the connections have been closed. -/
def closedCount (r : Reactor) : ℕ := total (fun s => s.counters.closed) r.sessions

structure Balanced (r r' : Reactor) (todo : List Action) : Prop where
  fds : r'.openFds + total Action.closedFd todo = r.openFds
  opened : r'.sessions.length = r.sessions.length + total Action.openedCount todo
  closed : r'.closedCount = r.closedCount + total Action.closedCount todo
  openCount : r'.openCount ≤ r.openCount

theorem card_openFds (r : Reactor) : Multiset.card r.openFds = r.openCount := by
  rw [openFds, card_total, openCount]
  exact total_congr fun s _ => card_openFd s

/-- A descriptor that no open connection has is not in the table. -/
theorem find?_eq_none (htabled : Tabled idleTimeoutS r) {fd : ℤ} (h : fd ∉ r.openFds) :
    r.connections.find? fd = none := by
  cases hfind : r.connections.find? fd with
  | none => rfl
  | some c =>
      obtain ⟨s, ⟨hs, hopen⟩, rfl⟩ := (htabled.find fd c).mp hfind
      refine absurd (mem_total.mpr ⟨s, List.mem_of_getElem? hs, ?_⟩) h
      rw [openFd, if_neg (by simp [hopen])]
      exact Multiset.mem_singleton_self _

theorem Balanced.refl (r : Reactor) : Balanced r r [] := ⟨by simp, by simp, by simp, le_rfl⟩

theorem total_closing (c : ConnId) {fd : ℤ} (hfd : 0 ≤ fd) (timer : TimerId) :
    total Action.closedFd (closing c fd timer) = {fd} ∧
      total Action.openedCount (closing c fd timer) = 0 ∧
      total Action.closedCount (closing c fd timer) = 1 := by
  unfold closing
  rw [if_pos hfd]
  split <;> simp [Action.closedFd, Action.openedCount, Action.closedCount]

theorem total_attaching (idleTimeoutS : ℤ) (now : TimePoint) (c : ConnId) (fd : ℤ) :
    total Action.closedFd (attaching c idleTimeoutS fd now) = 0 ∧
      total Action.openedCount (attaching c idleTimeoutS fd now) = 1 ∧
      total Action.closedCount (attaching c idleTimeoutS fd now) = 0 := by
  unfold attaching
  split <;> simp [Action.closedFd, Action.openedCount, Action.closedCount]

variable {c : ConnId} {s s' : Session}

/-- A connection stays as it is in all accounts. -/
theorem balanced_set_same (hs : r.sessions[c]? = some s)
    (hclosed : s'.conn.closed = s.conn.closed) (hfd : s'.conn.fd = s.conn.fd)
    (hcount : s'.counters.closed = s.counters.closed) (hset : r'.sessions = r.sessions.set c s')
    (hnone : total Action.closedFd todo = 0 ∧ total Action.openedCount todo = 0 ∧
      total Action.closedCount todo = 0) : Balanced r r' todo := by
  have hopenFd : s'.openFd = s.openFd := by rw [openFd, openFd, hclosed, hfd]
  have hopenCount : s'.openCount = s.openCount := by
    rw [Session.openCount, Session.openCount, hclosed]
  obtain ⟨hfds, hopened, hclosedCount⟩ := hnone
  refine ⟨?_, ?_, ?_, le_of_eq ?_⟩
  · rw [hfds, add_zero, openFds, openFds, hset, total_set_of_eq hs hopenFd]
  · rw [hopened, hset, List.length_set, add_zero]
  · rw [hclosedCount, closedCount, closedCount, hset, total_set_of_eq hs hcount, add_zero]
  · rw [openCount, openCount, hset, total_set_of_eq hs hopenCount]

/-- A connection is closed. -/
theorem balanced_set_ended (hs : r.sessions[c]? = some s) (hopen : s.conn.closed = false)
    (hclosed : s'.conn.closed = true) (hcount : s'.counters.closed = s.counters.closed + 1)
    (hset : r'.sessions = r.sessions.set c s') (hfd : 0 ≤ s.conn.fd) (timer : TimerId) :
    Balanced r r' (closing c s.conn.fd timer) := by
  have hopenFd := total_set hs openFd s'
  have hopenCount := total_set hs Session.openCount s'
  have hclosedCount := total_set hs (fun s => s.counters.closed) s'
  obtain ⟨hfds, hopened, hone⟩ := total_closing c hfd timer
  rw [openFd, openFd, if_pos hclosed, if_neg (by simp [hopen]), add_zero] at hopenFd
  rw [Session.openCount, Session.openCount, if_pos hclosed] at hopenCount
  refine ⟨?_, ?_, ?_, ?_⟩
  · rw [hfds, openFds, openFds, hset, hopenFd]
  · rw [hopened, hset, List.length_set, add_zero]
  · rw [hone, closedCount, closedCount, hset]
    omega
  · rw [openCount, openCount, hset]
    omega

theorem balanced_handles (htabled : Tabled idleTimeoutS r) {fd : ℤ}
    (hrun : Handles r fd now r' todo) : Balanced r r' todo := by
  cases hrun with
  | nothing => exact .refl r
  | stays c s s' hs houtcome hsame =>
      exact balanced_set_same hs hsame.closed hsame.fd hsame.count rfl ⟨rfl, rfl, rfl⟩
  | closes c s s' hfind hs houtcome hended =>
      have hfd := ((htabled.whole s (List.mem_of_getElem? hs)).opened hended.wasOpen).1
      exact balanced_set_ended hs hended.wasOpen hended.closed hended.count rfl hfd _

theorem balanced_fires (htabled : Tabled idleTimeoutS r) (hrun : Fires r c now r' todo) :
    Balanced r r' todo := by
  cases hrun with
  | nothing hnone => exact .refl r
  | reaps s s' hs hdue hlives hended =>
      have hopen : s.conn.closed = false := hended.wasOpen
      have hfd := ((htabled.whole s (List.mem_of_getElem? hs)).opened hopen).1
      exact balanced_set_ended hs hopen hended.closed hended.count rfl hfd 0
  | rearms s hs hopen htimeout hrecent =>
      refine balanced_set_same hs ?_ ?_ ?_ rfl ⟨rfl, rfl, rfl⟩
      all_goals rw [armIdleTimer_of_pos hopen htimeout]

/-- A new connection has its descriptor and is still to be counted. -/
theorem account_attachConnection (r : Reactor) (idleTimeoutS fd : ℤ) (now : TimePoint) :
    let r' := (r.attachConnection idleTimeoutS fd now).1
    let todo := (r.attachConnection idleTimeoutS fd now).2
    r'.openFds + total Action.closedFd todo = r.openFds + {fd} ∧
      r'.sessions.length = r.sessions.length + total Action.openedCount todo ∧
      r'.closedCount = r.closedCount + total Action.closedCount todo ∧
      r'.openCount = r.openCount + 1 := by
  obtain ⟨hfds, hopened, hclosed⟩ :=
    total_attaching idleTimeoutS now r.sessions.length fd
  have hconn := conn_armIdleTimer (s := start fd idleTimeoutS now) rfl r.timers.nextId
  have hopen : ((start fd idleTimeoutS now).armIdleTimer r.timers.nextId).conn.closed = false := by
    rw [hconn]
    rfl
  rw [attachConnection_eq]
  dsimp only
  refine ⟨?_, ?_, ?_, ?_⟩
  · rw [hfds, add_zero, openFds, total_concat, openFd, if_neg (by simp [hopen]), hconn]
    rfl
  · rw [hopened, List.length_append, List.length_singleton]
  · rw [hclosed, closedCount, total_concat]
    rw [counters_armIdleTimer]
    rfl
  · rw [openCount, total_concat, Session.openCount, if_neg (by simp [hopen])]
    rfl

end Reactor

end WsServer
