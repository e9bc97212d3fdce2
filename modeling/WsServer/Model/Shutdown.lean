import WsServer.Model.Reactors

/-!
# The end of a server

`Server::stop`, the part of `Server::start` behind the main loop, and the destructors
(`server.cpp`, `event_loop.cpp`, `connection.cpp`).

`stop` may be called at any moment and on any thread, a signal handler included: it sets `quit_` of
one loop after the other, and `start` does the same for the sub loops when the main loop has ended.
A loop reads its `quit_` between two rounds; the reading may be older than what is stored, so it
may also go on.  Loops that have left do not come back, but others may still queue tasks for them.
-/

namespace WsServer

/-- How far `start` and the destructor have come. -/
inductive Stage
  /-- `start` has not yet joined all threads. -/
  | serving
  /-- `start` has closed the listening socket. -/
  | stopped
  | destroyed
  deriving DecidableEq

/-- The descriptors that a server has for itself, when the process has `others`: the listening
socket, and for each loop its eventfd and its epoll instance. -/
structure OwnFds (others : Finset ℤ) where
  listenFd : ℤ
  loopFds : Finset ℤ
  listenFd_fresh : listenFd ∉ others
  loopFds_fresh : Disjoint loopFds others
  listenFd_ne : listenFd ∉ loopFds

structure ServerLife where
  reactors : Reactors
  /-- The loops with `quit_` set. -/
  quit : Finset ℕ := ∅
  /-- The loops that have returned from `loop`. -/
  left : Finset ℕ := ∅
  stage : Stage := .serving

inductive LifeLabel
  | reactors (label : ReactorsLabel)
  /-- `quit` of a loop is called, by `stop` or by `start`. -/
  | quit (i : ℕ)
  /-- The loop reads `quit_` and returns. -/
  | leave (i : ℕ)
  /-- All threads have been joined; `close(listen_fd_)`. -/
  | finish
  /-- `~Server`. -/
  | destroy

/-- The loop on whose thread the action happens. -/
def ReactorsLabel.loop : ReactorsLabel → ℕ
  | .thread i _ => i
  | .perform i => i
  | _ => 0

/-- What `~Connection` closes, for the connections that the table of the loop owns. -/
def Reactor.destroyedFds (r : Reactor) : List ℤ :=
  r.connections.entries.filterMap fun entry =>
    (r.sessions[entry.2]?).bind fun s => if 0 ≤ s.conn.fd then some s.conn.fd else none

namespace ServerLife

variable {others : Finset ℤ}

/-- `start`, behind `initListenSocket` and the constructors of the loops. -/
def start (opts : Reactors.Options) (own : OwnFds others) (now : TimePoint) : ServerLife where
  reactors := Reactors.start opts (insert own.listenFd (own.loopFds ∪ others)) now

/-- The descriptors of the connections that are destroyed with their loops. -/
def destroyedFds (s : ServerLife) : List ℤ :=
  s.reactors.loops.flatMap fun l => l.reactor.destroyedFds

def step? (opts : Reactors.Options) (own : OwnFds others) (s : ServerLife) :
    LifeLabel → Option ServerLife
  | .reactors label =>
    if s.stage = .serving ∧ label.loop ∉ s.left then
      (s.reactors.step? opts label).map fun reactors => { s with reactors := reactors }
    else none
  | .quit i => if s.stage = .destroyed then none else some { s with quit := insert i s.quit }
  | .leave i =>
    match s.reactors.loops[i]? with
    | some l =>
      match l.phase with
      | .polling =>
        if l.todo.isEmpty ∧ i ∈ s.quit then some { s with left := insert i s.left } else none
      | _ => none
    | none => none
  | .finish =>
    if s.stage = .serving ∧ ∀ i < s.reactors.loops.length, i ∈ s.left then
      some { s with
        reactors := { s.reactors with inUse := s.reactors.inUse.erase own.listenFd }
        stage := .stopped }
    else none
  | .destroy =>
    if s.stage = .stopped then
      some { s with
        reactors := { s.reactors with
          inUse := (s.reactors.inUse \ s.destroyedFds.toFinset) \ own.loopFds }
        stage := .destroyed }
    else none

def step (opts : Reactors.Options) (own : OwnFds others) : ServerLife → LifeLabel → ServerLife :=
  Transition.attempt (step? opts own)

end ServerLife

end WsServer
