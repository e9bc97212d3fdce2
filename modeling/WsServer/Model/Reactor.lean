import WsServer.Lib.SortedMap
import WsServer.Connection.Lifecycle
import WsServer.Model.TimerHeap

/-!
# What a loop owns

The data of an `EventLoop` that only its own thread touches: the connections, the table of
connections, the registrations in epoll and the timers; and the handlers that run on it,
`Server::attachConnection`, the dispatch of an event, and the callback of the idle timer.

A handler computes at once what becomes of the connection itself.  What it does to the tables, the
kernel and the counters is a list of actions to be performed one by one (`Action`), since other
threads can run in between.
-/

namespace WsServer

/-- A connection of a loop: its place in the order of attachment. -/
abbrev ConnId := ℕ

/-- What a handler does to the state that its loop and the other threads share. -/
inductive Action
  | addConnection (fd : ℤ) (c : ConnId)
  /-- `EPOLL_CTL_ADD` for this connection. -/
  | epollAdd (fd : ℤ) (c : ConnId)
  | epollDel (fd : ℤ)
  | closeFd (fd : ℤ)
  /-- `removeConnection`, called for this connection. -/
  | removeConnection (fd : ℤ) (c : ConnId)
  /-- `addAfter`, with its reading of the clock. -/
  | addTimer (now : TimePoint) (ms : ℤ) (c : ConnId)
  | cancelTimer (id : TimerId)
  /-- `counters_.opened` is incremented. -/
  | countOpened
  /-- `counters_.closed` is incremented. -/
  | countClosed
  deriving DecidableEq

structure Reactor where
  /-- All connections attached so far. -/
  sessions : List Session := []
  connections : SortedMap ℤ ConnId := ∅
  /-- The descriptors registered in epoll, each with the connection it was registered for. -/
  registered : SortedMap ℤ ConnId := ∅
  /-- The callback of an entry is the idle timer of a connection. -/
  timers : TimerHeap ConnId := {}

namespace Reactor

/-- One action, as far as the data of the loop goes. -/
def perform (r : Reactor) : Action → Reactor
  | .addConnection fd c => { r with connections := r.connections.insert fd c }
  | .epollAdd fd c =>
    -- `EPOLL_CTL_ADD` fails on a descriptor that is registered
    match r.registered.find? fd with
    | some _ => r
    | none => { r with registered := r.registered.insert fd c }
  | .epollDel fd => { r with registered := r.registered.erase fd }
  | .removeConnection fd _ => { r with connections := r.connections.erase fd }
  | .addTimer now ms c => { r with timers := r.timers.addAfter now ms c }
  | .cancelTimer id => { r with timers := r.timers.cancel id }
  | .closeFd _ => r
  | .countOpened => r
  | .countClosed => r

/-- The actions behind an effect of a connection.  `close` counts behind the removal. -/
def actions (c : ConnId) (now : TimePoint) : Effect → List Action
  | .epollDel fd => [.epollDel fd]
  | .closeFd fd => [.closeFd fd]
  | .removeConnection fd => [.removeConnection fd c, .countClosed]
  | .addTimer _ ms => [.addTimer now ms c]
  | .cancelTimer id => [.cancelTimer id]
  | _ => []

/-- The effects on the loop between two states of a connection. -/
def newEffects (s s' : Session) : List Effect :=
  (lifecycle s'.trace).drop (lifecycle s.trace).length

/-- A handler has taken a connection from `s` to `s'`. -/
def handled (r : Reactor) (c : ConnId) (now : TimePoint) (s s' : Session) :
    Reactor × List Action :=
  ({ r with sessions := r.sessions.set c s' }, (newEffects s s').flatMap (actions c now))

/-- `Server::attachConnection`. -/
def attachConnection (r : Reactor) (idleTimeoutS : ℤ) (fd : ℤ) (now : TimePoint) :
    Reactor × List Action :=
  let c := r.sessions.length
  let s := Session.start fd idleTimeoutS now
  let s' := s.armIdleTimer r.timers.nextId
  ({ r with sessions := r.sessions ++ [s'] },
    [.addConnection fd c, .epollAdd fd c] ++ (newEffects s s').flatMap (actions c now) ++
      [.countOpened])

/-- The part of `EventLoop::loop` that handles one event of a batch.  `call` is what `readv`
returns, if it is called. -/
def dispatch (r : Reactor) (env : Env) (fd : ℤ) (hangup readable writable : Bool)
    (call : ReadCall) (now : TimePoint) : Reactor × List Action :=
  match r.connections.find? fd with
  | none => (r, [])
  | some c =>
    match r.sessions[c]? with
    | none => (r, [])
    | some s =>
      r.handled c now s (s.dispatch env hangup (if readable then some call else none) writable)

/-- `weak.lock()` in the callback of the idle timer: the table holds the only reference. -/
def isAlive (r : Reactor) (c : ConnId) : Bool := r.connections.entries.any fun entry => entry.2 = c

/-- The callback of the idle timer. -/
def onIdleTimer (r : Reactor) (c : ConnId) (now : TimePoint) : Reactor × List Action :=
  match r.sessions[c]? with
  | none => (r, [])
  | some s =>
    if r.isAlive c then r.handled c now s (s.onIdleTimer now r.timers.nextId) else (r, [])

/-- One round of the loop in `TimerHeap::expire`, which pops the `k`-th entry: a cancelled one is
dropped. -/
def expireOne (r : Reactor) (t : TimePoint) (k : ℕ) (now : TimePoint) :
    Option (Reactor × List Action) :=
  match r.timers.pop? t k with
  | none => none
  | some (e, timers) =>
    if r.timers.isLive e then some (onIdleTimer { r with timers := timers } e.cb now)
    else some ({ r with timers := timers.forget e.id }, [])

/-- The actions that are left are performed. -/
def settle (r : Reactor) (todo : List Action) : Reactor := todo.foldl perform r

@[simp] theorem settle_nil (r : Reactor) : r.settle [] = r := rfl

@[simp] theorem settle_cons (r : Reactor) (a : Action) (todo : List Action) :
    r.settle (a :: todo) = (r.perform a).settle todo := rfl

end Reactor

end WsServer
