import WsServer.Lib.Transition
import WsServer.Model.Reactor

/-!
# The reactors of a server

All loops of a `Server` and what they share: the descriptors of the process, the counters of
connections, and the tasks that `Server::onAccept` hands over.  Loop 0 is the main one, on whose
thread `onAccept` runs; with `io_threads == 0` it is the only one and serves the connections too.

A label of `step?` is one action of one thread, so a run is any interleaving of `onAccept`, the
handlers of all loops and the kernel.  No loop is told to quit.
-/

namespace WsServer

/-- What `epoll_wait` reports: the eventfd of the loop, the listening socket, or a descriptor with
the connection it is registered for at that moment. -/
inductive Reported
  | wakeup
  | acceptor
  | connection (fd : ℤ) (c : ConnId) (hangup readable writable : Bool)

/-- The descriptor of a connection. -/
def Reported.fd? : Reported → Option ℤ
  | .connection fd _ _ _ _ => some fd
  | _ => none

/-- Where `loop` stands in its round. -/
inductive Phase
  /-- From the test of `quit_` to the return of `epoll_wait`. -/
  | polling
  | dispatching (batch : List Reported)
  /-- In `timers_.expire()`, which has read this time. -/
  | expiring (t : TimePoint)
  /-- Behind that `expire()`, before the swap in `doPendingFunctors`. -/
  | calling (t : TimePoint)
  | executing (tasks : List ℤ)

/-- A loop and its thread. -/
structure LoopThread where
  /-- The loop has the acceptor. -/
  listens : Bool := false
  reactor : Reactor := {}
  phase : Phase := .polling
  /-- The descriptors for which `attachConnection` is queued. -/
  pending : List ℤ := []
  /-- What the handler that runs has still to do. -/
  todo : List Action := []
  /-- The last reading of the clock. -/
  clock : TimePoint

/-- What the thread of a loop does next.  A handler reads the clock once. -/
inductive ThreadLabel
  | ready (batch : List Reported)
  | wakeup
  | dispatch (env : Env) (call : ReadCall)
  | expire (now : TimePoint)
  | fire (k : ℕ) (now : TimePoint)
  | expired
  | swap
  | execute (now : TimePoint)
  | poll

/-- The clock is read behind `EAGAIN`, in `touch`. -/
def ReadCall.reading (call : ReadCall) (clock : TimePoint) : TimePoint :=
  match call.last with
  | .eagain now => now
  | _ => clock

namespace LoopThread

/-- `epoll_wait` reports what is registered, each connection at most once. -/
def reports (l : LoopThread) (batch : List Reported) : Prop :=
  (batch.filterMap Reported.fd?).Nodup ∧
    ∀ e ∈ batch, match e with
      | .connection fd c _ _ _ => l.reactor.registered.find? fd = some c
      | .acceptor => l.listens = true
      | .wakeup => True

instance reports.instDecidable (l : LoopThread) (batch : List Reported) :
    Decidable (l.reports batch) := by
  have (e : Reported) : Decidable (match e with
      | .connection fd c _ _ _ => l.reactor.registered.find? fd = some c
      | .acceptor => l.listens = true
      | .wakeup => True) := by
    cases e <;> infer_instance
  unfold reports
  infer_instance

/-- A handler has run, up to its actions. -/
def handler (l : LoopThread) (phase : Phase) (now : TimePoint) (r : Reactor × List Action) :
    LoopThread :=
  { l with reactor := r.1, phase := phase, todo := r.2, clock := now }

def step? (idleTimeoutS : ℤ) (l : LoopThread) (label : ThreadLabel) : Option LoopThread :=
  match l.phase, label with
  | .polling, .ready batch =>
    if l.reports batch then some { l with phase := .dispatching batch } else none
  | .dispatching (.wakeup :: rest), .wakeup => some { l with phase := .dispatching rest }
  | .dispatching (.connection fd _ hangup readable writable :: rest), .dispatch env call =>
    let now := call.reading l.clock
    if l.clock ≤ now then
      some (l.handler (.dispatching rest) now
        (l.reactor.dispatch env fd hangup readable writable call now))
    else none
  | .dispatching [], .expire now =>
    if l.clock ≤ now then some { l with phase := .expiring now, clock := now } else none
  | .expiring t, .fire k now =>
    if l.clock ≤ now then (l.reactor.expireOne t k now).map (l.handler (.expiring t) now) else none
  | .expiring t, .expired =>
    if l.reactor.timers.isDue t then none else some { l with phase := .calling t }
  | .calling _, .swap => some { l with phase := .executing l.pending, pending := [] }
  | .executing (fd :: rest), .execute now =>
    if l.clock ≤ now then
      some (l.handler (.executing rest) now (l.reactor.attachConnection idleTimeoutS fd now))
    else none
  | .executing [], .poll => some { l with phase := .polling }
  | _, _ => none

end LoopThread

/-- Where `onAccept` stands. -/
inductive Acceptor
  /-- It does not run. -/
  | idle
  /-- At `accept4`. -/
  | accepting
  /-- In `activeConnections`, with what has been loaded; the order of the loads is not
  specified. -/
  | checking (fd : ℤ) (opened closed : Option ℕ)
  deriving DecidableEq

structure Reactors where
  loops : List LoopThread
  /-- The descriptors of the process. -/
  inUse : Finset ℤ
  opened : ℕ := 0
  closed : ℕ := 0
  nextSub : ℕ := 0
  acceptor : Acceptor := .idle

inductive ReactorsLabel
  /-- The thread of a loop goes on, when no handler runs on it. -/
  | thread (i : ℕ) (label : ThreadLabel)
  /-- The handler on a loop performs its next action. -/
  | perform (i : ℕ)
  /-- The listening socket is the next event of the main loop. -/
  | onAccept
  | accept (fd : ℤ)
  /-- `accept4` fails, and not with `EINTR`. -/
  | acceptFailed
  | loadOpened
  | loadClosed
  /-- The limit is checked, and the connection refused, attached or handed over. -/
  | check (now : TimePoint)

namespace Reactors

/-- The fields of `Server::Options` that are read here. -/
structure Options where
  ioThreads : ℕ := 0
  maxConnections : ℤ := 20000
  idleTimeoutS : ℤ := 60

/-- Before the first connection. -/
def start (opts : Options) (inUse : Finset ℤ) (now : TimePoint) : Reactors where
  loops := { listens := true, clock := now } :: List.replicate opts.ioThreads { clock := now }
  inUse := inUse

/-- One action, as far as it is seen outside the loop. -/
def share (s : Reactors) : Action → Reactors
  | .closeFd fd => { s with inUse := s.inUse.erase fd }
  | .countOpened => { s with opened := s.opened + 1 }
  | .countClosed => { s with closed := s.closed + 1 }
  | _ => s

/-- `pickSubLoop`, when there is a sub loop. -/
def pickSubLoop (s : Reactors) : ℕ := 1 + s.nextSub % (s.loops.length - 1)

/-- The end of a round of `onAccept`: `runInLoop` calls `attachConnection` at once on the main
loop, and queues it on a sub loop. -/
def letThrough (opts : Options) (s : Reactors) (main : LoopThread) (fd : ℤ) (now : TimePoint) :
    Option Reactors :=
  if s.loops.length ≤ 1 then
    if main.clock ≤ now then
      some { s with
        loops := s.loops.set 0 (main.handler main.phase now
          (main.reactor.attachConnection opts.idleTimeoutS fd now))
        acceptor := .accepting }
    else none
  else
    (s.loops[s.pickSubLoop]?).map fun sub =>
      { s with
        loops := s.loops.set s.pickSubLoop { sub with pending := sub.pending ++ [fd] }
        nextSub := (s.nextSub + 1) % 2 ^ 64
        acceptor := .accepting }

/-- An action of `onAccept`, on the thread of the main loop. -/
def acceptorStep? (opts : Options) (s : Reactors) (main : LoopThread) :
    ReactorsLabel → Option Reactors
  | .onAccept =>
    match s.acceptor, main.phase with
    | .idle, .dispatching (.acceptor :: _) => some { s with acceptor := .accepting }
    | _, _ => none
  | .accept fd =>
    match s.acceptor with
    | .accepting =>
      if fd ∉ s.inUse ∧ 0 ≤ fd then
        some { s with inUse := insert fd s.inUse, acceptor := .checking fd none none }
      else none
    | _ => none
  | .acceptFailed =>
    match s.acceptor, main.phase with
    | .accepting, .dispatching (_ :: rest) =>
      some { s with
        loops := s.loops.set 0 { main with phase := .dispatching rest }, acceptor := .idle }
    | _, _ => none
  | .loadOpened =>
    match s.acceptor with
    | .checking fd none closed => some { s with acceptor := .checking fd (some s.opened) closed }
    | _ => none
  | .loadClosed =>
    match s.acceptor with
    | .checking fd opened none => some { s with acceptor := .checking fd opened (some s.closed) }
    | _ => none
  | .check now =>
    match s.acceptor with
    | .checking fd (some opened) (some closed) =>
      if opts.maxConnections ≤ (opened : ℤ) - closed then
        some { s with inUse := s.inUse.erase fd, acceptor := .accepting }
      else s.letThrough opts main fd now
    | _ => none
  | _ => none

def step? (opts : Options) (s : Reactors) (label : ReactorsLabel) : Option Reactors :=
  match label with
  | .thread i label =>
    match s.loops[i]? with
    | some l =>
      -- on the main loop `onAccept` may be running
      if l.todo.isEmpty ∧ (i = 0 → s.acceptor = .idle) then
        (l.step? opts.idleTimeoutS label).map fun l' => { s with loops := s.loops.set i l' }
      else none
    | none => none
  | .perform i =>
    match s.loops[i]? with
    | some l =>
      match l.todo with
      | [] => none
      | a :: rest =>
        some { s.share a with
          loops := s.loops.set i { l with reactor := l.reactor.perform a, todo := rest } }
    | none => none
  | label =>
    match s.loops[0]? with
    | some main => if main.todo.isEmpty then s.acceptorStep? opts main label else none
    | none => none

def step (opts : Options) : Reactors → ReactorsLabel → Reactors :=
  Transition.attempt (step? opts)

end Reactors

end WsServer
