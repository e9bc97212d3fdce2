import WsServer.Connection.Trace
import WsServer.Lib.Interleaving

/-!
# A connection and its socket

The kernel's side of a connection: what has been received and not been read, the room for
output, and the registration in epoll (`epoller.cpp`), which is edge-triggered
(`kConnBaseEvents`).  A socket gets onto the ready list when one of the conditions that are asked
for comes to hold, and when `epoll_ctl` finds one that holds; `epoll_wait` takes it off the list
and reports the conditions that hold then.  No more than this is assumed: a condition that goes on
holding is not reported again.

`Polled` is a connection with its socket, as the loop drives it.  While a handler runs the network
goes on, so what the kernel answers to its system calls is an interleaving of the two.
-/

namespace WsServer

open CString Interleaving

/-- What the network does to a socket. -/
inductive NetStep
  /-- Bytes arrive. -/
  | arrive (data : Bytes)
  /-- The peer closes its side. -/
  | finish
  | reset
  /-- The peer takes output, which makes room for `n` more bytes. -/
  | drain (n : ℕ)
  /-- The kernel may also report without a need. -/
  | wake

deriving instance DecidableEq for ReadEnd

/-- The system calls on the socket of a connection, with their results. -/
inductive SysCall
  /-- A `readv` in the read loop that does not end it; no bytes when it was interrupted. -/
  | readv (data : Bytes)
  | lastReadv (last : ReadEnd)
  | write (offered : Bytes) (result : WriteResult)
  /-- `EPOLL_CTL_MOD`, with or without `EPOLLOUT`. -/
  | epollMod (out : Bool)
  deriving DecidableEq

/-- The events of `epoll_wait`: `EPOLLHUP` or `EPOLLERR`, `EPOLLIN` or `EPOLLRDHUP`, `EPOLLOUT`. -/
structure EventMask where
  hangup : Bool
  readable : Bool
  writable : Bool
  deriving DecidableEq, Repr

def EventMask.any (r : EventMask) : Bool := r.hangup || r.readable || r.writable

structure Socket where
  /-- What has been received and not been read. -/
  received : Bytes := []
  finished : Bool := false
  broken : Bool := false
  /-- How many bytes `write` would take. -/
  space : ℕ
  /-- `EPOLLOUT` is asked for. -/
  out : Bool := false
  /-- The socket is on the ready list. -/
  pending : Bool := false
  /-- All bytes that have arrived so far. -/
  arrived : Bytes := []

namespace Socket

/-- The conditions that hold, of those asked for. -/
def ready (k : Socket) : EventMask where
  hangup := k.broken
  readable := !k.received.isEmpty || k.finished
  writable := k.out && 0 < k.space

/-- The socket has changed: it gets onto the ready list when a condition has come to hold. -/
def notice (old new : Socket) : Socket :=
  { new with pending := new.pending ||
      (new.ready.hangup && !old.ready.hangup || new.ready.readable && !old.ready.readable ||
        new.ready.writable && !old.ready.writable) }

def net (k : Socket) : NetStep → Socket
  | .arrive data =>
    if k.finished then k
    else k.notice { k with received := k.received ++ data, arrived := k.arrived ++ data }
  | .finish => k.notice { k with finished := true }
  | .reset => k.notice { k with broken := true }
  | .drain n => k.notice { k with space := k.space + n }
  | .wake => { k with pending := true }

/-- `epoll_ctl` looks at the conditions at once. -/
def register (k : Socket) (out : Bool) : Socket :=
  let k := { k with out := out }
  { k with pending := k.pending || k.ready.any }

/-- The system calls; `none` when the kernel does not answer like this. -/
def serve (k : Socket) : SysCall → Option Socket
  | .readv data =>
    if data <+: k.received then some { k with received := k.received.drop data.length } else none
  | .lastReadv (.eagain _) => if k.ready.readable || k.broken then none else some k
  | .lastReadv .eof => if k.received.isEmpty && k.finished then some k else none
  | .lastReadv .failed => if k.broken then some k else none
  | .write offered (.wrote n) =>
    -- `write` takes what there is room for
    if 0 < k.space ∧ min n offered.length = min k.space offered.length then
      some { k with space := k.space - min k.space offered.length }
    else none
  | .write _ .eagain => if k.space = 0 then some k else none
  | .write _ .eintr => some k
  | .write _ .failed => if k.broken then some k else none
  | .epollMod out => some (k.register out)

/-- The socket of a connection that is attached: `EPOLL_CTL_ADD`. -/
def attach (k : Socket) : Socket :=
  { k with arrived := k.received, pending := false }.register false

end Socket

/-! ## System calls of a connection -/

/-- The system calls of the read loop. -/
def ReadCall.sysCalls (call : ReadCall) : List SysCall :=
  call.steps.map (fun step => .readv step.bytes) ++ [.lastReadv call.last]

def Effect.sysCall? : Effect → Option SysCall
  | .write offered _ result => some (.write offered result)
  | .epollMod _ out => some (.epollMod out)
  | _ => none

/-- The system calls on the socket among effects. -/
def sysCalls (effects : List Effect) : List SysCall := effects.filterMap Effect.sysCall?

namespace Session

/-- The system calls of a handler that has taken a connection from `s` to `s'`. -/
def callsTo (s s' : Session) : List SysCall := sysCalls (s'.trace.drop s.trace.length)

end Session

/-! ## A connection with its socket -/

structure Polled where
  session : Session
  socket : Socket
  /-- What `epoll_wait` has reported and the loop has yet to handle. -/
  reported : Option EventMask := none
  /-- The events of the connection so far. -/
  log : List Session.Event := []

inductive PolledLabel
  | net (step : NetStep)
  /-- `epoll_wait` returns. -/
  | wait
  /-- The loop handles what was reported; `call` is what `readv` returns, if it is called. -/
  | dispatch (call : ReadCall) (script : List (Happening NetStep SysCall))
  /-- The idle timer fires, which is behind the events of a round. -/
  | idle (now : TimePoint) (fresh : TimerId)

namespace Polled

/-- `attachConnection`, on a socket in any state. -/
def start (fd idleTimeoutS : ℤ) (now : TimePoint) (k : Socket) : Polled where
  session := Session.start fd idleTimeoutS now
  socket := k.attach

/-- The `readv` calls, if there are any. -/
def reading (r : EventMask) (call : ReadCall) : Option ReadCall :=
  if r.readable then some call else none

/-- The system calls of a handler for the events `r`. -/
def handlerCalls (r : EventMask) (call : ReadCall) (s s' : Session) : List SysCall :=
  (if r.hangup then [] else (reading r call).elim [] ReadCall.sysCalls) ++ s.callsTo s'

def step? (env : Env) (p : Polled) : PolledLabel → Option Polled
  | .net step => some { p with socket := p.socket.net step }
  | .wait =>
    if p.socket.pending && p.reported.isNone then
      let r := p.socket.ready
      some { p with
        socket := { p.socket with pending := false }
        reported := if r.any then some r else none }
    else none
  | .dispatch call script =>
    match p.reported with
    | none => none
    | some r =>
      if p.session.conn.closed then none
      else
        let s' := p.session.dispatch env r.hangup (reading r call) r.writable
        (replay Socket.net Socket.serve p.socket script).bind fun k =>
          if requests script = handlerCalls r call p.session s' then
            some { p with
              session := s'
              socket := k
              reported := none
              log := p.log ++ Session.reported r.hangup (reading r call) r.writable }
          else none
  | .idle now fresh =>
    if p.session.conn.closed || p.reported.isSome then none
    else
      some { p with
        session := p.session.onIdleTimer now fresh
        log := p.log ++ [.idle now fresh] }

def step (env : Env) : Polled → PolledLabel → Polled := Transition.attempt (step? env)

end Polled

end WsServer
