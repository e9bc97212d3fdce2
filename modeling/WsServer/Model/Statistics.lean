import WsServer.Lib.Ledger
import WsServer.Model.Reactors

/-!
# The counters of a server

`ServerCounters` (`stats.h`) is shared by all threads.  Each `fetch_add` in a handler is an action
of its own, and between two of them other threads increment and read.  `opened` and `closed`, which
`onAccept` reads, are in `Reactors`; here are the others.

A handler computes at once what becomes of its connection.  What it has counted for it (`Session`)
it owes to the shared counters until it has added it (`due`).  It may do so in any order and in any
portions, at any moment before its thread goes on to something else.  That leaves more to happen
than the program does, which has one place for each increment.
-/

namespace WsServer

open Ledger

/-- The counters but for `opened` and `closed`. -/
inductive SharedCounter
  | accepted
  | requests
  | responses
  | errors
  | timeoutsClosed
  | bytesRead
  | bytesWritten
  deriving DecidableEq

instance SharedCounter.instFintype : Fintype SharedCounter where
  elems := {.accepted, .requests, .responses, .errors, .timeoutsClosed, .bytesRead, .bytesWritten}
  complete c := by cases c <;> decide

/-- What has been counted for a connection; `attachConnection` counts that it was accepted. -/
def SharedCounter.of (c : SharedCounter) (s : Session) : ℕ :=
  match c with
  | .accepted => 1
  | .requests => s.counters.requests
  | .responses => s.counters.responses
  | .errors => s.counters.errors
  | .timeoutsClosed => s.counters.timeoutsClosed
  | .bytesRead => s.counters.bytesRead
  | .bytesWritten => s.counters.bytesWritten

/-- What has been counted for the connections of a loop. -/
def LoopThread.counted (l : LoopThread) (c : SharedCounter) : ℕ := total c.of l.reactor.sessions

namespace Reactors

/-- What has been counted for the connections of loop `i`. -/
def counted (s : Reactors) (i : ℕ) (c : SharedCounter) : ℕ := (s.loops[i]?).elim 0 (·.counted c)

/-- How many connections the action refuses. -/
def refuses (opts : Options) (s : Reactors) : ReactorsLabel → ℕ
  | .check _ =>
    match s.acceptor with
    | .checking _ (some opened) (some closed) =>
      if opts.maxConnections ≤ (opened : ℤ) - closed then 1 else 0
    | _ => 0
  | _ => 0

end Reactors

/-- A server with its shared counters. -/
structure Statistics where
  server : Reactors
  shared : SharedCounter → ℕ := fun _ => 0
  /-- What the handler on a loop has counted and not added. -/
  due : ℕ → SharedCounter → ℕ := fun _ _ => 0
  /-- How many connections `onAccept` has refused. -/
  refused : ℕ := 0

inductive StatisticsLabel
  | act (label : ReactorsLabel)
  /-- The handler on a loop increments a counter. -/
  | fetchAdd (i : ℕ) (c : SharedCounter) (n : ℕ)

namespace Statistics

/-- The handler on a loop has added all that it has counted. -/
def Settled (s : Statistics) (i : ℕ) : Prop := ∀ c, s.due i c = 0

instance Settled.instDecidable (s : Statistics) (i : ℕ) : Decidable (s.Settled i) :=
  inferInstanceAs (Decidable (∀ c, s.due i c = 0))

/-- A thread that has to add something does not leave its handler. -/
def mayAct (s : Statistics) : ReactorsLabel → Bool
  | .perform _ => true
  | .thread i _ => s.Settled i
  | _ => s.Settled 0

/-- The server goes on to the state `server`; a refused connection is counted as an error, on the
thread of the main loop. -/
def goesOn (s : Statistics) (server : Reactors) (refused : ℕ) : Statistics :=
  { s with
    server := server
    due := fun i c => s.due i c + (server.counted i c - s.server.counted i c) +
      if i = 0 ∧ c = .errors then refused else 0
    refused := s.refused + refused }

def fetchAdd (s : Statistics) (i : ℕ) (c : SharedCounter) (n : ℕ) : Statistics :=
  { s with
    shared := Function.update s.shared c (s.shared c + n)
    due := Function.update s.due i (Function.update (s.due i) c (s.due i c - n)) }

def start (opts : Reactors.Options) (inUse : Finset ℤ) (now : TimePoint) : Statistics where
  server := Reactors.start opts inUse now

def step? (opts : Reactors.Options) (s : Statistics) : StatisticsLabel → Option Statistics
  | .act label =>
    if s.mayAct label then
      (s.server.step? opts label).map fun server => s.goesOn server (s.server.refuses opts label)
    else none
  | .fetchAdd i c n =>
    if i < s.server.loops.length ∧ n ≤ s.due i c then some (s.fetchAdd i c n) else none

def step (opts : Reactors.Options) : Statistics → StatisticsLabel → Statistics :=
  Transition.attempt (step? opts)

end Statistics

end WsServer
