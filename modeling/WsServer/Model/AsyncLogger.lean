import WsServer.Lib.Transition
import WsServer.Model.LogFile

/-!
# The logger

`AsyncLogger` (`logger.h`, `logger.cpp`): any number of threads `ι` call `append`, the thread of
the log runs `threadFunc`, and one thread calls `start` and `stop`.  A label of `step?` is one
action of one thread: the test of `running_` in `append` and its locked insertion, one `write`, or
the code between two of the points named by `LogPc` and `StopPc`.

The mutex is held at some of these points (`locked`), and what locks it waits for that.  `wait_for`
may return at any time, since its timeout may pass.
-/

namespace WsServer

open CString

/-- Where `writeAll` stands. -/
inductive Progress
  | entered
  /-- In the loop, with so many bytes written. -/
  | written (n : ℕ)
  deriving DecidableEq

def Progress.count : Progress → ℕ
  | .entered => 0
  | .written n => n

/-- Where the thread of the log stands. -/
inductive LogPc
  /-- At the lock in the loop. -/
  | locking
  /-- In `wait_for`. -/
  | waiting
  /-- Behind the wait, with the lock. -/
  | deciding
  /-- Writing `to_write_`. -/
  | writing (p : Progress)
  /-- Before `to_write_.clear()`. -/
  | clearing
  /-- At the lock behind the loop. -/
  | leaving
  /-- Writing `current_`, with the lock. -/
  | flushing (p : Progress)
  /-- Before `current_.clear()`, with the lock. -/
  | emptying
  | finished
  deriving DecidableEq

/-- Where `stop` stands. -/
inductive StopPc
  /-- It does not run. -/
  | idle
  /-- In `thread_.join()`. -/
  | joining
  /-- Before `running_.store(false)`. -/
  | joined
  /-- At the lock. -/
  | locking
  /-- Writing `current_`, with the lock. -/
  | flushing (p : Progress)
  /-- Before `current_.clear()`, with the lock. -/
  | emptying
  /-- Writing `to_write_`, with the lock. -/
  | flushingRest (p : Progress)
  /-- Before `to_write_.clear()`, with the lock. -/
  | emptyingRest
  /-- Before `fsync` and `close`. -/
  | closing
  deriving DecidableEq

structure AsyncLogger (ι : Type*) where
  file : LogFile
  current : Bytes := []
  toWrite : Bytes := []
  running : Bool := false
  stopRequested : Bool := false
  enqueuedBytes : ℕ := 0
  log : LogPc := .finished
  stopping : StopPc := .idle
  /-- What the thread is going to insert: it stands in `append`, behind the test of `running_`. -/
  appending : ι → Option Bytes := fun _ => none
  /-- All bytes inserted since `start`. -/
  inserted : Bytes := []

/-- What the outside has ready for `writeAll`. -/
structure Outside where
  roll : RollCall := { now := 0 }
  result : WriteResult := .eintr

inductive LoggerLabel (ι : Type*)
  | start (path : Bytes) (rollBytes : ℕ) (opens : Bool)
  /-- `stop` is called. -/
  | stop
  /-- `stop` goes on. -/
  | stopper (out : Outside)
  /-- The thread of the log goes on. -/
  | logThread (out : Outside)
  /-- `append` is called, and tests `running_`. -/
  | append (t : ι) (data : Bytes)
  /-- The locked part of `append`. -/
  | insert (t : ι)

/-- If `write` is called at this step, it works. -/
def LoggerLabel.Works {ι : Type*} : LoggerLabel ι → Prop
  | .stopper out => LogFile.Works out.result
  | .logThread out => LogFile.Works out.result
  | _ => True

/-- The next action of `writeAll`: where it stands then, or `none` when it has returned. -/
def LogFile.advance (f : LogFile) (data : Bytes) (out : Outside) :
    Progress → Option Progress × LogFile
  | .entered =>
    if f.fd.isNone || data.isEmpty then (none, f)
    else (some (.written 0), f.rollIfNeeded out.roll data.length)
  | .written n =>
    let step := f.writeStep data n out.result
    (step.1.map .written, step.2)

namespace AsyncLogger

variable {ι : Type*}

/-- Some thread that is not in `append` holds `mutex_`. -/
def locked (s : AsyncLogger ι) : Bool :=
  (match s.log with
    | .deciding | .flushing _ | .emptying => true
    | _ => false) ||
  match s.stopping with
    | .flushing _ | .emptying | .flushingRest _ | .emptyingRest => true
    | _ => false

/-- The logger before the first `start`. -/
def construct (localtime : ℤ → Tm) (files : SortedMap Bytes Bytes) : AsyncLogger ι where
  file := { localtime := localtime, files := files }

def start (s : AsyncLogger ι) (path : Bytes) (rollBytes : ℕ) (opens : Bool) : AsyncLogger ι :=
  if s.running then s
  else
    { s with
      file := s.file.start path rollBytes opens
      stopRequested := false, current := [], toWrite := []
      running := true, log := .locking
      inserted := [] }

def stop (s : AsyncLogger ι) : AsyncLogger ι :=
  if s.running then { s with stopRequested := true, stopping := .joining } else s

/-- `threadFunc`. -/
def logStep? (s : AsyncLogger ι) (out : Outside) : Option (AsyncLogger ι) :=
  match s.log with
  | .locking =>
    if s.locked then none
    else some { s with
      log := if s.current.isEmpty && !s.stopRequested then .waiting else .deciding }
  | .waiting => if s.locked then none else some { s with log := .deciding }
  | .deciding =>
    if s.current.isEmpty then
      some { s with log := if s.stopRequested then .leaving else .locking }
    else some { s with toWrite := s.current, current := s.toWrite, log := .writing .entered }
  | .writing p =>
    let r := s.file.advance s.toWrite out p
    some { s with file := r.2, log := (r.1.map LogPc.writing).getD .clearing }
  | .clearing => some { s with toWrite := [], log := .locking }
  | .leaving =>
    if s.locked then none
    else some { s with log := if s.current.isEmpty then .finished else .flushing .entered }
  | .flushing p =>
    let r := s.file.advance s.current out p
    some { s with file := r.2, log := (r.1.map LogPc.flushing).getD .emptying }
  | .emptying => some { s with current := [], log := .finished }
  | .finished => none

/-- The part of `stop` behind the flush of `current_`. -/
def flushRest (s : AsyncLogger ι) : StopPc :=
  if s.toWrite.isEmpty then .closing else .flushingRest .entered

/-- `stop`, behind its first two actions. -/
def stopStep? (s : AsyncLogger ι) (out : Outside) : Option (AsyncLogger ι) :=
  match s.stopping with
  | .idle => none
  | .joining => if s.log = .finished then some { s with stopping := .joined } else none
  | .joined => some { s with running := false, stopping := .locking }
  | .locking =>
    if s.locked then none
    else some { s with
      stopping := if s.current.isEmpty then s.flushRest else .flushing .entered }
  | .flushing p =>
    let r := s.file.advance s.current out p
    some { s with file := r.2, stopping := (r.1.map StopPc.flushing).getD .emptying }
  | .emptying => some { s with current := [], stopping := s.flushRest }
  | .flushingRest p =>
    let r := s.file.advance s.toWrite out p
    some { s with file := r.2, stopping := (r.1.map StopPc.flushingRest).getD .emptyingRest }
  | .emptyingRest => some { s with toWrite := [], stopping := .closing }
  | .closing => some { s with file := { s.file with fd := none }, stopping := .idle }

section Appending

variable [DecidableEq ι]

/-- The thread enters `append`, or leaves it, with nothing to insert. -/
def setAppending (s : AsyncLogger ι) (t : ι) (data : Option Bytes) : AsyncLogger ι :=
  { s with appending := Function.update s.appending t data }

/-- The locked part of `append`. -/
def insert (s : AsyncLogger ι) (t : ι) (data : Bytes) : AsyncLogger ι :=
  { s.setAppending t none with
    current := s.current ++ data
    enqueuedBytes := s.enqueuedBytes + data.length
    inserted := s.inserted ++ data }

def step? (s : AsyncLogger ι) : LoggerLabel ι → Option (AsyncLogger ι)
  | .start path rollBytes opens =>
    if s.stopping = .idle then some (s.start path rollBytes opens) else none
  | .stop => if s.stopping = .idle then some s.stop else none
  | .stopper out => s.stopStep? out
  | .logThread out => s.logStep? out
  | .append t data =>
    if (s.appending t).isSome then none
    else if !s.running || data.isEmpty then some s
    else some (s.setAppending t (some data))
  | .insert t =>
    if s.locked then none else (s.appending t).map (s.insert t)

def step : AsyncLogger ι → LoggerLabel ι → AsyncLogger ι := Transition.attempt step?

end Appending

end AsyncLogger

end WsServer
