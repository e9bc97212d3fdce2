import WsServer.Lib.Transition
import WsServer.Model.LogFile

/-!
# The descriptor of the log

`AsyncLogger::start`, `writeAll` and `stop` (`logger.h`, `logger.cpp`) one after the other, as far
as they are about `fd_`: which descriptors `open` has returned, and to which of them `close` is
applied.  What `stop` still writes comes before it, as calls of `writeAll`.

The content of the files is that of `LogFile`; here its `LogFd.file` gets the number that `open`
has returned.
-/

namespace WsServer

open CString

/-- What the kernel has been asked for, as far as it is about descriptors of the log. -/
inductive FdCall
  /-- `open` has returned `n`. -/
  | opened (n : ℕ)
  | closed (n : ℕ)
  deriving DecidableEq, Repr

def STDOUT_FILENO : ℕ := 1

structure LogHandle where
  file : LogFile
  running : Bool := false
  /-- The last descriptor that `open` has returned. -/
  number : ℕ := 0
  history : List FdCall := []

/-- A call of the logger.  With it comes what `open` returns in it if it succeeds. -/
inductive LogCall
  | start (path : Bytes) (rollBytes : ℕ) (opens : Bool) (number : ℕ)
  | writeAll (call : LogFile.WriteCall) (number : ℕ)
  | stop

namespace LogHandle

/-- The logger before the first `start`. -/
def construct (localtime : ℤ → Tm) (files : SortedMap Bytes Bytes) : LogHandle where
  file := { localtime := localtime, files := files }

/-- `fd_`; `none` is `-1`. -/
def fd (s : LogHandle) : Option ℕ :=
  s.file.fd.map fun
    | .stdout => STDOUT_FILENO
    | .file => s.number

def start (s : LogHandle) (path : Bytes) (rollBytes : ℕ) (opens : Bool) (number : ℕ) : LogHandle :=
  if s.running then s
  else
    let file := s.file.start path rollBytes opens
    if file.fd = some .file then
      { file := file, running := true, number := number, history := s.history ++ [.opened number] }
    else { s with file := file, running := true }

/-- `rollIfNeeded` as `writeAll` calls it: `close`, and `open` behind it. -/
def rollIfNeeded (s : LogHandle) (call : RollCall) (incoming number : ℕ) : LogHandle :=
  match s.fd with
  | none => s
  | some fd =>
    if s.file.rolls incoming then
      if call.opens then
        { s with number := number, history := s.history ++ [.closed fd] ++ [.opened number] }
      else { s with history := s.history ++ [.closed fd] }
    else s

def writeAll (s : LogHandle) (call : LogFile.WriteCall) (number : ℕ) : LogHandle :=
  if s.file.fd.isNone || call.data.isEmpty then s
  else
    { s.rollIfNeeded call.roll call.data.length number with file := s.file.writeAll call }

def stop (s : LogHandle) : LogHandle :=
  if s.running then
    let s' := { s with file := { s.file with fd := none }, running := false }
    match s.fd with
    | none => s'
    | some fd => if fd ≠ STDOUT_FILENO then { s' with history := s.history ++ [.closed fd] } else s'
  else s

def step (s : LogHandle) : LogCall → LogHandle
  | .start path rollBytes opens number => s.start path rollBytes opens number
  | .writeAll call number => s.writeAll call number
  | .stop => s.stop

end LogHandle

end WsServer
