import WsServer.Lib.Word
import WsServer.Model.LogFile

/-!
# The lines of the log

`Logger::write` (`logger.cpp`): a line is put together in `t_line`, a buffer of 4096 bytes that the
thread keeps from call to call, and handed over to `AsyncLogger::append`.

Offsets are `size_t`, and differences of them wrap around.  An access outside of `t_line` is
undefined (`LineExit.outside`), so that it has to be shown that there is none.  The arguments of the
message come as the text that they are printed to without a bound, or `none` for one that cannot be
printed.
-/

namespace WsServer

open CString Word

/-- What `localtime_r` promises of the fields that are read. -/
structure Tm.InRange (tm : Tm) : Prop where
  year : -2 ^ 31 ≤ tm.year + 1900 ∧ tm.year + 1900 < 2 ^ 31
  mon : 0 ≤ tm.mon ∧ tm.mon ≤ 11
  mday : 1 ≤ tm.mday ∧ tm.mday ≤ 31
  hour : 0 ≤ tm.hour ∧ tm.hour ≤ 23
  min : 0 ≤ tm.min ∧ tm.min ≤ 59
  sec : 0 ≤ tm.sec ∧ tm.sec ≤ 60

/-- `localtime_r`, in some time zone. -/
structure Localtime where
  tm : ℤ → Tm
  inRange : ∀ now, (tm now).InRange

/-- A reading of `CLOCK_REALTIME`. -/
structure Timespec where
  sec : ℤ
  nsec : ℕ
  nsec_lt : nsec < 1000000000

inductive LogLevel
  | LOG_TRACE
  | LOG_DEBUG
  | LOG_INFO
  | LOG_WARN
  | LOG_ERROR
  | LOG_FATAL
  deriving DecidableEq, Repr

/-- The `"?"` behind the `switch` is for what is no `LogLevel`. -/
def levelName : LogLevel → Bytes
  | .LOG_TRACE => bytes "TRACE"
  | .LOG_DEBUG => bytes "DEBUG"
  | .LOG_INFO => bytes "INFO"
  | .LOG_WARN => bytes "WARN"
  | .LOG_ERROR => bytes "ERROR"
  | .LOG_FATAL => bytes "FATAL"

def kStackBuf : ℕ := 4096

def INT_MAX : ℕ := 2 ^ 31 - 1

/-- `sizeof(head)`. -/
def headSize : ℕ := 80

/-- `t_line`. -/
structure LineBuffer where
  content : Bytes
  length_eq : content.length = kStackBuf

/-- How `Logger::write` ends without a record. -/
inductive LineExit
  /-- It accesses what is not in `t_line`. -/
  | outside
  /-- It returns. -/
  | returned
  deriving DecidableEq, Repr

/-- `t_line`, and how much of it is used. -/
structure LineState where
  line : LineBuffer
  used : ℕ

/-- `a - b`, which wraps around. -/
def sizeDiff (a b : ℕ) : ℕ := (a + sizeRange - b) % sizeRange

/-- What `snprintf` returns for a text; `none` is a negative result. -/
def printed? (text : Bytes) : Option ℕ := if text.length ≤ INT_MAX then some text.length else none

namespace LineBuffer

/-- `memcpy(t_line + offset, data, ...)`. -/
def copyAt (line : LineBuffer) (offset : ℕ) (data : Bytes) : Except LineExit LineBuffer :=
  if h : offset + data.length ≤ kStackBuf then
    .ok {
      content := line.content.take offset ++ data ++ line.content.drop (offset + data.length)
      length_eq := by
        have hlength := line.length_eq
        simp only [List.length_append, List.length_take, List.length_drop]
        omega }
  else .error .outside

/-- `snprintf(t_line + offset, room, ...)`: what fits of a text, and a NUL behind it. -/
def printAt (line : LineBuffer) (offset room : ℕ) (text : Bytes) : Except LineExit LineBuffer :=
  if room = 0 then .ok line else line.copyAt offset (text.take (room - 1) ++ [0])

/-- The first `n` bytes. -/
def read (line : LineBuffer) (n : ℕ) : Except LineExit Bytes :=
  if n ≤ kStackBuf then .ok (line.content.take n) else .error .outside

end LineBuffer

namespace LineState

/-- `snprintf` at the end of what is used, and the advance of `used`. -/
def print (s : LineState) (text : Bytes) : Except LineExit LineState :=
  let room := sizeDiff kStackBuf s.used
  match printed? text with
  | none => .error .returned
  | some n => do
    let line ← s.line.printAt s.used room text
    pure ⟨line, s.used + min n (sizeDiff room 1)⟩

/-- The newline, if there is room for it. -/
def terminate (s : LineState) : Except LineExit LineState :=
  if s.used + 1 < kStackBuf then do
    let line ← s.line.copyAt s.used [10]
    pure ⟨line, s.used + 1⟩
  else pure s

end LineState

namespace Logger

/-- The time and the level, as they are printed into `head`. -/
def headText (tm : Tm) (ts : Timespec) (lv : LogLevel) : Bytes :=
  padded 4 (tm.year + 1900) ++ bytes "-" ++ padded 2 (tm.mon + 1) ++ bytes "-" ++
    padded 2 tm.mday ++ bytes " " ++ padded 2 tm.hour ++ bytes ":" ++ padded 2 tm.min ++
    bytes ":" ++ padded 2 tm.sec ++ bytes "." ++ padded 3 (ts.nsec / 1000000 : ℕ) ++ bytes " " ++
    (levelName lv).rightpad 5 32 ++ bytes " "

/-- What stands behind the last slash. -/
def base (file : Bytes) : Bytes := file.rtakeWhile (· ≠ 47)

def location (file : Bytes) (line : ℤ) : Bytes :=
  base file ++ bytes ":" ++ intToString line ++ bytes " "

/-- `head` is copied to the beginning of `t_line`. -/
def writeHead (head : Bytes) (t_line : LineBuffer) : Except LineExit LineState :=
  match printed? head with
  | none => .error .returned
  | some hn =>
    let hlen := if hn < headSize then hn else headSize - 1
    if hlen = 0 ∨ kStackBuf ≤ hlen then .error .returned
    else do
      let line ← t_line.copyAt 0 (head.take hlen)
      pure ⟨line, hlen⟩

/-- The place is printed behind the head. -/
def writeLocation (place : Bytes) (s : LineState) : Except LineExit LineState :=
  if s.used < kStackBuf then s.print place else .ok s

def writeMessage (message : Option Bytes) (s : LineState) : Except LineExit LineState :=
  match message with
  | none => .error .returned
  | some text => s.print text

/-- `Logger::write`: the bytes that `append` gets. -/
def write (localtime : Localtime) (ts : Timespec) (lv : LogLevel) (file : Bytes) (line : ℤ)
    (message : Option Bytes) (t_line : LineBuffer) : Except LineExit Bytes := do
  let s ← writeHead (headText (localtime.tm ts.sec) ts lv) t_line
  let s ← writeLocation (location file line) s
  let s ← writeMessage message s
  let s ← s.terminate
  s.line.read s.used

end Logger

end WsServer
