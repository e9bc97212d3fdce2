import WsServer.Connection.Basic

/-!
# The file of the log

The half of `AsyncLogger` (`logger.h`, `logger.cpp`) that writes: `writeAll`, which may close the
file first, rename it and open a new one (`rollIfNeeded`).  The file system is a map from names to
contents; `rename` replaces an existing target, and `open` with `O_TRUNC` empties the file.

What comes from outside is a parameter: the reading of the clock and the success of `rename` and
`open` (`RollCall`), and the results of `write`.
-/

namespace WsServer

open CString

/-- `struct tm`, as far as it is read. -/
structure Tm where
  year : ℤ
  mon : ℤ
  mday : ℤ
  hour : ℤ
  min : ℤ
  sec : ℤ
  deriving DecidableEq

/-- `%0wd` of `printf`. -/
def padded (width : ℕ) : ℤ → Bytes
  | .ofNat n => (natToString n).leftpad width 48
  | .negSucc n => 45 :: (natToString (n + 1)).leftpad (width - 1) 48

/-- What is added to the name of a file when it is put away. -/
def Tm.stamp (tm : Tm) : Bytes :=
  bytes "." ++ padded 4 (tm.year + 1900) ++ padded 2 (tm.mon + 1) ++ padded 2 tm.mday ++
    bytes "-" ++ padded 2 tm.hour ++ padded 2 tm.min ++ padded 2 tm.sec

/-- What the log has open. -/
inductive LogFd
  | stdout
  /-- The file at `path_`. -/
  | file
  deriving DecidableEq

/-- What `rollIfNeeded` meets: a reading of `CLOCK_REALTIME` in seconds, and whether `rename` and
`open` succeed. -/
structure RollCall where
  now : ℤ
  renames : Bool := true
  opens : Bool := true

structure LogFile where
  /-- `localtime_r`, which depends on the time zone. -/
  localtime : ℤ → Tm
  path : Bytes := []
  rollBytes : ℕ := 256 * 1024 * 1024
  writtenThisFile : ℕ := 0
  bytesWritten : ℕ := 0
  /-- `fd_`; `none` is `-1`. -/
  fd : Option LogFd := none
  files : SortedMap Bytes Bytes := ∅
  stdout : Bytes := []
  /-- The names under which files have been put away since `start`, in the order in which those
  that still stand were put there. -/
  rotated : List Bytes := []
  /-- All bytes that `write` has taken since `start`. -/
  stream : Bytes := []

namespace LogFile

/-- `path_` is empty or `-`. -/
def toStdout (f : LogFile) : Bool := f.path.isEmpty || f.path = bytes "-"

def content (f : LogFile) (name : Bytes) : Bytes := (f.files.find? name).getD []

/-- `open(path_, O_WRONLY | O_CREAT | O_APPEND)`, and standard output when it fails. -/
def openLog (f : LogFile) (opens : Bool) : LogFile :=
  if f.toStdout then { f with fd := some .stdout }
  else if opens then { f with fd := some .file, files := f.files.insert f.path (f.content f.path) }
  else { f with fd := some .stdout }

/-- The part of `AsyncLogger::start` that is about the file. -/
def start (f : LogFile) (path : Bytes) (rollBytes : ℕ) (opens : Bool) : LogFile :=
  openLog { f with
    path := path, rollBytes := rollBytes, writtenThisFile := 0, rotated := [], stream := [] } opens

/-- The name of a file that is put away at a time. -/
def rotatedName (f : LogFile) (now : ℤ) : Bytes := f.path ++ (f.localtime now).stamp

/-- `rename(path_, rotated)`. -/
def rename (f : LogFile) (name : Bytes) : LogFile :=
  match f.files.find? f.path with
  | none => f
  | some data =>
    { f with
      files := (f.files.erase f.path).insert name data
      rotated := f.rotated.erase name ++ [name] }

/-- `open(path_, O_WRONLY | O_CREAT | O_TRUNC)`, and standard output when it fails. -/
def reopen (f : LogFile) (opens : Bool) : LogFile :=
  if opens then { f with fd := some .file, files := f.files.insert f.path [], writtenThisFile := 0 }
  else { f with fd := some .stdout, writtenThisFile := 0 }

/-- The next bytes do not fit any more. -/
def rolls (f : LogFile) (incoming : ℕ) : Bool :=
  !f.toStdout && f.fd.isSome && decide (f.rollBytes < f.writtenThisFile + incoming)

def rollIfNeeded (f : LogFile) (call : RollCall) (incoming : ℕ) : LogFile :=
  if f.rolls incoming then
    (if call.renames then f.rename (f.rotatedName call.now) else f).reopen call.opens
  else f

/-- The bytes that one `write` takes. -/
def put (f : LogFile) (taken : Bytes) : LogFile :=
  match f.fd with
  | some .file =>
    { f with
      files := f.files.insert f.path (f.content f.path ++ taken), stream := f.stream ++ taken }
  | some .stdout => { f with stdout := f.stdout ++ taken, stream := f.stream ++ taken }
  | none => f

/-- The end of `writeAll`. -/
def count (f : LogFile) (written : ℕ) : LogFile :=
  { f with
    bytesWritten := f.bytesWritten + written, writtenThisFile := f.writtenThisFile + written }

/-- One round of the loop of `writeAll`: how much is written now, or the end of the loop. -/
def writeStep (f : LogFile) (data : Bytes) (written : ℕ) (result : WriteResult) :
    Option ℕ × LogFile :=
  if written < data.length then
    match result with
    | .wrote n =>
      if 0 < n then (some (min (written + n) data.length), f.put ((data.drop written).take n))
      else (none, f.count written)
    | .eintr => (some written, f)
    -- a hard error: the rest is dropped
    | .eagain => (none, f.count written)
    | .failed => (none, f.count written)
  else (none, f.count written)

/-- The loop goes on behind this result. -/
def Works (result : WriteResult) : Prop :=
  result ≠ .failed ∧ result ≠ .eagain ∧ result ≠ .wrote 0

theorem writeStep_done (f : LogFile) {data : Bytes} {written : ℕ} (h : data.length ≤ written)
    (result : WriteResult) : f.writeStep data written result = (none, f.count written) := by
  unfold writeStep
  rw [if_neg (not_lt.mpr h)]

theorem drop_min_length (data : Bytes) (written n : ℕ) :
    data.drop (min (written + n) data.length) = (data.drop written).drop n := by
  rw [List.drop_drop]
  rcases Nat.le_total (written + n) data.length with hle | hge
  · rw [min_eq_left hle]
  · rw [min_eq_right hge, List.drop_length, List.drop_eq_nil_of_le hge]

/-- While there is something to write, a result that works takes some of it, or is `EINTR`. -/
theorem writeStep_works (f : LogFile) {data : Bytes} {written : ℕ} (h : written < data.length)
    {result : WriteResult} (hworks : Works result) :
    (∃ n, result = .wrote n ∧ f.writeStep data written result =
        (some (min (written + n) data.length), f.put ((data.drop written).take n))) ∨
      result = .eintr ∧ f.writeStep data written result = (some written, f) := by
  obtain ⟨hfailed, heagain, hzero⟩ := hworks
  unfold writeStep
  rw [if_pos h]
  cases result with
  | wrote n =>
      have hpos : 0 < n := Nat.pos_of_ne_zero fun heq => hzero (by rw [heq])
      exact .inl ⟨n, rfl, if_pos hpos⟩
  | eintr => exact .inr ⟨rfl, rfl⟩
  | eagain => exact absurd rfl heagain
  | failed => exact absurd rfl hfailed

/-- The loop of `writeAll`, with the results of `write` from here on; behind the last of them it
fails. -/
def writeLoop (f : LogFile) (data : Bytes) (written : ℕ) : List WriteResult → LogFile
  | [] => f.count written
  | result :: rest =>
    match f.writeStep data written result with
    | (some written', f') => f'.writeLoop data written' rest
    | (none, f') => f'

/-- A call of `writeAll`, with what it meets outside. -/
structure WriteCall where
  data : Bytes
  roll : RollCall
  results : List WriteResult

def writeAll (f : LogFile) (call : WriteCall) : LogFile :=
  if f.fd.isNone || call.data.isEmpty then f
  else (f.rollIfNeeded call.roll call.data.length).writeLoop call.data 0 call.results

end LogFile

end WsServer
