import WsServer.Model.AsyncLogger

/-!
# The steps of the logger

Every byte that `append` inserts is in one of three places: in `current_`, in `to_write_`, or
written.  `restOfToWrite` and `restOfCurrent` are the parts of the buffers that are not written
yet.  `current_` itself is written at two places, when the thread of the log ends and at the end of
`stop`; there its bytes are written before it is cleared.

A step of the thread of the log or of `stop` moves bytes between these places, and `Moves` says all
that is needed of it.  `Steps` adds what the other threads do.  The invariant `Sound` says above
all that `to_write_` is empty unless the thread of the log writes it, and that `stop` finds it so.
-/

namespace WsServer

open CString

/-! ## Writing -/

namespace LogFile

variable {f : LogFile}

theorem isSome_fd_reopen (f : LogFile) (opens : Bool) : (f.reopen opens).fd.isSome := by
  unfold reopen
  split_ifs <;> rfl

theorem rename_keeps (f : LogFile) (name : Bytes) : (f.rename name).fd = f.fd ∧
    (f.rename name).stream = f.stream ∧ (f.rename name).bytesWritten = f.bytesWritten := by
  unfold rename
  split
  · exact ⟨rfl, rfl, rfl⟩
  · exact ⟨rfl, rfl, rfl⟩

theorem reopen_keeps (f : LogFile) (opens : Bool) : (f.reopen opens).stream = f.stream ∧
    (f.reopen opens).bytesWritten = f.bytesWritten := by
  unfold reopen
  split_ifs
  · exact ⟨rfl, rfl⟩
  · exact ⟨rfl, rfl⟩

/-- A roll writes nothing. -/
theorem rollIfNeeded_keeps (h : f.fd.isSome) (call : RollCall) (incoming : ℕ) :
    (f.rollIfNeeded call incoming).fd.isSome ∧
      (f.rollIfNeeded call incoming).stream = f.stream ∧
      (f.rollIfNeeded call incoming).bytesWritten = f.bytesWritten := by
  unfold rollIfNeeded
  split
  · have hmoved : (if call.renames then f.rename (f.rotatedName call.now) else f).stream =
        f.stream ∧ (if call.renames then f.rename (f.rotatedName call.now) else f).bytesWritten =
          f.bytesWritten := by
      split_ifs
      · exact (f.rename_keeps _).2
      · exact ⟨rfl, rfl⟩
    obtain ⟨hstream, hcount⟩ := reopen_keeps
      (if call.renames then f.rename (f.rotatedName call.now) else f) call.opens
    exact ⟨isSome_fd_reopen _ _, hstream.trans hmoved.1, hcount.trans hmoved.2⟩
  · exact ⟨h, rfl, rfl⟩

theorem put_keeps (h : f.fd.isSome) (taken : Bytes) : (f.put taken).fd.isSome ∧
    (f.put taken).stream = f.stream ++ taken ∧ (f.put taken).bytesWritten = f.bytesWritten := by
  unfold put
  split
  · exact ⟨h, rfl, rfl⟩
  · exact ⟨h, rfl, rfl⟩
  · rename_i hnone
    rw [hnone] at h
    cases h

/-- What one action of `writeAll` does, when `write` works: some of the data is written, or all has
been. -/
theorem advance_cases (h : f.fd.isSome) {data : Bytes} {out : Outside} (hworks : Works out.result)
    {p : Progress} (hp : p.count ≤ data.length) :
    ∃ next f', f.advance data out p = (next, f') ∧ f'.fd.isSome ∧
      ((∃ p', next = some p' ∧ p'.count ≤ data.length ∧ f'.bytesWritten = f.bytesWritten ∧
          f'.stream ++ data.drop p'.count = f.stream ++ data.drop p.count) ∨
        next = none ∧ f'.bytesWritten = f.bytesWritten + data.length ∧
          f'.stream = f.stream ++ data.drop p.count) := by
  cases p with
  | entered =>
      by_cases hempty : data = []
      · refine ⟨none, f, by simp [advance, hempty], h, .inr ⟨rfl, ?_, ?_⟩⟩
        · rw [hempty]
          rfl
        · rw [hempty, List.drop_nil, List.append_nil]
      · obtain ⟨hfd, hstream, hcount⟩ := rollIfNeeded_keeps h out.roll data.length
        have hopen : f.fd.isNone = false := by simpa using h
        refine ⟨some (.written 0), f.rollIfNeeded out.roll data.length, ?_, hfd,
          .inl ⟨.written 0, rfl, Nat.zero_le _, hcount, by rw [hstream]; rfl⟩⟩
        simp [advance, hempty, hopen]
  | written n =>
      by_cases hmore : n < data.length
      · rcases f.writeStep_works hmore hworks with ⟨k, -, hstep⟩ | ⟨-, hstep⟩
        · obtain ⟨hfd, hstream, hcount⟩ := put_keeps h ((data.drop n).take k)
          refine ⟨some (.written (min (n + k) data.length)), f.put ((data.drop n).take k), ?_, hfd,
            .inl ⟨_, rfl, min_le_right _ _, hcount, ?_⟩⟩
          · simp [advance, hstep]
          · show _ ++ data.drop (min (n + k) data.length) = _ ++ data.drop n
            rw [hstream, drop_min_length, List.append_assoc, List.take_append_drop]
        · refine ⟨some (.written n), f, ?_, h, .inl ⟨_, rfl, hp, rfl, rfl⟩⟩
          simp [advance, hstep]
      · have hstep := f.writeStep_done (not_lt.mp hmore) out.result
        have hall : n = data.length := le_antisymm hp (not_lt.mp hmore)
        refine ⟨none, f.count n, by simp [advance, hstep], h, .inr ⟨rfl, ?_, ?_⟩⟩
        · rw [hall]
          rfl
        · show f.stream = f.stream ++ data.drop n
          rw [hall, List.drop_length, List.append_nil]

end LogFile

/-! ## Where the bytes are -/

/-- What the thread of the log has still to write of `to_write_`. -/
def LogPc.leftToWrite (pc : LogPc) (toWrite : Bytes) : Bytes :=
  match pc with
  | .writing p => toWrite.drop p.count
  | .clearing => []
  | _ => toWrite

/-- What is not written of `current_`, when the thread of the log writes it. -/
def LogPc.leftToFlush (pc : LogPc) (current : Bytes) : Bytes :=
  match pc with
  | .flushing p => current.drop p.count
  | .emptying => []
  | _ => current

def StopPc.leftToWrite (pc : StopPc) (toWrite : Bytes) : Bytes :=
  match pc with
  | .flushingRest p => toWrite.drop p.count
  | .emptyingRest => []
  | _ => toWrite

def StopPc.leftToFlush (pc : StopPc) (current : Bytes) : Bytes :=
  match pc with
  | .flushing p => current.drop p.count
  | .emptying => []
  | _ => current

/-- The thread of the log is busy with `to_write_`. -/
def LogPc.writes : LogPc → Bool
  | .writing _ => true
  | .clearing => true
  | _ => false

/-- The thread of the log is busy with `current_`. -/
def LogPc.flushes : LogPc → Bool
  | .flushing _ => true
  | .emptying => true
  | _ => false

/-- `stop` is busy with `current_`. -/
def StopPc.flushes : StopPc → Bool
  | .flushing _ => true
  | .emptying => true
  | _ => false

namespace AsyncLogger

variable {ι : Type*} {s s' : AsyncLogger ι}

/-- The part of `to_write_` that is not written yet. -/
def restOfToWrite (s : AsyncLogger ι) : Bytes :=
  s.stopping.leftToWrite (s.log.leftToWrite s.toWrite)

/-- The part of `current_` that is not written yet. -/
def restOfCurrent (s : AsyncLogger ι) : Bytes :=
  s.stopping.leftToFlush (s.log.leftToFlush s.current)

/-- The bytes in the buffers that `bytes_written_` does not count yet. -/
def uncounted (s : AsyncLogger ι) : ℕ :=
  (if s.log = .clearing then 0 else s.toWrite.length) +
    if s.log = .emptying ∨ s.stopping = .emptying then 0 else s.current.length

/-- What is inserted now is going to be written. -/
def FlushToCome (s : AsyncLogger ι) : Prop :=
  s.stopping ≠ .closing ∧ (s.stopping = .idle → s.running = true)

structure Sound (s : AsyncLogger ι) : Prop where
  opened : s.running = true ∨ s.stopping ≠ .idle → s.file.fd.isSome
  alive : s.log ≠ .finished → s.running = true
  joined : s.stopping = .idle ∨ s.stopping = .joining ∨ s.log = .finished
  stopped : s.stopping = .idle ∨ s.stopping = .joining ∨ s.stopping = .joined ∨ s.running = false
  single : s.log.writes = false → s.toWrite = []
  noRest : s.stopping ≠ .emptyingRest ∧ ∀ p, s.stopping ≠ .flushingRest p
  writing : ∀ p, s.log = .writing p → p.count ≤ s.toWrite.length
  flushing : ∀ p, s.log = .flushing p ∨ s.stopping = .flushing p → p.count ≤ s.current.length
  nonempty : ∀ t data, s.appending t = some data → data ≠ []

/-- What a step of the thread of the log or of `stop` does. -/
structure Moves (s s' : AsyncLogger ι) : Prop where
  sound : Sound s'
  contents : s'.file.stream ++ s'.restOfToWrite ++ s'.restOfCurrent =
    s.file.stream ++ s.restOfToWrite ++ s.restOfCurrent
  counts : s'.file.bytesWritten + s'.uncounted = s.file.bytesWritten + s.uncounted
  inserted : s'.inserted = s.inserted
  enqueued : s'.enqueuedBytes = s.enqueuedBytes
  /-- The last flush leaves `current_` empty. -/
  last : s.FlushToCome → ¬s'.FlushToCome → s'.current = []
  behind : ¬s.FlushToCome → ¬s'.FlushToCome ∧ s'.current = s.current

/-! ## The thread of the log -/

theorem Sound.early (h : Sound s) (halive : s.log ≠ .finished) :
    s.stopping = .idle ∨ s.stopping = .joining := by
  rcases h.joined with hidle | hjoining | hfinished
  · exact .inl hidle
  · exact .inr hjoining
  · exact absurd hfinished halive

theorem Sound.isSome_fd (h : Sound s) (halive : s.log ≠ .finished) : s.file.fd.isSome :=
  h.opened (.inl (h.alive halive))

/-- While the thread of the log runs, `stop` does not touch the buffers. -/
theorem rest_of_early (hearly : s.stopping = .idle ∨ s.stopping = .joining) :
    s.restOfToWrite = s.log.leftToWrite s.toWrite ∧
      s.restOfCurrent = s.log.leftToFlush s.current ∧ s.stopping ≠ .emptying := by
  unfold restOfToWrite restOfCurrent
  rcases hearly with heq | heq
  · rw [heq]
    exact ⟨rfl, rfl, by simp⟩
  · rw [heq]
    exact ⟨rfl, rfl, by simp⟩

theorem moves_log (h : Sound s) (halive : s.log ≠ .finished) {pc : LogPc} {file : LogFile}
    {current toWrite : Bytes} (hfd : file.fd.isSome) (hsingle : pc.writes = false → toWrite = [])
    (hwriting : ∀ p, pc = .writing p → p.count ≤ toWrite.length)
    (hflushing : ∀ p, pc = .flushing p → p.count ≤ current.length)
    (hcontents : file.stream ++ pc.leftToWrite toWrite ++ pc.leftToFlush current =
      s.file.stream ++ s.log.leftToWrite s.toWrite ++ s.log.leftToFlush s.current)
    (hcounts : file.bytesWritten + ((if pc = .clearing then 0 else toWrite.length) +
        if pc = .emptying then 0 else current.length) =
      s.file.bytesWritten + ((if s.log = .clearing then 0 else s.toWrite.length) +
        if s.log = .emptying then 0 else s.current.length)) :
    Moves s { s with log := pc, file := file, current := current, toWrite := toWrite } := by
  have hrunning := h.alive halive
  have hearly := h.early halive
  obtain ⟨hrest, hrest', hnot⟩ := rest_of_early hearly
  obtain ⟨hlater, hlater', -⟩ := rest_of_early (s := { s with
    log := pc, file := file, current := current, toWrite := toWrite }) hearly
  have hflush : s.FlushToCome := by
    refine ⟨?_, fun _ => hrunning⟩
    rcases hearly with heq | heq
    · simp [heq]
    · simp [heq]
  refine ⟨⟨fun _ => hfd, fun _ => hrunning, ?_, h.stopped, hsingle, h.noRest, hwriting, ?_,
    h.nonempty⟩, ?_, ?_, rfl, rfl, fun _ hnever => absurd hflush hnever,
    fun hnever => absurd hflush hnever⟩
  · rcases hearly with heq | heq
    · exact .inl heq
    · exact .inr (.inl heq)
  · rintro p (hp | hp)
    · exact hflushing p hp
    · rcases hearly with heq | heq
      · exact absurd (heq.symm.trans hp) (by simp)
      · exact absurd (heq.symm.trans hp) (by simp)
  · rw [hlater, hlater', hrest, hrest']
    exact hcontents
  · unfold uncounted
    simp only [hnot, or_false]
    exact hcounts

/-- The thread of the log moves on without touching the buffers. -/
theorem moves_walk (h : Sound s) (halive : s.log ≠ .finished) (hwrites : s.log.writes = false)
    (hflushes : s.log.flushes = false) {pc : LogPc} (hpc : pc.writes = false)
    (hpc' : pc.flushes = false ∨ pc = .flushing .entered) : Moves s { s with log := pc } := by
  have hempty := h.single hwrites
  have hleft (q : LogPc) (hq : q.writes = false) (data : Bytes) : q.leftToWrite data = data := by
    cases q <;> simp_all [LogPc.leftToWrite, LogPc.writes]
  have hleft' (q : LogPc) (hq : q.flushes = false) (data : Bytes) : q.leftToFlush data = data := by
    cases q <;> simp_all [LogPc.leftToFlush, LogPc.flushes]
  have hnot (q : LogPc) (hq : q.writes = false) : q ≠ .clearing := by
    rintro rfl
    simp [LogPc.writes] at hq
  have hnot' (q : LogPc) (hq : q.flushes = false) : q ≠ .emptying := by
    rintro rfl
    simp [LogPc.flushes] at hq
  have hflush : pc.leftToFlush s.current = s.current ∧ pc ≠ .emptying := by
    rcases hpc' with hpc' | rfl
    · exact ⟨hleft' pc hpc' _, hnot' pc hpc'⟩
    · exact ⟨rfl, by simp⟩
  refine moves_log h halive (h.isSome_fd halive) (fun _ => hempty) ?_ ?_ ?_ ?_
  · rintro p rfl
    simp [LogPc.writes] at hpc
  · rintro p rfl
    rcases hpc' with hpc' | hpc'
    · simp [LogPc.flushes] at hpc'
    · cases hpc'
      exact Nat.zero_le _
  · rw [hleft pc hpc, hflush.1, hleft s.log hwrites, hleft' s.log hflushes]
  · rw [if_neg (hnot pc hpc), if_neg hflush.2, if_neg (hnot _ hwrites), if_neg (hnot' _ hflushes)]

/-- The buffers change places. -/
theorem moves_swap (h : Sound s) (hlog : s.log = .deciding) : Moves s { s with
    toWrite := s.current, current := s.toWrite, log := .writing .entered } := by
  have hempty := h.single (by rw [hlog]; rfl)
  apply moves_log h (by simp [hlog]) (h.isSome_fd (by simp [hlog])) (by simp [LogPc.writes])
    (by simp [Progress.count]) (by simp)
  · rw [hlog, hempty]
    simp [LogPc.leftToWrite, LogPc.leftToFlush, Progress.count]
  · rw [hlog, hempty]
    simp

/-- Some of `to_write_` is written, or all of it has been, and is counted. -/
theorem moves_write (h : Sound s) {p : Progress} (hlog : s.log = .writing p) {out : Outside}
    (hworks : LogFile.Works out.result) : Moves s { s with
      file := (s.file.advance s.toWrite out p).2
      log := ((s.file.advance s.toWrite out p).1.map LogPc.writing).getD .clearing } := by
  obtain ⟨next, file, hadvance, hfd, hnext⟩ :=
    LogFile.advance_cases (h.isSome_fd (by simp [hlog])) hworks (h.writing p hlog)
  rw [hadvance]
  rcases hnext with ⟨p', rfl, hle, hbytes, hstream⟩ | ⟨rfl, hbytes, hstream⟩
  · apply moves_log h (by simp [hlog]) hfd (by simp [LogPc.writes])
    · intro q hq
      cases hq
      exact hle
    · simp
    · rw [hlog]
      show file.stream ++ s.toWrite.drop p'.count ++ s.current =
        s.file.stream ++ s.toWrite.drop p.count ++ s.current
      rw [hstream]
    · rw [hlog, hbytes]
      rfl
  · apply moves_log h (by simp [hlog]) hfd (by simp [LogPc.writes]) (by simp) (by simp)
    · rw [hlog]
      show file.stream ++ [] ++ s.current = s.file.stream ++ s.toWrite.drop p.count ++ s.current
      rw [hstream, List.append_nil]
    · rw [hlog, hbytes]
      simp only [Option.map_none, Option.getD_none, reduceCtorEq, if_true, if_false]
      omega

/-- The same for `current_`, when the thread of the log leaves. -/
theorem moves_flush (h : Sound s) {p : Progress} (hlog : s.log = .flushing p) {out : Outside}
    (hworks : LogFile.Works out.result) : Moves s { s with
      file := (s.file.advance s.current out p).2
      log := ((s.file.advance s.current out p).1.map LogPc.flushing).getD .emptying } := by
  have hempty := h.single (by rw [hlog]; rfl)
  obtain ⟨next, file, hadvance, hfd, hnext⟩ :=
    LogFile.advance_cases (h.isSome_fd (by simp [hlog])) hworks (h.flushing p (.inl hlog))
  rw [hadvance]
  rcases hnext with ⟨p', rfl, hle, hbytes, hstream⟩ | ⟨rfl, hbytes, hstream⟩
  · apply moves_log h (by simp [hlog]) hfd (fun _ => hempty) (by simp)
    · intro q hq
      cases hq
      exact hle
    · rw [hlog, hempty]
      show file.stream ++ [] ++ s.current.drop p'.count =
        s.file.stream ++ [] ++ s.current.drop p.count
      rw [List.append_nil, hstream, List.append_nil]
    · rw [hlog, hbytes]
      rfl
  · apply moves_log h (by simp [hlog]) hfd (fun _ => hempty) (by simp) (by simp)
    · rw [hlog, hempty]
      show file.stream ++ [] ++ [] = s.file.stream ++ [] ++ s.current.drop p.count
      rw [hstream, List.append_nil, List.append_nil, List.append_nil]
    · rw [hlog, hbytes]
      simp only [Option.map_none, Option.getD_none, reduceCtorEq, if_true, if_false]
      omega

theorem moves_logStep (h : Sound s) {out : Outside} (hworks : LogFile.Works out.result)
    (hstep : s.logStep? out = some s') : Moves s s' := by
  unfold logStep? at hstep
  split at hstep
  · rename_i hlog
    simp only [Option.ite_none_left_eq_some, Option.some.injEq] at hstep
    obtain ⟨-, rfl⟩ := hstep
    apply moves_walk h (by simp [hlog]) (by rw [hlog]; rfl) (by rw [hlog]; rfl)
    · split_ifs <;> rfl
    · refine .inl ?_
      split_ifs <;> rfl
  · rename_i hlog
    simp only [Option.ite_none_left_eq_some, Option.some.injEq] at hstep
    obtain ⟨-, rfl⟩ := hstep
    exact moves_walk h (by simp [hlog]) (by rw [hlog]; rfl) (by rw [hlog]; rfl) rfl (.inl rfl)
  · rename_i hlog
    split at hstep
    · cases hstep
      apply moves_walk h (by simp [hlog]) (by rw [hlog]; rfl) (by rw [hlog]; rfl)
      · split_ifs <;> rfl
      · refine .inl ?_
        split_ifs <;> rfl
    · cases hstep
      exact moves_swap h hlog
  · rename_i p hlog
    cases hstep
    exact moves_write h hlog hworks
  · -- `to_write_` is counted already
    rename_i hlog
    cases hstep
    apply moves_log h (by simp [hlog]) (h.isSome_fd (by simp [hlog])) (fun _ => rfl) (by simp)
      (by simp)
    · rw [hlog]
      rfl
    · rw [hlog]
      rfl
  · rename_i hlog
    simp only [Option.ite_none_left_eq_some, Option.some.injEq] at hstep
    obtain ⟨-, rfl⟩ := hstep
    apply moves_walk h (by simp [hlog]) (by rw [hlog]; rfl) (by rw [hlog]; rfl)
    · split_ifs <;> rfl
    · split_ifs
      · exact .inl rfl
      · exact .inr rfl
  · rename_i p hlog
    cases hstep
    exact moves_flush h hlog hworks
  · rename_i hlog
    cases hstep
    have hempty := h.single (by rw [hlog]; rfl)
    apply moves_log h (by simp [hlog]) (h.isSome_fd (by simp [hlog])) (fun _ => hempty) (by simp)
      (by simp)
    · rw [hlog]
      rfl
    · rw [hlog]
      rfl
  · cases hstep

/-! ## `stop` -/

/-- After `running_` has been cleared both threads have come to their ends. -/
theorem Sound.late (h : Sound s)
    (hstop : s.stopping ≠ .idle ∧ s.stopping ≠ .joining ∧ s.stopping ≠ .joined) :
    s.log = .finished ∧ s.running = false := by
  obtain ⟨hidle, hjoining, hjoined⟩ := hstop
  have hlog := h.joined
  have hrunning := h.stopped
  simp only [hidle, hjoining, hjoined, false_or] at hlog hrunning
  exact ⟨hlog, hrunning⟩

theorem moves_stop (h : Sound s) (hlog : s.log = .finished) {pc : StopPc} {running : Bool}
    {file : LogFile} {current : Bytes}
    (hopened : running = true ∨ pc ≠ .idle → file.fd.isSome)
    (hstopped : pc = .idle ∨ pc = .joining ∨ pc = .joined ∨ running = false)
    (hnoRest : pc ≠ .emptyingRest ∧ ∀ p, pc ≠ .flushingRest p)
    (hflushing : ∀ p, pc = .flushing p → p.count ≤ current.length)
    (hcontents : file.stream ++ pc.leftToFlush current =
      s.file.stream ++ s.stopping.leftToFlush s.current)
    (hcounts : file.bytesWritten + (if pc = .emptying then 0 else current.length) =
      s.file.bytesWritten + if s.stopping = .emptying then 0 else s.current.length)
    (hlast : s.FlushToCome → ¬FlushToCome { s with stopping := pc, running := running } →
      current = [])
    (hbehind : ¬s.FlushToCome → ¬FlushToCome { s with stopping := pc, running := running } ∧
      current = s.current) :
    Moves s { s with stopping := pc, running := running, file := file, current := current } := by
  have hempty := h.single (by rw [hlog]; rfl)
  have hnil (q : StopPc) : q.leftToWrite [] = [] := by
    cases q <;> simp [StopPc.leftToWrite]
  refine ⟨⟨hopened, fun halive => absurd hlog halive, .inr (.inr hlog), hstopped, h.single, hnoRest,
    h.writing, ?_, h.nonempty⟩, ?_, ?_, rfl, rfl, hlast, hbehind⟩
  · rintro p (hp | hp)
    · rw [hlog] at hp
      cases hp
    · exact hflushing p hp
  · unfold restOfToWrite restOfCurrent
    rw [hempty, hlog]
    show file.stream ++ pc.leftToWrite [] ++ pc.leftToFlush current =
      s.file.stream ++ s.stopping.leftToWrite [] ++ s.stopping.leftToFlush s.current
    rw [hnil, hnil, List.append_nil, List.append_nil]
    exact hcontents
  · unfold uncounted
    simp only [hempty, hlog, reduceCtorEq, false_or]
    simpa using hcounts

theorem flushToCome_of_stopping (hidle : s.stopping ≠ .idle) (hclosing : s.stopping ≠ .closing) :
    s.FlushToCome := ⟨hclosing, fun h => absurd h hidle⟩

/-- `stop` moves on without touching the buffers. -/
theorem moves_stop_walk (h : Sound s) (hlog : s.log = .finished) (hflushes : s.stopping.flushes = false)
    {pc : StopPc} {running : Bool} {fd : Option LogFd}
    (hopened : running = true ∨ pc ≠ .idle → fd.isSome)
    (hstopped : pc = .idle ∨ pc = .joining ∨ pc = .joined ∨ running = false)
    (hnoRest : pc ≠ .emptyingRest ∧ ∀ p, pc ≠ .flushingRest p)
    (hpc : pc.flushes = false ∨ pc = .flushing .entered)
    (hlast : s.FlushToCome → ¬FlushToCome { s with stopping := pc, running := running } →
      s.current = [])
    (hbehind : ¬s.FlushToCome → ¬FlushToCome { s with stopping := pc, running := running }) :
    Moves s { s with stopping := pc, running := running, file := { s.file with fd := fd } } := by
  have hleft (q : StopPc) (hq : q.flushes = false) :
      q.leftToFlush s.current = s.current ∧ q ≠ .emptying := by
    cases q <;> simp_all [StopPc.leftToFlush, StopPc.flushes]
  have hpc : pc.leftToFlush s.current = s.current ∧ pc ≠ .emptying ∧
      ∀ p, pc = .flushing p → p.count ≤ s.current.length := by
    rcases hpc with hpc | rfl
    · refine ⟨(hleft pc hpc).1, (hleft pc hpc).2, ?_⟩
      rintro p rfl
      simp [StopPc.flushes] at hpc
    · refine ⟨List.drop_zero, by simp, ?_⟩
      intro p hp
      cases hp
      exact Nat.zero_le _
  obtain ⟨hbefore, hnot⟩ := hleft s.stopping hflushes
  apply moves_stop h hlog hopened hstopped hnoRest hpc.2.2
  · rw [hpc.1, hbefore]
  · rw [if_neg hpc.2.1, if_neg hnot]
  · exact hlast
  · exact fun hnever => ⟨hbehind hnever, by simp⟩

/-- `stop` writes some of `current_`, or has written all of it, and counts it. -/
theorem moves_stop_flush (h : Sound s) {p : Progress} (hstop : s.stopping = .flushing p)
    {out : Outside} (hworks : LogFile.Works out.result) : Moves s { s with
      file := (s.file.advance s.current out p).2
      stopping := ((s.file.advance s.current out p).1.map StopPc.flushing).getD .emptying } := by
  obtain ⟨hlog, hstopped⟩ := h.late (by simp [hstop])
  have hcome := flushToCome_of_stopping (s := s) (by simp [hstop]) (by simp [hstop])
  have hopen := h.opened (.inr (by simp [hstop]))
  obtain ⟨next, file, hadvance, hfd, hnext⟩ :=
    LogFile.advance_cases hopen hworks (h.flushing p (.inr hstop))
  rw [hadvance]
  rcases hnext with ⟨p', rfl, hle, hbytes, hstream⟩ | ⟨rfl, hbytes, hstream⟩
  · apply moves_stop h hlog (fun _ => hfd) (by simp [hstopped]) (by simp)
    · intro q hq
      cases hq
      exact hle
    · rw [hstop]
      exact hstream
    · simp [hstop, hbytes]
    · exact fun _ hnever => absurd (flushToCome_of_stopping (by simp) (by simp)) hnever
    · exact fun hnever => absurd hcome hnever
  · apply moves_stop h hlog (fun _ => hfd) (by simp [hstopped]) (by simp) (by simp)
    · rw [hstop]
      show file.stream ++ [] = s.file.stream ++ s.current.drop p.count
      rw [hstream, List.append_nil]
    · simp [hstop, hbytes]
    · exact fun _ hnever => absurd (flushToCome_of_stopping (by simp) (by simp)) hnever
    · exact fun hnever => absurd hcome hnever

theorem moves_stopStep (h : Sound s) {out : Outside} (hworks : LogFile.Works out.result)
    (hstep : s.stopStep? out = some s') : Moves s s' := by
  have hrest (hlog : s.log = .finished) : s.flushRest = .closing := by
    simp [flushRest, h.single (by simp [hlog, LogPc.writes])]
  have hopened (hstop : s.stopping ≠ .idle) := h.opened (.inr hstop)
  unfold stopStep? at hstep
  split at hstep
  · cases hstep
  · rename_i hstop
    simp only [Option.ite_none_right_eq_some, Option.some.injEq] at hstep
    obtain ⟨hlog, rfl⟩ := hstep
    have hcome := flushToCome_of_stopping (s := s) (by simp [hstop]) (by simp [hstop])
    apply moves_stop_walk h hlog (by simp [hstop, StopPc.flushes])
      (fun _ => hopened (by simp [hstop])) (by simp) (by simp) (by simp [StopPc.flushes])
    · exact fun _ hnever => absurd (flushToCome_of_stopping (by simp) (by simp)) hnever
    · exact fun hnever => absurd hcome hnever
  · rename_i hstop
    cases hstep
    have hlog : s.log = .finished := by simpa [hstop] using h.joined
    have hcome := flushToCome_of_stopping (s := s) (by simp [hstop]) (by simp [hstop])
    apply moves_stop_walk h hlog (by simp [hstop, StopPc.flushes])
      (fun _ => hopened (by simp [hstop])) (by simp) (by simp) (by simp [StopPc.flushes])
    · exact fun _ hnever => absurd (flushToCome_of_stopping (by simp) (by simp)) hnever
    · exact fun hnever => absurd hcome hnever
  · rename_i hstop
    simp only [Option.ite_none_left_eq_some, Option.some.injEq] at hstep
    obtain ⟨-, rfl⟩ := hstep
    obtain ⟨hlog, hstopped⟩ := h.late (by simp [hstop])
    have hcome := flushToCome_of_stopping (s := s) (by simp [hstop]) (by simp [hstop])
    rw [hrest hlog]
    split
    · rename_i hcurrent
      apply moves_stop_walk h hlog (by simp [hstop, StopPc.flushes])
        (fun _ => hopened (by simp [hstop])) (by simp [hstopped]) (by simp)
        (by simp [StopPc.flushes])
      · exact fun _ _ => List.isEmpty_iff.mp hcurrent
      · exact fun hnever => absurd hcome hnever
    · apply moves_stop_walk h hlog (by simp [hstop, StopPc.flushes])
        (fun _ => hopened (by simp [hstop])) (by simp [hstopped]) (by simp) (by simp)
      · exact fun _ hnever => absurd (flushToCome_of_stopping (by simp) (by simp)) hnever
      · exact fun hnever => absurd hcome hnever
  · rename_i p hstop
    cases hstep
    exact moves_stop_flush h hstop hworks
  · rename_i hstop
    cases hstep
    obtain ⟨hlog, hstopped⟩ := h.late (by simp [hstop])
    have hcome := flushToCome_of_stopping (s := s) (by simp [hstop]) (by simp [hstop])
    rw [hrest hlog]
    apply moves_stop h hlog (fun _ => hopened (by simp [hstop])) (by simp [hstopped]) (by simp)
      (by simp)
    · simp [hstop, StopPc.leftToFlush]
    · simp [hstop]
    · simp
    · exact fun hnever => absurd hcome hnever
  · rename_i p hstop
    exact absurd hstop (h.noRest.2 p)
  · rename_i hstop
    exact absurd hstop h.noRest.1
  · rename_i hstop
    cases hstep
    obtain ⟨hlog, hstopped⟩ := h.late (by simp [hstop])
    have hnever : ¬s.FlushToCome := fun hcome => hcome.1 hstop
    apply moves_stop_walk h hlog (by simp [hstop, StopPc.flushes]) (by simp [hstopped]) (by simp)
      (by simp) (by simp [StopPc.flushes])
    · exact fun hcome => absurd hcome hnever
    · intro _ hcome
      have hrunning : s.running = true := hcome.2 (by simp)
      rw [hstopped] at hrunning
      cases hrunning

theorem moves_stop_called (h : Sound s) (hidle : s.stopping = .idle) (hrunning : s.running = true) :
    Moves s { s with stopRequested := true, stopping := .joining } := by
  obtain ⟨hrest, hrest', -⟩ := rest_of_early (.inl hidle)
  refine ⟨⟨fun _ => h.opened (.inl hrunning), h.alive, .inr (.inl rfl), .inr (.inl rfl), h.single,
    by simp, h.writing, ?_, h.nonempty⟩, ?_, ?_, rfl, rfl, ?_, ?_⟩
  · rintro p (hp | hp)
    · exact h.flushing p (.inl hp)
    · cases hp
  · rw [hrest, hrest']
    rfl
  · unfold uncounted
    simp [hidle]
  · exact fun _ hnever => absurd (flushToCome_of_stopping (by simp) (by simp)) hnever
  · intro hnever
    exact absurd ⟨by simp [hidle], fun _ => hrunning⟩ hnever

/-! ## All threads -/

theorem rest_of_unlocked (hlocked : s.locked = false) :
    s.restOfCurrent = s.current ∧ s.log ≠ .emptying ∧ s.stopping ≠ .emptying := by
  unfold locked at hlocked
  rw [Bool.or_eq_false_iff] at hlocked
  obtain ⟨hlog, hstop⟩ := hlocked
  have hlog' : s.log.leftToFlush s.current = s.current ∧ s.log ≠ .emptying := by
    cases hpc : s.log <;> simp_all [LogPc.leftToFlush]
  have hstop' : s.stopping.leftToFlush s.current = s.current ∧ s.stopping ≠ .emptying := by
    cases hpc : s.stopping <;> simp_all [StopPc.leftToFlush]
  refine ⟨?_, hlog'.2, hstop'.2⟩
  rw [restOfCurrent, hlog'.1, hstop'.1]

theorem isSome_fd_start (f : LogFile) (path : Bytes) (rollBytes : ℕ) (opens : Bool) :
    (f.start path rollBytes opens).fd.isSome ∧ (f.start path rollBytes opens).stream = [] ∧
      (f.start path rollBytes opens).bytesWritten = f.bytesWritten := by
  unfold LogFile.start LogFile.openLog
  split_ifs
  · exact ⟨rfl, rfl, rfl⟩
  · exact ⟨rfl, rfl, rfl⟩
  · exact ⟨rfl, rfl, rfl⟩

theorem start_of_not_running (hrunning : s.running = false) (path : Bytes) (rollBytes : ℕ)
    (opens : Bool) : s.start path rollBytes opens = { s with
      file := s.file.start path rollBytes opens
      stopRequested := false, current := [], toWrite := []
      running := true, log := .locking
      inserted := [] } := by
  rw [start, if_neg (by simp [hrunning])]

theorem sound_construct (localtime : ℤ → Tm) (files : SortedMap Bytes Bytes) :
    Sound (construct localtime files : AsyncLogger ι) := by
  refine ⟨?_, by simp [construct], .inl rfl, .inl rfl, fun _ => rfl, by simp [construct],
    by simp [construct], by simp [construct], by simp [construct]⟩
  rintro (hrunning | hstop)
  · cases hrunning
  · exact absurd rfl hstop

theorem sound_start (h : Sound s) (hidle : s.stopping = .idle) (hrunning : s.running = false)
    (path : Bytes) (rollBytes : ℕ) (opens : Bool) : Sound (s.start path rollBytes opens) := by
  obtain ⟨hfd, -, -⟩ := isSome_fd_start s.file path rollBytes opens
  rw [start_of_not_running hrunning]
  refine ⟨fun _ => hfd, fun _ => rfl, .inl hidle, .inl hidle, fun _ => rfl, h.noRest, by simp, ?_,
    h.nonempty⟩
  rintro p (hp | hp)
  · cases hp
  · exact absurd (hidle.symm.trans hp) (by simp)

section Steps

variable [DecidableEq ι] {label : LoggerLabel ι}

/-- What a step can be. -/
inductive Steps (s : AsyncLogger ι) (label : LoggerLabel ι) : AsyncLogger ι → Prop
  | nothing (hnot : ∀ t, label ≠ .insert t) : Steps s label s
  | moves (s' : AsyncLogger ι) (hnot : ∀ t, label ≠ .insert t) (hmoves : Moves s s') :
      Steps s label s'
  | start (path : Bytes) (rollBytes : ℕ) (opens : Bool) (hnot : ∀ t, label ≠ .insert t)
      (hidle : s.stopping = .idle) (hrunning : s.running = false) :
      Steps s label (s.start path rollBytes opens)
  | insert (t : ι) (data : Bytes) (hlabel : label = .insert t) (hlocked : s.locked = false)
      (happending : s.appending t = some data) : Steps s label (s.insert t data)

theorem moves_setAppending (h : Sound s) (t : ι) {data : Bytes} (hne : data ≠ []) :
    Moves s (s.setAppending t (some data)) := by
  refine ⟨⟨h.opened, h.alive, h.joined, h.stopped, h.single, h.noRest, h.writing, h.flushing, ?_⟩,
    rfl, rfl, rfl, rfl, fun hcome hnever => absurd hcome hnever, fun hnever => ⟨hnever, rfl⟩⟩
  intro t' data' happending
  by_cases heq : t' = t
  · subst heq
    simp only [setAppending, Function.update_self, Option.some.injEq] at happending
    rwa [← happending]
  · simp only [setAppending, Function.update_of_ne heq] at happending
    exact h.nonempty t' data' happending

theorem steps_of_step? (h : Sound s) (hworks : label.Works) (hstep : s.step? label = some s') :
    Steps s label s' := by
  cases label with
  | start path rollBytes opens =>
      simp only [step?, Option.ite_none_right_eq_some, Option.some.injEq] at hstep
      obtain ⟨hidle, rfl⟩ := hstep
      cases hrunning : s.running with
      | true =>
          rw [AsyncLogger.start, if_pos hrunning]
          exact .nothing (by simp)
      | false => exact .start path rollBytes opens (by simp) hidle hrunning
  | stop =>
      simp only [step?, Option.ite_none_right_eq_some, Option.some.injEq] at hstep
      obtain ⟨hidle, rfl⟩ := hstep
      unfold stop
      split
      · rename_i hrunning
        exact .moves _ (by simp) (moves_stop_called h hidle hrunning)
      · exact .nothing (by simp)
  | stopper out => exact .moves s' (by simp) (moves_stopStep h hworks hstep)
  | logThread out => exact .moves s' (by simp) (moves_logStep h hworks hstep)
  | append t data =>
      simp only [step?, Option.ite_none_left_eq_some] at hstep
      obtain ⟨-, hstep⟩ := hstep
      split at hstep
      · cases hstep
        exact .nothing (by simp)
      · rename_i hdata
        cases hstep
        refine .moves _ (by simp) (moves_setAppending h t ?_)
        rintro rfl
        simp at hdata
  | insert t =>
      simp only [step?, Option.ite_none_left_eq_some, Bool.not_eq_true] at hstep
      obtain ⟨hlocked, hstep⟩ := hstep
      obtain ⟨data, happending, rfl⟩ := Option.map_eq_some_iff.mp hstep
      exact .insert t data rfl hlocked happending

theorem sound_insert (h : Sound s) (t : ι) (data : Bytes) : Sound (s.insert t data) := by
  refine ⟨h.opened, h.alive, h.joined, h.stopped, h.single, h.noRest, h.writing, ?_, ?_⟩
  · intro p hp
    have hle := h.flushing p hp
    show p.count ≤ (s.current ++ data).length
    rw [List.length_append]
    omega
  · intro t' data' happending
    by_cases heq : t' = t
    · subst heq
      simp [insert, setAppending] at happending
    · simp only [insert, setAppending, Function.update_of_ne heq] at happending
      exact h.nonempty t' data' happending

theorem Steps.sound (h : Sound s) (hstep : Steps s label s') : Sound s' := by
  cases hstep with
  | nothing hnot => exact h
  | moves s' hnot hmoves => exact hmoves.sound
  | start path rollBytes opens hnot hidle hrunning =>
      exact sound_start h hidle hrunning path rollBytes opens
  | insert t data hlabel hlocked happending => exact sound_insert h t data

/-- What a step of a sound state preserves, when `write` works, a run preserves. -/
theorem step_invariant {Inv : AsyncLogger ι → Prop}
    (hinv : ∀ s s' label, Sound s → Inv s → Steps s label s' → Inv s') (s : AsyncLogger ι)
    (label : LoggerLabel ι) (hworks : label.Works) (h : Sound s ∧ Inv s) :
    Sound (step s label) ∧ Inv (step s label) := by
  unfold step Transition.attempt
  cases hstep : s.step? label with
  | none => exact h
  | some s' =>
      have hsteps := steps_of_step? h.1 hworks hstep
      exact ⟨hsteps.sound h.1, hinv s s' label h.1 h.2 hsteps⟩

end Steps

end AsyncLogger

end WsServer
