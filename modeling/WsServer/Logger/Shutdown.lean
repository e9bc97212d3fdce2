import WsServer.Logger.Conservation

/-!
# The end of the logger

`append` tests `running_` before it takes the lock.  A thread that has passed the test may insert
at any later time, also when `stop` has flushed `current_` for the last time; nobody writes what it
inserts then.  These insertions are the only way to lose bytes: whatever is inserted before the
last flush is written when `stop` has returned.

The account is kept in numbers.  `bytes_written_` and the bytes in the buffers together fall short
of `enqueued_bytes_` only when a later `start` has cleared bytes that were left behind.
-/

namespace WsServer

open CString

namespace AsyncLogger

variable {ι : Type*} {s s' : AsyncLogger ι} {label : LoggerLabel ι}

/-- `stop` has returned, and so have all calls of `append`. -/
def Returned (s : AsyncLogger ι) : Prop :=
  s.stopping = .idle ∧ s.running = false ∧ ∀ t, s.appending t = none

/-- Both buffers are empty, and every byte that was counted has been written. -/
def NothingStranded (s : AsyncLogger ι) : Prop :=
  s.current = [] ∧ s.toWrite = [] ∧ s.file.bytesWritten = s.enqueuedBytes

/-- A thread inserts what it has, and there is no flush to come. -/
def InsertsLate (s : AsyncLogger ι) (label : LoggerLabel ι) : Prop :=
  ∃ t, label = .insert t ∧ (s.appending t).isSome ∧ ¬s.FlushToCome

/-- Nothing has been left behind so far. -/
def Accounted (s : AsyncLogger ι) : Prop :=
  s.file.bytesWritten + s.uncounted = s.enqueuedBytes ∧ (¬s.FlushToCome → s.current = [])

/-- Bytes may be missing, but none are counted twice. -/
def Covered (s : AsyncLogger ι) : Prop :=
  s.file.bytesWritten + s.uncounted ≤ s.enqueuedBytes

theorem finished_of_not_flushToCome (h : Sound s) (hnever : ¬s.FlushToCome) :
    s.log = .finished ∧ (s.stopping = .idle ∨ s.stopping = .closing) := by
  by_cases hidle : s.stopping = .idle
  · have hrunning : ¬s.running = true := by
      intro hrunning
      exact hnever ⟨by simp [hidle], fun _ => hrunning⟩
    refine ⟨?_, .inl hidle⟩
    by_contra halive
    exact hrunning (h.alive halive)
  · have hclosing : s.stopping = .closing := by
      by_contra hnot
      exact hnever (flushToCome_of_stopping hidle hnot)
    refine ⟨?_, .inr hclosing⟩
    simpa [hclosing] using h.joined

/-- With no flush to come, all of `current_` and nothing else is not counted yet. -/
theorem uncounted_of_not_flushToCome (h : Sound s) (hnever : ¬s.FlushToCome) :
    s.uncounted = s.current.length := by
  obtain ⟨hlog, hstop⟩ := finished_of_not_flushToCome h hnever
  have hempty := h.single (by rw [hlog]; rfl)
  have hnot : s.stopping ≠ .emptying := by
    rcases hstop with heq | heq
    · simp [heq]
    · simp [heq]
  simp [uncounted, hempty, hlog, hnot]

theorem uncounted_start (hidle : s.stopping = .idle) (hrunning : s.running = false) (path : Bytes)
    (rollBytes : ℕ) (opens : Bool) :
    (s.start path rollBytes opens).uncounted = 0 ∧
      (s.start path rollBytes opens).file.bytesWritten = s.file.bytesWritten ∧
      (s.start path rollBytes opens).FlushToCome := by
  obtain ⟨-, -, hbytes⟩ := isSome_fd_start s.file path rollBytes opens
  rw [start_of_not_running hrunning]
  refine ⟨?_, hbytes, ?_, fun _ => rfl⟩
  · simp [uncounted]
  · simp [hidle]

/-- A logger that has been stopped and not started again flushes no more. -/
theorem not_flushToCome_of_idle (hidle : s.stopping = .idle) (hrunning : s.running = false) :
    ¬s.FlushToCome := by
  intro hcome
  rw [hcome.2 hidle] at hrunning
  cases hrunning

theorem nothingStranded_iff (h : Sound s) (hreturned : s.Returned) :
    s.NothingStranded ↔ s.Accounted := by
  obtain ⟨hidle, hrunning, -⟩ := hreturned
  have hnever := not_flushToCome_of_idle hidle hrunning
  have hempty := h.single (by rw [(finished_of_not_flushToCome h hnever).1]; rfl)
  unfold NothingStranded Accounted
  rw [uncounted_of_not_flushToCome h hnever]
  constructor
  · rintro ⟨hcurrent, -, hbytes⟩
    refine ⟨?_, fun _ => hcurrent⟩
    rw [hcurrent, hbytes]
    rfl
  · rintro ⟨hsum, hcurrent⟩
    rw [hcurrent hnever] at hsum
    exact ⟨hcurrent hnever, hempty, hsum⟩

/-- Where nothing is inserted, nothing more is left behind. -/
theorem accounted_iff_of_moves (hmoves : Moves s s') : Accounted s' ↔ Accounted s := by
  unfold Accounted
  rw [hmoves.counts, hmoves.enqueued]
  apply and_congr_right
  intro _
  by_cases hcome : s.FlushToCome
  · exact iff_of_true (hmoves.last hcome) fun hnever => absurd hcome hnever
  · obtain ⟨hnever, hcurrent⟩ := hmoves.behind hcome
    rw [hcurrent]
    exact ⟨fun h _ => h hnever, fun h _ => h hcome⟩

theorem accounted_start_iff (h : Sound s) (hcovered : Covered s) (hidle : s.stopping = .idle)
    (hrunning : s.running = false) (path : Bytes) (rollBytes : ℕ) (opens : Bool) :
    Accounted (s.start path rollBytes opens) ↔ Accounted s := by
  unfold Covered at hcovered
  obtain ⟨hnone, hbytes, hcome⟩ := uncounted_start hidle hrunning path rollBytes opens
  have hnever := not_flushToCome_of_idle hidle hrunning
  have hall := uncounted_of_not_flushToCome h hnever
  have henqueued : (s.start path rollBytes opens).enqueuedBytes = s.enqueuedBytes := by
    rw [start_of_not_running hrunning]
  unfold Accounted
  rw [hnone, hbytes, henqueued]
  constructor
  · -- with the buffer cleared, the numbers agree only if it was empty
    rintro ⟨hsum, -⟩
    have hlength : s.current.length = 0 := by omega
    exact ⟨by omega, fun _ => List.eq_nil_of_length_eq_zero hlength⟩
  · rintro ⟨hsum, hempty⟩
    rw [hall, hempty hnever] at hsum
    exact ⟨hsum, fun hnot => absurd hcome hnot⟩

section Steps

variable [DecidableEq ι]

theorem uncounted_insert (hlocked : s.locked = false) (t : ι) (data : Bytes) :
    (s.insert t data).uncounted = s.uncounted + data.length := by
  obtain ⟨-, hlog, hstop⟩ := rest_of_unlocked hlocked
  have hnot : ¬(s.log = .emptying ∨ s.stopping = .emptying) := by simp [hlog, hstop]
  unfold uncounted
  rw [if_neg hnot]
  show _ + (if s.log = .emptying ∨ s.stopping = .emptying then 0 else (s.current ++ data).length) = _
  rw [if_neg hnot, List.length_append, Nat.add_assoc]
  rfl

theorem Steps.covered (h : Covered s) (hstep : Steps s label s') : Covered s' := by
  unfold Covered at *
  cases hstep with
  | nothing hnot => exact h
  | moves s' hnot hmoves => rw [hmoves.counts, hmoves.enqueued]; exact h
  | start path rollBytes opens hnot hidle hrunning =>
      obtain ⟨hnone, hbytes, -⟩ := uncounted_start hidle hrunning path rollBytes opens
      rw [hnone, hbytes, start_of_not_running hrunning]
      show s.file.bytesWritten + 0 ≤ s.enqueuedBytes
      omega
  | insert t data hlabel hlocked happending =>
      rw [uncounted_insert hlocked]
      show s.file.bytesWritten + (s.uncounted + data.length) ≤ s.enqueuedBytes + data.length
      omega

theorem accounted_insert_iff (hlocked : s.locked = false) (t : ι) {data : Bytes} (hne : data ≠ []) :
    Accounted (s.insert t data) ↔ Accounted s ∧ s.FlushToCome := by
  have hcome : (s.insert t data).FlushToCome ↔ s.FlushToCome := Iff.rfl
  unfold Accounted
  rw [uncounted_insert hlocked, hcome]
  show s.file.bytesWritten + (s.uncounted + data.length) = s.enqueuedBytes + data.length ∧
    (¬s.FlushToCome → s.current ++ data = []) ↔ _
  constructor
  · rintro ⟨hsum, hempty⟩
    have hnow : s.FlushToCome := by
      by_contra hnever
      exact hne (List.append_eq_nil_iff.mp (hempty hnever)).2
    exact ⟨⟨by omega, fun hnever => absurd hnow hnever⟩, hnow⟩
  · rintro ⟨⟨hsum, -⟩, hnow⟩
    exact ⟨by omega, fun hnever => absurd hnow hnever⟩

/-- A step leaves nothing behind exactly when it does not insert late. -/
theorem Steps.accounted_iff (h : Sound s) (hcovered : Covered s) (hstep : Steps s label s') :
    Accounted s' ↔ Accounted s ∧ ¬s.InsertsLate label := by
  have hno (hnot : ∀ t, label ≠ .insert t) : ¬s.InsertsLate label := by
    rintro ⟨t, heq, -⟩
    exact hnot t heq
  cases hstep with
  | nothing hnot => exact (and_iff_left (hno hnot)).symm
  | moves s' hnot hmoves =>
      rw [and_iff_left (hno hnot)]
      exact accounted_iff_of_moves hmoves
  | start path rollBytes opens hnot hidle hrunning =>
      rw [and_iff_left (hno hnot)]
      exact accounted_start_iff h hcovered hidle hrunning path rollBytes opens
  | insert t data hlabel hlocked happending =>
      have hlate : s.InsertsLate label ↔ ¬s.FlushToCome := by
        constructor
        · rintro ⟨-, -, -, hnever⟩
          exact hnever
        · intro hnever
          exact ⟨t, hlabel, by rw [happending]; rfl, hnever⟩
      rw [accounted_insert_iff hlocked t (h.nonempty t data happending), hlate, not_not]

/-- **The end.**  When `stop` and all calls of `append` have returned, nothing is left behind
exactly when no thread has inserted anything behind the last flush. -/
theorem shutdown_run_iff (localtime : ℤ → Tm) (files : SortedMap Bytes Bytes)
    (labels : List (LoggerLabel ι)) (hworks : ∀ label ∈ labels, label.Works)
    (hreturned : (Transition.run step (construct localtime files) labels).Returned) :
    (Transition.run step (construct localtime files) labels).NothingStranded ↔
      Transition.AllSteps step (fun s label => ¬InsertsLate s label) (construct localtime files)
        labels := by
  have hinv := step_invariant (ι := ι) fun _ _ _ _ h hstep => Steps.covered h hstep
  have hstart : Sound (construct localtime files : AsyncLogger ι) ∧
      Covered (construct localtime files : AsyncLogger ι) :=
    ⟨sound_construct localtime files, Nat.le_refl 0⟩
  have hgood := Transition.good_run_iff_on Accounted (P := fun s label => ¬InsertsLate s label)
    hinv (fun s label hlabel h => ?_) hstart hworks
  · have haccounted : Accounted (construct localtime files : AsyncLogger ι) := ⟨rfl, fun _ => rfl⟩
    rw [nothingStranded_iff (Transition.run_invariant_on hinv hstart hworks).1 hreturned, hgood]
    exact and_iff_right haccounted
  · unfold step Transition.attempt
    cases hstep : s.step? label with
    | none =>
        refine (and_iff_left ?_).symm
        rintro ⟨t, rfl, hsome, hnever⟩
        -- the lock is free then, so the insertion is not refused
        obtain ⟨hlog, hstop⟩ := finished_of_not_flushToCome h.1 hnever
        have hlocked : s.locked = false := by
          rcases hstop with heq | heq
          · simp [locked, hlog, heq]
          · simp [locked, hlog, heq]
        simp only [step?, hlocked, Bool.false_eq_true, if_false, Option.map_eq_none_iff] at hstep
        rw [hstep] at hsome
        cases hsome
    | some s' => exact (steps_of_step? h.1 hlabel hstep).accounted_iff h.1 h.2

/-- `append` passes the test, `stop` runs to its end, and then the line is inserted. -/
def strandedLine : List (LoggerLabel Unit) :=
  [.start (bytes "log") 100 true, .append () (bytes "a"), .stop, .logThread {}, .logThread {},
    .logThread {}, .stopper {}, .stopper {}, .stopper {}, .stopper {}, .insert ()]

/-- A line appended in time, and written by the thread of the log. -/
def writtenLine : List (LoggerLabel Unit) :=
  [.start (bytes "log") 100 true, .append () (bytes "a"), .insert (), .logThread {}, .logThread {},
    .logThread {}, .logThread { result := .wrote 1 }, .logThread {}, .logThread {}, .stop,
    .logThread {}, .logThread {}, .logThread {}, .stopper {}, .stopper {}, .stopper {}, .stopper {}]

theorem works_of_mem_lines : ∀ label ∈ strandedLine ++ writtenLine, label.Works := by
  intro label hlabel
  simp only [strandedLine, writtenLine, List.cons_append, List.nil_append, List.mem_cons,
    List.not_mem_nil, or_false] at hlabel
  rcases hlabel with
    rfl | rfl | rfl | rfl | rfl | rfl | rfl | rfl | rfl | rfl | rfl | rfl | rfl | rfl | rfl | rfl |
    rfl | rfl | rfl | rfl | rfl | rfl | rfl | rfl | rfl | rfl | rfl | rfl <;>
    simp [LoggerLabel.Works, LogFile.Works]

theorem shutdown_run_sample :
    Transition.AllSteps step (fun s label => ¬InsertsLate s label)
      (construct (fun _ => ⟨70, 0, 1, 0, 0, 0⟩) ∅ : AsyncLogger Unit) writtenLine := by
  refine (shutdown_run_iff (fun _ => ⟨70, 0, 1, 0, 0, 0⟩) ∅ writtenLine ?_ ?_).mp ?_
  · intro label hlabel
    exact works_of_mem_lines label (List.mem_append_right _ hlabel)
  · exact ⟨by decide, by decide, by decide⟩
  · exact ⟨by decide, by decide, by decide⟩

/-- The line stays in `current_`. -/
theorem stranded_line :
    ¬∀ labels : List (LoggerLabel Unit), (∀ label ∈ labels, label.Works) →
      let s := Transition.run step (construct (fun _ => ⟨70, 0, 1, 0, 0, 0⟩) ∅) labels
      s.Returned → s.NothingStranded := by
  intro hall
  have hstranded := hall strandedLine
    (fun label hlabel => works_of_mem_lines label (List.mem_append_left _ hlabel))
    ⟨by decide, by decide, by decide⟩
  have hcurrent := hstranded.1
  revert hcurrent
  decide

end Steps

end AsyncLogger

end WsServer
