import WsServer.Logger.Steps

/-!
# Conservation and order

The two buffers change places only when `to_write_` is empty, so the bytes are always in order:
what is written, then the rest of `to_write_`, then the rest of `current_`.

The rest of `current_` is all of it except while it is flushed.  Between the last `write` of such a
flush and `current_.clear()` the bytes are both written and in the buffer, so that `current_` in
place of its rest would count them twice.
-/

namespace WsServer

open CString

namespace AsyncLogger

variable {ι : Type*} [DecidableEq ι] {s s' : AsyncLogger ι} {label : LoggerLabel ι}

/-- What is written, the rest of `to_write_` and the rest of `current_` are all bytes inserted
since `start`, in this order. -/
def Conserved (s : AsyncLogger ι) : Prop :=
  s.file.stream ++ s.restOfToWrite ++ s.restOfCurrent = s.inserted

theorem Steps.conserved (h : Conserved s) (hstep : Steps s label s') : Conserved s' := by
  unfold Conserved at *
  cases hstep with
  | nothing hnot => exact h
  | moves s' hnot hmoves => rw [hmoves.contents, hmoves.inserted, h]
  | start path rollBytes opens hnot hidle hrunning =>
      obtain ⟨-, hstream, -⟩ := isSome_fd_start s.file path rollBytes opens
      obtain ⟨hrest, hrest', -⟩ := rest_of_early (s := s.start path rollBytes opens)
        (.inl (by rw [start_of_not_running hrunning]; exact hidle))
      rw [hrest, hrest', start_of_not_running hrunning]
      show (s.file.start path rollBytes opens).stream ++ [] ++ [] = []
      rw [hstream]
      rfl
  | insert t data hlabel hlocked happending =>
      have hcurrent := (rest_of_unlocked hlocked).1
      have hcurrent' := (rest_of_unlocked (s := s.insert t data) hlocked).1
      rw [hcurrent', show (s.insert t data).inserted = s.inserted ++ data from rfl, ← h, hcurrent]
      show s.file.stream ++ s.restOfToWrite ++ (s.current ++ data) = _
      rw [List.append_assoc, List.append_assoc, List.append_assoc]

/-- **Conservation and order.**  In every state of every run, what is written since `start`, the
rest of `to_write_` and the rest of `current_` are the bytes inserted since then, in order; and the
rest of `current_` is all of it, unless it is being flushed. -/
theorem conservation_run (localtime : ℤ → Tm) (files : SortedMap Bytes Bytes)
    (labels : List (LoggerLabel ι)) (hworks : ∀ label ∈ labels, label.Works) :
    let s := Transition.run step (construct localtime files) labels
    s.file.stream ++ s.restOfToWrite ++ s.restOfCurrent = s.inserted ∧
      (s.log.flushes = false → s.stopping.flushes = false → s.restOfCurrent = s.current) := by
  intro s
  have hall : Sound s ∧ Conserved s :=
    Transition.run_invariant_on
      (step_invariant fun _ _ _ _ h hstep => hstep.conserved h)
      ⟨sound_construct localtime files, rfl⟩ hworks
  refine ⟨hall.2, ?_⟩
  intro hlog hstop
  unfold restOfCurrent
  have hlog' : s.log.leftToFlush s.current = s.current := by
    cases hpc : s.log <;> simp_all [LogPc.leftToFlush, LogPc.flushes]
  rw [hlog']
  cases hpc : s.stopping <;> simp_all [StopPc.leftToFlush, StopPc.flushes]

/-- A line is appended when the thread of the log has left its loop, and written at its end. -/
def lateLine : List (LoggerLabel Unit) :=
  [.start (bytes "log") 100 true, .append () (bytes "a"), .stop, .logThread {}, .logThread {},
    .insert (), .logThread {}, .logThread {}, .logThread { result := .wrote 1 }, .logThread {}]

theorem works_lateLine : ∀ label ∈ lateLine, label.Works := by
  intro label hlabel
  simp only [lateLine, List.mem_cons, List.not_mem_nil, or_false] at hlabel
  rcases hlabel with rfl | rfl | rfl | rfl | rfl | rfl | rfl | rfl | rfl | rfl <;>
    simp [LoggerLabel.Works, LogFile.Works]

theorem conservation_run_sample :
    let s := Transition.run step
      (construct (fun _ => ⟨70, 0, 1, 0, 0, 0⟩) ∅ : AsyncLogger Unit) lateLine
    s.current = bytes "a" ∧ s.file.stream ++ s.restOfToWrite ++ s.restOfCurrent = s.inserted := by
  exact ⟨by decide, (conservation_run (fun _ => ⟨70, 0, 1, 0, 0, 0⟩) ∅ lateLine works_lateLine).1⟩

/-- Before `current_.clear()` the line is counted twice. -/
theorem not_conserved_current :
    ¬∀ labels : List (LoggerLabel Unit), (∀ label ∈ labels, label.Works) →
      let s := Transition.run step (construct (fun _ => ⟨70, 0, 1, 0, 0, 0⟩) ∅) labels
      s.file.stream ++ s.restOfToWrite ++ s.current = s.inserted := by
  intro hall
  have hlate := hall lateLine works_lateLine
  revert hlate
  decide

end AsyncLogger

end WsServer
