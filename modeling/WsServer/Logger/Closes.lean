import WsServer.Lib.History
import WsServer.Logger.Rotation
import WsServer.Model.LogHandle

/-!
# What the logger closes

`stop` spares standard output when it closes `fd_`, `rollIfNeeded` does not.  So the log closes
descriptors of its own only, exactly as long as no batch exceeds `roll_bytes_` while the log has
fallen back to standard output (`closes_own_run_iff`).

The descriptor of a file is always one of the log's own (`Inv`): it is opened where `fd_` is set,
and `fd_` is set again wherever it is closed.
-/

namespace WsServer

open CString History

/-- The last thing that has happened to `n` is that `open` returned it. -/
def Owned (history : List FdCall) (n : ℕ) : Prop :=
  ∃ before after, history = before ++ .opened n :: after ∧ .closed n ∉ after

/-- What is closed has been opened by the log, and not been closed since. -/
def OwnClose (history : List FdCall) : FdCall → Prop
  | .opened _ => True
  | .closed n => Owned history n

theorem owned_opened (history : List FdCall) (n : ℕ) : Owned (history ++ [.opened n]) n :=
  ⟨history, [], rfl, List.not_mem_nil⟩

namespace LogFile

variable {f f' f'' : LogFile}

/-! ## The descriptor in `LogFile` -/

/-- The log writes to the same file as before, under the same bound. -/
structure Alike (f f' : LogFile) : Prop where
  path : f'.path = f.path
  rollBytes : f'.rollBytes = f.rollBytes
  fd : f'.fd = f.fd

theorem Alike.trans (h : Alike f f') (h' : Alike f' f'') : Alike f f'' :=
  ⟨h'.path.trans h.path, h'.rollBytes.trans h.rollBytes, h'.fd.trans h.fd⟩

theorem alike_put (f : LogFile) (taken : Bytes) : Alike f (f.put taken) := by
  unfold put
  split
  · exact ⟨rfl, rfl, rfl⟩
  · exact ⟨rfl, rfl, rfl⟩
  · exact ⟨rfl, rfl, rfl⟩

theorem alike_writeStep (f : LogFile) (data : Bytes) (written : ℕ) (result : WriteResult) :
    Alike f (f.writeStep data written result).2 := by
  unfold writeStep
  split
  · split
    · split
      · exact alike_put f _
      · exact ⟨rfl, rfl, rfl⟩
    all_goals exact ⟨rfl, rfl, rfl⟩
  · exact ⟨rfl, rfl, rfl⟩

/-- Writing changes the content only. -/
theorem alike_writeLoop (f : LogFile) (data : Bytes) (written : ℕ) (results : List WriteResult) :
    Alike f (f.writeLoop data written results) := by
  induction results generalizing f written with
  | nil => exact ⟨rfl, rfl, rfl⟩
  | cons result rest ih =>
      have hstep := alike_writeStep f data written result
      rw [writeLoop]
      cases hnext : f.writeStep data written result with
      | mk next f' =>
          rw [hnext] at hstep
          cases next with
          | none => exact hstep
          | some written' => exact hstep.trans (ih f' written')

theorem fd_rollIfNeeded (f : LogFile) (call : RollCall) (incoming : ℕ) :
    (f.rollIfNeeded call incoming).fd =
      if f.rolls incoming then some (if call.opens then .file else .stdout) else f.fd := by
  unfold rollIfNeeded reopen
  split
  · split <;> rfl
  · rfl

theorem fd_writeAll (call : WriteCall) (hfd : f.fd.isNone = false)
    (hdata : call.data.isEmpty = false) : (f.writeAll call).fd =
      if f.rolls call.data.length then some (if call.roll.opens then .file else .stdout)
      else f.fd := by
  unfold writeAll
  rw [hfd, hdata]
  exact (alike_writeLoop _ _ _ _).fd.trans (fd_rollIfNeeded f call.roll call.data.length)

end LogFile

namespace LogHandle

variable {s : LogHandle} {call : LogFile.WriteCall} {fd number : ℕ}

/-- The descriptor of a file is one of the log's own. -/
def Inv (s : LogHandle) : Prop := s.file.fd = some .file → Owned s.history s.number

/-- `rollIfNeeded` closes standard output, and the log has not opened it. -/
def ClosesFallback (s : LogHandle) : LogCall → Prop
  | .writeAll call _ =>
    s.file.fd = some .stdout ∧ call.data ≠ [] ∧ s.file.rolls call.data.length = true ∧
      ¬Owned s.history STDOUT_FILENO
  | _ => False

theorem isSome_fd (hfd : s.fd = some fd) : s.file.fd.isNone = false := by
  obtain ⟨what, hwhat, -⟩ := Option.map_eq_some_iff.mp hfd
  rw [hwhat]
  rfl

/-- What may be closed: a descriptor of the log's own, or standard output. -/
theorem Inv.owned_of_fd (h : Inv s) (hfd : s.fd = some fd) :
    s.file.fd = some .file ∧ Owned s.history fd ∨ s.file.fd = some .stdout ∧ fd = STDOUT_FILENO := by
  obtain ⟨what, hwhat, rfl⟩ := Option.map_eq_some_iff.mp hfd
  cases what with
  | file => exact .inl ⟨hwhat, h hwhat⟩
  | stdout => exact .inr ⟨hwhat, rfl⟩

/-! ## What a call closes -/

theorem writeAll_of_fits (hfd : s.fd = some fd) (hdata : call.data.isEmpty = false)
    (hfits : s.file.rolls call.data.length = false) :
    s.writeAll call number = { s with file := s.file.writeAll call } := by
  unfold writeAll rollIfNeeded
  simp only [isSome_fd hfd, hdata, hfd, hfits, Bool.or_self, Bool.false_eq_true, if_false]

theorem writeAll_of_rolls (hfd : s.fd = some fd) (hdata : call.data.isEmpty = false)
    (hrolls : s.file.rolls call.data.length = true) (hopens : call.roll.opens = true) :
    s.writeAll call number =
      { s with
        file := s.file.writeAll call
        number := number
        history := s.history ++ [.closed fd] ++ [.opened number] } := by
  unfold writeAll rollIfNeeded
  simp only [isSome_fd hfd, hdata, hfd, hrolls, hopens, Bool.or_self, Bool.false_eq_true, if_false,
    if_true]

theorem writeAll_of_fails (hfd : s.fd = some fd) (hdata : call.data.isEmpty = false)
    (hrolls : s.file.rolls call.data.length = true) (hopens : call.roll.opens = false) :
    s.writeAll call number =
      { s with file := s.file.writeAll call, history := s.history ++ [.closed fd] } := by
  unfold writeAll rollIfNeeded
  simp only [isSome_fd hfd, hdata, hfd, hrolls, hopens, Bool.or_self, Bool.false_eq_true, if_false,
    if_true]

/-- A roll closes what is there, which is right unless it is the fallback. -/
theorem own_close_iff (h : Inv s) (number : ℕ) (hfd : s.fd = some fd) (hdata : call.data.isEmpty = false)
    (hrolls : s.file.rolls call.data.length = true) :
    Owned s.history fd ↔ ¬s.ClosesFallback (.writeAll call number) := by
  have hne : call.data ≠ [] := by
    rintro heq
    rw [heq] at hdata
    cases hdata
  rcases h.owned_of_fd hfd with ⟨hfile, howned⟩ | ⟨hstdout, rfl⟩
  · refine iff_of_true howned ?_
    rintro ⟨hstdout, -⟩
    rw [hfile] at hstdout
    cases hstdout
  · simp only [ClosesFallback, hstdout, ne_eq, hne, not_false_eq_true, hrolls, true_and, not_not]

/-- **One call of `writeAll`.** -/
theorem writeAll_spec (h : Inv s) (call : LogFile.WriteCall) (number : ℕ) :
    Inv (s.writeAll call number) ∧
      (Each OwnClose (s.writeAll call number).history ↔
        Each OwnClose s.history ∧ ¬s.ClosesFallback (.writeAll call number)) := by
  cases hfd : s.fd with
  | none =>
      have hnone : s.file.fd = none := Option.map_eq_none_iff.mp hfd
      have hsame : s.writeAll call number = s := by simp [writeAll, hnone]
      rw [hsame]
      refine ⟨h, (and_iff_left ?_).symm⟩
      rintro ⟨hstdout, -⟩
      rw [hnone] at hstdout
      cases hstdout
  | some fd =>
      cases hdata : call.data.isEmpty with
      | true =>
          have hsame : s.writeAll call number = s := by simp [writeAll, hdata]
          rw [hsame]
          refine ⟨h, (and_iff_left ?_).symm⟩
          rintro ⟨-, hne, -⟩
          exact hne (List.isEmpty_iff.mp hdata)
      | false =>
          have hopen := LogFile.fd_writeAll call (isSome_fd hfd) hdata
          cases hrolls : s.file.rolls call.data.length with
          | false =>
              rw [writeAll_of_fits hfd hdata hrolls]
              rw [hrolls, if_neg Bool.false_ne_true] at hopen
              refine ⟨fun hfile => h (hopen ▸ hfile), (and_iff_left ?_).symm⟩
              rintro ⟨-, -, hrolls', -⟩
              rw [hrolls] at hrolls'
              cases hrolls'
          | true =>
              have hclose := own_close_iff h number hfd hdata hrolls
              rw [hrolls, if_pos rfl] at hopen
              cases hopens : call.roll.opens with
              | true =>
                  rw [writeAll_of_rolls hfd hdata hrolls hopens]
                  refine ⟨fun _ => owned_opened _ _, ?_⟩
                  rw [each_concat, each_concat, ← hclose]
                  exact and_iff_left trivial
              | false =>
                  rw [writeAll_of_fails hfd hdata hrolls hopens]
                  rw [hopens] at hopen
                  refine ⟨fun hfile => ?_, ?_⟩
                  · cases hopen.symm.trans hfile
                  · rw [each_concat, ← hclose]
                    rfl

theorem start_spec (h : Inv s) (path : Bytes) (rollBytes : ℕ) (opens : Bool) (number : ℕ) :
    Inv (s.start path rollBytes opens number) ∧
      (Each OwnClose (s.start path rollBytes opens number).history ↔ Each OwnClose s.history) := by
  unfold start
  split
  · exact ⟨h, Iff.rfl⟩
  · dsimp only
    split
    · refine ⟨fun _ => owned_opened _ _, ?_⟩
      rw [each_concat]
      exact and_iff_left trivial
    · rename_i hnot
      exact ⟨fun hfile => absurd hfile hnot, Iff.rfl⟩

theorem stop_spec (h : Inv s) :
    Inv s.stop ∧ (Each OwnClose s.stop.history ↔ Each OwnClose s.history) := by
  unfold stop
  split
  · split
    · refine ⟨fun hfile => ?_, Iff.rfl⟩
      cases hfile
    · rename_i fd hfd
      split
      · rename_i hne
        refine ⟨fun hfile => ?_, ?_⟩
        · cases hfile
        · rw [each_concat]
          -- what is not standard output is the file
          rcases h.owned_of_fd hfd with ⟨-, howned⟩ | ⟨-, heq⟩
          · exact and_iff_left howned
          · exact absurd heq hne
      · refine ⟨fun hfile => ?_, Iff.rfl⟩
        cases hfile
  · exact ⟨h, Iff.rfl⟩

theorem step_spec (h : Inv s) (call : LogCall) :
    Inv (s.step call) ∧
      (Each OwnClose (s.step call).history ↔ Each OwnClose s.history ∧ ¬s.ClosesFallback call) := by
  cases call with
  | writeAll call number => exact writeAll_spec h call number
  | start path rollBytes opens number =>
      obtain ⟨hinv, heach⟩ := start_spec h path rollBytes opens number
      exact ⟨hinv, heach.trans (and_iff_left not_false).symm⟩
  | stop =>
      obtain ⟨hinv, heach⟩ := stop_spec h
      exact ⟨hinv, heach.trans (and_iff_left not_false).symm⟩

/-! ## Runs -/

/-- **Closing.**  Every `close` in a run is of a descriptor that the log has opened and not closed
since, exactly when no batch exceeds `roll_bytes_` while the log has fallen back to standard
output, unless that is a descriptor of its own. -/
theorem closes_own_run_iff (localtime : ℤ → Tm) (files : SortedMap Bytes Bytes)
    (calls : List LogCall) :
    Each OwnClose (Transition.run step (construct localtime files) calls).history ↔
      Transition.AllSteps step (fun s call => ¬s.ClosesFallback call)
        (construct localtime files) calls := by
  have hinv : Inv (construct localtime files) := by
    intro hfile
    cases hfile
  refine (Transition.good_run_iff (fun s : LogHandle => Each OwnClose s.history)
    (fun s call h => (step_spec h call).1) (fun s call h => (step_spec h call).2) hinv calls).trans ?_
  exact and_iff_right each_nil

/-- The file cannot be opened, nor later on, and the first batch is larger than `roll_bytes_`. -/
def fallbackCalls : List LogCall :=
  [.start (bytes "/no/log") 1 false 0, .writeAll {
    data := bytes "ab"
    roll := { now := 0, renames := false, opens := false }
    results := [.failed] } 0]

/-- Standard output is closed. -/
theorem not_closes_own : ¬∀ localtime files calls,
    Each OwnClose (Transition.run step (construct localtime files) calls).history := by
  intro hlaw
  have heach := hlaw LogFile.firstDays ∅ fallbackCalls
  have hhistory : (Transition.run step (construct LogFile.firstDays ∅) fallbackCalls).history =
      [.closed STDOUT_FILENO] := by decide +kernel
  obtain ⟨before, after, hopened, -⟩ := heach [] (.closed STDOUT_FILENO) [] hhistory
  simp at hopened

end LogHandle

end WsServer
