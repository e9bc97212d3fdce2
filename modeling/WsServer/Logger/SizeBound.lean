import WsServer.Logger.Closes
import WsServer.Logger.Rotation

/-!
# The size of the log file

`rollIfNeeded` compares `roll_bytes_` with `written_this_file_`, which `start` sets to 0 although it
opens the file to append to it.  So the file stays within its bound exactly as long as no batch fits
by this count but not behind what the file really holds (`size_run_iff`); where each `start` finds
no file, or an empty one, the count is the size (`size_run_of_empty`).
-/

namespace WsServer

open CString

namespace LogFile

variable {f : LogFile}

/-- The size of the file at `path_`. -/
def size (f : LogFile) : ℕ := (f.content f.path).length

theorem size_put (hfile : f.fd = some .file) (taken : Bytes) :
    (f.put taken).size = f.size + taken.length := by
  rw [put_of_file hfile]
  show (((f.files.insert f.path _).find? f.path).getD []).length = _
  rw [content_insert, if_pos rfl, List.length_append]
  rfl

theorem writtenThisFile_put (f : LogFile) (taken : Bytes) :
    (f.put taken).writtenThisFile = f.writtenThisFile := by
  unfold put
  split <;> rfl

/-- The loop makes the file larger by the batch, and counts it. -/
theorem writeLoop_size (hfile : f.fd = some .file) {data : Bytes} {results : List WriteResult}
    (hworks : ∀ result ∈ results, Works result)
    (hall : data.length ≤ 0 + (results.map fun result => result.accepted data.length).sum) :
    (f.writeLoop data 0 results).size = f.size + data.length ∧
      (f.writeLoop data 0 results).writtenThisFile = f.writtenThisFile + data.length := by
  have hrule := writeLoop_rule
    (P := fun g n => g.fd = some .file ∧ g.size = f.size + n ∧
      g.writtenThisFile = f.writtenThisFile) ?_ ⟨hfile, rfl, rfl⟩ (Nat.zero_le _) hworks hall
  · obtain ⟨g, ⟨-, hsize, hcount⟩, hloop⟩ := hrule
    rw [hloop]
    refine ⟨hsize, ?_⟩
    show g.writtenThisFile + data.length = _
    rw [hcount]
  · rintro g n k hmore ⟨hfd, hsize, hcount⟩
    refine ⟨(alike_put g _).fd.trans hfd, ?_, (writtenThisFile_put g _).trans hcount⟩
    rw [size_put hfd, hsize, List.length_take, List.length_drop]
    omega

theorem toStdout_of_path {f' : LogFile} (h : f'.path = f.path) : f'.toStdout = f.toStdout := by
  rw [toStdout, toStdout, h]

/-- What `start` and the rolls have set, when `open` succeeds. -/
def Opened (f : LogFile) : Prop :=
  f.fd = none ∨ f.fd = some (if f.toStdout then .stdout else .file)

theorem Opened.file_of_some (h : Opened f) (hfd : f.fd ≠ none) (hpath : f.toStdout = false) :
    f.fd = some .file := by
  rcases h with hnone | hsome
  · exact absurd hnone hfd
  · rwa [hpath] at hsome

theorem opened_start (f : LogFile) (path : Bytes) (rollBytes : ℕ) :
    Opened (f.start path rollBytes true) := .inr (tidy_start f path rollBytes).fd

/-- A roll begins a new file at the same path. -/
theorem rollIfNeeded_of_rolls {call : RollCall} {incoming : ℕ} (hrolls : f.rolls incoming = true)
    (hopens : call.opens = true) : (f.rollIfNeeded call incoming).path = f.path ∧
      (f.rollIfNeeded call incoming).rollBytes = f.rollBytes ∧
      (f.rollIfNeeded call incoming).fd = some .file ∧
      (f.rollIfNeeded call incoming).size = 0 ∧
      (f.rollIfNeeded call incoming).writtenThisFile = 0 := by
  have hempty (g : LogFile) (hpath : g.path = f.path) (hbound : g.rollBytes = f.rollBytes) :
      (g.reopen true).path = f.path ∧ (g.reopen true).rollBytes = f.rollBytes ∧
        (g.reopen true).fd = some .file ∧ (g.reopen true).size = 0 ∧
        (g.reopen true).writtenThisFile = 0 := by
    refine ⟨hpath, hbound, rfl, ?_, rfl⟩
    show (((g.files.insert g.path []).find? g.path).getD []).length = 0
    rw [SortedMap.find?_insert_self]
    rfl
  unfold rollIfNeeded
  rw [if_pos hrolls, hopens]
  split
  · refine hempty (f.rename _) ?_ ?_
    all_goals
      unfold rename
      split <;> rfl
  · exact hempty f rfl rfl

/-- **One batch.**  It goes to the end of the file, or into a new one. -/
theorem writeAll_size {call : WriteCall} (hfile : f.fd = some .file) (hdata : call.data ≠ [])
    (hcall : call.Succeeds) : (f.writeAll call).path = f.path ∧
      (f.writeAll call).rollBytes = f.rollBytes ∧ (f.writeAll call).fd = some .file ∧
      if f.rolls call.data.length then
        (f.writeAll call).size = call.data.length ∧
          (f.writeAll call).writtenThisFile = call.data.length
      else (f.writeAll call).size = f.size + call.data.length ∧
        (f.writeAll call).writtenThisFile = f.writtenThisFile + call.data.length := by
  have hloop : f.writeAll call =
      (f.rollIfNeeded call.roll call.data.length).writeLoop call.data 0 call.results := by
    simp [writeAll, hfile, hdata]
  have hall : call.data.length ≤
      0 + (call.results.map fun result => result.accepted call.data.length).sum := by
    simpa using hcall.accepted
  have halike := alike_writeLoop (f.rollIfNeeded call.roll call.data.length) call.data 0 call.results
  rw [← hloop] at halike
  cases hrolls : f.rolls call.data.length with
  | true =>
      obtain ⟨hpath, hbound, hfd, hsize, hcount⟩ := rollIfNeeded_of_rolls hrolls hcall.opens
      obtain ⟨hsize', hcount'⟩ := writeLoop_size hfd hcall.results hall
      rw [← hloop, hsize] at hsize'
      rw [← hloop, hcount] at hcount'
      rw [if_pos rfl]
      exact ⟨halike.path.trans hpath, halike.rollBytes.trans hbound, halike.fd.trans hfd, by omega,
        by omega⟩
  | false =>
      have hsame : f.rollIfNeeded call.roll call.data.length = f := by
        rw [rollIfNeeded, hrolls, if_neg Bool.false_ne_true]
      rw [hsame] at halike hloop
      obtain ⟨hsize, hcount⟩ := writeLoop_size hfile hcall.results hall
      rw [← hloop] at hsize hcount
      rw [if_neg Bool.false_ne_true]
      exact ⟨halike.path, halike.rollBytes, halike.fd.trans hfile, hsize, hcount⟩

end LogFile

/-- `open`, `rename` and `write` succeed. -/
def LogCall.Succeeds : LogCall → Prop
  | .start _ _ opens _ => opens = true
  | .writeAll call _ => call.Succeeds
  | .stop => True

namespace LogHandle

variable {s : LogHandle} {call : LogFile.WriteCall}

/-- A batch that is written leaves the file no larger than `roll_bytes_` and the batch itself. -/
def Bounded (s : LogHandle) : LogCall → Prop
  | .writeAll call number =>
    s.file.fd ≠ none → call.data ≠ [] → s.file.toStdout = false →
      (s.writeAll call number).file.size ≤ max s.file.rollBytes call.data.length
  | _ => True

/-- A batch that fits by `written_this_file_`, but not behind what the file holds. -/
def Overruns (s : LogHandle) : LogCall → Prop
  | .writeAll call _ =>
    s.file.fd = some .file ∧ call.data ≠ [] ∧
      s.file.writtenThisFile + call.data.length ≤ s.file.rollBytes ∧
      s.file.rollBytes < s.file.size + call.data.length
  | _ => False

instance (s : LogHandle) : (call : LogCall) → Decidable (s.Overruns call)
  | .start .. => inferInstanceAs (Decidable False)
  | .writeAll .. => inferInstanceAs (Decidable (_ ∧ _))
  | .stop => inferInstanceAs (Decidable False)

/-- What `start` opens is empty, or is not there. -/
def StartsEmpty (s : LogHandle) : LogCall → Prop
  | .start path _ _ _ => s.running = false → s.file.content path = []
  | _ => True

/-- The count is the size of the file. -/
def Counted (s : LogHandle) : Prop :=
  s.file.Opened ∧ (s.file.fd = some .file → s.file.size = s.file.writtenThisFile)

theorem file_writeAll (s : LogHandle) (call : LogFile.WriteCall) (number : ℕ) :
    (s.writeAll call number).file = s.file.writeAll call := by
  unfold writeAll LogFile.writeAll
  split <;> rfl

theorem file_stop (s : LogHandle) :
    s.stop.file = s.file ∨ s.stop.file = { s.file with fd := none } := by
  unfold stop
  split
  · split
    · exact .inr rfl
    · split
      · exact .inr rfl
      · exact .inr rfl
  · exact .inl rfl

theorem file_start (s : LogHandle) (path : Bytes) (rollBytes : ℕ) (opens : Bool) (number : ℕ) :
    (s.start path rollBytes opens number).file =
      if s.running then s.file else s.file.start path rollBytes opens := by
  unfold start
  split
  · rfl
  · dsimp only
    split <;> rfl

end LogHandle

namespace LogFile

variable {f : LogFile} {call : WriteCall}

theorem writeAll_of_closed (hnone : f.fd = none) : f.writeAll call = f := by
  simp [writeAll, hnone]

theorem writeAll_of_empty (hdata : call.data = []) : f.writeAll call = f := by
  simp [writeAll, hdata]

/-- A log on standard output stays there. -/
theorem writeAll_of_stdout (hstdout : f.toStdout = true) (call : WriteCall) :
    Alike f (f.writeAll call) := by
  unfold writeAll
  split
  · exact ⟨rfl, rfl, rfl⟩
  · have hrolls : f.rolls call.data.length = false := by simp [rolls, hstdout]
    rw [rollIfNeeded, hrolls, if_neg Bool.false_ne_true]
    exact alike_writeLoop f _ _ _

theorem Opened.writeAll (h : Opened f) (hcall : call.Succeeds) :
    Opened (f.writeAll call) := by
  by_cases hdata : call.data = []
  · rw [writeAll_of_empty hdata]
    exact h
  · rcases h with hnone | hsome
    · rw [writeAll_of_closed hnone]
      exact .inl hnone
    · cases hstdout : f.toStdout with
      | true =>
          have halike := writeAll_of_stdout hstdout call
          exact .inr (by rw [halike.fd, hsome, toStdout_of_path halike.path])
      | false =>
          have hfile : f.fd = some .file := by rwa [hstdout] at hsome
          obtain ⟨hpath, -, hfd, -⟩ := writeAll_size hfile hdata hcall
          exact .inr (by rw [hfd, toStdout_of_path hpath, hstdout, if_neg Bool.false_ne_true])

/-- What `start` opens has the size that is counted, if it is empty. -/
theorem size_start {path : Bytes} {rollBytes : ℕ} (hempty : f.content path = [])
    (hfile : (f.start path rollBytes true).fd = some .file) :
    (f.start path rollBytes true).size = (f.start path rollBytes true).writtenThisFile := by
  unfold start openLog at hfile ⊢
  split at hfile
  · cases hfile
  · rename_i hpath
    rw [if_neg hpath, if_pos rfl]
    show (((f.files.insert path (f.content path)).find? path).getD []).length = 0
    rw [SortedMap.find?_insert_self, hempty]
    rfl

theorem counted_writeAll (h : f.Opened) (hcount : f.fd = some .file → f.size = f.writtenThisFile)
    (hcall : call.Succeeds) (hfile : (f.writeAll call).fd = some .file) :
    (f.writeAll call).size = (f.writeAll call).writtenThisFile := by
  by_cases hdata : call.data = []
  · rw [writeAll_of_empty hdata] at hfile ⊢
    exact hcount hfile
  · rcases h with hnone | hsome
    · rw [writeAll_of_closed hnone] at hfile ⊢
      exact hcount hfile
    · cases hstdout : f.toStdout with
      | true =>
          rw [(writeAll_of_stdout hstdout call).fd, hsome, hstdout] at hfile
          cases hfile
      | false =>
          have hopen : f.fd = some .file := by rwa [hstdout] at hsome
          obtain ⟨-, -, -, hsize⟩ := writeAll_size hopen hdata hcall
          split at hsize
          · exact hsize.1.trans hsize.2.symm
          · rw [hsize.1, hsize.2, hcount hopen]

end LogFile

namespace LogHandle

variable {s : LogHandle}

theorem opened_step (s : LogHandle) (call : LogCall) (hcall : call.Succeeds) (h : s.file.Opened) :
    (s.step call).file.Opened := by
  cases call with
  | start path rollBytes opens number =>
      obtain rfl : opens = true := hcall
      rw [step, file_start]
      split
      · exact h
      · exact LogFile.opened_start s.file path rollBytes
  | writeAll call number =>
      rw [step, file_writeAll]
      exact h.writeAll hcall
  | stop =>
      rw [step]
      rcases file_stop s with hsame | hclosed
      · rw [hsame]
        exact h
      · rw [hclosed]
        exact .inl rfl

/-- A batch breaks the bound exactly when it does not fit, and no roll makes room for it. -/
theorem bounded_iff (s : LogHandle) (call : LogCall) (hcall : call.Succeeds)
    (h : s.file.Opened) : s.Bounded call ↔ ¬s.Overruns call := by
  cases call with
  | start path rollBytes opens number => exact iff_of_true trivial not_false
  | stop => exact iff_of_true trivial not_false
  | writeAll call number =>
      simp only [Bounded, Overruns, file_writeAll]
      by_cases hwrites : s.file.fd = some .file ∧ call.data ≠ []
      · obtain ⟨hfile, hdata⟩ := hwrites
        have hpath : s.file.toStdout = false := by
          rcases h with hnone | hsome
          · cases hnone.symm.trans hfile
          · cases hstdout : s.file.toStdout with
            | true => simp [hsome, hstdout] at hfile
            | false => rfl
        obtain ⟨-, -, -, hsize⟩ := LogFile.writeAll_size hfile hdata hcall
        have hrolls : s.file.rolls call.data.length = true ↔
            s.file.rollBytes < s.file.writtenThisFile + call.data.length := by
          simp [LogFile.rolls, hpath, hfile]
        simp only [hfile, hdata, hpath, ne_eq, reduceCtorEq, not_false_eq_true, true_imp_iff,
          true_and]
        split at hsize
        · rename_i hroll
          have hexceeds := hrolls.mp hroll
          rw [hsize.1]
          exact iff_of_true (le_max_right _ _) fun hfits => by omega
        · rename_i hroll
          have hfits := not_lt.mp fun hexceeds => hroll (hrolls.mpr hexceeds)
          rw [hsize.1, max_eq_left (by omega)]
          constructor
          · rintro hle ⟨-, hlt⟩
            omega
          · intro hnot
            by_contra hgt
            exact hnot ⟨hfits, by omega⟩
      · refine iff_of_true (fun hfd hdata hpath => ?_) fun hover => hwrites ⟨hover.1, hover.2.1⟩
        exact absurd ⟨h.file_of_some hfd hpath, hdata⟩ hwrites

/-! ## Runs -/

/-- **The size of the log file.**  Each batch that is written leaves the file at `path_` no larger
than `roll_bytes_` and the batch itself, exactly when no batch fits by `written_this_file_` but not
behind what the file holds. -/
theorem size_run_iff (localtime : ℤ → Tm) (files : SortedMap Bytes Bytes) (calls : List LogCall)
    (hcalls : ∀ call ∈ calls, call.Succeeds) :
    Transition.AllSteps step Bounded (construct localtime files) calls ↔
      Transition.AllSteps step (fun s call => ¬s.Overruns call) (construct localtime files) calls :=
  Transition.allSteps_congr_on opened_step bounded_iff (.inl rfl) hcalls

/-- Two batches, of which the second one is rolled. -/
def rollSample : List LogCall :=
  [.start (bytes "log") 3 true 3, .writeAll (LogFile.twoBytes (bytes "ab") 0) 3,
    .writeAll (LogFile.twoBytes (bytes "cd") 1) 3]

theorem size_run_sample :
    Transition.AllSteps step Bounded (construct LogFile.firstDays ∅) rollSample := by
  refine (size_run_iff LogFile.firstDays ∅ rollSample ?_).mpr (by decide +kernel)
  intro call hcall
  simp only [rollSample, List.mem_cons, List.not_mem_nil, or_false] at hcall
  rcases hcall with rfl | rfl | rfl
  · rfl
  · exact LogFile.succeeds_twoBytes rfl 0
  · exact LogFile.succeeds_twoBytes rfl 1

/-- Between the two batches the log is stopped, and started again on the same path. -/
def restartCalls : List LogCall :=
  [.start (bytes "log") 3 true 3, .writeAll (LogFile.twoBytes (bytes "ab") 0) 3, .stop,
    .start (bytes "log") 3 true 3, .writeAll (LogFile.twoBytes (bytes "cd") 1) 3]

/-- The second batch is appended to the first one: four bytes, where three are the bound. -/
theorem not_size_run : ¬∀ localtime files (calls : List LogCall),
    (∀ call ∈ calls, call.Succeeds) →
      Transition.AllSteps step Bounded (construct localtime files) calls := by
  intro hlaw
  have hall := hlaw LogFile.firstDays ∅ restartCalls (by
    intro call hcall
    simp only [restartCalls, List.mem_cons, List.not_mem_nil, or_false] at hcall
    rcases hcall with rfl | rfl | rfl | rfl | rfl
    · rfl
    · exact LogFile.succeeds_twoBytes rfl 0
    · trivial
    · rfl
    · exact LogFile.succeeds_twoBytes rfl 1)
  have hbound := hall.2.2.2.2.1 (by decide +kernel) (by decide +kernel) (by decide +kernel)
  revert hbound
  decide +kernel

/-! ## Empty files -/

/-- Where the count is the size, it stays so, as long as what `start` opens is empty. -/
theorem counted_step (s : LogHandle) (call : LogCall) (hcall : call.Succeeds) (h : s.Counted)
    (hempty : s.StartsEmpty call) : (s.step call).Counted := by
  refine ⟨opened_step s call hcall h.1, fun hfile => ?_⟩
  cases call with
  | start path rollBytes opens number =>
      obtain rfl : opens = true := hcall
      rw [step, file_start] at hfile ⊢
      cases hrunning : s.running with
      | true =>
          rw [hrunning, if_pos rfl] at hfile
          exact h.2 hfile
      | false =>
          rw [hrunning, if_neg Bool.false_ne_true] at hfile
          exact LogFile.size_start (hempty hrunning) hfile
  | stop =>
      rw [step] at hfile ⊢
      rcases file_stop s with hsame | hclosed
      · rw [hsame] at hfile ⊢
        exact h.2 hfile
      · rw [hclosed] at hfile
        cases hfile
  | writeAll call number =>
      rw [step, file_writeAll] at hfile ⊢
      exact LogFile.counted_writeAll h.1 h.2 hcall hfile

/-- Where each `start` finds no file, or an empty one, the file stays within its bound. -/
theorem size_run_of_empty (localtime : ℤ → Tm) (files : SortedMap Bytes Bytes)
    (calls : List LogCall) (hcalls : ∀ call ∈ calls, call.Succeeds)
    (hempty : Transition.AllSteps step StartsEmpty (construct localtime files) calls) :
    Transition.AllSteps step Bounded (construct localtime files) calls := by
  have hinv : Counted (construct localtime files) :=
    ⟨.inl rfl, fun hfile => by cases hfile⟩
  refine Transition.allSteps_imp_on counted_step (fun s call hcall h _ => ?_) hinv hcalls hempty
  refine (bounded_iff s call hcall h.1).mpr fun hover => ?_
  cases call with
  | start path rollBytes opens number => exact hover
  | stop => exact hover
  | writeAll call number =>
      obtain ⟨hfile, -, hfits, hexceeds⟩ := hover
      rw [h.2 hfile] at hexceeds
      omega

end LogHandle

end WsServer
