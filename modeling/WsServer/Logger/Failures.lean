import WsServer.Lib.Lossy
import WsServer.Logger.Conservation
import WsServer.Logger.Shutdown

/-!
# When writing fails

`writeAll` gives up on a batch when `write` fails, and the log goes on with the next batch.  What
the file gets is then no longer all that was inserted, but still nothing else: one stretch of bytes
is missing for each failure at most, and the others are there once and in order (`failures_run`).

A logger whose `write` fails walks through the same states as one whose `write` takes the rest of
the batch at that point; only the files differ (`Lags`).  So what is known of the latter says where
the bytes of the former are.
-/

namespace WsServer

open CString

instance (result : WriteResult) : Decidable (LogFile.Works result) := by
  unfold LogFile.Works
  infer_instance

instance {ι : Type*} (label : LoggerLabel ι) : Decidable label.Works := by
  cases label <;> unfold LoggerLabel.Works <;> infer_instance

/-- The labels of `start`, `stop` and the thread of the log. -/
def LoggerLabel.touchesFile {ι : Type*} : LoggerLabel ι → Bool
  | .start _ _ _ => true
  | .stopper _ => true
  | .logThread _ => true
  | _ => false

/-- How many times `write` fails. -/
def LoggerLabel.failures {ι : Type*} (label : LoggerLabel ι) : ℕ := if label.Works then 0 else 1

namespace LogFile

variable {n : ℕ} {f g : LogFile}

/-- `f` has lost some of what `g` has written. -/
structure Lags (n : ℕ) (f g : LogFile) : Prop where
  fd : f.fd.isSome = g.fd.isSome
  stream : Lossy n f.stream g.stream
  bytesWritten : f.bytesWritten ≤ g.bytesWritten

theorem Lags.mono {m : ℕ} (h : Lags n f g) (hle : n ≤ m) : Lags m f g :=
  ⟨h.fd, h.stream.mono hle, h.bytesWritten⟩

theorem lags_put (h : Lags n f g) (hopen : g.fd.isSome) (taken : Bytes) :
    Lags n (f.put taken) (g.put taken) := by
  obtain ⟨hfd, hstream, hcount⟩ := put_keeps (h.fd.trans hopen) taken
  obtain ⟨hfd', hstream', hcount'⟩ := put_keeps hopen taken
  refine ⟨hfd.trans hfd'.symm, ?_, ?_⟩
  · rw [hstream, hstream']
    exact h.stream.keep taken
  · rw [hcount, hcount']
    exact h.bytesWritten

theorem lags_count (h : Lags n f g) {k m : ℕ} (hle : k ≤ m) :
    Lags n (f.count k) (g.count m) :=
  ⟨h.fd, h.stream, Nat.add_le_add h.bytesWritten hle⟩

theorem lags_rollIfNeeded (h : Lags n f g) (hopen : g.fd.isSome) (call : RollCall)
    (incoming : ℕ) : Lags n (f.rollIfNeeded call incoming) (g.rollIfNeeded call incoming) := by
  obtain ⟨hfd, hstream, hcount⟩ := rollIfNeeded_keeps (h.fd.trans hopen) call incoming
  obtain ⟨hfd', hstream', hcount'⟩ := rollIfNeeded_keeps hopen call incoming
  refine ⟨hfd.trans hfd'.symm, ?_, ?_⟩
  · rw [hstream, hstream']
    exact h.stream
  · rw [hcount, hcount']
    exact h.bytesWritten

/-- An action of `writeAll` is matched by one whose `write` works, or by two when it gives up. -/
inductive Matches (n : ℕ) (f g : LogFile) (data : Bytes) (out : Outside) (p : Progress) : Prop
  | one (out' : Outside) (next : Option Progress) (f' g' : LogFile) (hworks : Works out'.result)
      (hf : f.advance data out p = (next, f')) (hg : g.advance data out' p = (next, g'))
      (hlags : Lags n f' g')
  | two (out₁ out₂ : Outside) (p' : Progress) (f' g₁ g₂ : LogFile) (hfails : ¬Works out.result)
      (hworks₁ : Works out₁.result) (hworks₂ : Works out₂.result)
      (hf : f.advance data out p = (none, f')) (hg : g.advance data out₁ p = (some p', g₁))
      (hg' : g₁.advance data out₂ p' = (none, g₂)) (hlags : Lags (n + 1) f' g₂)

theorem writeStep_fails (f : LogFile) {data : Bytes} {written : ℕ} (h : written < data.length)
    {result : WriteResult} (hfails : ¬Works result) :
    f.writeStep data written result = (none, f.count written) := by
  unfold writeStep
  rw [if_pos h]
  cases result with
  | wrote k =>
      dsimp only
      rw [if_neg fun hpos => hfails (by simpa [Works] using hpos.ne')]
  | eintr => exact absurd (by simp [Works]) hfails
  | eagain => rfl
  | failed => rfl

theorem advance_matches (h : Lags n f g) (hopen : g.fd.isSome) (data : Bytes) (out : Outside)
    {p : Progress} (hp : p.count ≤ data.length) : Matches n f g data out p := by
  have hopen' : f.fd.isNone = false := by simpa using h.fd.trans hopen
  have hopen'' : g.fd.isNone = false := by simpa using hopen
  have heintr : Works WriteResult.eintr := by decide
  cases p with
  | entered =>
      by_cases hempty : data = []
      · exact .one { out with result := .eintr } none f g heintr (by simp [advance, hempty])
          (by simp [advance, hempty]) h
      · refine .one { out with result := .eintr } (some (.written 0)) _ _ heintr ?_ ?_
          (lags_rollIfNeeded h hopen out.roll data.length)
        · simp [advance, hempty, hopen']
        · simp [advance, hempty, hopen'']
  | written k =>
      have hle : k ≤ data.length := hp
      have hends (f : LogFile) {k : ℕ} (hk : data.length ≤ k) (out : Outside) :
          f.advance data out (.written k) = (none, f.count k) := by
        simp [advance, f.writeStep_done hk out.result]
      by_cases hmore : k < data.length
      swap
      · exact .one { out with result := .eintr } none _ _ heintr (hends f (not_lt.mp hmore) _)
          (hends g (not_lt.mp hmore) _) (lags_count h le_rfl)
      by_cases hworks : Works out.result
      · rcases f.writeStep_works hmore hworks with ⟨m, hresult, hstep⟩ | ⟨hresult, hstep⟩
        · rcases g.writeStep_works hmore hworks with ⟨m', hresult', hstep'⟩ | ⟨hresult', -⟩
          · obtain rfl : m = m' := WriteResult.wrote.inj (hresult.symm.trans hresult')
            exact .one out (some (.written (min (k + m) data.length))) _ _ hworks
              (by simp [advance, hstep]) (by simp [advance, hstep'])
              (lags_put h hopen ((data.drop k).take m))
          · cases hresult.symm.trans hresult'
        · rcases g.writeStep_works hmore hworks with ⟨m', hresult', -⟩ | ⟨-, hstep'⟩
          · cases hresult.symm.trans hresult'
          · exact .one out (some (.written k)) f g hworks (by simp [advance, hstep])
              (by simp [advance, hstep']) h
      · -- the other one takes the rest of the batch and then ends the loop
        let all : Outside := { out with result := .wrote data.length }
        have hpos : 0 < data.length := (Nat.zero_le k).trans_lt hmore
        have hall : Works all.result := by
          simpa [Works, all] using hpos.ne'
        rcases g.writeStep_works hmore hall with ⟨m, hresult, hstep⟩ | ⟨hresult, -⟩
        swap
        · cases hresult
        obtain rfl : data.length = m := WriteResult.wrote.inj hresult
        have hend : min (k + data.length) data.length = data.length :=
          min_eq_right (Nat.le_add_left _ _)
        have htake : (data.drop k).take data.length = data.drop k :=
          List.take_of_length_le (by simp)
        rw [hend, htake] at hstep
        obtain ⟨hfd, hstream, hcount⟩ := put_keeps hopen (data.drop k)
        refine .two all { out with result := .eintr } (.written data.length) (f.count k)
          (g.put (data.drop k)) _ hworks hall heintr ?_ ?_ (hends _ le_rfl _) ?_
        · simp [advance, f.writeStep_fails hmore hworks]
        · simp only [advance, hstep]
          rfl
        · refine ⟨h.fd.trans (hopen.trans hfd.symm), ?_, ?_⟩
          · show Lossy (n + 1) f.stream (g.put (data.drop k)).stream
            rw [hstream]
            exact h.stream.lose _
          · show f.bytesWritten + k ≤ (g.put (data.drop k)).bytesWritten + data.length
            rw [hcount]
            exact Nat.add_le_add h.bytesWritten hle

end LogFile

namespace AsyncLogger

variable {ι : Type*} {n : ℕ} {s s' r : AsyncLogger ι}

/-! ## Steps that touch no file -/

theorem logStep?_file (hwriting : ∀ p, s.log ≠ .writing p) (hflushing : ∀ p, s.log ≠ .flushing p)
    (f : LogFile) (out out' : Outside) : logStep? { s with file := f } out =
      (s.logStep? out').map fun next => { next with file := f } := by
  have hlocked : locked { s with file := f } = s.locked := rfl
  unfold logStep?
  simp only [hlocked]
  split
  · split_ifs <;> rfl
  · split_ifs <;> rfl
  · split_ifs <;> rfl
  · rename_i p hlog
    exact absurd hlog (hwriting p)
  · rfl
  · split_ifs <;> rfl
  · rename_i p hlog
    exact absurd hlog (hflushing p)
  · rfl
  · rfl

theorem stopStep?_file (hflushing : ∀ p, s.stopping ≠ .flushing p)
    (hflushingRest : ∀ p, s.stopping ≠ .flushingRest p) (hclosing : s.stopping ≠ .closing)
    (f : LogFile) (out out' : Outside) : stopStep? { s with file := f } out =
      (s.stopStep? out').map fun next => { next with file := f } := by
  have hlocked : locked { s with file := f } = s.locked := rfl
  have hrest : flushRest { s with file := f } = s.flushRest := rfl
  unfold stopStep?
  simp only [hlocked, hrest]
  split
  · rfl
  · split_ifs <;> rfl
  · rfl
  · split_ifs <;> rfl
  · rename_i p hstop
    exact absurd hstop (hflushing p)
  · rfl
  · rename_i p hstop
    exact absurd hstop (hflushingRest p)
  · rfl
  · rename_i hstop
    exact absurd hstop hclosing

variable [DecidableEq ι]

theorem step?_file {label : LoggerLabel ι} (hfile : label.touchesFile = false) (f : LogFile) :
    step? { s with file := f } label = (s.step? label).map fun next => { next with file := f } := by
  have hlocked : locked { s with file := f } = s.locked := rfl
  cases label with
  | start path rollBytes opens => cases hfile
  | stop =>
      simp only [step?, stop]
      split_ifs <;> rfl
  | stopper out => cases hfile
  | logThread out => cases hfile
  | append t data =>
      simp only [step?]
      split_ifs <;> rfl
  | insert t =>
      simp only [step?, hlocked]
      split
      · rfl
      · cases s.appending t <;> rfl

/-! ## Steps of the two loggers -/

/-- Steps whose `write` works lead from `r` to what `s'` is, except for the file. -/
def Matched (n : ℕ) (s' r : AsyncLogger ι) : Prop :=
  ∃ labels : List (LoggerLabel ι), (∀ label ∈ labels, label.Works) ∧
    ∃ file, Transition.run step r labels = { s' with file := file } ∧ s'.file.Lags n file

theorem step_of_step? {label : LoggerLabel ι} (h : s.step? label = some s') :
    step s label = s' := by
  rw [step, Transition.attempt, h, Option.getD_some]

theorem matched_refl {g : LogFile} (h : s.file.Lags n g) : Matched n s { s with file := g } :=
  ⟨[], by simp, g, rfl, h⟩

theorem matched_of_step {g : LogFile} (h : s'.file.Lags n g) (label : LoggerLabel ι)
    (hworks : label.Works) (hstep : r.step? label = some { s' with file := g }) :
    Matched n s' r :=
  ⟨[label], List.forall_mem_singleton.mpr hworks, g, step_of_step? hstep, h⟩

theorem works_eintr : LogFile.Works WriteResult.eintr := by decide

theorem Matched.mono {m : ℕ} (h : Matched n s' r) (hle : n ≤ m) : Matched m s' r := by
  obtain ⟨labels, hworks, file, hrun, hlags⟩ := h
  exact ⟨labels, hworks, file, hrun, hlags.mono hle⟩

/-- Wherever `writeAll` is called: `site` is the state in dependence of where it stands. -/
theorem matched_advance (site : Option Progress → AsyncLogger ι) (data : Bytes)
    (label : Outside → LoggerLabel ι) (hlabel : ∀ out, (label out).Works ↔ LogFile.Works out.result)
    (hstep : ∀ (f : LogFile) p out, step? { site (some p) with file := f } (label out) =
      some { site (f.advance data out p).1 with file := (f.advance data out p).2 })
    {f g : LogFile} (h : f.Lags n g) (hopen : g.fd.isSome) {p : Progress}
    (hsite : site (some p) = s) (hp : p.count ≤ data.length) (out : Outside) :
    Matched (n + (label out).failures)
      { site (f.advance data out p).1 with file := (f.advance data out p).2 }
      { s with file := g } := by
  subst hsite
  cases LogFile.advance_matches h hopen data out hp with
  | one out' next f' g' hworks hf hg hlags =>
      rw [hf]
      refine Matched.mono ?_ (Nat.le_add_right n _)
      refine matched_of_step (g := g') hlags (label out') ((hlabel out').mpr hworks) ?_
      rw [hstep, hg]
  | two out₁ out₂ p' f' g₁ g₂ hfails hworks₁ hworks₂ hf hg hg' hlags =>
      have hcost : (label out).failures = 1 := if_neg (mt (hlabel out).mp hfails)
      rw [hf, hcost]
      refine ⟨[label out₁, label out₂], ?_, g₂, ?_, hlags⟩
      · simp [hlabel, hworks₁, hworks₂]
      · have hfirst := step_of_step? (hstep g p out₁)
        have hsecond := step_of_step? (hstep g₁ p' out₂)
        rw [hg] at hfirst
        rw [hg'] at hsecond
        rw [Transition.run_cons, Transition.run_cons, hfirst, hsecond]
        rfl

variable {f g : LogFile}

theorem matched_logStep (hlags : f.Lags n g) (h : Sound { s with file := g }) {out : Outside}
    (hstep : logStep? { s with file := f } out = some s') :
    Matched (n + (LoggerLabel.logThread out : LoggerLabel ι).failures) s' { s with file := g } := by
  by_cases hwriting : ∃ p, s.log = .writing p
  · obtain ⟨p, hlog⟩ := hwriting
    have hsame : { s with log := .writing p } = s := by rw [← hlog]
    simp only [logStep?, hlog, Option.some.injEq] at hstep
    rw [← hstep]
    exact matched_advance
      (fun next => { s with log := (next.map LogPc.writing).getD .clearing }) s.toWrite .logThread
      (fun out => Iff.rfl) (fun f p out => rfl) hlags (h.isSome_fd (by simp [hlog])) hsame
      (h.writing p hlog) out
  by_cases hflushing : ∃ p, s.log = .flushing p
  · obtain ⟨p, hlog⟩ := hflushing
    have hsame : { s with log := .flushing p } = s := by rw [← hlog]
    simp only [logStep?, hlog, Option.some.injEq] at hstep
    rw [← hstep]
    exact matched_advance
      (fun next => { s with log := (next.map LogPc.flushing).getD .emptying }) s.current .logThread
      (fun out => Iff.rfl) (fun f p out => rfl) hlags (h.isSome_fd (by simp [hlog])) hsame
      (h.flushing p (.inl hlog)) out
  rw [not_exists] at hwriting hflushing
  rw [logStep?_file hwriting hflushing f out {}, Option.map_eq_some_iff] at hstep
  obtain ⟨next, hnext, rfl⟩ := hstep
  refine (matched_of_step (g := g) hlags (.logThread {}) works_eintr ?_).mono
    (Nat.le_add_right n _)
  · show logStep? { s with file := g } {} = _
    rw [logStep?_file hwriting hflushing g {} {}, hnext]
    rfl

theorem matched_stopStep (hlags : f.Lags n g) (h : Sound { s with file := g }) {out : Outside}
    (hstep : stopStep? { s with file := f } out = some s') :
    Matched (n + (LoggerLabel.stopper out : LoggerLabel ι).failures) s' { s with file := g } := by
  by_cases hflushing : ∃ p, s.stopping = .flushing p
  · obtain ⟨p, hstop⟩ := hflushing
    have hsame : { s with stopping := .flushing p } = s := by rw [← hstop]
    simp only [stopStep?, hstop, Option.some.injEq] at hstep
    rw [← hstep]
    exact matched_advance
      (fun next => { s with stopping := (next.map StopPc.flushing).getD .emptying }) s.current .stopper
      (fun out => Iff.rfl) (fun f p out => rfl) hlags (h.opened (.inr (by simp [hstop]))) hsame
      (h.flushing p (.inr hstop)) out
  rw [not_exists] at hflushing
  by_cases hclosing : s.stopping = .closing
  · simp only [stopStep?, hclosing, Option.some.injEq] at hstep
    rw [← hstep]
    refine (matched_of_step (g := { g with fd := none }) ?_ (.stopper {}) works_eintr ?_).mono
      (Nat.le_add_right n _)
    · exact ⟨rfl, hlags.stream, hlags.bytesWritten⟩
    · simp only [step?, stopStep?, hclosing]
  have hflushingRest := h.noRest.2
  rw [stopStep?_file hflushing hflushingRest hclosing f out {}, Option.map_eq_some_iff] at hstep
  obtain ⟨next, hnext, rfl⟩ := hstep
  refine (matched_of_step (g := g) hlags (.stopper {}) works_eintr ?_).mono
    (Nat.le_add_right n _)
  · show stopStep? { s with file := g } {} = _
    rw [stopStep?_file hflushing hflushingRest hclosing g {} {}, hnext]
    rfl

theorem matched_start (hlags : f.Lags n g) (hidle : s.stopping = .idle) (path : Bytes)
    (rollBytes : ℕ) (opens : Bool) :
    Matched n (start { s with file := f } path rollBytes opens) { s with file := g } := by
  have hstep : step? { s with file := g } (.start path rollBytes opens) =
      some (start { s with file := g } path rollBytes opens) := if_pos hidle
  unfold start at *
  split
  · exact matched_refl hlags
  · rename_i hrunning
    rw [if_neg hrunning] at hstep
    obtain ⟨hfd, hstream, hcount⟩ := isSome_fd_start f path rollBytes opens
    obtain ⟨hfd', hstream', hcount'⟩ := isSome_fd_start g path rollBytes opens
    refine matched_of_step (g := g.start path rollBytes opens) ⟨hfd.trans hfd'.symm, ?_, ?_⟩
      (.start path rollBytes opens) trivial hstep
    · show Lossy n (f.start path rollBytes opens).stream _
      rw [hstream, hstream']
      exact .nil n
    · show (f.start path rollBytes opens).bytesWritten ≤ _
      rw [hcount, hcount']
      exact hlags.bytesWritten

/-- Whatever `write` returns, another logger can follow whose `write` works. -/
theorem matched_step (hlags : f.Lags n g) (h : Sound { s with file := g })
    (label : LoggerLabel ι) :
    Matched (n + label.failures) (step { s with file := f } label) { s with file := g } := by
  unfold step Transition.attempt
  cases hstep : step? { s with file := f } label with
  | none => exact (matched_refl hlags).mono (Nat.le_add_right n _)
  | some s' =>
      show Matched _ s' _
      cases hfile : label.touchesFile with
      | false =>
          have hworks : label.Works := by
            cases label with
            | stopper out => cases hfile
            | logThread out => cases hfile
            | _ => trivial
          rw [step?_file hfile, Option.map_eq_some_iff] at hstep
          obtain ⟨next, hnext, rfl⟩ := hstep
          refine (matched_of_step (g := g) hlags label hworks ?_).mono (Nat.le_add_right n _)
          rw [step?_file hfile, hnext]
          rfl
      | true =>
          cases label with
          | start path rollBytes opens =>
              simp only [step?, Option.ite_none_right_eq_some, Option.some.injEq] at hstep
              obtain ⟨hidle, rfl⟩ := hstep
              exact matched_start hlags hidle path rollBytes opens
          | stopper out => exact matched_stopStep hlags h hstep
          | logThread out => exact matched_logStep hlags h hstep
          | _ => cases hfile

/-! ## Runs -/

/-- What the runs keep up whose `write` works. -/
structure Orderly (s : AsyncLogger ι) : Prop where
  conserved : Conserved s
  covered : Covered s

/-- A logger, and one that has done the same while its `write` worked. -/
structure Follows (n : ℕ) (s r : AsyncLogger ι) : Prop where
  sound : Sound r
  orderly : Orderly r
  same : r = { s with file := r.file }
  lags : s.file.Lags n r.file

theorem follows_step (h : Follows n s r) (label : LoggerLabel ι) :
    ∃ labels : List (LoggerLabel ι), (∀ label ∈ labels, label.Works) ∧
      Follows (n + label.failures) (step s label) (Transition.run step r labels) := by
  have hsound := h.sound
  rw [h.same] at hsound
  obtain ⟨labels, hworks, g, hrun, hlags⟩ := matched_step h.lags hsound label
  rw [← h.same] at hrun
  have hall : Sound (Transition.run step r labels) ∧ Orderly (Transition.run step r labels) := by
    refine Transition.run_invariant_on (step_invariant fun s s' label _ h hstep => ?_)
      ⟨h.sound, h.orderly⟩ hworks
    exact ⟨hstep.conserved h.conserved, hstep.covered h.covered⟩
  refine ⟨labels, hworks, hall.1, hall.2, ?_, ?_⟩
  · rw [hrun]
  · rw [hrun]
    exact hlags

/-- **Failures.**  In every state of every run, whatever `write` returns, what is written since
`start` is what was inserted since then up to the rest of the buffers, less one stretch of bytes for
each failure at most; and the counters never tell of more than was inserted. -/
theorem failures_run (localtime : ℤ → Tm) (files : SortedMap Bytes Bytes)
    (labels : List (LoggerLabel ι)) :
    let s := Transition.run step (construct localtime files) labels
    s.file.bytesWritten + s.uncounted ≤ s.enqueuedBytes ∧
      s.file.stream.Sublist s.inserted ∧
      ∃ full, Lossy (labels.map LoggerLabel.failures).sum s.file.stream full ∧
        full ++ s.restOfToWrite ++ s.restOfCurrent = s.inserted := by
  intro s
  have hstart : Follows 0 (construct localtime files : AsyncLogger ι)
      (construct localtime files) :=
    ⟨sound_construct localtime files, ⟨rfl, le_rfl⟩, rfl, rfl, .nil 0, le_rfl⟩
  obtain ⟨labels', -, hfollows⟩ :=
    Transition.exists_run (R := Follows) LoggerLabel.failures
      (fun _ _ _ label h => follows_step h label) hstart labels
  generalize Transition.run step (construct localtime files) labels' = r at hfollows
  obtain ⟨-, ⟨hconserved, hcovered⟩, hsame, hlags⟩ := hfollows
  rw [Nat.zero_add] at hlags
  have hall : r.file.stream ++ s.restOfToWrite ++ s.restOfCurrent = s.inserted := by
    rw [hsame] at hconserved
    exact hconserved
  refine ⟨?_, ?_, r.file.stream, hlags.stream, hall⟩
  · have hcovered' : r.file.bytesWritten + s.uncounted ≤ s.enqueuedBytes := by
      rw [hsame] at hcovered
      exact hcovered
    exact (Nat.add_le_add_right hlags.bytesWritten _).trans hcovered'
  · rw [← hall, List.append_assoc]
    exact hlags.stream.sublist.trans (List.sublist_append_left _ _)

end AsyncLogger

end WsServer
