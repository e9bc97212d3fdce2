import WsServer.Lib.Transition
import WsServer.Model.LogFile

/-!
# Rotation of the log

`rollIfNeeded` puts the file away under a name that ends in the local time, to the second.  When
two rolls get the same name, `rename` replaces the first file by the second one.  So what the log
has kept is all that was written exactly when no roll meets a file of its own with the same name,
unless that file is empty.

The proof compares lengths: a file that is replaced is missing for good, since no call adds more
than its own bytes to what is kept (`length_kept_run`).
-/

namespace WsServer

open CString

namespace LogFile

variable {f : LogFile} {name : Bytes}

/-- What the log writes to: the file at `path_`, or standard output. -/
def sink (f : LogFile) : Bytes := if f.fd = some .stdout then f.stdout else f.content f.path

/-- The files put away since `start`, in the order of rotation, and the one written to. -/
def kept (f : LogFile) : Bytes := f.rotated.flatMap f.content ++ f.sink

/-- `rename` would replace a file that was put away under the same name, and is not empty. -/
def Overwrites (f : LogFile) (call : WriteCall) : Prop :=
  call.data ≠ [] ∧ f.rolls call.data.length = true ∧
    f.rotatedName call.roll.now ∈ f.rotated ∧ f.content (f.rotatedName call.roll.now) ≠ []

instance (f : LogFile) (call : WriteCall) : Decidable (f.Overwrites call) :=
  inferInstanceAs (Decidable (_ ∧ _))

/-- `rename`, `open` and `write` succeed, and all bytes are taken in the end. -/
structure WriteCall.Succeeds (call : WriteCall) : Prop where
  renames : call.roll.renames = true
  opens : call.roll.opens = true
  results : ∀ result ∈ call.results, Works result
  accepted : call.data.length ≤
    (call.results.map fun result => result.accepted call.data.length).sum

/-- The files of a log that has been started. -/
structure Tidy (f : LogFile) : Prop where
  nodup : f.rotated.Nodup
  apart : f.path ∉ f.rotated
  fd : f.fd = some (if f.toStdout then .stdout else .file)
  here : f.fd = some .file → (f.files.find? f.path).isSome

theorem content_insert (f : LogFile) (name data other : Bytes) :
    ((f.files.insert name data).find? other).getD [] =
      if other = name then data else f.content other := by
  rw [SortedMap.find?_insert]
  split <;> rfl

theorem rotatedName_ne (f : LogFile) (now : ℤ) : f.rotatedName now ≠ f.path := by
  intro h
  have hlength := congrArg List.length h
  have hdot : (bytes ".").length = 1 := by decide
  simp only [rotatedName, Tm.stamp, List.length_append, hdot] at hlength
  omega

/-! ## Opening -/

theorem tidy_openLog (hrotated : f.rotated = []) : Tidy (f.openLog true) := by
  unfold openLog
  split
  · rename_i hstdout
    refine ⟨by rw [hrotated]; exact List.nodup_nil, by rw [hrotated]; exact List.not_mem_nil, ?_, ?_⟩
    · show some LogFd.stdout = some (if f.toStdout = true then .stdout else .file)
      rw [if_pos hstdout]
    · intro h
      cases h
  · rename_i hfile
    rw [if_pos rfl]
    refine ⟨by rw [hrotated]; exact List.nodup_nil, by rw [hrotated]; exact List.not_mem_nil, ?_, ?_⟩
    · show some LogFd.file = some (if f.toStdout = true then .stdout else .file)
      rw [if_neg hfile]
    · intro _
      show ((f.files.insert f.path _).find? f.path).isSome
      rw [SortedMap.find?_insert_self]
      rfl

theorem tidy_start (f : LogFile) (path : Bytes) (rollBytes : ℕ) :
    Tidy (f.start path rollBytes true) := tidy_openLog rfl

theorem rotated_openLog (f : LogFile) (opens : Bool) : (f.openLog opens).rotated = f.rotated := by
  unfold openLog
  split_ifs <;> rfl

theorem kept_start (f : LogFile) (path : Bytes) (rollBytes : ℕ) (opens : Bool) :
    (f.start path rollBytes opens).kept = (f.start path rollBytes opens).sink := by
  have hrotated : (f.start path rollBytes opens).rotated = [] := rotated_openLog _ opens
  rw [kept, hrotated]
  rfl

/-! ## Writing -/

theorem tidy_put (h : Tidy f) (taken : Bytes) : Tidy (f.put taken) := by
  obtain ⟨hnodup, hapart, hfd, hhere⟩ := h
  unfold put
  split
  · refine ⟨hnodup, hapart, hfd, ?_⟩
    intro _
    show ((f.files.insert f.path _).find? f.path).isSome
    rw [SortedMap.find?_insert_self]
    rfl
  · exact ⟨hnodup, hapart, hfd, hhere⟩
  · exact ⟨hnodup, hapart, hfd, hhere⟩

theorem put_of_file (hfile : f.fd = some .file) (taken : Bytes) :
    f.put taken = { f with
      files := f.files.insert f.path (f.content f.path ++ taken), stream := f.stream ++ taken } := by
  unfold put
  rw [hfile]

theorem kept_put (h : Tidy f) (taken : Bytes) : (f.put taken).kept = f.kept ++ taken := by
  have hfd := h.fd
  cases hstdout : f.toStdout with
  | true =>
      rw [hstdout, if_pos rfl] at hfd
      have hput : f.put taken = { f with
          stdout := f.stdout ++ taken, stream := f.stream ++ taken } := by
        unfold put
        rw [hfd]
      rw [hput]
      simp only [kept, sink, hfd, if_true]
      exact (List.append_assoc _ _ _).symm
  | false =>
      rw [hstdout, if_neg Bool.false_ne_true] at hfd
      have hcontent (name : Bytes) : (f.put taken).content name =
          if name = f.path then f.content f.path ++ taken else f.content name := by
        rw [put_of_file hfd]
        exact content_insert f f.path _ name
      have hothers : f.rotated.flatMap (f.put taken).content = f.rotated.flatMap f.content := by
        apply List.flatMap_congr
        intro name hname
        rw [hcontent, if_neg]
        rintro rfl
        exact h.apart hname
      have hsink : (f.put taken).sink = f.sink ++ taken := by
        have hnot : ¬f.fd = some .stdout := by simp [hfd]
        have hnot' : ¬(f.put taken).fd = some .stdout := by rw [put_of_file hfd]; exact hnot
        have hpath : (f.put taken).path = f.path := by rw [put_of_file hfd]
        rw [sink, if_neg hnot', hpath, hcontent, if_pos rfl, sink, if_neg hnot]
      have hrotated : (f.put taken).rotated = f.rotated := by rw [put_of_file hfd]
      rw [kept, hrotated, hothers, hsink, kept, List.append_assoc]

theorem tidy_count (h : Tidy f) (written : ℕ) : Tidy (f.count written) :=
  ⟨h.nodup, h.apart, h.fd, h.here⟩

/-- What every piece that is written preserves holds at the end of the loop, when all of the data
has been written. -/
theorem writeLoop_rule {P : LogFile → ℕ → Prop} {data : Bytes} {written : ℕ}
    {results : List WriteResult}
    (hput : ∀ g n k, n < data.length → P g n →
      P (g.put ((data.drop n).take k)) (min (n + k) data.length))
    (h : P f written) (hwritten : written ≤ data.length)
    (hworks : ∀ result ∈ results, Works result)
    (hall : data.length ≤
      written + (results.map fun result => result.accepted data.length).sum) :
    ∃ g, P g data.length ∧ f.writeLoop data written results = g.count data.length := by
  induction results generalizing f written with
  | nil =>
      have hdone : written = data.length := by
        rw [List.map_nil, List.sum_nil] at hall
        omega
      rw [hdone] at h ⊢
      exact ⟨f, h, rfl⟩
  | cons result rest ih =>
      have hlater : ∀ r ∈ rest, Works r := fun r hr => hworks r (List.mem_cons_of_mem _ hr)
      rw [List.map_cons, List.sum_cons] at hall
      rw [writeLoop]
      by_cases hmore : written < data.length
      · rcases f.writeStep_works hmore (hworks result List.mem_cons_self) with
          ⟨k, rfl, hstep⟩ | ⟨rfl, hstep⟩
        · have hroom : data.length ≤ min (written + k) data.length +
              (rest.map fun result => result.accepted data.length).sum := by
            rw [WriteResult.accepted] at hall
            omega
          rw [hstep]
          exact ih (hput f written k hmore h) (min_le_right _ _) hlater hroom
        · rw [hstep]
          exact ih h hwritten hlater (by simpa [WriteResult.accepted] using hall)
      · have hdone : written = data.length := le_antisymm hwritten (not_lt.mp hmore)
        rw [f.writeStep_done (not_lt.mp hmore)]
        rw [hdone] at h ⊢
        exact ⟨f, h, rfl⟩

/-- The loop writes the data, in as many pieces as `write` takes it. -/
theorem writeLoop_spec (h : Tidy f) {data : Bytes} {results : List WriteResult}
    (hworks : ∀ result ∈ results, Works result)
    (hall : data.length ≤ 0 + (results.map fun result => result.accepted data.length).sum) :
    Tidy (f.writeLoop data 0 results) ∧ (f.writeLoop data 0 results).kept = f.kept ++ data := by
  have hrule := writeLoop_rule
    (P := fun g n => Tidy g ∧ g.kept ++ data.drop n = f.kept ++ data) ?_ ⟨h, rfl⟩ (Nat.zero_le _)
    hworks hall
  · obtain ⟨g, ⟨htidy, hkept⟩, hloop⟩ := hrule
    rw [hloop]
    refine ⟨tidy_count htidy _, ?_⟩
    rwa [List.drop_length, List.append_nil] at hkept
  · rintro g n k - ⟨htidy, hkept⟩
    refine ⟨tidy_put htidy _, ?_⟩
    calc (g.put ((data.drop n).take k)).kept ++ data.drop (min (n + k) data.length)
      _ = g.kept ++ ((data.drop n).take k ++ (data.drop n).drop k) := by
          rw [kept_put htidy, drop_min_length, List.append_assoc]
      _ = g.kept ++ data.drop n := by rw [List.take_append_drop]
      _ = f.kept ++ data := hkept

/-! ## Rolling -/

/-- The list of names without one of them loses what that name stands for. -/
theorem flatMap_erase (f : LogFile) (names : List Bytes) (name : Bytes) :
    ((names.erase name).flatMap f.content).length +
        (if name ∈ names then f.content name else []).length = (names.flatMap f.content).length ∧
      ((if name ∈ names then f.content name else []) = [] →
        (names.erase name).flatMap f.content = names.flatMap f.content) := by
  by_cases hmem : name ∈ names
  · obtain ⟨before, after, -, rfl, herase⟩ := List.exists_erase_eq hmem
    rw [if_pos hmem, herase]
    constructor
    · simp only [List.flatMap_append, List.flatMap_cons, List.length_append]
      omega
    · intro hempty
      rw [List.flatMap_append, List.flatMap_append, List.flatMap_cons, hempty, List.nil_append]
  · rw [if_neg hmem, List.erase_of_not_mem hmem]
    exact ⟨rfl, fun _ => rfl⟩

theorem fd_of_rolls {incoming : ℕ} (h : Tidy f) (hrolls : f.rolls incoming = true) :
    f.fd = some .file := by
  simp only [rolls, Bool.and_eq_true, Bool.not_eq_true'] at hrolls
  rw [h.fd, hrolls.1.1]
  rfl

/-- The current file is put away under a name, and begun anew. -/
theorem roll_eq (hhere : (f.files.find? f.path).isSome) (name : Bytes) :
    (f.rename name).reopen true = { f with
      fd := some .file
      files := ((f.files.erase f.path).insert name (f.content f.path)).insert f.path []
      rotated := f.rotated.erase name ++ [name]
      writtenThisFile := 0 } := by
  obtain ⟨data, hdata⟩ := Option.isSome_iff_exists.mp hhere
  unfold rename content
  rw [hdata]
  rfl

theorem content_roll (hhere : (f.files.find? f.path).isSome) (name other : Bytes) :
    ((f.rename name).reopen true).content other =
      if other = f.path then [] else if other = name then f.content f.path
      else f.content other := by
  rw [roll_eq hhere, content]
  simp only [SortedMap.find?_insert, SortedMap.find?_erase]
  split_ifs
  · rfl
  · rfl
  · rfl

theorem tidy_roll (h : Tidy f) (hfile : f.fd = some .file) {name : Bytes} (hne : name ≠ f.path) :
    Tidy ((f.rename name).reopen true) := by
  rw [roll_eq (h.here hfile)]
  refine ⟨?_, ?_, ?_, fun _ => by simp⟩
  · refine List.nodup_append.mpr ⟨h.nodup.erase _, List.nodup_singleton _, ?_⟩
    rintro other hother _ hlast rfl
    rw [List.mem_singleton.mp hlast] at hother
    exact h.nodup.not_mem_erase hother
  · intro hmem
    rcases List.mem_append.mp hmem with hmem | hmem
    · exact h.apart (List.mem_of_mem_erase hmem)
    · exact hne (List.mem_singleton.mp hmem).symm
  · have hfd := h.fd
    rwa [hfile] at hfd

theorem kept_roll (h : Tidy f) (hfile : f.fd = some .file) {name : Bytes} (hne : name ≠ f.path) :
    ((f.rename name).reopen true).kept =
      (f.rotated.erase name).flatMap f.content ++ f.content f.path := by
  have hcontent := content_roll (h.here hfile) name
  have heq := roll_eq (h.here hfile) name
  generalize (f.rename name).reopen true = f' at hcontent heq ⊢
  have hothers : (f.rotated.erase name).flatMap f'.content =
      (f.rotated.erase name).flatMap f.content := by
    refine List.flatMap_congr fun other hother => ?_
    have hmem := List.mem_of_mem_erase hother
    have hpath : other ≠ f.path := fun heq => h.apart (by rwa [← heq])
    rw [hcontent, if_neg hpath, if_neg]
    rintro rfl
    exact h.nodup.not_mem_erase hother
  have hlast : f'.content name = f.content f.path := by rw [hcontent, if_neg hne, if_pos rfl]
  have hsink : f'.sink = [] := by
    have hnot : ¬f'.fd = some .stdout := by simp [heq]
    have hpath : f'.path = f.path := by rw [heq]
    rw [sink, if_neg hnot, hpath, hcontent, if_pos rfl]
  have hrotated : f'.rotated = f.rotated.erase name ++ [name] := by rw [heq]
  rw [kept, hsink, List.append_nil, hrotated, List.flatMap_append, hothers, List.flatMap_singleton,
    hlast]

/-- A roll: what is kept loses the file that is replaced, if there is one. -/
theorem roll_spec (h : Tidy f) {incoming : ℕ} (hrolls : f.rolls incoming = true) (now : ℤ) :
    let f' := (f.rename (f.rotatedName now)).reopen true
    let replaced := if f.rotatedName now ∈ f.rotated then f.content (f.rotatedName now) else []
    Tidy f' ∧ f'.kept.length + replaced.length = f.kept.length ∧
      (replaced = [] → f'.kept = f.kept) := by
  have hfile := fd_of_rolls h hrolls
  have hne := f.rotatedName_ne now
  have hkept : f.kept = f.rotated.flatMap f.content ++ f.content f.path := by
    rw [kept, sink, if_neg (by simp [hfile])]
  obtain ⟨hlength, hsame⟩ := flatMap_erase f f.rotated (f.rotatedName now)
  refine ⟨tidy_roll h hfile hne, ?_, fun hempty => ?_⟩
  · rw [kept_roll h hfile hne, hkept, List.length_append, List.length_append, ← hlength]
    omega
  · rw [kept_roll h hfile hne, hkept, hsame hempty]

/-! ## Calls of `writeAll` -/

/-- A call adds its bytes to what is kept; with a file that it overwrites, less is left. -/
theorem writeAll_spec (h : Tidy f) {call : WriteCall} (hcall : call.Succeeds) :
    Tidy (f.writeAll call) ∧
      (¬f.Overwrites call → (f.writeAll call).kept = f.kept ++ call.data) ∧
      (f.Overwrites call → (f.writeAll call).kept.length < f.kept.length + call.data.length) := by
  have hfd : f.fd.isNone = false := by rw [h.fd]; rfl
  by_cases hempty : call.data = []
  · have hnothing : f.writeAll call = f := by simp [writeAll, hempty]
    rw [hnothing, hempty, List.append_nil]
    exact ⟨h, fun _ => rfl, fun hover => absurd hempty hover.1⟩
  have hloop : f.writeAll call =
      (f.rollIfNeeded call.roll call.data.length).writeLoop call.data 0 call.results := by
    simp [writeAll, hfd, hempty]
  have hall : call.data.length ≤
      0 + (call.results.map fun result => result.accepted call.data.length).sum := by
    simpa using hcall.accepted
  rw [hloop, rollIfNeeded, hcall.renames, hcall.opens]
  by_cases hrolls : f.rolls call.data.length = true
  · simp only [if_pos hrolls, if_true]
    obtain ⟨htidy, hlength, hsame⟩ := roll_spec h hrolls call.roll.now
    obtain ⟨htidy', hkept⟩ := writeLoop_spec htidy hcall.results hall
    rw [hkept]
    refine ⟨htidy', ?_, ?_⟩
    · intro hnot
      rw [hsame]
      split
      · rename_i hmem
        by_contra hne
        exact hnot ⟨hempty, hrolls, hmem, hne⟩
      · rfl
    · rintro ⟨-, -, hmem, hne⟩
      rw [if_pos hmem] at hlength
      have hpos := List.length_pos_iff.mpr hne
      rw [List.length_append]
      omega
  · rw [if_neg hrolls]
    obtain ⟨htidy, hkept⟩ := writeLoop_spec h hcall.results hall
    rw [hkept]
    exact ⟨htidy, fun _ => rfl, fun hover => absurd hover.2.1 hrolls⟩

/-- No call adds more than its own bytes. -/
theorem length_kept_writeAll_le (h : Tidy f) {call : WriteCall} (hcall : call.Succeeds) :
    (f.writeAll call).kept.length ≤ f.kept.length + call.data.length := by
  obtain ⟨-, hkept, hless⟩ := writeAll_spec h hcall
  by_cases hover : f.Overwrites call
  · exact (hless hover).le
  · rw [hkept hover, List.length_append]

theorem length_kept_run_le (h : Tidy f) {calls : List WriteCall}
    (hcalls : ∀ call ∈ calls, call.Succeeds) :
    (Transition.run writeAll f calls).kept.length ≤
      f.kept.length + (calls.flatMap WriteCall.data).length := by
  induction calls generalizing f with
  | nil => simp
  | cons call calls ih =>
      have hcall := hcalls call List.mem_cons_self
      have hrest := ih (writeAll_spec h hcall).1 fun other hother =>
        hcalls other (List.mem_cons_of_mem _ hother)
      have hle := length_kept_writeAll_le h hcall
      rw [Transition.run_cons, List.flatMap_cons, List.length_append]
      omega

theorem kept_run_iff (h : Tidy f) {calls : List WriteCall}
    (hcalls : ∀ call ∈ calls, call.Succeeds) :
    (Transition.run writeAll f calls).kept = f.kept ++ calls.flatMap WriteCall.data ↔
      Transition.AllSteps writeAll (fun f call => ¬f.Overwrites call) f calls := by
  induction calls generalizing f with
  | nil => simp [Transition.AllSteps]
  | cons call calls ih =>
      have hlater := fun other hother => hcalls other (List.mem_cons_of_mem _ hother)
      obtain ⟨htidy, hkept, hless⟩ := writeAll_spec h (hcalls call List.mem_cons_self)
      rw [Transition.run_cons, Transition.AllSteps, ← ih htidy hlater, List.flatMap_cons,
        ← List.append_assoc]
      by_cases hover : f.Overwrites call
      · -- what is overwritten is missing in the end
        refine iff_of_false (fun hall => ?_) fun hnot => hnot.1 hover
        have hlength := congrArg List.length hall
        have hrest := length_kept_run_le htidy hlater
        have hnow := hless hover
        rw [List.length_append, List.length_append] at hlength
        omega
      · rw [hkept hover]
        exact (and_iff_right hover).symm

/-- **Rotation.**  The files put away since `start` and the file at `path_` are together what was
there at `start` and all batches, exactly when no roll overwrites a file that was put away. -/
theorem rotation_run_iff (f : LogFile) (path : Bytes) (rollBytes : ℕ) (calls : List WriteCall)
    (hcalls : ∀ call ∈ calls, call.Succeeds) :
    let started := f.start path rollBytes true
    (Transition.run writeAll started calls).kept =
        started.sink ++ calls.flatMap WriteCall.data ↔
      Transition.AllSteps writeAll (fun f call => ¬f.Overwrites call) started calls := by
  intro started
  rw [← kept_start f path rollBytes true]
  exact kept_run_iff (tidy_start f path rollBytes) hcalls

/-- The local time in January 1970, in UTC. -/
def firstDays (now : ℤ) : Tm where
  year := 70
  mon := 0
  mday := 1 + now / 86400
  hour := now / 3600 % 24
  min := now / 60 % 60
  sec := now % 60

/-- Two bytes written at a time, in one piece. -/
def twoBytes (data : Bytes) (now : ℤ) : WriteCall where
  data := data
  roll := { now := now }
  results := [.wrote 2]

theorem succeeds_twoBytes {data : Bytes} (h : data.length = 2) (now : ℤ) :
    (twoBytes data now).Succeeds := by
  refine ⟨rfl, rfl, ?_, ?_⟩
  · intro result hresult
    rw [List.mem_singleton.mp hresult]
    exact ⟨by decide, by decide, by decide⟩
  · show data.length ≤ min 2 data.length + 0
    omega

/-- Three rolls in three seconds. -/
theorem rotation_run_sample :
    let calls := [twoBytes (bytes "ab") 0, twoBytes (bytes "cd") 1, twoBytes (bytes "ef") 2]
    let started := start { localtime := firstDays } (bytes "log") 1 true
    (Transition.run writeAll started calls).kept = bytes "abcdef" := by
  intro calls started
  refine (rotation_run_iff { localtime := firstDays } (bytes "log") 1 calls ?_).mpr ?_
  · intro call hcall
    simp only [calls, List.mem_cons, List.not_mem_nil, or_false] at hcall
    rcases hcall with rfl | rfl | rfl
    · exact succeeds_twoBytes rfl 0
    · exact succeeds_twoBytes rfl 1
    · exact succeeds_twoBytes rfl 2
  · decide +kernel

/-- Three rolls in one second: the first batch is gone. -/
theorem not_rotation_run :
    ¬∀ (f : LogFile) (path : Bytes) (rollBytes : ℕ) (calls : List WriteCall),
      (∀ call ∈ calls, call.Succeeds) → calls.Pairwise (fun c c' => c.roll.now ≤ c'.roll.now) →
      (Transition.run writeAll (f.start path rollBytes true) calls).kept =
        (f.start path rollBytes true).sink ++ calls.flatMap WriteCall.data := by
  intro hall
  have hkept := hall { localtime := firstDays } (bytes "log") 1
    [twoBytes (bytes "ab") 0, twoBytes (bytes "cd") 0, twoBytes (bytes "ef") 0] (by
      intro call hcall
      simp only [List.mem_cons, List.not_mem_nil, or_false] at hcall
      rcases hcall with rfl | rfl | rfl
      · exact succeeds_twoBytes rfl 0
      · exact succeeds_twoBytes rfl 0
      · exact succeeds_twoBytes rfl 0) (by simp [twoBytes])
  revert hkept
  decide +kernel

end LogFile

end WsServer
