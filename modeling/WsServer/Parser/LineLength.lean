import WsServer.Parser.Head

/-!
# Line lengths

A request or header line longer than `kMaxRequestLine` is to be rejected, however
it arrives.  The parser checks the length in three places: a finished request
line by its own length, and an unfinished line of either kind by the number of
readable bytes.  A finished header line is not checked, and the readable bytes of
an unfinished line may include the CR of its CRLF.

So the verdict depends on the pieces (`lengthLaw_iff`).  A header line that is
too long is accepted unless some call sees more than the limit of it and not its
end, and a line of exactly the maximal length is rejected when a call sees it
with its CR alone.

`LineArrival` is a line in its place in a stream, together with the pieces.  What
a call sees of the line is a `look`; up to the call that decides, the calls leave
the parser in its place (`outcome_of_waiting`).
-/

namespace WsServer

open CString PairSearch Incremental

namespace HttpParser

/-- A line of a stream that comes in pieces.  Parsing what stands before the line
leads to `position`; `first` is the piece with which that has arrived. -/
structure LineArrival where
  parser : HttpParser
  buffer : Buffer
  before : Bytes
  position : HttpParser
  line : Bytes
  after : Bytes
  first : Bytes
  later : List Bytes
  /-- What `first` brings of the line. -/
  seen : Bytes
  reaches : machine.Reaches parser before position []
  waits : position.waitsForLine = true
  whole : findPair 13 10 line = none
  begins : buffer.readable ++ first = before ++ seen
  arrives : seen ++ later.flatten = line ++ crlf ++ after

/-- The checks of the length, on the bytes at the front of which a line stands. -/
def ChecksLength (p : HttpParser) (bs : Bytes) : Prop :=
  match findPair 13 10 bs with
  | none => bs.length > kMaxRequestLine
  | some i => p.state = .requestLine ∧ (bs.take i).length > kMaxRequestLine

namespace LineArrival

variable (a : LineArrival)

/-- The bytes of the line, and of what comes after it, that have arrived after
`j` later pieces. -/
def look (j : ℕ) : Bytes := a.seen ++ (a.later.take j).flatten

/-- What the calls up to the piece `j` leave. -/
def outcome (j : ℕ) : Parsed := feed a.parser a.buffer (a.first :: a.later.take j)

/-- The line is rejected for its length: the first call that does not wait for
more of the line returns an error, and one of the checks has led to it. -/
def RejectedForLength : Prop :=
  ∃ j ≤ a.later.length, (∀ k < j, (a.outcome k).ret = .incomplete ∧
      findPair 13 10 (a.look k) = none) ∧
    (a.outcome j).ret = .error ∧ ChecksLength a.position (a.look j)

/-- The law: exactly the lines that are too long are rejected for their length. -/
def LengthLaw : Prop := a.RejectedForLength ↔ a.line.length > kMaxRequestLine

variable {a}

/-! ## What a call sees -/

theorem look_isPrefix (j : ℕ) : a.look j <+: a.line ++ crlf ++ a.after := by
  rw [← a.arrives, look]
  apply List.prefix_append_right_inj _ |>.mpr
  exact ⟨(a.later.drop j).flatten, by rw [← List.flatten_append, List.take_append_drop]⟩

theorem look_length : a.look a.later.length = a.line ++ crlf ++ a.after := by
  rw [look, List.take_length, a.arrives]

theorem look_succ {j : ℕ} (hj : j < a.later.length) :
    a.look (j + 1) = a.look j ++ a.later[j] := by
  rw [look, List.take_succ_eq_append_getElem hj, List.flatten_append, look, List.append_assoc]
  simp

theorem look_mono {j k : ℕ} (h : j ≤ k) : (a.look j).length ≤ (a.look k).length := by
  induction k with
  | zero => rw [Nat.le_zero.mp h]
  | succ k ih =>
      rcases Nat.le_succ_iff.mp h with hle | rfl
      · refine (ih hle).trans ?_
        by_cases hk : k < a.later.length
        · rw [look_succ hk, List.length_append]
          exact Nat.le_add_right _ _
        · have hall : a.later.length ≤ k := not_lt.mp hk
          rw [look, look, List.take_of_length_le hall, List.take_of_length_le (by omega)]
      · exact le_refl _

/-- The end of the line is seen once the line and its CRLF have arrived. -/
theorem findPair_look (j : ℕ) :
    findPair 13 10 (a.look j) =
      if a.line.length + 2 ≤ (a.look j).length then some a.line.length else none := by
  obtain ⟨rest, hrest⟩ := a.look_isPrefix j
  have hline : findPair 13 10 (a.line ++ crlf ++ a.after) = some a.line.length :=
    findPair_headerLine a.whole a.after
  split
  · rename_i hlong
    have hlength : (a.line ++ crlf).length = a.line.length + 2 := by simp [crlf]
    have hfront : a.line ++ crlf <+: a.line ++ crlf ++ a.after := List.prefix_append _ _
    obtain ⟨more, hmore⟩ : a.line ++ crlf <+: a.look j :=
      List.prefix_of_prefix_length_le hfront ⟨rest, hrest⟩ (by rwa [hlength])
    rw [← hmore]
    exact findPair_headerLine a.whole more
  · rename_i hshort
    cases hfind : findPair 13 10 (a.look j) with
    | none => rfl
    | some i =>
        -- the match stays where it is, so it is the end of the line
        have hlater := findPair_append hfind rest
        rw [hrest, hline, Option.some_inj] at hlater
        have hroom := add_two_le_of_findPair hfind
        omega

theorem findPair_look_eq_none_iff (j : ℕ) :
    findPair 13 10 (a.look j) = none ↔ (a.look j).length < a.line.length + 2 := by
  rw [findPair_look]
  split_ifs with h
  · simp [h]
  · simpa using h

/-! ## What the calls leave -/

/-- An unfinished line within the limit leaves the parser where it is. -/
theorem guard_parse_unfinished {p : HttpParser} (hwait : p.waitsForLine = true) {bs : Bytes}
    (hnone : findPair 13 10 bs = none) (hshort : bs.length ≤ kMaxRequestLine) :
    guard.parse p bs = (p, bs) := by
  have hstuck : machine.step p bs = none := (step_eq_none_iff hwait).mpr hnone
  rw [Guard.parse, Machine.run_of_stuck hstuck]
  apply Guard.finish_of_quiet
  simp [guard, hwait, hshort]

/-- As long as the calls have only waited, the next one starts at the line. -/
theorem outcome_eq {j : ℕ} (hj : j ≤ a.later.length)
    (h : ∀ k < j, findPair 13 10 (a.look k) = none ∧ (a.look k).length ≤ kMaxRequestLine) :
    ((a.outcome j).parser, (a.outcome j).buf.readable) = guard.parse a.position (a.look j) := by
  induction j with
  | zero =>
      have hreach : machine.Reaches a.parser (a.before ++ a.seen) a.position a.seen :=
        a.reaches.append a.seen
      have hlook : a.look 0 = a.seen := by simp [look]
      have hone : a.outcome 0 = a.parser.parse (a.buffer.append a.first) := rfl
      rw [hone, parse_eq, Buffer.readable_append, a.begins, Guard.parse_of_reaches hreach, hlook]
  | succ j ih =>
      obtain ⟨hnone, hshort⟩ := h j (Nat.lt_succ_self j)
      have hprev := ih (by omega) fun k hk => h k (by omega)
      rw [guard_parse_unfinished a.waits hnone hshort, Prod.mk_inj] at hprev
      have hlast : a.outcome (j + 1) =
          (a.outcome j).parser.parse ((a.outcome j).buf.append a.later[j]) := by
        rw [outcome, List.take_succ_eq_append_getElem (by omega), ← List.cons_append, feed_concat]
        rfl
      rw [hlast, parse_eq, Buffer.readable_append, hprev.1, hprev.2, ← look_succ]

theorem ret_outcome (j : ℕ) : (a.outcome j).ret = verdict (a.outcome j).parser.state := by
  have hparser := congrArg Prod.fst (feed_eq a.parser a.buffer (a.first :: a.later.take j))
  rw [outcome, ret_feed a.parser a.buffer (List.cons_ne_nil _ _), ← hparser]

theorem ret_outcome_of_unfinished {j : ℕ} (hj : j ≤ a.later.length)
    (h : ∀ k < j + 1, findPair 13 10 (a.look k) = none ∧ (a.look k).length ≤ kMaxRequestLine) :
    (a.outcome j).ret = .incomplete := by
  obtain ⟨hnone, hshort⟩ := h j (Nat.lt_succ_self j)
  have houtcome := outcome_eq hj fun k hk => h k (by omega)
  rw [guard_parse_unfinished a.waits hnone hshort, Prod.mk_inj] at houtcome
  have hwait := a.waits
  rw [ret_outcome, houtcome.1]
  cases hstate : a.position.state <;> simp_all [waitsForLine, verdict]

/-- Each of the checks rejects. -/
theorem guard_parse_of_checksLength {p : HttpParser} (hwait : p.waitsForLine = true) {bs : Bytes}
    (h : ChecksLength p bs) : (guard.parse p bs).1.state = .error := by
  unfold ChecksLength at h
  split at h
  · rename_i hnone
    have hstuck : machine.step p bs = none := (step_eq_none_iff hwait).mpr hnone
    rw [Guard.parse, Machine.run_of_stuck hstuck, Guard.finish_of_overflow]
    · rfl
    · simpa [guard, hwait] using h
  · rename_i i hfind
    have hread : p.readRequestLine (bs.take i) = none := by
      rw [readRequestLine, if_pos]
      simpa using Or.inl h.2
    have hstep := step_requestLine_reject h.1 hfind hread
    have hfinal : verdict p.fail.state ≠ .incomplete := by simp [fail, verdict]
    rw [guard_parse_of_reaches (reaches_of_step hstep) hfinal]
    rfl

/-! ## When a line is rejected for its length -/

/-- What the checks find of the line: when its end is seen they measure the line,
and only a request line. -/
theorem checksLength_look_iff (j : ℕ) : ChecksLength a.position (a.look j) ↔
    if a.line.length + 2 ≤ (a.look j).length then
      a.position.state = .requestLine ∧ kMaxRequestLine < a.line.length
    else kMaxRequestLine < (a.look j).length := by
  unfold ChecksLength
  rw [findPair_look]
  by_cases hfinished : a.line.length + 2 ≤ (a.look j).length
  · have hline : (a.look j).take a.line.length = a.line := by
      obtain ⟨rest, hrest⟩ := a.look_isPrefix j
      have hlook : (a.look j ++ rest).take a.line.length = (a.look j).take a.line.length :=
        List.take_append_of_le_length (by omega)
      rw [← hlook, hrest, List.append_assoc, List.take_left]
    rw [if_pos hfinished, if_pos hfinished]
    simp only [hline, gt_iff_lt]
  · rw [if_neg hfinished, if_neg hfinished]

/-- The first call that sees the end of the line, or more than the limit of it. -/
theorem exists_deciding (a : LineArrival) : ∃ j ≤ a.later.length,
    (a.line.length + 2 ≤ (a.look j).length ∨ kMaxRequestLine < (a.look j).length) ∧
      ∀ k < j, (a.look k).length < a.line.length + 2 ∧ (a.look k).length ≤ kMaxRequestLine := by
  have hlast : a.line.length + 2 ≤ (a.look a.later.length).length := by
    rw [look_length, List.length_append, List.length_append]
    exact Nat.le_add_right _ _
  have hexists : ∃ j, a.line.length + 2 ≤ (a.look j).length ∨
      kMaxRequestLine < (a.look j).length := ⟨a.later.length, .inl hlast⟩
  refine ⟨Nat.find hexists, Nat.find_min' hexists (.inl hlast), Nat.find_spec hexists, ?_⟩
  intro k hk
  have := Nat.find_min hexists hk
  omega

/-- A line is rejected for its length exactly when a call sees more than the limit
of it and not its end, or it is a request line that is too long. -/
theorem rejectedForLength_iff : a.RejectedForLength ↔
    (∃ j ≤ a.later.length, kMaxRequestLine < (a.look j).length ∧
      (a.look j).length < a.line.length + 2) ∨
    a.position.state = .requestLine ∧ kMaxRequestLine < a.line.length := by
  constructor
  · rintro ⟨j, hj, -, -, hcheck⟩
    rw [checksLength_look_iff] at hcheck
    split_ifs at hcheck with hfinished
    · exact .inr hcheck
    · exact .inl ⟨j, hj, hcheck, not_le.mp hfinished⟩
  · intro h
    obtain ⟨j, hj, hdecides, hbefore⟩ := a.exists_deciding
    have hwaits : ∀ k < j, findPair 13 10 (a.look k) = none ∧
        (a.look k).length ≤ kMaxRequestLine := by
      intro k hk
      obtain ⟨hunfinished, hshort⟩ := hbefore k hk
      exact ⟨(findPair_look_eq_none_iff k).mpr hunfinished, hshort⟩
    have hcheck : ChecksLength a.position (a.look j) := by
      rw [checksLength_look_iff]
      split_ifs with hfinished
      · rcases h with ⟨i, -, hlong, hunfinished⟩ | h
        · -- the look `i` comes later and would see the end too
          have hij : j ≤ i := by
            by_contra hlt
            have := (hbefore i (by omega)).2
            omega
          have := look_mono (a := a) hij
          omega
        · exact h
      · exact hdecides.resolve_left hfinished
    refine ⟨j, hj, fun k hk => ⟨?_, (hwaits k hk).1⟩, ?_, hcheck⟩
    · apply ret_outcome_of_unfinished (by omega)
      intro i hi
      exact hwaits i (by omega)
    · have hparser : (a.outcome j).parser = (guard.parse a.position (a.look j)).1 :=
        congrArg Prod.fst (outcome_eq hj hwaits)
      rw [ret_outcome, hparser, guard_parse_of_checksLength a.waits hcheck]
      rfl

/-- **Line lengths.**  The law holds exactly when no call sees a line of the
maximal length with its CR alone, and some call sees more than the limit of a
header line that is too long, and not its end. -/
theorem lengthLaw_iff (a : LineArrival) : a.LengthLaw ↔
    (a.line.length = kMaxRequestLine →
      ∀ j ≤ a.later.length, (a.look j).length ≠ kMaxRequestLine + 1) ∧
    (a.position.state = .headers → a.line.length > kMaxRequestLine →
      ∃ j ≤ a.later.length, kMaxRequestLine < (a.look j).length ∧
        (a.look j).length < a.line.length + 2) := by
  rw [LengthLaw, rejectedForLength_iff]
  have hposition : a.position.state = .requestLine ∨ a.position.state = .headers := by
    simpa [waitsForLine] using a.waits
  constructor
  · intro hlaw
    refine ⟨fun hmax j hj hcut => ?_, fun hstate hlong => ?_⟩
    · have := hlaw.mp (.inl ⟨j, hj, by omega, by omega⟩)
      omega
    · rcases hlaw.mpr hlong with hseen | ⟨hline, -⟩
      · exact hseen
      · rw [hstate] at hline
        cases hline
  · rintro ⟨hmax, hheader⟩
    constructor
    · rintro (⟨j, hj, hlong, hunfinished⟩ | ⟨-, hlong⟩)
      · -- a shorter line would have been seen to its end
        by_contra hle
        have heq : a.line.length = kMaxRequestLine := by omega
        have := hmax heq j hj
        omega
      · exact hlong
    · intro hlong
      rcases hposition with hstate | hstate
      · exact .inr ⟨hstate, hlong⟩
      · exact .inl (hheader hstate hlong)

end LineArrival

/-- The line that follows `GET / HTTP/1.1`, when it comes in one piece with it. -/
def LineArrival.ofHeader (line : Bytes) (whole : findPair 13 10 line = none) : LineArrival where
  parser := {}
  buffer := Buffer.ofSize 0
  before := bytes "GET / HTTP/1.1\r\n"
  position := {
    state := .headers
    request := { method := bytes "GET", path := bytes "/", version := bytes "HTTP/1.1" } }
  line := line
  after := []
  first := bytes "GET / HTTP/1.1\r\n" ++ line ++ crlf
  later := []
  seen := line ++ crlf
  reaches := reaches_of_step (show step {} (bytes "GET / HTTP/1.1\r\n") = some (_, 16) by decide)
  waits := rfl
  whole := whole
  begins := by simp
  arrives := by simp

/-- A header line of any length is taken when all of it is there. -/
theorem LineArrival.not_rejectedForLength_ofHeader {line : Bytes}
    (whole : findPair 13 10 line = none) : ¬ (ofHeader line whole).RejectedForLength := by
  rw [rejectedForLength_iff]
  rintro (⟨j, hj, -, hunfinished⟩ | ⟨hstate, -⟩)
  · have hlook : (ofHeader line whole).look j = line ++ crlf := by
      rw [Nat.le_zero.mp hj]
      simp [look, ofHeader]
    rw [hlook, List.length_append] at hunfinished
    exact lt_irrefl _ hunfinished
  · cases hstate

/-- One byte more than the limit, in a header line, is not rejected. -/
theorem not_lengthLaw : ¬ ∀ a : LineArrival, a.LengthLaw := by
  intro hall
  have hwhole : findPair 13 10 (bytes "a:" ++ List.replicate (kMaxRequestLine - 1) 98) = none := by
    apply findPair_of_notMem
    rw [List.mem_append, List.mem_replicate, not_or]
    exact ⟨by decide, fun h => absurd h.2 (by decide)⟩
  apply LineArrival.not_rejectedForLength_ofHeader hwhole
  apply (hall (.ofHeader _ hwhole)).mpr
  show (bytes "a:" ++ List.replicate (kMaxRequestLine - 1) 98).length > kMaxRequestLine
  rw [List.length_append, List.length_replicate]
  decide

end HttpParser

end WsServer
