import WsServer.Lib.Incremental
import WsServer.Model.HttpParser

/-!
# The parser as an incremental machine

What `HttpParser::parse` is for: a machine over the unread bytes of a connection
that consumes one line or one body per step (`machine`), together with the check
that gives up on an unfinished line of more than `kMaxRequestLine` bytes
(`guard`).

`parse_eq` is the refinement.  The loops of `parse` and `parseHeaders` over a
`Buffer` compute exactly a run of the machine on the readable bytes followed by
the check, and the value returned is determined by the state reached.
Everything proved about the parser later is proved about the machine.
-/

namespace WsServer

open CString PairSearch Incremental

namespace HttpParser

/-- The two states that wait for a complete line. -/
def waitsForLine (p : HttpParser) : Bool := p.state = .requestLine || p.state = .headers

/-- The parser after one header line, blank or not, has been taken. -/
def takeHeaderLine (p : HttpParser) (line : Bytes) : HttpParser :=
  if line.isEmpty then p.endOfHeaders.2 else (p.readHeaderLine line).getD p.fail

/-- One step: a request line, a header line or a body. -/
def step (p : HttpParser) (bs : Bytes) : Option (HttpParser × ℕ) :=
  match p.state with
  | .requestLine =>
    match findPair 13 10 bs with
    | none => none
    | some i =>
      match p.readRequestLine (bs.take i) with
      | none => some (p.fail, 0)
      | some p' => some (p', i + 2)
  | .headers =>
    match findPair 13 10 bs with
    | none => none
    | some i => some (p.takeHeaderLine (bs.take i), i + 2)
  | .body =>
    if bs.length < p.contentLength then none
    else
      some ({ p with
        state := .complete
        request := { p.request with body := bs.take p.contentLength } }, p.contentLength)
  | .complete => none
  | .error => none

/-! ## Single steps -/

theorem step_requestLine_none {p : HttpParser} (hstate : p.state = .requestLine) {bs : Bytes}
    (h : findPair 13 10 bs = none) : p.step bs = none := by
  simp [step, hstate, h]

theorem step_requestLine_reject {p : HttpParser} (hstate : p.state = .requestLine) {bs : Bytes}
    {i : ℕ} (h : findPair 13 10 bs = some i) (hline : p.readRequestLine (bs.take i) = none) :
    p.step bs = some (p.fail, 0) := by
  simp [step, hstate, h, hline]

theorem step_requestLine_accept {p p' : HttpParser} (hstate : p.state = .requestLine) {bs : Bytes}
    {i : ℕ} (h : findPair 13 10 bs = some i) (hline : p.readRequestLine (bs.take i) = some p') :
    p.step bs = some (p', i + 2) := by
  simp [step, hstate, h, hline]

theorem step_headers_none {p : HttpParser} (hstate : p.state = .headers) {bs : Bytes}
    (h : findPair 13 10 bs = none) : p.step bs = none := by
  simp [step, hstate, h]

theorem step_headers {p : HttpParser} (hstate : p.state = .headers) {bs : Bytes} {i : ℕ}
    (h : findPair 13 10 bs = some i) : p.step bs = some (p.takeHeaderLine (bs.take i), i + 2) := by
  simp [step, hstate, h]

theorem step_body_none {p : HttpParser} (hstate : p.state = .body) {bs : Bytes}
    (h : bs.length < p.contentLength) : p.step bs = none := by
  simp [step, hstate, h]

theorem step_body {p : HttpParser} (hstate : p.state = .body) {bs : Bytes}
    (h : p.contentLength ≤ bs.length) :
    p.step bs = some ({ p with
      state := .complete
      request := { p.request with body := bs.take p.contentLength } }, p.contentLength) := by
  simp [step, hstate, not_lt.mpr h]

theorem step_complete {p : HttpParser} (hstate : p.state = .complete) (bs : Bytes) :
    p.step bs = none := by
  simp [step, hstate]

theorem step_error {p : HttpParser} (hstate : p.state = .error) (bs : Bytes) :
    p.step bs = none := by
  simp [step, hstate]

/-- What a step can be: a rejected or accepted request line, a header line, or a
body. -/
theorem step_cases {p p' : HttpParser} {bs : Bytes} {n : ℕ} (h : p.step bs = some (p', n)) :
    (p.state = .requestLine ∧ ∃ i, findPair 13 10 bs = some i ∧
      (p.readRequestLine (bs.take i) = none ∧ p' = p.fail ∧ n = 0 ∨
        p.readRequestLine (bs.take i) = some p' ∧ n = i + 2)) ∨
    (p.state = .headers ∧ ∃ i, findPair 13 10 bs = some i ∧
      p' = p.takeHeaderLine (bs.take i) ∧ n = i + 2) ∨
    (p.state = .body ∧ p.contentLength ≤ bs.length ∧ n = p.contentLength ∧ p' = { p with
      state := .complete, request := { p.request with body := bs.take p.contentLength } }) := by
  cases hstate : p.state with
  | requestLine =>
      refine .inl ⟨rfl, ?_⟩
      cases hfind : findPair 13 10 bs with
      | none => simp [step_requestLine_none hstate hfind] at h
      | some i =>
          refine ⟨i, rfl, ?_⟩
          cases hline : p.readRequestLine (bs.take i) with
          | none =>
              rw [step_requestLine_reject hstate hfind hline] at h
              cases h
              exact .inl ⟨rfl, rfl, rfl⟩
          | some q =>
              rw [step_requestLine_accept hstate hfind hline] at h
              cases h
              exact .inr ⟨rfl, rfl⟩
  | headers =>
      refine .inr (.inl ⟨rfl, ?_⟩)
      cases hfind : findPair 13 10 bs with
      | none => simp [step_headers_none hstate hfind] at h
      | some i =>
          rw [step_headers hstate hfind] at h
          cases h
          exact ⟨i, rfl, rfl, rfl⟩
  | body =>
      refine .inr (.inr ⟨rfl, ?_⟩)
      rcases Nat.lt_or_ge bs.length p.contentLength with hlt | hge
      · simp [step_body_none hstate hlt] at h
      · rw [step_body hstate hge] at h
        cases h
        exact ⟨hge, rfl, rfl⟩
  | complete => simp [step_complete hstate] at h
  | error => simp [step_error hstate] at h

theorem step_le {p p' : HttpParser} {bs : Bytes} {n : ℕ} (h : p.step bs = some (p', n)) :
    n ≤ bs.length := by
  rcases step_cases h with ⟨-, i, hfind, ⟨-, -, rfl⟩ | ⟨-, rfl⟩⟩ | ⟨-, i, hfind, -, rfl⟩ |
    ⟨-, hle, rfl, -⟩
  · exact Nat.zero_le _
  · exact add_two_le_of_findPair hfind
  · exact add_two_le_of_findPair hfind
  · exact hle

theorem step_progress {p p' : HttpParser} {bs : Bytes} {n : ℕ} (h : p.step bs = some (p', n)) :
    0 < n ∨ p'.state.rank < p.state.rank := by
  rcases step_cases h with ⟨hstate, i, -, ⟨-, rfl, -⟩ | ⟨-, rfl⟩⟩ | ⟨-, i, -, -, rfl⟩ |
    ⟨hstate, -, -, rfl⟩
  · refine .inr ?_
    rw [hstate]
    exact (by decide : State.rank .error < State.rank .requestLine)
  · exact .inl (Nat.succ_pos _)
  · exact .inl (Nat.succ_pos _)
  · refine .inr ?_
    rw [hstate]
    exact (by decide : State.rank .complete < State.rank .body)

theorem step_append {p p' : HttpParser} {bs : Bytes} {n : ℕ} (h : p.step bs = some (p', n))
    (more : Bytes) : p.step (bs ++ more) = some (p', n) := by
  have htake : ∀ {i : ℕ}, findPair 13 10 bs = some i → (bs ++ more).take i = bs.take i := by
    intro i hfind
    have := add_two_le_of_findPair hfind
    exact List.take_append_of_le_length (by omega)
  rcases step_cases h with ⟨hstate, i, hfind, ⟨hline, rfl, rfl⟩ | ⟨hline, rfl⟩⟩ |
    ⟨hstate, i, hfind, rfl, rfl⟩ | ⟨hstate, hle, rfl, rfl⟩
  · exact step_requestLine_reject hstate (findPair_append hfind more) (by rw [htake hfind, hline])
  · exact step_requestLine_accept hstate (findPair_append hfind more) (by rw [htake hfind, hline])
  · rw [step_headers hstate (findPair_append hfind more), htake hfind]
  · rw [step_body hstate (by rw [List.length_append]; omega),
      List.take_append_of_le_length hle]

/-! ## The machine and its check -/

/-- The parser as a machine over the unread bytes. -/
def machine : Machine HttpParser UInt8 where
  step := step
  rank := fun p => p.state.rank
  step_le := step_le
  step_progress := step_progress
  step_append := fun h more => step_append h more

@[simp] theorem machine_step (p : HttpParser) (bs : Bytes) : machine.step p bs = p.step bs := rfl

theorem reaches_of_step {p p' : HttpParser} {bs : Bytes} {n : ℕ} (h : p.step bs = some (p', n)) :
    machine.Reaches p bs p' (bs.drop n) :=
  Machine.Reaches.single (M := machine) h

theorem run_of_reaches {p q : HttpParser} {bs rest : Bytes} (h : machine.Reaches p bs q rest)
    (hstuck : q.step rest = none) : machine.run p bs = (q, rest) :=
  h.run_eq_of_stuck hstuck

/-- Giving up on an unfinished line. -/
def guard : Guard machine where
  overflow := fun p bs => p.waitsForLine && decide (bs.length > kMaxRequestLine)
  fail := fail
  fail_stuck := fun p bs => step_error (p := p.fail) rfl bs
  fail_quiet := fun _ _ => rfl
  overflow_append := by
    intro p bs h more _
    simp only [Bool.and_eq_true, decide_eq_true_eq, List.length_append] at h ⊢
    exact ⟨h.1, by omega⟩

/-- The value returned in a state. -/
def verdict : State → Ret
  | .complete => .ok
  | .error => .error
  | _ => .incomplete

theorem eq_complete_of_verdict {state : State} (h : verdict state = .ok) :
    state = .complete := by
  cases state <;> simp_all [verdict]

/-- A state with a verdict other than `incomplete` is final. -/
theorem step_of_verdict {p : HttpParser} (h : verdict p.state ≠ .incomplete) (bs : Bytes) :
    p.step bs = none := by
  cases hstate : p.state with
  | complete => exact step_complete hstate bs
  | error => exact step_error hstate bs
  | requestLine => simp [hstate, verdict] at h
  | headers => simp [hstate, verdict] at h
  | body => simp [hstate, verdict] at h

theorem guard_parse_of_verdict {p : HttpParser} (h : verdict p.state ≠ .incomplete) (bs : Bytes) :
    guard.parse p bs = (p, bs) := by
  rw [Guard.parse, Machine.run_of_stuck (step_of_verdict h bs)]
  refine Guard.finish_of_quiet ?_
  cases hstate : p.state <;> simp_all [guard, waitsForLine, verdict]

/-- Where a run has come to a verdict, `parse` leaves it. -/
theorem guard_parse_of_reaches {p q : HttpParser} {bs left : Bytes}
    (h : machine.Reaches p bs q left) (hverdict : verdict q.state ≠ .incomplete) :
    guard.parse p bs = (q, left) := by
  rw [Guard.parse_of_reaches h, guard_parse_of_verdict hverdict]

/-- The verdict `ok` is that of the machine: the check only ever rejects. -/
theorem reaches_of_guard_parse_complete {p : HttpParser} {bs : Bytes}
    (h : (guard.parse p bs).1.state = .complete) :
    machine.Reaches p bs (guard.parse p bs).1 (guard.parse p bs).2 := by
  have hrun := Machine.reaches_run (M := machine) p bs
  cases hover : guard.overflow (machine.run p bs).1 (machine.run p bs).2 with
  | false =>
      rw [Guard.parse, Guard.finish_of_quiet hover]
      exact hrun
  | true =>
      -- the state would be `error`
      rw [Guard.parse, Guard.finish_of_overflow hover] at h
      simp [guard, fail] at h

/-- A request takes at least the two bytes of a CRLF. -/
theorem length_lt_of_reaches_complete {p q : HttpParser} {bs left : Bytes}
    (h : machine.Reaches p bs q left) (hp : p.state = .requestLine) (hq : q.state = .complete) :
    left.length < bs.length := by
  cases h with
  | refl =>
      rw [hp] at hq
      cases hq
  | @step _ p' _ _ _ n hstep hrest =>
      have hle := hrest.length_le
      rcases step_cases hstep with ⟨-, i, hfind, ⟨-, rfl, -⟩ | ⟨-, rfl⟩⟩ | ⟨hstate, -⟩ | ⟨hstate, -⟩
      · -- a rejected request line is the end
        obtain ⟨rfl, -⟩ := hrest.eq_of_stuck (step_error (p := p.fail) rfl (bs.drop n))
        cases hq
      · -- an accepted one is taken with its CRLF
        have hroom := add_two_le_of_findPair hfind
        rw [List.length_drop] at hle
        omega
      · rw [hp] at hstate
        cases hstate
      · rw [hp] at hstate
        cases hstate

/-! ## Refinement -/

/-- A call that does not return `ok` has run the machine to a stop and made the
check; a call that returns `ok` has only run the machine. -/
def Agrees (p : HttpParser) (bs : Bytes) (r : Parsed) : Prop :=
  if r.ret = .ok then machine.Reaches p bs r.parser r.buf.readable
  else guard.parse p bs = (r.parser, r.buf.readable) ∧ r.ret = verdict r.parser.state

theorem agrees_ok {p q : HttpParser} {bs : Bytes} {buf : Buffer}
    (h : machine.Reaches p bs q buf.readable) : Agrees p bs ⟨.ok, q, buf⟩ := by
  rw [Agrees, if_pos rfl]
  exact h

theorem agrees_error {p q : HttpParser} {bs : Bytes} {buf : Buffer}
    (h : machine.Reaches p bs q buf.readable) (hstate : q.state = .error) :
    Agrees p bs ⟨.error, q, buf⟩ := by
  rw [Agrees, if_neg (by simp)]
  refine ⟨?_, by rw [hstate]; rfl⟩
  rw [Guard.parse_of_reaches h]
  exact guard_parse_of_verdict (by rw [hstate]; decide) _

/-- An unfinished line: the parser waits, or gives up when it is too long. -/
theorem agrees_unfinished {p : HttpParser} {buf : Buffer} (hwait : p.waitsForLine = true)
    (hstuck : p.step buf.readable = none) :
    Agrees p buf.readable
      (if buf.readableBytes > kMaxRequestLine then ⟨.error, p.fail, buf⟩
        else ⟨.incomplete, p, buf⟩) := by
  have hrun : machine.run p buf.readable = (p, buf.readable) := Machine.run_of_stuck hstuck
  split
  · rename_i hlong
    rw [Agrees, if_neg (by simp)]
    refine ⟨?_, rfl⟩
    rw [Guard.parse, hrun]
    exact Guard.finish_of_overflow (by simpa [guard, hwait] using hlong)
  · rename_i hshort
    rw [Agrees, if_neg (by simp)]
    refine ⟨?_, ?_⟩
    · rw [Guard.parse, hrun]
      exact Guard.finish_of_quiet (by simpa [guard, hwait] using hshort)
    · cases hstate : p.state <;> simp_all [waitsForLine, verdict]

theorem agrees_parseRequestLine {p : HttpParser} (hstate : p.state = .requestLine) (buf : Buffer) :
    Agrees p buf.readable (p.parseRequestLine buf) := by
  unfold parseRequestLine
  split
  · rename_i hpeek
    exact agrees_unfinished (by simp [waitsForLine, hstate])
      (step_requestLine_none hstate (peekLine_eq_none.mp hpeek))
  · rename_i line consumed hpeek
    obtain ⟨crlf, hfind, rfl, rfl⟩ := peekLine_eq_some hpeek
    split
    · rename_i hline
      exact agrees_error (reaches_of_step (step_requestLine_reject hstate hfind hline)) rfl
    · rename_i p' hline
      refine agrees_ok ?_
      rw [Buffer.readable_retrieve]
      exact reaches_of_step (step_requestLine_accept hstate hfind hline)

theorem agrees_of_step {p p' : HttpParser} {buf : Buffer} {n : ℕ} {r : Parsed}
    (hstep : p.step buf.readable = some (p', n))
    (h : Agrees p' (buf.retrieve n).readable r) : Agrees p buf.readable r := by
  rw [Buffer.readable_retrieve] at h
  have hreach : machine.Reaches p buf.readable p' (buf.readable.drop n) :=
    reaches_of_step hstep
  unfold Agrees at h ⊢
  split at h
  · rename_i hok
    rw [if_pos hok]
    exact hreach.trans h
  · rename_i hok
    rw [if_neg hok, Guard.parse_of_reaches hreach]
    exact h

theorem agrees_parseHeaders {p : HttpParser} (hstate : p.state = .headers) (buf : Buffer) :
    Agrees p buf.readable (p.parseHeaders buf) := by
  fun_induction parseHeaders p buf with
  | case1 p buf hpeek hlong =>
      have hwait : p.waitsForLine = true := by simp [waitsForLine, hstate]
      have := agrees_unfinished hwait (step_headers_none hstate (peekLine_eq_none.mp hpeek))
      rwa [if_pos hlong] at this
  | case2 p buf hpeek hshort =>
      have hwait : p.waitsForLine = true := by simp [waitsForLine, hstate]
      have := agrees_unfinished hwait (step_headers_none hstate (peekLine_eq_none.mp hpeek))
      rwa [if_neg hshort] at this
  | case3 p buf line consumed hpeek hblank =>
      obtain ⟨crlf, hfind, rfl, rfl⟩ := peekLine_eq_some hpeek
      have hstep := step_headers hstate hfind
      rw [takeHeaderLine, if_pos hblank] at hstep
      refine agrees_of_step hstep ?_
      rcases p.endOfHeaders_cases with heq | ⟨heq, -⟩ | ⟨heq, -⟩
      · rw [heq]
        exact agrees_error (.refl _ _) rfl
      · rw [heq]
        exact agrees_ok (.refl _ _)
      · rw [heq]
        exact agrees_ok (.refl _ _)
  | case4 p buf line consumed hpeek hblank hline =>
      obtain ⟨crlf, hfind, rfl, rfl⟩ := peekLine_eq_some hpeek
      have hstep := step_headers hstate hfind
      rw [takeHeaderLine, if_neg hblank, hline] at hstep
      exact agrees_of_step hstep (agrees_error (.refl _ _) rfl)
  | case5 p buf line consumed hpeek hblank p' hline ih =>
      obtain ⟨crlf, hfind, rfl, rfl⟩ := peekLine_eq_some hpeek
      have hstep := step_headers hstate hfind
      rw [takeHeaderLine, if_neg hblank, hline] at hstep
      exact agrees_of_step hstep (ih (by rw [state_readHeaderLine hline, hstate]))

theorem agrees_parseBody {p : HttpParser} (hstate : p.state = .body) (buf : Buffer) :
    Agrees p buf.readable (p.parseBody buf) := by
  unfold parseBody
  split
  · rename_i hshort
    have hstuck : p.step buf.readable = none := step_body_none hstate (by simpa using hshort)
    rw [Agrees, if_neg (by simp)]
    refine ⟨?_, by simp [hstate, verdict]⟩
    rw [Guard.parse, Machine.run_of_stuck hstuck]
    exact Guard.finish_of_quiet (by simp [guard, waitsForLine, hstate])
  · rename_i hlong
    refine agrees_ok ?_
    show machine.Reaches p buf.readable { p with
      state := .complete
      request := { p.request with body := (buf.retrieveAsString p.contentLength).1 } }
      (buf.retrieveAsString p.contentLength).2.readable
    rw [Buffer.readable_retrieveAsString, Buffer.retrieveAsString_fst]
    exact reaches_of_step (step_body hstate (by simpa using hlong))

theorem agrees_parse (p : HttpParser) (buf : Buffer) :
    guard.parse p buf.readable = ((p.parse buf).parser, (p.parse buf).buf.readable) ∧
      (p.parse buf).ret = verdict (p.parse buf).parser.state := by
  -- a section that returns `ok` hands over to the next one, any other result is final
  have hsection : ∀ {q : HttpParser} {b : Buffer} {r next : Parsed}, Agrees q b.readable r →
      (r.ret = .ok → guard.parse r.parser r.buf.readable = (next.parser, next.buf.readable) ∧
        next.ret = verdict next.parser.state) → (r.ret ≠ .ok → next = r) →
      guard.parse q b.readable = (next.parser, next.buf.readable) ∧
        next.ret = verdict next.parser.state := by
    intro q b r next hagrees hok hstop
    by_cases hret : r.ret = .ok
    · rw [Agrees, if_pos hret] at hagrees
      rw [Guard.parse_of_reaches hagrees]
      exact hok hret
    · rw [Agrees, if_neg hret] at hagrees
      rw [hstop hret]
      exact hagrees
  fun_induction parse p buf with
  | case1 p buf hstate r hok ih =>
      exact hsection (agrees_parseRequestLine hstate buf) (fun _ => ih) (fun h => absurd hok h)
  | case2 p buf hstate r hok =>
      exact hsection (agrees_parseRequestLine hstate buf) (fun h => absurd h hok) (fun _ => rfl)
  | case3 p buf hstate r hok ih =>
      exact hsection (agrees_parseHeaders hstate buf) (fun _ => ih) (fun h => absurd hok h)
  | case4 p buf hstate r hok =>
      exact hsection (agrees_parseHeaders hstate buf) (fun h => absurd h hok) (fun _ => rfl)
  | case5 p buf hstate r hok ih =>
      exact hsection (agrees_parseBody hstate buf) (fun _ => ih) (fun h => absurd hok h)
  | case6 p buf hstate r hok =>
      exact hsection (agrees_parseBody hstate buf) (fun h => absurd h hok) (fun _ => rfl)
  | case7 p buf hstate =>
      exact ⟨guard_parse_of_verdict (by rw [hstate]; decide) _, by rw [hstate]; rfl⟩
  | case8 p buf hstate =>
      exact ⟨guard_parse_of_verdict (by rw [hstate]; decide) _, by rw [hstate]; rfl⟩

/-- **Refinement.**  `parse` leaves the parser and the readable bytes that the
machine and its check leave. -/
theorem parse_eq (p : HttpParser) (buf : Buffer) :
    ((p.parse buf).parser, (p.parse buf).buf.readable) = guard.parse p buf.readable :=
  (agrees_parse p buf).1.symm

theorem parser_parse (p : HttpParser) (buf : Buffer) :
    (p.parse buf).parser = (guard.parse p buf.readable).1 :=
  congrArg Prod.fst (parse_eq p buf)

theorem readable_parse (p : HttpParser) (buf : Buffer) :
    (p.parse buf).buf.readable = (guard.parse p buf.readable).2 :=
  congrArg Prod.snd (parse_eq p buf)

/-- The value returned is determined by the state in which `parse` stops. -/
theorem ret_parse (p : HttpParser) (buf : Buffer) :
    (p.parse buf).ret = verdict (guard.parse p buf.readable).1.state := by
  rw [(agrees_parse p buf).2, parser_parse]

/-! ## Progress -/

theorem readableBytes_parse_le (p : HttpParser) (buf : Buffer) :
    (p.parse buf).buf.readableBytes ≤ buf.readableBytes := by
  rw [← Buffer.length_readable, ← Buffer.length_readable, readable_parse, Guard.parse_snd]
  exact (Machine.reaches_run (M := machine) p buf.readable).length_le

theorem readableBytes_parse_lt {p : HttpParser} {buf : Buffer} (hstate : p.state = .requestLine)
    (hok : (p.parse buf).ret = .ok) : (p.parse buf).buf.readableBytes < buf.readableBytes := by
  have hcomplete : (guard.parse p buf.readable).1.state = .complete := by
    apply eq_complete_of_verdict
    rw [← ret_parse, hok]
  rw [← Buffer.length_readable, ← Buffer.length_readable, readable_parse]
  exact length_lt_of_reaches_complete (reaches_of_guard_parse_complete hcomplete) hstate hcomplete

end HttpParser

end WsServer
