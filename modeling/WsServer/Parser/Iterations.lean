import WsServer.Lib.Loop
import WsServer.Parser.Calls

/-!
# The loops of the parser

`parse` is a loop over the states of the parser, and `parseHeaders`, called in one of them, a loop
over the lines of the input.  Each is given here as its body, with the measure that makes it return
(`stateLoop`, `headerLoop`).

Every turn of the inner loop takes a line of at least two bytes from the input, or finds none and
ends `parse`.  So a call makes at most half as many of them as there are bytes, and one more
(`headerTurns_le`).  A call that completes a request takes at least one byte, unless the request was
complete before it (`readableBytes_parse_add_one_le`).
-/

namespace WsServer

open CString

namespace HttpParser

/-! ## Header lines -/

/-- One turn of the loop in `parseHeaders`. -/
def headerBody : HttpParser × Buffer → Parsed ⊕ (HttpParser × Buffer)
  | (p, buf) =>
    match peekLine buf with
    | none =>
      .inl (if buf.readableBytes > kMaxRequestLine then ⟨.error, p.fail, buf⟩
        else ⟨.incomplete, p, buf⟩)
    | some (line, consumed) =>
      if line.isEmpty then .inl ⟨p.endOfHeaders.1, p.endOfHeaders.2, buf.retrieve consumed⟩
      else
        match p.readHeaderLine line with
        | none => .inl ⟨.error, p.fail, buf.retrieve consumed⟩
        | some p' => .inr (p', buf.retrieve consumed)

/-- The input after a turn. -/
def bufferAfter : Parsed ⊕ (HttpParser × Buffer) → Buffer
  | .inl r => r.buf
  | .inr t => t.2

variable {p p' : HttpParser} {buf buf' : Buffer} {r : Parsed}

theorem headerBody_of_none (h : peekLine buf = none) :
    ∃ r, headerBody (p, buf) = .inl r ∧ r.ret ≠ .ok ∧ r.buf = buf := by
  simp only [headerBody, h]
  refine ⟨_, rfl, ?_⟩
  split
  · exact ⟨Ret.noConfusion, rfl⟩
  · exact ⟨Ret.noConfusion, rfl⟩

/-- A line that is found is taken. -/
theorem bufferAfter_headerBody {line : Bytes} {consumed : ℕ}
    (h : peekLine buf = some (line, consumed)) :
    bufferAfter (headerBody (p, buf)) = buf.retrieve consumed := by
  simp only [headerBody, h]
  split
  · rfl
  · split <;> rfl

theorem readableBytes_bufferAfter {line : Bytes} {consumed : ℕ}
    (h : peekLine buf = some (line, consumed)) :
    (bufferAfter (headerBody (p, buf))).readableBytes + 2 ≤ buf.readableBytes := by
  have hconsumed := peekLine_consumed h
  rw [bufferAfter_headerBody h, Buffer.readableBytes_retrieve]
  omega

/-- A turn that goes on has found a line. -/
theorem readableBytes_of_headerBody_inr (h : headerBody (p, buf) = .inr (p', buf')) :
    buf'.readableBytes + 2 ≤ buf.readableBytes := by
  cases hline : peekLine buf with
  | none =>
      obtain ⟨r, hr, -⟩ := headerBody_of_none (p := p) hline
      cases hr.symm.trans h
  | some found =>
      have hle := readableBytes_bufferAfter (p := p) hline
      rwa [h] at hle

/-- A turn that returns has found a line, or returns no success. -/
theorem readableBytes_of_headerBody_inl (h : headerBody (p, buf) = .inl r) :
    r.buf.readableBytes + (if r.ret = .ok then 2 else 0) ≤ buf.readableBytes := by
  cases hline : peekLine buf with
  | none =>
      obtain ⟨r', hr', hret, hbuf⟩ := headerBody_of_none (p := p) hline
      obtain rfl := Sum.inl.inj (hr'.symm.trans h)
      rw [if_neg hret, hbuf]
      exact le_rfl
  | some found =>
      have hle := readableBytes_bufferAfter (p := p) hline
      rw [h, bufferAfter] at hle
      split <;> omega

def headerLoop : Loop (HttpParser × Buffer) Parsed where
  body := headerBody
  measure t := t.2.readableBytes
  decreases := by
    rintro ⟨p, buf⟩ ⟨p', buf'⟩ hbody
    have hle := readableBytes_of_headerBody_inr hbody
    show buf'.readableBytes < buf.readableBytes
    omega

/-- `parseHeaders` is the loop with this body. -/
theorem parseHeaders_eq_result (p : HttpParser) (buf : Buffer) :
    p.parseHeaders buf = headerLoop.result (p, buf) := by
  refine headerLoop.eq_result_of_unfold (f := fun t => t.1.parseHeaders t.2) ?_ (p, buf)
  rintro ⟨p, buf⟩
  show p.parseHeaders buf = (headerBody (p, buf)).elim id _
  rw [parseHeaders, headerBody]
  split
  · rename_i hline
    simp only [hline, Sum.elim_inl, id]
  · rename_i line consumed hline
    simp only [hline]
    split
    · rfl
    · cases p.readHeaderLine line with
      | none => rfl
      | some p' => rfl

/-- Half a turn for each byte that is taken, and one more unless the lines end well. -/
theorem headerLoop_cost (p : HttpParser) (buf : Buffer) :
    2 * (headerLoop.turns (p, buf)).length + ((p.parseHeaders buf).buf.readableBytes +
      if (p.parseHeaders buf).ret = .ok then 2 else 0) ≤ buf.readableBytes + 2 := by
  have hsum := (headerLoop.returns (p, buf)).sum_cost_le (fun _ => True) (fun _ => 2)
    (fun t => t.2.readableBytes + 2)
    (fun r => r.buf.readableBytes + if r.ret = .ok then 2 else 0) ?_ ?_ trivial
  · rw [List.map_const', List.sum_replicate, smul_eq_mul, ← parseHeaders_eq_result] at hsum
    dsimp only at hsum
    omega
  · rintro ⟨p, buf⟩ ⟨p', buf'⟩ - hbody
    have hle := readableBytes_of_headerBody_inr hbody
    refine ⟨trivial, ?_⟩
    dsimp only
    omega
  · rintro ⟨p, buf⟩ r - hbody
    have hle := readableBytes_of_headerBody_inl hbody
    dsimp only
    omega

/-! ## States -/

/-- What `parse` does with the result of a section. -/
def advance (r : Parsed) : Parsed ⊕ (HttpParser × Buffer) :=
  if r.ret = .ok then .inr (r.parser, r.buf) else .inl r

/-- One turn of the loop in `parse`. -/
def stateBody : HttpParser × Buffer → Parsed ⊕ (HttpParser × Buffer)
  | (p, buf) =>
    match p.state with
    | .requestLine => advance (p.parseRequestLine buf)
    | .headers => advance (p.parseHeaders buf)
    | .body => advance (p.parseBody buf)
    | .complete => .inl ⟨.ok, p, buf⟩
    | .error => .inl ⟨.error, p, buf⟩

theorem advance_eq_inr (h : advance r = .inr (p', buf')) :
    r.ret = .ok ∧ r.parser = p' ∧ r.buf = buf' := by
  unfold advance at h
  split at h
  · rename_i hok
    obtain ⟨rfl, rfl⟩ := Prod.mk.inj (Sum.inr.inj h)
    exact ⟨hok, rfl, rfl⟩
  · cases h

theorem advance_eq_inl {r' : Parsed} (h : advance r = .inl r') : r.ret ≠ .ok ∧ r = r' := by
  unfold advance at h
  split at h
  · cases h
  · rename_i hnot
    exact ⟨hnot, Sum.inl.inj h⟩

/-- What the section that the state stands for results in. -/
inductive Section (p : HttpParser) (buf : Buffer) : Parsed → Prop
  | requestLine (h : p.state = .requestLine) : Section p buf (p.parseRequestLine buf)
  | headers (h : p.state = .headers) : Section p buf (p.parseHeaders buf)
  | body (h : p.state = .body) : Section p buf (p.parseBody buf)

/-- A turn is a section, or the parser stands at an end. -/
theorem stateBody_cases (p : HttpParser) (buf : Buffer) :
    (∃ r, Section p buf r ∧ stateBody (p, buf) = advance r) ∨
      p.state = .complete ∧ stateBody (p, buf) = .inl ⟨.ok, p, buf⟩ ∨
      p.state = .error ∧ stateBody (p, buf) = .inl ⟨.error, p, buf⟩ := by
  unfold stateBody
  cases hstate : p.state with
  | requestLine => exact .inl ⟨_, .requestLine hstate, by simp only [hstate]⟩
  | headers => exact .inl ⟨_, .headers hstate, by simp only [hstate]⟩
  | body => exact .inl ⟨_, .body hstate, by simp only [hstate]⟩
  | complete => exact .inr (.inl ⟨rfl, by simp only [hstate]⟩)
  | error => exact .inr (.inr ⟨rfl, by simp only [hstate]⟩)

/-- A turn that goes on has finished a section. -/
theorem section_of_inr (h : stateBody (p, buf) = .inr (p', buf')) :
    ∃ r, Section p buf r ∧ r.ret = .ok ∧ r.parser = p' ∧ r.buf = buf' := by
  rcases stateBody_cases p buf with ⟨r, hsection, hbody⟩ | ⟨-, hbody⟩ | ⟨-, hbody⟩
  · exact ⟨r, hsection, advance_eq_inr (hbody.symm.trans h)⟩
  · cases hbody.symm.trans h
  · cases hbody.symm.trans h

/-- A turn that returns stands at an end already, or has not finished its section. -/
theorem section_of_inl (h : stateBody (p, buf) = .inl r) :
    p.state = .complete ∧ r = ⟨.ok, p, buf⟩ ∨ p.state = .error ∧ r = ⟨.error, p, buf⟩ ∨
      Section p buf r ∧ r.ret ≠ .ok := by
  rcases stateBody_cases p buf with ⟨r', hsection, hbody⟩ | ⟨hstate, hbody⟩ | ⟨hstate, hbody⟩
  · obtain ⟨hret, rfl⟩ := advance_eq_inl (hbody.symm.trans h)
    exact .inr (.inr ⟨hsection, hret⟩)
  · exact .inl ⟨hstate, Sum.inl.inj (h.symm.trans hbody)⟩
  · exact .inr (.inl ⟨hstate, Sum.inl.inj (h.symm.trans hbody)⟩)

theorem Section.rank_lt (h : Section p buf r) (hok : r.ret = .ok) :
    r.parser.state.rank < p.state.rank := by
  cases h with
  | requestLine hstate =>
      rw [hstate, rank_parseRequestLine hok]
      decide
  | headers hstate =>
      rw [hstate]
      exact rank_parseHeaders hok
  | body hstate =>
      rw [hstate, rank_parseBody hok]
      decide

def stateLoop : Loop (HttpParser × Buffer) Parsed where
  body := stateBody
  measure t := t.1.state.rank
  decreases := by
    rintro ⟨p, buf⟩ ⟨p', buf'⟩ hbody
    obtain ⟨r, hsection, hok, rfl, -⟩ := section_of_inr hbody
    exact hsection.rank_lt hok

/-- `parse` is the loop with this body. -/
theorem parse_eq_result (p : HttpParser) (buf : Buffer) :
    p.parse buf = stateLoop.result (p, buf) := by
  have hadvance (r : Parsed) : (if r.ret = .ok then r.parser.parse r.buf else r) =
      (advance r).elim id fun t => t.1.parse t.2 := by
    unfold advance
    split <;> rfl
  refine stateLoop.eq_result_of_unfold (f := fun t => t.1.parse t.2) ?_ (p, buf)
  rintro ⟨p, buf⟩
  show p.parse buf = (stateBody (p, buf)).elim id _
  rw [parse, stateBody]
  split
  all_goals
    rename_i hstate
    simp only [hstate]
  · exact hadvance _
  · exact hadvance _
  · exact hadvance _
  · rfl
  · rfl

/-- The state advances at most three times. -/
theorem length_stateLoop_turns (p : HttpParser) (buf : Buffer) :
    (stateLoop.turns (p, buf)).length ≤ 3 + 1 := by
  have hlength := stateLoop.length_turns_le (p, buf)
  have hrank : p.state.rank ≤ 3 := by cases p.state <;> decide
  exact hlength.trans (Nat.succ_le_succ hrank)

/-- The turns of the inner loop in a call of `parse`. -/
def headerTurns (p : HttpParser) (buf : Buffer) : List (HttpParser × Buffer) :=
  (stateLoop.turns (p, buf)).flatMap fun t =>
    if t.1.state = .headers then headerLoop.turns t else []

/-- A turn of the inner loop that finds no line takes nothing, and ends `parse`. -/
theorem parse_of_no_line {t : HttpParser × Buffer} (ht : t ∈ headerTurns p buf)
    (hline : peekLine t.2 = none) :
    headerBody t = .inl (p.parse buf) ∧ (p.parse buf).ret ≠ .ok ∧ (p.parse buf).buf = t.2 := by
  obtain ⟨q, hq, hinner⟩ := List.mem_flatMap.mp ht
  split at hinner
  · rename_i hstate
    obtain ⟨r, hr, hret, hbuf⟩ := headerBody_of_none (p := t.1) hline
    have hheaders : q.1.parseHeaders q.2 = r := by
      rw [parseHeaders_eq_result]
      exact ((headerLoop.returns q).eq_of_mem hinner hr).symm
    have hbody : stateBody q = .inl r := by
      simp only [stateBody, hstate, hheaders, advance, if_neg hret]
    have hparse : p.parse buf = r := by
      rw [parse_eq_result]
      exact ((stateLoop.returns (p, buf)).eq_of_mem hq hbody).symm
    rw [hparse]
    exact ⟨hr, hret, hbuf⟩
  · cases hinner

/-! ## What a call takes -/

theorem readableBytes_parseRequestLine (p : HttpParser) (buf : Buffer) :
    (p.parseRequestLine buf).buf.readableBytes ≤ buf.readableBytes ∧
      ((p.parseRequestLine buf).ret = .ok →
        (p.parseRequestLine buf).buf.readableBytes + 1 ≤ buf.readableBytes) := by
  unfold parseRequestLine
  split
  · split
    · exact ⟨le_rfl, Ret.noConfusion⟩
    · exact ⟨le_rfl, Ret.noConfusion⟩
  · rename_i line consumed hline
    have hconsumed := peekLine_consumed hline
    split
    · exact ⟨le_rfl, Ret.noConfusion⟩
    · dsimp only
      rw [Buffer.readableBytes_retrieve]
      exact ⟨Nat.sub_le _ _, fun _ => by omega⟩

theorem readableBytes_parseHeaders (p : HttpParser) (buf : Buffer) :
    (p.parseHeaders buf).buf.readableBytes ≤ buf.readableBytes ∧
      ((p.parseHeaders buf).ret = .ok →
        (p.parseHeaders buf).buf.readableBytes + 1 ≤ buf.readableBytes) := by
  have hcost := headerLoop_cost p buf
  have hpos : 0 < (headerLoop.turns (p, buf)).length := (headerLoop.returns _).length_pos
  refine ⟨by omega, fun hok => ?_⟩
  rw [if_pos hok] at hcost
  omega

theorem readableBytes_parseBody (p : HttpParser) (buf : Buffer) :
    (p.parseBody buf).buf.readableBytes ≤ buf.readableBytes ∧
      ((p.parseBody buf).ret = .ok → 0 < p.contentLength →
        (p.parseBody buf).buf.readableBytes + 1 ≤ buf.readableBytes) := by
  unfold parseBody
  split
  · exact ⟨le_rfl, Ret.noConfusion⟩
  · rename_i hroom
    dsimp only [Buffer.retrieveAsString]
    rw [Buffer.readableBytes_retrieve]
    exact ⟨Nat.sub_le _ _, fun _ _ => by omega⟩

/-- The turns of the inner loop that a section makes. -/
theorem Section.cost_le (h : Section p buf r) :
    2 * (if p.state = .headers then headerLoop.turns (p, buf) else []).length +
      (r.buf.readableBytes + if r.ret = .ok then 2 else 0) ≤ buf.readableBytes + 2 := by
  have hret : (if r.ret = .ok then 2 else 0) ≤ 2 := by split <;> decide
  cases h with
  | requestLine hstate =>
      have hle := (readableBytes_parseRequestLine p buf).1
      rw [if_neg (by rw [hstate]; exact State.noConfusion), List.length_nil]
      omega
  | headers hstate =>
      rw [if_pos hstate]
      exact headerLoop_cost p buf
  | body hstate =>
      have hle := (readableBytes_parseBody p buf).1
      rw [if_neg (by rw [hstate]; exact State.noConfusion), List.length_nil]
      omega

/-- Half a turn of the inner loop for each byte that a call takes, and one more unless it completes
a request. -/
theorem headerTurns_le (p : HttpParser) (buf : Buffer) :
    2 * (headerTurns p buf).length + ((p.parse buf).buf.readableBytes +
      if (p.parse buf).ret = .ok then 2 else 0) ≤ buf.readableBytes + 2 := by
  have hsum := (stateLoop.returns (p, buf)).sum_cost_le (fun _ => True)
    (fun t => 2 * (if t.1.state = .headers then headerLoop.turns t else []).length)
    (fun t => t.2.readableBytes + 2)
    (fun r => r.buf.readableBytes + if r.ret = .ok then 2 else 0) ?_ ?_ trivial
  · rw [List.sum_map_mul_left, ← parse_eq_result] at hsum
    rw [headerTurns, List.length_flatMap]
    exact hsum
  · rintro ⟨p, buf⟩ ⟨p', buf'⟩ - hbody
    obtain ⟨r, hsection, hok, -, rfl⟩ := section_of_inr hbody
    have hcost := hsection.cost_le
    rw [if_pos hok] at hcost
    exact ⟨trivial, hcost⟩
  · rintro ⟨p, buf⟩ r - hbody
    rcases section_of_inl hbody with ⟨hstate, rfl⟩ | ⟨hstate, rfl⟩ | ⟨hsection, -⟩
    · simp [hstate]
    · simp [hstate]
    · exact hsection.cost_le

/-- A body that is waited for is not empty. -/
def AwaitsBody (p : HttpParser) : Prop := p.state = .body → 0 < p.contentLength

theorem awaitsBody_endOfHeaders (p : HttpParser) : p.endOfHeaders.2.AwaitsBody := by
  intro hbody
  rcases p.endOfHeaders_cases with heq | ⟨heq, -⟩ | ⟨heq, hpos, -⟩
  · rw [heq] at hbody
    cases hbody
  · rw [heq] at hbody
    cases hbody
  · rw [heq]
    exact Nat.pos_of_ne_zero hpos

theorem awaitsBody_parseHeaders (hok : (p.parseHeaders buf).ret = .ok) :
    (p.parseHeaders buf).parser.AwaitsBody := by
  fun_induction parseHeaders p buf with
  | case1 => cases hok
  | case2 => cases hok
  | case3 => exact awaitsBody_endOfHeaders _
  | case4 => cases hok
  | case5 _ _ _ _ _ _ _ _ ih => exact ih hok

/-- A finished section takes at least one byte. -/
theorem Section.takes (h : Section p buf r) (hok : r.ret = .ok) (hwaits : p.AwaitsBody) :
    r.parser.AwaitsBody ∧ r.buf.readableBytes + 1 ≤ buf.readableBytes := by
  cases h with
  | requestLine hstate =>
      refine ⟨fun hbody => ?_, (readableBytes_parseRequestLine p buf).2 hok⟩
      have hrank := rank_parseRequestLine hok
      rw [hbody] at hrank
      cases hrank
  | headers hstate =>
      exact ⟨awaitsBody_parseHeaders hok, (readableBytes_parseHeaders p buf).2 hok⟩
  | body hstate =>
      refine ⟨fun hbody => ?_, (readableBytes_parseBody p buf).2 hok (hwaits hstate)⟩
      have hrank := rank_parseBody hok
      rw [hbody] at hrank
      cases hrank

theorem Section.readableBytes_le (h : Section p buf r) :
    r.buf.readableBytes ≤ buf.readableBytes := by
  cases h with
  | requestLine => exact (readableBytes_parseRequestLine p buf).1
  | headers => exact (readableBytes_parseHeaders p buf).1
  | body => exact (readableBytes_parseBody p buf).1

/-- **Progress.**  A call that completes a request takes at least one byte. -/
theorem readableBytes_parse_add_one_le (hwaits : p.AwaitsBody) (hstate : p.state ≠ .complete)
    (hok : (p.parse buf).ret = .ok) : (p.parse buf).buf.readableBytes + 1 ≤ buf.readableBytes := by
  -- a parser that is complete already has a byte to its credit
  have hsum := (stateLoop.returns (p, buf)).sum_cost_le (fun t => t.1.AwaitsBody)
    (fun _ => 0) (fun t => t.2.readableBytes + if t.1.state = .complete then 1 else 0)
    (fun r => r.buf.readableBytes + if r.ret = .ok then 1 else 0) ?_ ?_ hwaits
  · rw [← parse_eq_result, if_pos hok] at hsum
    dsimp only at hsum
    rw [if_neg hstate] at hsum
    omega
  · rintro ⟨p, buf⟩ ⟨p', buf'⟩ hwaits hbody
    obtain ⟨r, hsection, hok, rfl, rfl⟩ := section_of_inr hbody
    obtain ⟨hwaits', htakes⟩ := hsection.takes hok hwaits
    have hcredit : (if r.parser.state = .complete then 1 else 0) ≤ 1 := by split <;> decide
    refine ⟨hwaits', ?_⟩
    dsimp only
    omega
  · rintro ⟨p, buf⟩ r hwaits hbody
    rcases section_of_inl hbody with ⟨hstate, rfl⟩ | ⟨hstate, rfl⟩ | ⟨hsection, hret⟩
    · simp [hstate]
    · simp [hstate]
    · have hle := hsection.readableBytes_le
      rw [if_neg hret]
      dsimp only
      omega

end HttpParser

end WsServer
