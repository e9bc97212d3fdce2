import WsServer.Parser.Calls

/-!
# What is left in the buffer

A parser that waits keeps in its buffer only what it cannot use yet: the
beginning of one line, within the limit for lines, or of one body, shorter than
the stated length, which is within the limit for bodies (`retention`).

`HasRead items p` says how a parser comes to the state `p` by taking whole items,
lines with their CRLF and bodies, each where it waited for one.  All bytes that
have been in the buffer are the items taken and what is left.
-/

namespace WsServer

open CString PairSearch Incremental

namespace HttpParser

/-- What is taken off the buffer at once. -/
inductive Item
  | line (text : Bytes)
  | body (text : Bytes)
  deriving DecidableEq

def Item.bytes : Item → Bytes
  | .line text => text ++ crlf
  | .body text => text

/-- The bytes of items, one after another. -/
def itemBytes (items : List Item) : Bytes := items.flatMap Item.bytes

/-- The items that a parser has taken to come to its state. -/
inductive HasRead : List Item → HttpParser → Prop
  | fresh : HasRead [] {}
  | requestLine {items : List Item} {p q : HttpParser} {text : Bytes} :
      HasRead items p → p.state = .requestLine → findPair 13 10 text = none →
      p.readRequestLine text = some q → HasRead (items ++ [.line text]) q
  | headerLine {items : List Item} {p : HttpParser} {text : Bytes} :
      HasRead items p → p.state = .headers → findPair 13 10 text = none →
      HasRead (items ++ [.line text]) (p.takeHeaderLine text)
  | body {items : List Item} {p : HttpParser} {text : Bytes} :
      HasRead items p → p.state = .body → text.length = p.contentLength →
      HasRead (items ++ [.body text])
        { p with state := .complete, request := { p.request with body := text } }
  | fail {items : List Item} {p : HttpParser} : HasRead items p → HasRead items p.fail
  | reset {items : List Item} {p : HttpParser} : HasRead items p → HasRead items p.reset

theorem itemBytes_concat (items : List Item) (item : Item) :
    itemBytes (items ++ [item]) = itemBytes items ++ item.bytes := by
  simp [itemBytes]

theorem eq_line_append {bs : Bytes} {i : ℕ} (h : findPair 13 10 bs = some i) :
    bs = Item.bytes (.line (bs.take i)) ++ bs.drop (i + 2) := by
  have hsplit := eq_of_findPair h
  rw [Item.bytes, crlf, List.append_assoc]
  exact hsplit

/-- **One step** takes one item, or gives up. -/
theorem HasRead.step {items : List Item} {p q : HttpParser} (h : HasRead items p) {bs : Bytes}
    {n : ℕ} (hstep : p.step bs = some (q, n)) :
    ∃ later, HasRead later q ∧ itemBytes later ++ bs.drop n = itemBytes items ++ bs := by
  rcases step_cases hstep with ⟨hstate, i, hfind, ⟨-, rfl, rfl⟩ | ⟨hread, rfl⟩⟩ |
    ⟨hstate, i, hfind, rfl, rfl⟩ | ⟨hstate, hlength, rfl, rfl⟩
  · exact ⟨items, h.fail, rfl⟩
  · refine ⟨_, h.requestLine hstate (findPair_take hfind) hread, ?_⟩
    rw [itemBytes_concat, List.append_assoc, ← eq_line_append hfind]
  · refine ⟨_, h.headerLine hstate (findPair_take hfind), ?_⟩
    rw [itemBytes_concat, List.append_assoc, ← eq_line_append hfind]
  · refine ⟨items ++ [.body (bs.take p.contentLength)], h.body hstate ?_, ?_⟩
    · rw [List.length_take, min_eq_left hlength]
    · rw [itemBytes_concat, Item.bytes, List.append_assoc, List.take_append_drop]

theorem HasRead.of_reaches {items : List Item} {p q : HttpParser} (h : HasRead items p)
    {bs rest : Bytes} (hreach : machine.Reaches p bs q rest) :
    ∃ later, HasRead later q ∧ itemBytes later ++ rest = itemBytes items ++ bs := by
  induction hreach generalizing items with
  | refl => exact ⟨items, h, rfl⟩
  | step hstep _ ih =>
      obtain ⟨between, hbetween, hbytes⟩ := h.step hstep
      obtain ⟨later, hlater, hrest⟩ := ih hbetween
      exact ⟨later, hlater, hrest.trans hbytes⟩

/-- **One call** takes whole items. -/
theorem HasRead.parse {items : List Item} {p : HttpParser} (h : HasRead items p) (b : Buffer) :
    ∃ later, HasRead later (p.parse b).parser ∧
      itemBytes later ++ (p.parse b).buf.readable = itemBytes items ++ b.readable := by
  obtain ⟨later, hlater, hbytes⟩ := h.of_reaches (Machine.reaches_run p b.readable)
  refine ⟨later, ?_, ?_⟩
  · rw [parser_parse, Guard.parse, Guard.finish]
    split
    · exact hlater.fail
    · exact hlater
  · rw [readable_parse, Guard.parse_snd]
    exact hbytes

/-- All bytes that have been in the buffer are those of the items taken, and those
that are left. -/
def Feeding.Accounted (s : Feeding) : Prop :=
  ∃ items, HasRead items s.parser ∧ s.received = itemBytes items ++ s.buffer.readable

theorem Feeding.accounted_step (s : Feeding) (call : Call) (h : s.Accounted) :
    (s.step call).Accounted := by
  obtain ⟨items, hread, hreceived⟩ := h
  cases call with
  | append piece =>
      refine ⟨items, hread, ?_⟩
      show s.received ++ piece = itemBytes items ++ (s.buffer.append piece).readable
      rw [Buffer.readable_append, hreceived, List.append_assoc]
  | parse =>
      obtain ⟨later, hlater, hbytes⟩ := hread.parse s.buffer
      exact ⟨later, hlater, hreceived.trans hbytes.symm⟩
  | reset => exact ⟨items, hread.reset, hreceived⟩

theorem Feeding.accounted_after (b : Buffer) (calls : List Call) : (after b calls).Accounted :=
  Transition.run_invariant accounted_step ⟨[], .fresh, rfl⟩ calls

/-! ## Waiting -/

/-- What is left in the buffer is the beginning of one line, or of one body. -/
def Waits (p : HttpParser) (left : Bytes) : Prop :=
  (p.state = .requestLine ∨ p.state = .headers) ∧ left.length ≤ kMaxRequestLine ∧
      findPair 13 10 left = none ∨
    p.state = .body ∧ left.length < p.contentLength ∧ p.contentLength ≤ kMaxBody

theorem waits_of_stuck {p : HttpParser} (h : Valid p) {left : Bytes} (hstuck : p.step left = none)
    (hquiet : guard.overflow p left = false) (hwait : verdict p.state = .incomplete) :
    Waits p left := by
  have hline : p.waitsForLine = true → left.length ≤ kMaxRequestLine ∧
      findPair 13 10 left = none := by
    intro hwaits
    refine ⟨?_, (step_eq_none_iff hwaits).mp hstuck⟩
    simpa [guard, hwaits] using hquiet
  cases hstate : p.state with
  | requestLine => exact .inl ⟨.inl hstate, hline (by simp [waitsForLine, hstate])⟩
  | headers => exact .inl ⟨.inr hstate, hline (by simp [waitsForLine, hstate])⟩
  | body =>
      refine .inr ⟨hstate, ?_, (h.waiting hstate).2⟩
      by_contra hlong
      rw [step_body hstate (not_lt.mp hlong)] at hstuck
      cases hstuck
  | complete =>
      rw [hstate] at hwait
      cases hwait
  | error =>
      rw [hstate] at hwait
      cases hwait

theorem waits_of_incomplete {p : HttpParser} (h : Valid p) {b : Buffer}
    (hwait : (p.parse b).ret = .incomplete) :
    Waits (p.parse b).parser (p.parse b).buf.readable := by
  have hvalid := h.of_reaches (Machine.reaches_run p b.readable)
  have hstuck := Machine.step_run (M := machine) p b.readable
  rw [ret_parse] at hwait
  rw [parser_parse, readable_parse]
  cases hover : guard.overflow (machine.run p b.readable).1 (machine.run p b.readable).2 with
  | true =>
      -- giving up is not waiting
      rw [Guard.parse, Guard.finish_of_overflow hover] at hwait
      cases hwait
  | false =>
      rw [Guard.parse, Guard.finish_of_quiet hover] at hwait ⊢
      exact waits_of_stuck hvalid hstuck hover hwait

/-- **Bounded retention.**  When `parse` returns `incomplete`, whatever has been
appended and called before, what is left in the buffer is the beginning of the
line or body that the parser waits for, within the limits; everything before it
has been taken in whole lines and bodies. -/
theorem retention (b : Buffer) (calls : List Call)
    (hwait : (Feeding.after b calls).parsed.ret = .incomplete) :
    Waits (Feeding.after b calls).parsed.parser (Feeding.after b calls).parsed.buf.readable ∧
      ∃ items, HasRead items (Feeding.after b calls).parsed.parser ∧
        (Feeding.after b calls).received =
          itemBytes items ++ (Feeding.after b calls).parsed.buf.readable := by
  refine ⟨waits_of_incomplete (valid_after b calls) hwait, ?_⟩
  obtain ⟨items, hread, hreceived⟩ := Feeding.accounted_after b calls
  obtain ⟨later, hlater, hbytes⟩ := hread.parse (Feeding.after b calls).buffer
  exact ⟨later, hlater, hreceived.trans hbytes.symm⟩

/-- One request, and the beginning of another up to the CR of a header line. -/
def sampleCalls : List Call :=
  [.append (bytes "GET / HTTP/1.1\r\n\r\nGET"), .parse, .reset,
    .append (bytes " /a HTTP/1.1\r\nHost: x\r")]

/-- The law after these calls. -/
theorem retention_sample :
    Waits (Feeding.after (Buffer.ofSize 16) sampleCalls).parsed.parser
      (Feeding.after (Buffer.ofSize 16) sampleCalls).parsed.buf.readable ∧
    (Feeding.after (Buffer.ofSize 16) sampleCalls).parsed.buf.readable = bytes "Host: x\r" :=
  ⟨(retention (Buffer.ofSize 16) sampleCalls (by decide +kernel)).1, by decide +kernel⟩

end HttpParser

end WsServer
