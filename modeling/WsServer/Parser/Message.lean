import WsServer.Parser.Head

/-!
# Requests on the wire

A `Message` is an accepted head with a body of exactly the length that the head
states.  Parsing a message followed by any bytes returns `ok` with the message's
request, and leaves those bytes (`parse_encode`).  Since `reset` makes the parser
a fresh one, a stream of messages is read one message after another
(`parseEach_encode`).

A message with short lines can also be cut anywhere: while it is incomplete the
parser waits, and goes on as if the pieces had come together (`parse_cut`).
-/

namespace WsServer

open CString PairSearch Incremental

namespace HttpParser

/-- A complete request. -/
structure Message where
  head : RequestHead
  line : RequestLine
  accepted : head.Accepted line
  body : Bytes
  body_length : body.length = statedLength head.lines

namespace Message

def encode (m : Message) : Bytes := m.head.encode ++ m.body

/-- The request as the handler gets it. -/
def request (m : Message) : HttpRequest := m.head.request m.line m.body

/-- The parser that has read the message. -/
def finished (m : Message) : HttpParser where
  state := .complete
  request := m.request
  contentLength := m.body.length

theorem encode_ne_nil (m : Message) : m.encode ≠ [] := by
  intro h
  have := congrArg List.length h
  simp [encode, RequestHead.encode, crlf] at this

theorem reaches_finished (m : Message) (rest : Bytes) :
    machine.Reaches {} (m.encode ++ rest) m.finished rest := by
  have hbody : statedLength m.head.lines ≤ (m.body ++ rest).length := by
    rw [List.length_append, ← m.body_length]
    exact Nat.le_add_right _ _
  have hreach := reaches_request m.accepted hbody
  rw [← m.body_length, List.take_left, List.drop_left] at hreach
  rw [encode, List.append_assoc]
  exact hreach

theorem guard_parse_encode (m : Message) (rest : Bytes) :
    guard.parse {} (m.encode ++ rest) = (m.finished, rest) :=
  guard_parse_of_reaches (m.reaches_finished rest) (by simp [finished, verdict])

/-- **One message.**  `parse` returns `ok`, the request is the message's, and
what follows the message is unread. -/
theorem parse_encode (m : Message) {b : Buffer} {rest : Bytes}
    (hb : b.readable = m.encode ++ rest) :
    (parse {} b).ret = .ok ∧ (parse {} b).parser = m.finished ∧
      (parse {} b).buf.readable = rest := by
  refine ⟨?_, ?_, ?_⟩
  · rw [ret_parse, hb, guard_parse_encode]
    rfl
  · rw [parser_parse, hb, guard_parse_encode]
  · rw [readable_parse, hb, guard_parse_encode]

end Message

/-! ## Messages with short lines -/

/-- Every line of the head is shorter than the limit. -/
def Message.Short (m : Message) : Prop :=
  m.head.requestLine.length < kMaxRequestLine ∧
    ∀ line ∈ m.head.lines, line.length < kMaxRequestLine

instance (m : Message) : Decidable m.Short := inferInstanceAs (Decidable (_ ∧ _))

/-- Nothing is met after the header section. -/
theorem shortLines_of_not_waits {p : HttpParser} (hstate : p.state = .body ∨ p.state = .complete)
    (stream : Bytes) : ShortLines p stream := by
  have hwait : p.waitsForLine ≠ true := by
    rcases hstate with hstate | hstate <;> simp [waitsForLine, hstate]
  apply shortLines_of_step
  · intro h
    exact absurd h hwait
  · intro p' n hstep
    rcases step_cases hstep with ⟨hline, -⟩ | ⟨hline, -⟩ | ⟨-, -, -, rfl⟩
    · exact absurd (by simp [waitsForLine, hline]) hwait
    · exact absurd (by simp [waitsForLine, hline]) hwait
    · apply shortLines_of_step
      · intro h
        simp [waitsForLine] at h
      · intro p' n hstep
        rw [step_complete rfl] at hstep
        simp at hstep

theorem shortLines_headerLine {p : HttpParser} (hstate : p.state = .headers) {line : Bytes}
    (hwhole : findPair 13 10 line = none) (hshort : line.length < kMaxRequestLine) {rest : Bytes}
    (hrest : ShortLines (p.takeHeaderLine line) rest) : ShortLines p (line ++ crlf ++ rest) := by
  have hfind := findPair_headerLine hwhole rest
  apply shortLines_of_step
  · intro _ i hi
    rw [hfind] at hi
    cases hi
    exact hshort
  · intro p' n hstep
    rw [step_headers hstate hfind, List.append_assoc, List.take_left] at hstep
    cases hstep
    rwa [show line.length + 2 = (line ++ crlf).length by simp [crlf], List.drop_left]

theorem shortLines_headerLines {p q : HttpParser} (hstate : p.state = .headers)
    {lines : List Bytes} (hwhole : ∀ line ∈ lines, line ≠ [] ∧ findPair 13 10 line = none)
    (hshort : ∀ line ∈ lines, line.length < kMaxRequestLine)
    (h : lines.foldlM readHeaderLine p = some q) {rest : Bytes} (hrest : ShortLines q rest) :
    ShortLines p (RequestHead.linesText lines ++ rest) := by
  induction lines generalizing p with
  | nil =>
      cases h
      exact hrest
  | cons line lines ih =>
      obtain ⟨p', hline, hlines⟩ := Option.bind_eq_some_iff.mp h
      obtain ⟨hne, hpair⟩ := hwhole line List.mem_cons_self
      rw [RequestHead.linesText, List.flatMap_cons, List.append_assoc]
      apply shortLines_headerLine hstate hpair (hshort line List.mem_cons_self)
      rw [takeHeaderLine, if_neg (by simpa using hne), hline]
      exact ih (by rw [Option.getD_some, state_readHeaderLine hline, hstate])
        (fun other hmem => hwhole other (List.mem_cons_of_mem _ hmem))
        (fun other hmem => hshort other (List.mem_cons_of_mem _ hmem)) hlines

/-- The lines met in a stream that begins with a short message are those of the
message. -/
theorem Message.shortLines {m : Message} (hshort : m.Short) (more : Bytes) :
    ShortLines {} (m.encode ++ more) := by
  obtain ⟨hq, -⟩ := reaches_of_headerLines rfl m.head.lines_whole
    ((afterLines_eq (p := { state := .headers, request := m.line.request }) rfl rfl
      m.head.lines).1 m.accepted.wellFormed.lines) []
  rw [Message.encode, List.append_assoc]
  -- the request line, then the header lines, then the blank line
  apply shortLines_of_step
  · intro _ i hi
    rw [findPair_requestLine] at hi
    cases hi
    exact hshort.1
  · intro p' n hstep
    have hread : readRequestLine {} ((m.head.encode ++ (m.body ++ more)).take
        m.head.requestLine.length) = some { state := .headers, request := m.line.request } := by
      rw [take_requestLine, ← m.accepted.wellFormed.requestLine, readRequestLine_text]
    rw [step_requestLine_accept rfl (findPair_requestLine m.head _) hread] at hstep
    cases hstep
    rw [show m.head.requestLine.length + 2 = (m.head.requestLine ++ crlf).length by simp [crlf],
      encode_append, List.drop_left]
    apply shortLines_headerLines rfl m.head.lines_whole hshort.2
      ((afterLines_eq rfl rfl m.head.lines).1 m.accepted.wellFormed.lines)
    apply shortLines_headerLine hq (show findPair 13 10 ([] : Bytes) = none from rfl) (by decide)
    apply shortLines_of_not_waits
    rw [takeHeaderLine_nil, endOfHeaders_afterLines, m.accepted.coding,
      if_neg (not_lt.mpr m.accepted.wellFormed.length)]
    simp only [Bool.false_eq_true, if_false]
    split_ifs
    · exact .inr rfl
    · exact .inl rfl

/-- Parsing a front of the message and then going on is parsing all of it. -/
theorem Message.parse_cut {m : Message} (hshort : m.Short) {front piece more : Bytes}
    (h : front ++ piece <+: m.encode ++ more) :
    guard.parse (guard.parse {} front).1 ((guard.parse {} front).2 ++ piece) =
      guard.parse {} (front ++ piece) := by
  apply (Guard.parse_append _).symm
  exact persistent_of_shortLines ((m.shortLines hshort more).of_front h)

/-- While the message is incomplete the parser waits. -/
theorem Message.verdict_front {m : Message} (hshort : m.Short) {front more : Bytes}
    (h : front <+: m.encode ++ more) (hlength : front.length < m.encode.length) :
    verdict (guard.parse {} front).1.state = .incomplete := by
  obtain ⟨rest, hrest⟩ : front <+: m.encode :=
    List.prefix_of_prefix_length_le h (List.prefix_append _ _) hlength.le
  -- with a verdict on the front, the rest of the message would be left unread
  by_contra hverdict
  have hall : front ++ rest <+: m.encode ++ [] := by rw [hrest, List.append_nil]
  have hcut := m.parse_cut hshort hall
  have hwhole := m.guard_parse_encode []
  rw [guard_parse_of_verdict hverdict, hrest] at hcut
  rw [List.append_nil] at hwhole
  have hnil := congrArg Prod.snd (hcut.trans hwhole)
  have hempty : rest = [] := (List.append_eq_nil_iff.mp hnil).2
  rw [hempty, List.append_nil] at hrest
  rw [hrest] at hlength
  omega

/-! ## Streams of messages -/

theorem guard_parse_nil : guard.parse {} [] = ({}, []) := by
  have hstuck : step {} [] = none := step_requestLine_none rfl rfl
  rw [Guard.parse, run_of_reaches (.refl {} []) hstuck]
  exact Guard.finish_of_quiet rfl

/-- The messages of a stream, one after another. -/
def encodeAll (messages : List Message) : Bytes := messages.flatMap Message.encode

/-- Alternate `parse` and `reset`; the values returned and the requests read. -/
def parseEach : ℕ → HttpParser → Buffer → List (Ret × HttpRequest) × HttpParser × Buffer
  | 0, p, b => ([], p, b)
  | n + 1, p, b =>
    let r := p.parse b
    let later := parseEach n r.parser.reset r.buf
    ((r.ret, r.parser.request) :: later.1, later.2)

/-- **A stream of messages.**  Each is read as if it were the only one. -/
theorem parseEach_encode (messages : List Message) {b : Buffer} {rest : Bytes}
    (hb : b.readable = encodeAll messages ++ rest) :
    (parseEach messages.length {} b).1 = messages.map (fun m => (.ok, m.request)) ∧
      (parseEach messages.length {} b).2.1 = {} ∧
      (parseEach messages.length {} b).2.2.readable = rest := by
  induction messages generalizing b with
  | nil => exact ⟨rfl, rfl, hb⟩
  | cons m messages ih =>
      rw [encodeAll, List.flatMap_cons, List.append_assoc] at hb
      obtain ⟨hret, hparser, hrest⟩ := m.parse_encode hb
      obtain ⟨hlist, hlast, hleft⟩ := ih hrest
      simp only [List.length_cons, parseEach, reset_eq]
      refine ⟨?_, hlast, hleft⟩
      rw [hlist, hret, hparser]
      rfl

end HttpParser

end WsServer
