import WsServer.Model.Buffer
import WsServer.Model.Http

/-!
# The request parser

`http_parser.h`, `http_parser.cpp`: a state machine that resumes where it
stopped.  `parse` advances the state until the request is complete, the input is
malformed, or more bytes are needed.

The checks on one line are functions of their own (`readRequestLine`,
`readHeaderLine`, `endOfHeaders`): a rejected line changes nothing but the
state, which the callers set to `error` by `fail`.
-/

namespace WsServer

open CString

/-! ## Helpers on strings -/

def toLower (s : Bytes) : Bytes := s.map tolower

/-- Without white space at either end. -/
def trim (s : Bytes) : Bytes := (s.dropWhile isspace).rdropWhile isspace

/-- `s.find(c)`; `none` is `npos`. -/
def find (c : UInt8) (s : Bytes) : Option ℕ := s.findIdx? fun x => x = c

/-- `s.find(c, from)`. -/
def findFrom (c : UInt8) (s : Bytes) (start : ℕ) : Option ℕ :=
  (find c (s.drop start)).map (· + start)

/-- The first complete line of the readable bytes without its CRLF, and the
number of bytes it takes with it. -/
def peekLine (buf : Buffer) : Option (Bytes × ℕ) :=
  match buf.findCRLF 0 with
  | none => none
  | some crlf => some (buf.readable.take crlf, crlf + 2)

theorem peekLine_eq_some {buf : Buffer} {line : Bytes} {consumed : ℕ}
    (h : peekLine buf = some (line, consumed)) :
    ∃ crlf, PairSearch.findPair 13 10 buf.readable = some crlf ∧
      line = buf.readable.take crlf ∧ consumed = crlf + 2 := by
  unfold peekLine at h
  rw [Buffer.findCRLF_zero] at h
  split at h
  · simp at h
  · rename_i crlf hcrlf
    cases h
    exact ⟨crlf, hcrlf, rfl, rfl⟩

theorem peekLine_eq_none {buf : Buffer} :
    peekLine buf = none ↔ PairSearch.findPair 13 10 buf.readable = none := by
  unfold peekLine
  rw [Buffer.findCRLF_zero]
  split <;> simp_all

/-- A line takes at least the two bytes of its CRLF, and they are in the buffer. -/
theorem peekLine_consumed {buf : Buffer} {line : Bytes} {consumed : ℕ}
    (h : peekLine buf = some (line, consumed)) :
    2 ≤ consumed ∧ consumed ≤ buf.readableBytes := by
  obtain ⟨crlf, hcrlf, -, rfl⟩ := peekLine_eq_some h
  have := PairSearch.add_two_le_of_findPair hcrlf
  rw [Buffer.length_readable] at this
  exact ⟨Nat.le_add_left _ _, this⟩

theorem Buffer.readableBytes_retrieve (b : Buffer) (len : ℕ) :
    (b.retrieve len).readableBytes = b.readableBytes - len := by
  rw [← Buffer.length_readable, Buffer.readable_retrieve, List.length_drop, Buffer.length_readable]

/-! ## The parser -/

namespace HttpParser

/-- What `parse` returns. -/
inductive Ret
  | ok
  | incomplete
  | error
  deriving DecidableEq, Repr

inductive State
  | requestLine
  | headers
  | body
  | complete
  | error
  deriving DecidableEq, Repr

/-- The number of sections still ahead of a state. -/
def State.rank : State → ℕ
  | .requestLine => 3
  | .headers => 2
  | .body => 1
  | .complete => 0
  | .error => 0

end HttpParser

structure HttpParser where
  state : HttpParser.State := .requestLine
  request : HttpRequest := {}
  contentLength : ℕ := 0
  deriving DecidableEq

namespace HttpParser

def kMaxRequestLine : ℕ := 8 * 1024

def kMaxHeaderCount : ℕ := 100

def kMaxBody : ℕ := 8 * 1024 * 1024

/-- The outcome of a call: the value returned, the parser and the buffer after it. -/
structure Parsed where
  ret : Ret
  parser : HttpParser
  buf : Buffer

/-- `state_ = State::ERROR`. -/
def fail (p : HttpParser) : HttpParser := { p with state := .error }

/-- Method, target and version: the text before the first space, up to the
second one, and after it. -/
def splitRequestLine (line : Bytes) : Option (Bytes × Bytes × Bytes) :=
  match find 32 line with
  | none => none
  | some sp1 =>
    match findFrom 32 line (sp1 + 1) with
    | none => none
    | some sp2 =>
      some (line.take sp1, (line.drop (sp1 + 1)).take (sp2 - sp1 - 1), line.drop (sp2 + 1))

/-- The part of a target before the first `?`; the empty path is `/`. -/
def targetPath (target : Bytes) : Bytes :=
  let path := match find 63 target with
    | none => target
    | some q => target.take q
  if path.isEmpty then bytes "/" else path

/-- The part of a target after the first `?`.  A target without one leaves the
query as it was. -/
def targetQuery (target old : Bytes) : Bytes :=
  match find 63 target with
  | none => old
  | some q => target.drop (q + 1)

/-- The checks and assignments of `parseRequestLine` on a complete line. -/
def readRequestLine (p : HttpParser) (line : Bytes) : Option HttpParser :=
  if line.length > kMaxRequestLine || line.isEmpty then none
  else
    match splitRequestLine line with
    | none => none
    | some (method, target, version) =>
      if method.isEmpty || version.length < 8 || version.take 7 ≠ bytes "HTTP/1." then none
      else
        some { p with
          state := .headers
          request := { p.request with
            method := method
            version := version
            path := targetPath target
            query := targetQuery target p.request.query } }

def parseRequestLine (p : HttpParser) (buf : Buffer) : Parsed :=
  match peekLine buf with
  | none =>
    -- no complete line yet: give up when what is there is already too long
    if buf.readableBytes > kMaxRequestLine then ⟨.error, p.fail, buf⟩
    else ⟨.incomplete, p, buf⟩
  | some (line, consumed) =>
    match p.readRequestLine line with
    | none => ⟨.error, p.fail, buf⟩
    | some p' => ⟨.ok, p', buf.retrieve consumed⟩

/-- The key and the value stored for a header line: what stands before and after
the first colon. -/
def splitHeaderLine (line : Bytes) : Option (Bytes × Bytes) :=
  match find 58 line with
  | none => none
  | some colon => some (toLower (trim (line.take colon)), trim (line.drop (colon + 1)))

/-- The number in a `content-length` value: whatever `strtoll` reads at its
front, if it reads one and it is not negative. -/
def readContentLength (value : Bytes) : Option ℕ :=
  let (v, endp) := strtoll value
  if endp = 0 || v < 0 then none else some v.toNat

/-- `request_.headers[key] = value`. -/
def setHeader (p : HttpParser) (key value : Bytes) : HttpParser :=
  { p with request := { p.request with headers := p.request.headers.insert key value } }

/-- The checks and assignments of `parseHeaders` on a line that is not blank. -/
def readHeaderLine (p : HttpParser) (line : Bytes) : Option HttpParser :=
  if p.request.headers.size ≥ kMaxHeaderCount then none
  else
    match splitHeaderLine line with
    | none => none
    | some (key, value) =>
      if key.isEmpty then none
      else if key = bytes "content-length" then
        match readContentLength value with
        | none => none
        | some n => some ({ p with contentLength := n }.setHeader key value)
      else some (p.setHeader key value)

/-- A transfer coding that the parser does not implement. -/
def unsupportedCoding (te : Bytes) : Bool := !te.isEmpty && !iequals te (bytes "identity")

/-- The blank line: no transfer coding, then a body of the stated length, if any. -/
def endOfHeaders (p : HttpParser) : Ret × HttpParser :=
  if unsupportedCoding (p.request.getHeader (bytes "transfer-encoding")) then (.error, p.fail)
  else if p.contentLength = 0 then (.ok, { p with state := .complete })
  else if p.contentLength > kMaxBody then (.error, p.fail)
  else (.ok, { p with state := .body })

def parseHeaders (p : HttpParser) (buf : Buffer) : Parsed :=
  match _hline : peekLine buf with
  | none =>
    if buf.readableBytes > kMaxRequestLine then ⟨.error, p.fail, buf⟩
    else ⟨.incomplete, p, buf⟩
  | some (line, consumed) =>
    if line.isEmpty then ⟨p.endOfHeaders.1, p.endOfHeaders.2, buf.retrieve consumed⟩
    else
      match p.readHeaderLine line with
      | none => ⟨.error, p.fail, buf.retrieve consumed⟩
      | some p' => parseHeaders p' (buf.retrieve consumed)
termination_by buf.readableBytes
decreasing_by
  have := peekLine_consumed _hline
  rw [Buffer.readableBytes_retrieve]
  omega

def parseBody (p : HttpParser) (buf : Buffer) : Parsed :=
  if buf.readableBytes < p.contentLength then ⟨.incomplete, p, buf⟩
  else
    let taken := buf.retrieveAsString p.contentLength
    ⟨.ok, { p with state := .complete, request := { p.request with body := taken.1 } }, taken.2⟩

theorem state_readRequestLine {p p' : HttpParser} {line : Bytes}
    (h : p.readRequestLine line = some p') : p'.state = .headers := by
  unfold readRequestLine at h
  repeat' split at h
  all_goals simp only [reduceCtorEq, Option.some.injEq] at h
  rw [← h]

theorem state_readHeaderLine {p p' : HttpParser} {line : Bytes}
    (h : p.readHeaderLine line = some p') : p'.state = p.state := by
  unfold readHeaderLine at h
  repeat' split at h
  all_goals simp only [reduceCtorEq, Option.some.injEq] at h
  all_goals rw [← h]; rfl

theorem rank_parseRequestLine {p : HttpParser} {buf : Buffer}
    (h : (p.parseRequestLine buf).ret = .ok) : (p.parseRequestLine buf).parser.state.rank = 2 := by
  unfold parseRequestLine at h ⊢
  split at h
  · split at h <;> simp at h
  · split at h
    · simp at h
    · rename_i p' hp'
      simp only [state_readRequestLine hp']
      rfl

/-- The header section is followed by a body, by nothing, or it is rejected. -/
theorem endOfHeaders_cases (p : HttpParser) :
    p.endOfHeaders = (.error, p.fail) ∨
      p.endOfHeaders = (.ok, { p with state := .complete }) ∧ p.contentLength = 0 ∨
      p.endOfHeaders = (.ok, { p with state := .body }) ∧ p.contentLength ≠ 0 ∧
        p.contentLength ≤ kMaxBody := by
  unfold endOfHeaders
  split_ifs with _ hzero hmax
  · exact .inl rfl
  · exact .inr (.inl ⟨rfl, hzero⟩)
  · exact .inl rfl
  · exact .inr (.inr ⟨rfl, hzero, not_lt.mp hmax⟩)

theorem rank_endOfHeaders {p : HttpParser} (h : p.endOfHeaders.1 = .ok) :
    p.endOfHeaders.2.state.rank < 2 := by
  rcases p.endOfHeaders_cases with heq | ⟨heq, -⟩ | ⟨heq, -⟩
  · rw [heq] at h
    simp at h
  · simp [heq, State.rank]
  · simp [heq, State.rank]

theorem rank_parseHeaders {p : HttpParser} {buf : Buffer} (h : (p.parseHeaders buf).ret = .ok) :
    (p.parseHeaders buf).parser.state.rank < 2 := by
  fun_induction parseHeaders p buf with
  | case1 => simp at h
  | case2 => simp at h
  | case3 => exact rank_endOfHeaders h
  | case4 => simp at h
  | case5 _ _ _ _ _ _ _ _ ih => exact ih h

theorem rank_parseBody {p : HttpParser} {buf : Buffer} (h : (p.parseBody buf).ret = .ok) :
    (p.parseBody buf).parser.state.rank = 0 := by
  unfold parseBody at h ⊢
  split at h
  · simp at h
  · rename_i hlen
    rw [if_neg hlen]
    rfl

/-- Advance the state until the request is complete, malformed, or waits. -/
def parse (p : HttpParser) (buf : Buffer) : Parsed :=
  match _hstate : p.state with
  | .requestLine =>
    let r := p.parseRequestLine buf
    if _hok : r.ret = .ok then parse r.parser r.buf else r
  | .headers =>
    let r := p.parseHeaders buf
    if _hok : r.ret = .ok then parse r.parser r.buf else r
  | .body =>
    let r := p.parseBody buf
    if _hok : r.ret = .ok then parse r.parser r.buf else r
  | .complete => ⟨.ok, p, buf⟩
  | .error => ⟨.error, p, buf⟩
termination_by p.state.rank
decreasing_by
  · rw [_hstate, rank_parseRequestLine _hok]
    decide
  · rw [_hstate]
    exact rank_parseHeaders _hok
  · rw [_hstate, rank_parseBody _hok]
    decide

/-- Forget the current request and wait for the next one. -/
def reset (p : HttpParser) : HttpParser :=
  { p with state := .requestLine, request := p.request.clear, contentLength := 0 }

@[simp] theorem reset_eq (p : HttpParser) : p.reset = {} := rfl

end HttpParser

end WsServer
