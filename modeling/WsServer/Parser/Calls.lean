import WsServer.Lib.Transition
import WsServer.Parser.Fields

/-!
# What always holds of a parser

The owner of a parser appends bytes to its buffer, calls `parse` and calls
`reset`, in any order.  `Valid` is what holds of the parser whatever the calls
are (`valid_after`), also after an error: the stored headers are clean and few, the
content length is the number read from the stored `Content-Length`, a body that
is waited for has an admissible length, and a request that is complete has the
body of that length.

A line that is rejected changes the state only, so the two copies of the length
cannot come apart; this is `Valid.readHeaderLine` and `Valid.fail`.
-/

namespace WsServer

open CString PairSearch Incremental

namespace HttpParser

/-! ## Calls -/

/-- A parser, its buffer, and all bytes that have been in the buffer. -/
structure Feeding where
  parser : HttpParser := {}
  buffer : Buffer
  received : Bytes

/-- A fresh parser on a buffer. -/
def Feeding.start (b : Buffer) : Feeding where
  buffer := b
  received := b.readable

inductive Call
  | append (piece : Bytes)
  | parse
  | reset
  deriving DecidableEq

namespace Feeding

def parsed (s : Feeding) : Parsed := s.parser.parse s.buffer

def step (s : Feeding) : Call → Feeding
  | .append piece =>
    { s with buffer := s.buffer.append piece, received := s.received ++ piece }
  | .parse => { s with parser := s.parsed.parser, buffer := s.parsed.buf }
  | .reset => { s with parser := s.parser.reset }

/-- The state after calls on a fresh parser. -/
def after (b : Buffer) (calls : List Call) : Feeding := Transition.run step (start b) calls

end Feeding

/-! ## The invariant -/

/-- The stored length: the number in the stored `Content-Length`, and zero without
one. -/
def LengthStored (p : HttpParser) : Prop :=
  match p.request.headers.find? (bytes "content-length") with
  | none => p.contentLength = 0
  | some value => (strtoll value).1 = p.contentLength ∧ (strtoll value).2 ≠ 0

/-- What holds of a parser whatever it is fed. -/
structure Valid (p : HttpParser) : Prop where
  keys : ∀ field ∈ p.request.headers.entries, CleanKey field.1
  values : ∀ field ∈ p.request.headers.entries, trim field.2 = field.2
  count : p.request.headers.size ≤ kMaxHeaderCount
  length : LengthStored p
  unread : p.state ≠ .complete → p.request.body = []
  waiting : p.state = .body → 0 < p.contentLength ∧ p.contentLength ≤ kMaxBody
  body : p.state = .complete → p.request.body.length = p.contentLength
  /-- After the request line its parts are there. -/
  parts : p.state = .headers ∨ p.state = .body ∨ p.state = .complete →
    p.request.method ≠ [] ∧ p.request.path ≠ [] ∧ bytes "HTTP/1." <+: p.request.version

theorem readContentLength_eq_some {value : Bytes} {n : ℕ}
    (h : readContentLength value = some n) : (strtoll value).1 = n ∧ (strtoll value).2 ≠ 0 := by
  unfold readContentLength at h
  dsimp only at h
  split_ifs at h with hbad
  cases h
  simp only [Bool.or_eq_true, decide_eq_true_eq, not_or, not_lt] at hbad
  exact ⟨(Int.toNat_of_nonneg hbad.2).symm, hbad.1⟩

/-- Other fields do not touch the stored length. -/
theorem LengthStored.setHeader_of_ne {p : HttpParser} (h : LengthStored p) {key : Bytes}
    (hother : key ≠ bytes "content-length") (value : Bytes) :
    LengthStored (p.setHeader key value) := by
  have hfind : (p.setHeader key value).request.headers.find? (bytes "content-length") =
      p.request.headers.find? (bytes "content-length") := by
    rw [setHeader, SortedMap.find?_insert, if_neg hother.symm]
  unfold LengthStored at h ⊢
  rwa [hfind]

theorem lengthStored_setHeader {p : HttpParser} {value : Bytes} {n : ℕ}
    (h : readContentLength value = some n) :
    LengthStored ({ p with contentLength := n }.setHeader (bytes "content-length") value) := by
  have hfind : ({ p with contentLength := n }.setHeader (bytes "content-length")
      value).request.headers.find? (bytes "content-length") = some value := by
    rw [setHeader, SortedMap.find?_insert_self]
  unfold LengthStored
  rw [hfind]
  exact readContentLength_eq_some h

namespace Valid

theorem fresh : Valid {} where
  keys := by simp [SortedMap.entries_empty]
  values := by simp [SortedMap.entries_empty]
  count := Nat.zero_le _
  length := rfl
  unread := fun _ => rfl
  waiting := by simp
  body := by simp
  parts := by simp

variable {p q : HttpParser}

/-- Giving up changes the state only. -/
theorem fail (h : Valid p) (hstate : p.state ≠ .complete) : Valid p.fail where
  keys := h.keys
  values := h.values
  count := h.count
  length := h.length
  unread := fun _ => h.unread hstate
  waiting := by simp [HttpParser.fail]
  body := by simp [HttpParser.fail]
  parts := by simp [HttpParser.fail]

theorem readRequestLine (h : Valid p) (hstate : p.state = .requestLine) {line : Bytes}
    (hread : p.readRequestLine line = some q) : Valid q := by
  obtain ⟨-, method, target, version, -, hmethod, -, hversion, rfl⟩ :=
    readRequestLine_eq_some hread
  have hprefix : bytes "HTTP/1." <+: version := by
    rw [← hversion]
    exact List.take_prefix _ _
  exact {
    keys := h.keys
    values := h.values
    count := h.count
    length := h.length
    unread := fun _ => h.unread (by simp [hstate])
    waiting := by simp
    body := by simp
    parts := fun _ => ⟨hmethod, targetPath_ne_nil target, hprefix⟩ }

/-- Storing a clean field keeps everything but the stored length as it is. -/
theorem setHeader (h : Valid p) (hstate : p.state = .headers)
    (hcount : p.request.headers.size < kMaxHeaderCount) {key value : Bytes} (hkey : CleanKey key)
    (hvalue : trim value = value) {n : ℕ}
    (hlength : LengthStored ({ p with contentLength := n }.setHeader key value)) :
    Valid ({ p with contentLength := n }.setHeader key value) where
  keys := by
    intro field hfield
    rcases SortedMap.mem_insertEntry hfield with rfl | hfield
    · exact hkey
    · exact h.keys field hfield
  values := by
    intro field hfield
    rcases SortedMap.mem_insertEntry hfield with rfl | hfield
    · exact hvalue
    · exact h.values field hfield
  count := (SortedMap.size_insert_le _ _ _).trans hcount
  length := hlength
  unread := h.unread
  waiting := by simp [HttpParser.setHeader, hstate]
  body := by simp [HttpParser.setHeader, hstate]
  parts := h.parts

theorem readHeaderLine (h : Valid p) (hstate : p.state = .headers) {line : Bytes}
    (hread : p.readHeaderLine line = some q) : Valid q := by
  obtain ⟨hcount, key, value, hsplit, hne, hstored⟩ := readHeaderLine_eq_some hread
  obtain ⟨hkey, hvalue⟩ := splitHeaderLine_clean hsplit hne
  rcases hstored with ⟨hother, rfl⟩ | ⟨rfl, n, hn, rfl⟩
  · exact h.setHeader hstate hcount hkey hvalue (h.length.setHeader_of_ne hother value)
  · exact h.setHeader hstate hcount hkey hvalue (lengthStored_setHeader hn)

/-- The blank line decides what comes next. -/
theorem endOfHeaders (h : Valid p) (hstate : p.state = .headers) : Valid p.endOfHeaders.2 := by
  have hempty : p.request.body = [] := h.unread (by simp [hstate])
  rcases p.endOfHeaders_cases with heq | ⟨heq, hzero⟩ | ⟨heq, hpos, hmax⟩
  · rw [heq]
    exact h.fail (by simp [hstate])
  · rw [heq]
    exact {
      keys := h.keys
      values := h.values
      count := h.count
      length := h.length
      unread := fun _ => hempty
      waiting := by simp
      body := fun _ => by simp [hempty, hzero]
      parts := fun _ => h.parts (.inl hstate) }
  · rw [heq]
    exact {
      keys := h.keys
      values := h.values
      count := h.count
      length := h.length
      unread := fun _ => hempty
      waiting := fun _ => ⟨Nat.pos_of_ne_zero hpos, hmax⟩
      body := by simp
      parts := fun _ => h.parts (.inl hstate) }

theorem takeHeaderLine (h : Valid p) (hstate : p.state = .headers) (line : Bytes) :
    Valid (p.takeHeaderLine line) := by
  unfold HttpParser.takeHeaderLine
  split
  · exact h.endOfHeaders hstate
  · cases hread : p.readHeaderLine line with
    | none => exact h.fail (by simp [hstate])
    | some q => exact h.readHeaderLine hstate hread

/-- **One step.** -/
theorem step (h : Valid p) {bs : Bytes} {n : ℕ} (hstep : p.step bs = some (q, n)) : Valid q := by
  rcases step_cases hstep with ⟨hstate, i, -, ⟨-, rfl, -⟩ | ⟨hread, -⟩⟩ | ⟨hstate, i, -, rfl, -⟩ |
    ⟨hstate, hlength, -, rfl⟩
  · exact h.fail (by simp [hstate])
  · exact h.readRequestLine hstate hread
  · exact h.takeHeaderLine hstate _
  · exact {
      keys := h.keys
      values := h.values
      count := h.count
      length := h.length
      unread := by simp
      waiting := by simp
      body := fun _ => by simp [hlength]
      parts := fun _ => h.parts (.inr (.inl hstate)) }

theorem of_reaches (h : Valid p) {bs rest : Bytes} (hreach : machine.Reaches p bs q rest) :
    Valid q := by
  induction hreach with
  | refl => exact h
  | step hstep _ ih => exact ih (h.step hstep)

/-- **One call.** -/
theorem parse (h : Valid p) (b : Buffer) : Valid (p.parse b).parser := by
  have hrun : Valid (machine.run p b.readable).1 := h.of_reaches (Machine.reaches_run p b.readable)
  rw [parser_parse]
  cases hover : guard.overflow (machine.run p b.readable).1 (machine.run p b.readable).2 with
  | false =>
      rw [Guard.parse, Guard.finish_of_quiet hover]
      exact hrun
  | true =>
      rw [Guard.parse, Guard.finish_of_overflow hover]
      apply hrun.fail
      -- the check fires on an unfinished line only
      intro hcomplete
      simp [guard, waitsForLine, hcomplete] at hover

end Valid

/-- **The invariant of the parser.**  It holds after any calls on a fresh parser,
whatever is in the buffer and whatever is appended to it. -/
theorem valid_after (b : Buffer) (calls : List Call) : Valid (Feeding.after b calls).parser := by
  have hstep : ∀ s call, Valid s.parser → Valid (Feeding.step s call).parser := by
    intro s call hs
    cases call with
    | append piece => exact hs
    | parse => exact hs.parse s.buffer
    | reset => exact Valid.fresh
  show (fun s : Feeding => Valid s.parser) (Transition.run Feeding.step (Feeding.start b) calls)
  exact Transition.run_invariant hstep Valid.fresh calls

end HttpParser

end WsServer
