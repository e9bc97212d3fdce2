import WsServer.Parser.Machine

/-!
# Segmentation independence

A request may arrive in any number of TCP segments, with `parse` called after
each of them.  `parse_segmentation` says that the cuts do not matter: as long as
the request and header lines met in the stream are shorter than
`kMaxRequestLine`, the last call leaves what a single call on the whole stream
would have left.

The bound is needed for finished lines only.  The check on an unfinished line
measures all readable bytes, which may include the CR of a CRLF that is not
complete yet, so a finished line of the maximal length can be rejected or
accepted depending on a cut between CR and LF.  An unfinished line that is too
long is rejected under every segmentation.

Without any bound the segmentation can turn a verdict into `error` but not
change it otherwise (`feed_same_or_error`).
-/

namespace WsServer

open CString PairSearch Incremental

namespace HttpParser

/-! ## Lines met in a stream -/

/-- Parsing `stream` from `p` comes to the request or header line `line` and
finds its CRLF. -/
def LineMet (p : HttpParser) (stream line : Bytes) : Prop :=
  ∃ q rest i, machine.Reaches p stream q rest ∧ q.waitsForLine = true ∧
    findPair 13 10 rest = some i ∧ line = rest.take i

/-- All request and header lines met are shorter than `kMaxRequestLine`. -/
def ShortLines (p : HttpParser) (stream : Bytes) : Prop :=
  ∀ line, LineMet p stream line → line.length < kMaxRequestLine

theorem step_eq_none_iff {p : HttpParser} (hwait : p.waitsForLine = true) {bs : Bytes} :
    p.step bs = none ↔ findPair 13 10 bs = none := by
  simp only [waitsForLine, Bool.or_eq_true, decide_eq_true_eq] at hwait
  refine ⟨fun h => ?_, fun h => ?_⟩
  · by_contra hne
    obtain ⟨i, hi⟩ := Option.ne_none_iff_exists'.mp hne
    rcases hwait with hstate | hstate
    · cases hline : p.readRequestLine (bs.take i) with
      | none => simp [step_requestLine_reject hstate hi hline] at h
      | some q => simp [step_requestLine_accept hstate hi hline] at h
    · simp [step_headers hstate hi] at h
  · rcases hwait with hstate | hstate
    · exact step_requestLine_none hstate h
    · exact step_headers_none hstate h

theorem LineMet.append {p : HttpParser} {stream line : Bytes} (h : LineMet p stream line)
    (more : Bytes) : LineMet p (stream ++ more) line := by
  obtain ⟨q, rest, i, hreach, hwait, hfind, rfl⟩ := h
  have hroom := add_two_le_of_findPair hfind
  refine ⟨q, rest ++ more, i, hreach.append more, hwait, findPair_append hfind more, ?_⟩
  rw [List.take_append_of_le_length (by omega)]

theorem ShortLines.of_front {p : HttpParser} {stream longer : Bytes} (h : ShortLines p longer)
    (hfront : stream <+: longer) : ShortLines p stream := by
  obtain ⟨more, rfl⟩ := hfront
  intro line hmet
  exact h line (hmet.append more)

/-- The lines met are the one at the front, if the parser waits for a line, and
those met after the first step. -/
theorem shortLines_of_step {p : HttpParser} {stream : Bytes}
    (hfront : p.waitsForLine = true → ∀ i, findPair 13 10 stream = some i → i < kMaxRequestLine)
    (hlater : ∀ p' n, p.step stream = some (p', n) → ShortLines p' (stream.drop n)) :
    ShortLines p stream := by
  rintro line ⟨q, rest, i, hreach, hwait, hfind, rfl⟩
  cases hreach with
  | refl =>
      rw [List.length_take]
      exact (min_le_left _ _).trans_lt (hfront hwait i hfind)
  | step hstep hrest => exact hlater _ _ hstep _ ⟨q, rest, i, hrest, hwait, hfind, rfl⟩

/-- A stream shorter than the limit has short lines only. -/
theorem shortLines_of_length {p : HttpParser} {stream : Bytes}
    (h : stream.length < kMaxRequestLine) : ShortLines p stream := by
  rintro line ⟨q, rest, i, hreach, -, -, rfl⟩
  have := hreach.length_le
  rw [List.length_take]
  omega

/-- With short lines the check never fires on a line that is finished later: the
CRLF that finishes it would come after more than `kMaxRequestLine` bytes, of
which at most the last is its CR. -/
theorem persistent_of_shortLines {p : HttpParser} {stream : Bytes} (h : ShortLines p stream) :
    guard.Persistent p stream := by
  intro q rest more hreach hstuck hover
  obtain ⟨hwait, hlong⟩ : q.waitsForLine = true ∧ rest.length > kMaxRequestLine := by
    simpa [guard] using hover
  refine (step_eq_none_iff hwait).mpr ?_
  have hnone : findPair 13 10 rest = none := (step_eq_none_iff hwait).mp hstuck
  cases hfind : findPair 13 10 (rest ++ more) with
  | none => rfl
  | some i =>
      -- a line of at least `rest.length - 1` bytes, which is not short
      have hshort := h _ ⟨q, rest ++ more, i, hreach, hwait, hfind, rfl⟩
      have hlate := length_le_of_findPair_append hnone hfind
      have hroom := add_two_le_of_findPair hfind
      rw [List.length_take] at hshort
      omega

/-! ## Feeding a buffer -/

/-- Append the pieces one after another and call `parse` after each of them. -/
def feed (p : HttpParser) (b : Buffer) (pieces : List Bytes) : Parsed :=
  pieces.foldl (fun r piece => r.parser.parse (r.buf.append piece)) ⟨.incomplete, p, b⟩

/-- The same return value, parser and readable bytes. -/
def Parsed.Same (r s : Parsed) : Prop :=
  r.ret = s.ret ∧ r.parser = s.parser ∧ r.buf.readable = s.buf.readable

theorem feed_concat (p : HttpParser) (b : Buffer) (pieces : List Bytes) (last : Bytes) :
    feed p b (pieces ++ [last]) =
      (feed p b pieces).parser.parse ((feed p b pieces).buf.append last) := by
  simp [feed]

/-- Feeding a buffer is feeding the machine. -/
theorem feed_eq (p : HttpParser) (b : Buffer) (pieces : List Bytes) :
    ((feed p b pieces).parser, (feed p b pieces).buf.readable) =
      guard.feed p b.readable pieces := by
  induction pieces using List.reverseRecOn with
  | nil => rfl
  | append_singleton pieces last ih =>
      rw [feed_concat, parse_eq, Buffer.readable_append, Guard.feed_concat, ← ih]

theorem ret_feed (p : HttpParser) (b : Buffer) {pieces : List Bytes} (hne : pieces ≠ []) :
    (feed p b pieces).ret = verdict (guard.feed p b.readable pieces).1.state := by
  induction pieces using List.reverseRecOn with
  | nil => exact absurd rfl hne
  | append_singleton pieces last _ =>
      rw [feed_concat, ret_parse, Buffer.readable_append, Guard.feed_concat, ← feed_eq]

/-- Calls whose machines end in the same configuration leave the same. -/
theorem same_parse_of_eq {p q : HttpParser} {b c : Buffer}
    (h : guard.parse p b.readable = guard.parse q c.readable) :
    (p.parse b).Same (q.parse c) := by
  refine ⟨?_, ?_, ?_⟩
  · rw [ret_parse, ret_parse, h]
  · rw [parser_parse, parser_parse, h]
  · rw [readable_parse, readable_parse, h]

theorem same_feed_of_eq {p : HttpParser} {b : Buffer} {pieces : List Bytes} (hne : pieces ≠ [])
    (h : guard.feed p b.readable pieces = guard.parse p (b.readable ++ pieces.flatten)) :
    (feed p b pieces).Same (p.parse (b.append pieces.flatten)) := by
  have heq := feed_eq p b pieces
  refine ⟨?_, ?_, ?_⟩
  · rw [ret_feed p b hne, ret_parse, Buffer.readable_append, h]
  · rw [parser_parse, Buffer.readable_append, ← h, ← heq]
  · rw [readable_parse, Buffer.readable_append, ← h, ← heq]

/-- **Any stream.**  Feeding in pieces leaves what one call leaves, or ends in an
error. -/
theorem feed_same_or_error (p : HttpParser) (b : Buffer) {pieces : List Bytes}
    (hne : pieces ≠ []) :
    (feed p b pieces).Same (p.parse (b.append pieces.flatten)) ∨
      (feed p b pieces).ret = .error := by
  rcases Guard.feed_eq_or_fail (G := guard) p b.readable hne with heq | ⟨q, hfail⟩
  · exact .inl (same_feed_of_eq hne heq)
  · refine .inr ?_
    rw [ret_feed p b hne, hfail]
    rfl

/-- **Segmentation independence.**  From every parser state and buffer, parsing
after each of two pieces leaves what one call on both leaves, if the lines met
are short; and so does parsing after each of any number of pieces. -/
theorem parse_segmentation (p : HttpParser) (b : Buffer) :
    (∀ s₁ s₂ : Bytes, ShortLines p (b.readable ++ s₁ ++ s₂) →
      ((p.parse (b.append s₁)).parser.parse ((p.parse (b.append s₁)).buf.append s₂)).Same
        (p.parse (b.append (s₁ ++ s₂)))) ∧
    ∀ pieces : List Bytes, pieces ≠ [] → ShortLines p (b.readable ++ pieces.flatten) →
      (feed p b pieces).Same (p.parse (b.append pieces.flatten)) := by
  refine ⟨fun s₁ s₂ hshort => same_parse_of_eq ?_, fun pieces hne hshort => ?_⟩
  · calc guard.parse (p.parse (b.append s₁)).parser
          ((p.parse (b.append s₁)).buf.append s₂).readable
        = guard.parse (guard.parse p (b.readable ++ s₁)).1
            ((guard.parse p (b.readable ++ s₁)).2 ++ s₂) := by
          rw [Buffer.readable_append, readable_parse, parser_parse, Buffer.readable_append]
      _ = guard.parse p (b.readable ++ s₁ ++ s₂) :=
          (Guard.parse_append (persistent_of_shortLines hshort)).symm
      _ = guard.parse p (b.append (s₁ ++ s₂)).readable := by
          rw [Buffer.readable_append, List.append_assoc]
  · exact same_feed_of_eq hne (Guard.feed_eq_parse hne (persistent_of_shortLines hshort))

/-- The law at a cut between CR and LF and at a cut inside the version. -/
theorem parse_segmentation_cut :
    ((parse {} ((Buffer.ofSize 16).append (bytes "GET / HTTP/1.1\r"))).parser.parse
      ((parse {} ((Buffer.ofSize 16).append (bytes "GET / HTTP/1.1\r"))).buf.append
        (bytes "\n\r\nGET"))).Same
      (parse {} ((Buffer.ofSize 16).append (bytes "GET / HTTP/1.1\r" ++ bytes "\n\r\nGET"))) ∧
    (feed {} (Buffer.ofSize 16) [bytes "GET / HT", bytes "TP/1.1\r", bytes "\n\r\n"]).Same
      (parse {} ((Buffer.ofSize 16).append
        [bytes "GET / HT", bytes "TP/1.1\r", bytes "\n\r\n"].flatten)) :=
  ⟨(parse_segmentation {} (Buffer.ofSize 16)).1 _ _ (shortLines_of_length (by decide +kernel)),
    (parse_segmentation {} (Buffer.ofSize 16)).2 _ (by simp)
      (shortLines_of_length (by decide +kernel))⟩

end HttpParser

end WsServer
