import WsServer.Parser.Fields

/-!
# The spelling of headers

Two header sections that differ in the letter case of the names, and in the
spaces and tabs around names and values, are the same to the parser.  Connection
options and transfer codings may also differ in the letter case of their values,
as far as the verdict and the choice to keep the connection are concerned
(`spelling`).

Both are one simulation.  Two parsers run side by side that differ in their
header maps only; `same` says which values may stand in the place of which under
a key.  `Lenient` is what the parser relies on: related lengths are read as the
same number, and related codings are equal up to letter case.
-/

namespace WsServer

open CString PairSearch Incremental

namespace HttpParser

/-! ## Lines with the same fields -/

/-- Spaces and tabs. -/
def Blank (s : Bytes) : Prop := ∀ c ∈ s, c = 32 ∨ c = 9

instance (s : Bytes) : Decidable (Blank s) := List.decidableBAll (fun c => c = 32 ∨ c = 9) s

/-- A header line, cut into its parts and the white space around them. -/
structure SpelledField where
  beforeName : Bytes := []
  name : Bytes
  afterName : Bytes := []
  beforeValue : Bytes := []
  value : Bytes
  afterValue : Bytes := []
  colon : 58 ∉ name := by decide
  blank_beforeName : Blank beforeName := by decide
  blank_afterName : Blank afterName := by decide
  blank_beforeValue : Blank beforeValue := by decide
  blank_afterValue : Blank afterValue := by decide

namespace SpelledField

def text (f : SpelledField) : Bytes :=
  f.beforeName ++ f.name ++ f.afterName ++ 58 :: (f.beforeValue ++ f.value ++ f.afterValue)

/-- The key under which the value is stored. -/
def key (f : SpelledField) : Bytes := toLower (trim f.name)

end SpelledField

/-- Lines that are equal, or name the same field and have related values. -/
def SameLine (same : Bytes → Bytes → Bytes → Prop) (first second : Bytes) : Prop :=
  first = second ∨ ∃ f g : SpelledField, first = f.text ∧ second = g.text ∧
    toLower f.name = toLower g.name ∧ same f.key f.value g.value

/-- Values have to be equal. -/
def EqualValues (_key first second : Bytes) : Prop := first = second

/-- Values have to be equal, those of `Connection` and `Transfer-Encoding` up to
letter case. -/
def EqualOptions (key first second : Bytes) : Prop :=
  first = second ∨ (key = bytes "connection" ∨ key = bytes "transfer-encoding") ∧
    toLower first = toLower second

theorem isspace_of_blank {s : Bytes} (h : Blank s) : ∀ c ∈ s, isspace c = true := by
  intro c hc
  rcases h c hc with rfl | rfl <;> decide

theorem notMem_blank {s : Bytes} (h : Blank s) : 58 ∉ s := by
  intro hc
  rcases h 58 hc with hspace | htab
  · exact absurd hspace (by decide)
  · exact absurd htab (by decide)

/-- White space around the parts is not stored. -/
theorem splitHeaderLine_text (f : SpelledField) :
    splitHeaderLine f.text = some (f.key, trim f.value) := by
  have hname : 58 ∉ f.beforeName ++ f.name ++ f.afterName := by
    simp [notMem_blank f.blank_beforeName, f.colon, notMem_blank f.blank_afterName]
  rw [SpelledField.text, splitHeaderLine_append hname,
    trim_append (isspace_of_blank f.blank_beforeName) (isspace_of_blank f.blank_afterName),
    trim_append (isspace_of_blank f.blank_beforeValue) (isspace_of_blank f.blank_afterValue)]
  rfl

theorem key_eq {f g : SpelledField} (h : toLower f.name = toLower g.name) : f.key = g.key := by
  rw [SpelledField.key, SpelledField.key, ← trim_toLower, ← trim_toLower, h]

/-! ## Header maps with related values -/

/-- The same keys, with related values. -/
def SameHeaders (same : Bytes → Bytes → Bytes → Prop) (first second : HeaderMap) : Prop :=
  ∀ key, Option.Rel (same key) (first.find? key) (second.find? key)

/-- What the parser relies on, of values that may stand in each other's place. -/
structure Lenient (same : Bytes → Bytes → Bytes → Prop) : Prop where
  refl : ∀ key value, same key value value
  trim : ∀ {key v w : Bytes}, same key v w → same key (trim v) (trim w)
  length : ∀ {v w : Bytes}, same (bytes "content-length") v w →
    readContentLength v = readContentLength w
  coding : ∀ {v w : Bytes}, same (bytes "transfer-encoding") v w → toLower v = toLower w
  connection : ∀ {v w : Bytes}, same (bytes "connection") v w → toLower v = toLower w

theorem lenient_equalValues : Lenient EqualValues where
  refl := fun _ _ => rfl
  trim := fun h => congrArg WsServer.trim h
  length := fun h => congrArg readContentLength h
  coding := fun h => congrArg toLower h
  connection := fun h => congrArg toLower h

theorem lenient_equalOptions : Lenient EqualOptions where
  refl := fun _ _ => .inl rfl
  trim := by
    rintro key v w (rfl | ⟨hkey, hcase⟩)
    · exact .inl rfl
    · exact .inr ⟨hkey, by rw [← trim_toLower, hcase, trim_toLower]⟩
  length := by
    rintro v w (rfl | ⟨hkey | hkey, -⟩)
    · rfl
    · exact absurd hkey (by decide)
    · exact absurd hkey (by decide)
  coding := by
    rintro v w (rfl | ⟨-, hcase⟩)
    · rfl
    · exact hcase
  connection := by
    rintro v w (rfl | ⟨-, hcase⟩)
    · rfl
    · exact hcase

namespace SameHeaders

variable {same : Bytes → Bytes → Bytes → Prop} {first second : HeaderMap}

theorem refl (hsame : Lenient same) (m : HeaderMap) : SameHeaders same m m := by
  intro key
  cases m.find? key with
  | none => exact .none
  | some value => exact .some (hsame.refl key value)

theorem insert (h : SameHeaders same first second) {key v w : Bytes} (hvalue : same key v w) :
    SameHeaders same (first.insert key v) (second.insert key w) := by
  intro other
  rw [SortedMap.find?_insert, SortedMap.find?_insert]
  split_ifs with hkey
  · rw [hkey]
    exact .some hvalue
  · exact h other

theorem isSome_find? (h : SameHeaders same first second) (key : Bytes) :
    (first.find? key).isSome = (second.find? key).isSome := by
  have hkey := h key
  generalize first.find? key = v at *
  generalize second.find? key = w at *
  cases hkey with
  | none => rfl
  | some _ => rfl

theorem size_eq (h : SameHeaders same first second) : first.size = second.size :=
  SortedMap.size_eq_of_isSome_find? h.isSome_find?

/-- Maps with equal values are equal. -/
theorem eq (h : SameHeaders EqualValues first second) : first = second := by
  apply SortedMap.ext_find?
  intro key
  have hkey := h key
  generalize first.find? key = v at *
  generalize second.find? key = w at *
  cases hkey with
  | none => rfl
  | some hvalue => rw [hvalue]

end SameHeaders

/-! ## Two parsers side by side -/

/-- The parser with another header map. -/
def withHeaders (p : HttpParser) (headers : HeaderMap) : HttpParser :=
  { p with request := { p.request with headers := headers } }

theorem unsupportedCoding_congr {v w : Bytes} (h : toLower v = toLower w) :
    unsupportedCoding v = unsupportedCoding w := by
  have hempty : v.isEmpty = w.isEmpty := by
    rw [Bool.eq_iff_iff, List.isEmpty_iff, List.isEmpty_iff, ← List.length_eq_zero_iff,
      ← List.length_eq_zero_iff]
    have hlength := congrArg List.length h
    simp only [toLower, List.length_map] at hlength
    rw [hlength]
  have hidentity : iequals v (bytes "identity") = iequals w (bytes "identity") := by
    rw [Bool.eq_iff_iff, iequals_iff, iequals_iff]
    unfold toLower at h
    rw [h]
  rw [unsupportedCoding, unsupportedCoding, hempty, hidentity]

theorem linesText_cons_append (line : Bytes) (lines : List Bytes) (tail : Bytes) :
    RequestHead.linesText (line :: lines) ++ tail =
      line ++ crlf ++ (RequestHead.linesText lines ++ tail) := by
  simp [RequestHead.linesText]

section Simulation

variable {same : Bytes → Bytes → Bytes → Prop} (hsame : Lenient same) {p : HttpParser}
  {headers : HeaderMap} (hheaders : SameHeaders same p.request.headers headers)

include hsame hheaders

/-- Lines with related fields are both rejected, or store related values. -/
theorem readHeaderLine_of_split {line other key v w : Bytes}
    (hline : splitHeaderLine line = some (key, v)) (hother : splitHeaderLine other = some (key, w))
    (hvalue : same key v w) :
    (p.readHeaderLine line = none ∧ (p.withHeaders headers).readHeaderLine other = none) ∨
      ∃ q stored, p.readHeaderLine line = some q ∧
        (p.withHeaders headers).readHeaderLine other = some (q.withHeaders stored) ∧
        SameHeaders same q.request.headers stored := by
  have hsize : (p.withHeaders headers).request.headers.size = p.request.headers.size :=
    hheaders.size_eq.symm
  unfold readHeaderLine
  rw [hsize, hline, hother]
  by_cases hcount : p.request.headers.size ≥ kMaxHeaderCount
  · simp [hcount]
  · rw [if_neg hcount, if_neg hcount]
    dsimp only
    by_cases hempty : key.isEmpty = true
    · simp [hempty]
    · rw [if_neg hempty, if_neg hempty]
      by_cases hlength : key = bytes "content-length"
      · rw [if_pos hlength, if_pos hlength]
        subst hlength
        rw [← hsame.length hvalue]
        cases readContentLength v with
        | none => exact .inl ⟨rfl, rfl⟩
        | some n => exact .inr ⟨_, _, rfl, rfl, hheaders.insert hvalue⟩
      · rw [if_neg hlength, if_neg hlength]
        exact .inr ⟨_, _, rfl, rfl, hheaders.insert hvalue⟩

theorem readHeaderLine_of_sameLine {line other : Bytes} (h : SameLine same line other) :
    (p.readHeaderLine line = none ∧ (p.withHeaders headers).readHeaderLine other = none) ∨
      ∃ q stored, p.readHeaderLine line = some q ∧
        (p.withHeaders headers).readHeaderLine other = some (q.withHeaders stored) ∧
        SameHeaders same q.request.headers stored := by
  rcases h with rfl | ⟨f, g, rfl, rfl, hname, hvalue⟩
  · cases hsplit : splitHeaderLine line with
    | none =>
        refine .inl ⟨?_, ?_⟩
        · unfold readHeaderLine
          simp [hsplit]
        · unfold readHeaderLine
          simp [hsplit]
    | some field =>
        exact readHeaderLine_of_split hsame hheaders hsplit hsplit (hsame.refl _ _)
  · have hg := splitHeaderLine_text g
    rw [← key_eq hname] at hg
    exact readHeaderLine_of_split hsame hheaders (splitHeaderLine_text f) hg (hsame.trim hvalue)

omit hsame in
theorem toLower_getHeader {key : Bytes} (hcase : ∀ {v w : Bytes}, same key v w →
    toLower v = toLower w) : toLower (p.request.getHeader key) =
      toLower ((p.withHeaders headers).request.getHeader key) := by
  have hkey := hheaders key
  have hother : (p.withHeaders headers).request.headers.find? key = headers.find? key := rfl
  unfold HttpRequest.getHeader
  rw [hother]
  generalize p.request.headers.find? key = v at *
  generalize headers.find? key = w at *
  cases hkey with
  | none => rfl
  | some hvalue => exact hcase hvalue

theorem keepAlive_withHeaders :
    p.request.keepAlive = (p.withHeaders headers).request.keepAlive := by
  have hcase := toLower_getHeader hheaders hsame.connection
  have hconn : ∀ option : Bytes, iequals (p.request.getHeader (bytes "connection")) option =
      iequals ((p.withHeaders headers).request.getHeader (bytes "connection")) option := by
    intro option
    rw [Bool.eq_iff_iff, iequals_iff, iequals_iff]
    unfold toLower at hcase
    rw [hcase]
  have hversion : (p.withHeaders headers).request.version = p.request.version := rfl
  unfold HttpRequest.keepAlive
  simp only [hconn, hversion]

/-- The blank line decides the same. -/
theorem endOfHeaders_withHeaders :
    (p.withHeaders headers).endOfHeaders.2 = p.endOfHeaders.2.withHeaders headers := by
  have hcoding := unsupportedCoding_congr (toLower_getHeader hheaders hsame.coding)
  have hlength : (p.withHeaders headers).contentLength = p.contentLength := rfl
  unfold endOfHeaders
  rw [← hcoding, hlength]
  split_ifs <;> rfl

omit hsame hheaders in
theorem headers_endOfHeaders : p.endOfHeaders.2.request.headers = p.request.headers := by
  unfold endOfHeaders
  split_ifs <;> rfl

/-- Header sections with related lines are read side by side: to their end, or to
an error in front of what follows them. -/
theorem reaches_side_by_side (hstate : p.state = .headers) {lines others : List Bytes}
    (hlines : List.Forall₂ (SameLine same) lines others)
    (hwhole : ∀ line ∈ lines, line ≠ [] ∧ findPair 13 10 line = none)
    (hwhole' : ∀ line ∈ others, line ≠ [] ∧ findPair 13 10 line = none) (tail : Bytes) :
    ∃ q stored left left', machine.Reaches p (RequestHead.linesText lines ++ tail) q left ∧
      machine.Reaches (p.withHeaders headers) (RequestHead.linesText others ++ tail)
        (q.withHeaders stored) left' ∧
      SameHeaders same q.request.headers stored ∧
      (q.state = .headers ∧ left = tail ∧ left' = tail ∨
        q.state = .error ∧ tail <:+ left ∧ tail <:+ left') := by
  induction hlines generalizing p headers with
  | nil => exact ⟨p, headers, tail, tail, .refl _ _, .refl _ _, hheaders, .inl ⟨hstate, rfl, rfl⟩⟩
  | @cons line other lines others hline _ ih =>
      obtain ⟨hne, hpair⟩ := hwhole line List.mem_cons_self
      obtain ⟨hne', hpair'⟩ := hwhole' other List.mem_cons_self
      have hfirst := step_headerLine hstate hpair (RequestHead.linesText lines ++ tail)
      have hfirst' := step_headerLine (p := p.withHeaders headers) hstate hpair'
        (RequestHead.linesText others ++ tail)
      rw [takeHeaderLine, if_neg (by simpa using hne)] at hfirst
      rw [takeHeaderLine, if_neg (by simpa using hne')] at hfirst'
      rw [linesText_cons_append, linesText_cons_append]
      rcases readHeaderLine_of_sameLine hsame hheaders hline with ⟨hnone, hnone'⟩ |
        ⟨q, stored, hq, hq', hstored⟩
      · rw [hnone] at hfirst
        rw [hnone'] at hfirst'
        exact ⟨p.fail, headers, _, _, hfirst, hfirst', hheaders,
          .inr ⟨rfl, List.suffix_append _ _, List.suffix_append _ _⟩⟩
      · rw [hq] at hfirst
        rw [hq'] at hfirst'
        obtain ⟨r, last, left, left', hr, hr', hlast, hend⟩ := ih hstored
          ((state_readHeaderLine hq).trans hstate)
          (fun text hmem => hwhole text (List.mem_cons_of_mem _ hmem))
          (fun text hmem => hwhole' text (List.mem_cons_of_mem _ hmem))
        exact ⟨r, last, left, left', hfirst.trans hr, hfirst'.trans hr', hlast, hend⟩

end Simulation

/-- After the header section the two parsers take the same bytes. -/
theorem guard_parse_withHeaders {p : HttpParser} (hwait : p.waitsForLine = false)
    (headers : HeaderMap) (bs : Bytes) : guard.parse (p.withHeaders headers) bs =
      ((guard.parse p bs).1.withHeaders headers, (guard.parse p bs).2) := by
  -- a final state stays, and a body is taken, or waited for, by its length
  by_cases hverdict : verdict p.state = .incomplete
  · have hstate : p.state = .body := by
      cases hstate : p.state <;> simp_all [waitsForLine, verdict]
    have hquiet : ∀ q : HttpParser, q.state = .body → guard.overflow q bs = false := by
      intro q hq
      simp [guard, waitsForLine, hq]
    rcases Nat.lt_or_ge bs.length p.contentLength with hshort | hlong
    · have hstuck : machine.step p bs = none := step_body_none hstate hshort
      have hstuck' : machine.step (p.withHeaders headers) bs = none :=
        step_body_none (p := p.withHeaders headers) hstate hshort
      rw [Guard.parse, Guard.parse, Machine.run_of_stuck hstuck, Machine.run_of_stuck hstuck',
        Guard.finish_of_quiet (hquiet _ hstate), Guard.finish_of_quiet (hquiet _ hstate)]
    · have hstep := step_body hstate hlong
      have hstep' := step_body (p := p.withHeaders headers) hstate hlong
      rw [guard_parse_of_reaches (reaches_of_step hstep) (by simp [verdict]),
        guard_parse_of_reaches (reaches_of_step hstep') (by simp [verdict])]
      rfl
  · have hverdict' : verdict (p.withHeaders headers).state ≠ .incomplete := hverdict
    rw [guard_parse_of_verdict hverdict, guard_parse_of_verdict hverdict']

/-- The header map stays as it is. -/
theorem headers_guard_parse {p : HttpParser} (hwait : p.waitsForLine = false) (bs : Bytes) :
    (guard.parse p bs).1.request.headers = p.request.headers :=
  congrArg (fun c => c.1.request.headers) (guard_parse_withHeaders hwait p.request.headers bs)

theorem waitsForLine_endOfHeaders (p : HttpParser) : p.endOfHeaders.2.waitsForLine = false := by
  rcases p.endOfHeaders_cases with heq | ⟨heq, -⟩ | ⟨heq, -⟩
  · rw [heq]
    rfl
  · rw [heq]
    rfl
  · rw [heq]
    rfl

variable {same : Bytes → Bytes → Bytes → Prop}

/-- **Side by side.**  Heads with related lines and the same bytes behind them are
parsed to the same state but for the header maps, whose values are related.  What
is left is the same, or it is left by an error in the head, with all of what
stands behind it. -/
theorem guard_parse_side_by_side (hsame : Lenient same) {h g : RequestHead}
    (hline : h.requestLine = g.requestLine)
    (hlines : List.Forall₂ (SameLine same) h.lines g.lines) (after : Bytes) :
    ∃ q stored left left', guard.parse {} (h.encode ++ after) = (q, left) ∧
      guard.parse {} (g.encode ++ after) = (q.withHeaders stored, left') ∧
      SameHeaders same q.request.headers stored ∧
      (left = left' ∨ q.state = .error ∧ after <:+ left ∧ after <:+ left') := by
  rw [encode_append, encode_append, ← hline]
  cases hread : readRequestLine {} h.requestLine with
  | none =>
      have hfail := reaches_fail_of_requestLine (p := {}) rfl h.requestLine_whole hread
      have hfinal : verdict (fail {}).state ≠ .incomplete := by simp [HttpParser.fail, verdict]
      have hsuffix : ∀ lines, after <:+
          h.requestLine ++ crlf ++ (RequestHead.linesText lines ++ (crlf ++ after)) := fun lines =>
        ⟨h.requestLine ++ crlf ++ (RequestHead.linesText lines ++ crlf), by simp⟩
      exact ⟨fail {}, ∅, _, _, guard_parse_of_reaches (hfail _) hfinal,
        guard_parse_of_reaches (hfail _) hfinal, .refl hsame _, .inr ⟨rfl, hsuffix _, hsuffix _⟩⟩
  | some p =>
      have hstate : p.state = .headers := state_readRequestLine hread
      have hstart := reaches_of_requestLine (p := {}) rfl h.requestLine_whole hread
      obtain ⟨q, stored, left, left', hq, hq', hstored, hend⟩ := reaches_side_by_side hsame
        (.refl hsame p.request.headers) hstate hlines h.lines_whole g.lines_whole (crlf ++ after)
      rcases hend with ⟨hheaders, rfl, rfl⟩ | ⟨herror, hleft, hleft'⟩
      · -- the blank line, and then the body
        have hblank := step_headerLine hheaders findPair_nil after
        have hblank' := step_headerLine (p := q.withHeaders stored) hheaders findPair_nil after
        rw [takeHeaderLine_nil] at hblank hblank'
        rw [endOfHeaders_withHeaders hsame hstored] at hblank'
        have hafter := guard_parse_withHeaders (waitsForLine_endOfHeaders q) stored after
        refine ⟨(guard.parse q.endOfHeaders.2 after).1, stored,
          (guard.parse q.endOfHeaders.2 after).2, _,
          Guard.parse_of_reaches ((hstart _).trans (hq.trans hblank)), ?_, ?_, .inl rfl⟩
        · rw [Guard.parse_of_reaches ((hstart _).trans (hq'.trans hblank'))]
          exact hafter
        · rw [headers_guard_parse (waitsForLine_endOfHeaders q), headers_endOfHeaders]
          exact hstored
      · have hfinal : verdict q.state ≠ .incomplete := by simp [herror, verdict]
        refine ⟨q, stored, left, left', ?_, ?_, hstored, .inr ⟨herror, ?_, ?_⟩⟩
        · exact guard_parse_of_reaches ((hstart _).trans hq) hfinal
        · exact guard_parse_of_reaches ((hstart _).trans hq') hfinal
        · exact (List.suffix_append _ _).trans hleft
        · exact (List.suffix_append _ _).trans hleft'

/-! ## The spelling does not matter -/

/-- The part of the unread bytes that stands behind the header section, when
`after` does. -/
def leftBehind (after left : Bytes) : Bytes := left.drop (left.length - after.length)

theorem leftBehind_of_suffix {after left : Bytes} (h : after <:+ left) :
    leftBehind after left = after := by
  obtain ⟨front, rfl⟩ := h
  have hlength : (front ++ after).length - after.length = front.length := by simp
  rw [leftBehind, hlength, List.drop_left]

/-- The two calls have the same verdict, make the same request, and leave the same
bytes behind the header section. -/
structure SameOutcome (after : Bytes) (r s : Parsed) : Prop where
  ret : r.ret = s.ret
  request : r.parser.request = s.parser.request
  contentLength : r.parser.contentLength = s.parser.contentLength
  left : leftBehind after r.buf.readable = leftBehind after s.buf.readable
  /-- Without an error the header section has been taken. -/
  taken : r.ret ≠ .error → r.buf.readable = s.buf.readable

/-- The spellings of two header sections: the same lines, up to the letter case of
names and the spaces and tabs around names and values. -/
def SameSpelling (h g : RequestHead) : Prop :=
  h.requestLine = g.requestLine ∧ List.Forall₂ (SameLine EqualValues) h.lines g.lines

/-- The same, up to the letter case of connection options and transfer codings. -/
def SameOptions (h g : RequestHead) : Prop :=
  h.requestLine = g.requestLine ∧ List.Forall₂ (SameLine EqualOptions) h.lines g.lines

/-- **Spelling.**  Two streams with header sections that differ in spelling only
are parsed to the same outcome; if connection options and transfer codings differ
in letter case too, to the same verdict and the same choice to keep the
connection. -/
theorem spelling {h g : RequestHead} {after : Bytes} {b c : Buffer}
    (hb : b.readable = h.encode ++ after) (hc : c.readable = g.encode ++ after) :
    (SameSpelling h g → SameOutcome after (parse {} b) (parse {} c)) ∧
      (SameOptions h g → (parse {} b).ret = (parse {} c).ret ∧
        (parse {} b).parser.request.keepAlive = (parse {} c).parser.request.keepAlive) := by
  constructor
  · rintro ⟨hline, hlines⟩
    obtain ⟨q, stored, left, left', hparse, hparse', hstored, hleft⟩ :=
      guard_parse_side_by_side lenient_equalValues hline hlines after
    rw [← hstored.eq] at hparse'
    rw [← hb] at hparse
    rw [← hc] at hparse'
    have hparser : (parse {} b).parser = (parse {} c).parser := by
      rw [parser_parse, parser_parse, hparse, hparse']
      rfl
    have hret : (parse {} b).ret = (parse {} c).ret := by
      rw [ret_parse, ret_parse, hparse, hparse']
      rfl
    refine ⟨hret, by rw [hparser], by rw [hparser], ?_, ?_⟩
    · rw [readable_parse, readable_parse, hparse, hparse']
      rcases hleft with rfl | ⟨-, hsuffix, hsuffix'⟩
      · rfl
      · rw [leftBehind_of_suffix hsuffix, leftBehind_of_suffix hsuffix']
    · intro hok
      rw [ret_parse, hparse] at hok
      rw [readable_parse, readable_parse, hparse, hparse']
      rcases hleft with rfl | ⟨herror, -, -⟩
      · rfl
      · exact absurd (by rw [herror]; rfl) hok
  · rintro ⟨hline, hlines⟩
    obtain ⟨q, stored, left, left', hparse, hparse', hstored, -⟩ :=
      guard_parse_side_by_side lenient_equalOptions hline hlines after
    rw [← hb] at hparse
    rw [← hc] at hparse'
    constructor
    · rw [ret_parse, ret_parse, hparse, hparse']
      rfl
    · rw [parser_parse, parser_parse, hparse, hparse']
      exact keepAlive_withHeaders lenient_equalOptions hstored

/-- A head, spelled in two ways, and one with its option in capitals. -/
def plainHead : RequestHead where
  requestLine := bytes "GET /page HTTP/1.1"
  lines := [bytes "Host:b", bytes "connection: close"]
  requestLine_whole := by decide
  lines_whole := by decide

def spacedHead : RequestHead where
  requestLine := bytes "GET /page HTTP/1.1"
  lines := [bytes "\tHOST : b \t", bytes "Connection:  close"]
  requestLine_whole := by decide
  lines_whole := by decide

def capitalHead : RequestHead where
  requestLine := bytes "GET /page HTTP/1.1"
  lines := [bytes "Host:b", bytes "Connection: CLOSE"]
  requestLine_whole := by decide
  lines_whole := by decide

theorem sameSpelling_spacedHead : SameSpelling plainHead spacedHead := by
  refine ⟨rfl, .cons (.inr ⟨?_, ?_, ?_⟩) (.cons (.inr ⟨?_, ?_, ?_⟩) .nil)⟩
  · exact { name := bytes "Host", value := bytes "b" }
  · exact {
      beforeName := [9], name := bytes "HOST", afterName := [32]
      beforeValue := [32], value := bytes "b", afterValue := [32, 9] }
  · exact ⟨by decide, by decide, by decide, rfl⟩
  · exact { name := bytes "connection", beforeValue := [32], value := bytes "close" }
  · exact { name := bytes "Connection", beforeValue := [32, 32], value := bytes "close" }
  · exact ⟨by decide, by decide, by decide, rfl⟩

theorem sameOptions_capitalHead : SameOptions plainHead capitalHead := by
  refine ⟨rfl, .cons (.inl rfl) (.cons (.inr ⟨?_, ?_, ?_⟩) .nil)⟩
  · exact { name := bytes "connection", beforeValue := [32], value := bytes "close" }
  · exact { name := bytes "Connection", beforeValue := [32], value := bytes "CLOSE" }
  · exact ⟨by decide, by decide, by decide, .inr ⟨.inl (by decide), by decide⟩⟩

/-- The law on these heads, with the beginning of another request behind them. -/
theorem spelling_samples :
    SameOutcome (bytes "GET") (parse {} ((Buffer.ofSize 0).append (plainHead.encode ++ bytes "GET")))
      (parse {} ((Buffer.ofSize 0).append (spacedHead.encode ++ bytes "GET"))) ∧
    (parse {} ((Buffer.ofSize 0).append (plainHead.encode ++ []))).parser.request.keepAlive =
      (parse {} ((Buffer.ofSize 0).append (capitalHead.encode ++ []))).parser.request.keepAlive := by
  have hreadable := Buffer.readable_ofSize_append 0
  constructor
  · exact (spelling (hreadable _) (hreadable _)).1 sameSpelling_spacedHead
  · exact ((spelling (hreadable _) (hreadable _)).2 sameOptions_capitalHead).2

end HttpParser

end WsServer
