import WsServer.Parser.Segmentation

/-!
# Request heads

The head of a request is its request line, its header lines and the blank line.
`RequestHead` is a head as it is cut into lines, whatever the lines say;
`RequestHead.Accepted` says which heads the parser accepts, line by line, and
`RequestHead.Rejected` is the opposite.  Both speak about the bytes of the lines
and not about a run of the parser.

The parser folds the header lines into a map in which later lines replace
earlier ones, so what the blank line looks at is the *last* `Transfer-Encoding`
value and the number read from the *last* `Content-Length` value
(`afterLines_eq`).  `parse_encode_of_accepted` and `parse_encode_of_rejected`
give the result of parsing a head followed by any bytes.
-/

namespace WsServer

open CString PairSearch Incremental

namespace HttpParser

def crlf : Bytes := [13, 10]

/-! ## Request lines -/

/-- A request line that the parser accepts, in its three parts. -/
structure RequestLine where
  method : Bytes
  target : Bytes
  version : Bytes
  method_ne_nil : method ≠ []
  space_notMem_method : 32 ∉ method
  space_notMem_target : 32 ∉ target
  version_length : 8 ≤ version.length
  version_prefix : version.take 7 = bytes "HTTP/1."
  short : method.length + target.length + version.length + 2 ≤ kMaxRequestLine

namespace RequestLine

/-- The line itself. -/
def text (line : RequestLine) : Bytes := line.method ++ 32 :: line.target ++ 32 :: line.version

/-- The request after this line: nothing but its parts is known yet. -/
def request (line : RequestLine) : HttpRequest where
  method := line.method
  path := targetPath line.target
  query := targetQuery line.target []
  version := line.version

end RequestLine

theorem find_append_cons {c : UInt8} {before : Bytes} (h : c ∉ before) (rest : Bytes) :
    find c (before ++ c :: rest) = some before.length := by
  unfold find
  rw [List.findIdx?_append, List.findIdx?_eq_none_iff.mpr]
  · simp [List.findIdx?_cons]
  · intro x hx
    have : x ≠ c := fun heq => h (heq ▸ hx)
    simpa using this

/-- The first `c` splits a string into the text before it, which has none, and
the text after it. -/
theorem exists_of_find {c : UInt8} {s : Bytes} {i : ℕ} (h : find c s = some i) :
    ∃ before after, s = before ++ c :: after ∧ c ∉ before ∧ before.length = i := by
  obtain ⟨hlt, hc, hbefore⟩ := List.findIdx?_eq_some_iff_getElem.mp h
  refine ⟨s.take i, s.drop (i + 1), ?_, ?_, ?_⟩
  · have hget : s[i] = c := by simpa using hc
    rw [← hget, ← List.drop_eq_getElem_cons hlt, List.take_append_drop]
  · intro hmem
    obtain ⟨j, hj, hget⟩ := List.getElem_of_mem hmem
    rw [List.length_take] at hj
    rw [List.getElem_take] at hget
    exact hbefore j (by omega) (by simpa using hget)
  · rw [List.length_take]
    omega

theorem splitRequestLine_text {method target : Bytes} (hmethod : 32 ∉ method)
    (htarget : 32 ∉ target) (version : Bytes) :
    splitRequestLine (method ++ 32 :: target ++ 32 :: version) =
      some (method, target, version) := by
  have hfirst : find 32 (method ++ 32 :: target ++ 32 :: version) = some method.length := by
    rw [List.append_assoc]
    exact find_append_cons hmethod _
  have hrest : (method ++ 32 :: target ++ 32 :: version).drop (method.length + 1) =
      target ++ 32 :: version := by
    simp
  have hsecond : findFrom 32 (method ++ 32 :: target ++ 32 :: version) (method.length + 1) =
      some (target.length + (method.length + 1)) := by
    rw [findFrom, hrest, find_append_cons htarget]
    rfl
  have hversion : (method ++ 32 :: target ++ 32 :: version).drop
      (target.length + (method.length + 1) + 1) = version := by
    have hlen : target.length + (method.length + 1) + 1 =
        (method ++ 32 :: target ++ [32]).length := by
      simp only [List.length_append, List.length_cons, List.length_nil]
      omega
    rw [hlen, show method ++ 32 :: target ++ 32 :: version =
      (method ++ 32 :: target ++ [32]) ++ version by simp, List.drop_left]
  simp only [splitRequestLine, hfirst, hsecond, hrest, hversion]
  have hlen : target.length + (method.length + 1) - method.length - 1 = target.length := by omega
  simp [hlen]

/-- Two spaces are needed, and the three parts are the text around them. -/
theorem exists_of_splitRequestLine {line method target version : Bytes}
    (h : splitRequestLine line = some (method, target, version)) :
    line = method ++ 32 :: target ++ 32 :: version ∧ 32 ∉ method ∧ 32 ∉ target := by
  unfold splitRequestLine at h
  cases hfirst : find 32 line with
  | none => simp [hfirst] at h
  | some i =>
      obtain ⟨before, after, rfl, hbefore, rfl⟩ := exists_of_find hfirst
      cases hsecond : find 32 after with
      | none => simp [hfirst, findFrom, hsecond] at h
      | some j =>
          obtain ⟨middle, last, rfl, hmiddle, rfl⟩ := exists_of_find hsecond
          have hline := splitRequestLine_text hbefore hmiddle last
          unfold splitRequestLine at hline
          rw [List.append_assoc] at hline
          rw [List.cons_append] at hline
          rw [hline] at h
          cases h
          exact ⟨by simp, hbefore, hmiddle⟩

/-- An accepted request line sets its four fields and starts the header section. -/
theorem readRequestLine_text (line : RequestLine) :
    readRequestLine {} line.text = some { state := .headers, request := line.request } := by
  have hlength : line.text.length ≤ kMaxRequestLine := by
    have := line.short
    simp only [RequestLine.text, List.length_append, List.length_cons]
    omega
  have hne : line.text.isEmpty = false := by simp [RequestLine.text]
  have hmethod : line.method.isEmpty = false := by simpa using line.method_ne_nil
  have hsplit := splitRequestLine_text line.space_notMem_method line.space_notMem_target
    line.version
  unfold readRequestLine
  rw [if_neg (by simp [hlength, hne])]
  simp only [RequestLine.text] at hsplit ⊢
  rw [hsplit]
  simp only [hmethod, line.version_prefix, ne_eq, not_true_eq_false, decide_false,
    Bool.or_false, not_lt.mpr line.version_length]
  rfl

/-- Every request line that is accepted is a `RequestLine`. -/
theorem exists_of_readRequestLine {rl : Bytes} {q : HttpParser}
    (h : readRequestLine {} rl = some q) : ∃ line : RequestLine, line.text = rl := by
  unfold readRequestLine at h
  split at h
  · simp at h
  · rename_i hsize
    split at h
    · simp at h
    · rename_i method target version hsplit
      split at h
      · simp at h
      · rename_i hparts
        obtain ⟨rfl, hmethod, htarget⟩ := exists_of_splitRequestLine hsplit
        simp only [Bool.or_eq_true, decide_eq_true_eq, not_or, not_lt, List.isEmpty_iff,
          ne_eq, not_not] at hparts hsize
        obtain ⟨⟨hne, hlength⟩, hprefix⟩ := hparts
        have hshort := hsize.1
        simp only [List.length_append, List.length_cons] at hshort
        exact ⟨⟨method, target, version, hne, hmethod, htarget, hlength, hprefix, by omega⟩, rfl⟩

/-! ## Header lines -/

/-- The keys and values of a list of header lines, in the order of the lines. -/
def fields (lines : List Bytes) : List (Bytes × Bytes) := lines.filterMap splitHeaderLine

/-- The values of the lines with a given key. -/
def fieldValues (key : Bytes) (lines : List Bytes) : List Bytes :=
  SortedMap.valuesAt key (fields lines)

/-- A line that is accepted after the lines `before`: there is room for one more
key, the line has a key, and a `Content-Length` value begins with a number. -/
def AcceptedLine (before : List Bytes) (line : Bytes) : Prop :=
  SortedMap.keyCount (fields before) < kMaxHeaderCount ∧ ∃ key value, splitHeaderLine line = some (key, value) ∧
    key ≠ [] ∧ (key = bytes "content-length" → (readContentLength value).isSome)

/-- Every line is accepted after those before it. -/
def AcceptedLines (lines : List Bytes) : Prop :=
  ∀ before line after, lines = before ++ line :: after → AcceptedLine before line

/-- The coding that the blank line looks at: the last one stated. -/
def transferCoding (lines : List Bytes) : Bytes :=
  (fieldValues (bytes "transfer-encoding") lines).getLast?.getD []

/-- The length of the body: the number read from the last value that states one. -/
def statedLength (lines : List Bytes) : ℕ :=
  match (fieldValues (bytes "content-length") lines).getLast? with
  | none => 0
  | some value => (readContentLength value).getD 0

theorem acceptedLines_nil : AcceptedLines [] := by
  intro before line after h
  simp at h

theorem acceptedLines_concat (lines : List Bytes) (line : Bytes) :
    AcceptedLines (lines ++ [line]) ↔ AcceptedLines lines ∧ AcceptedLine lines line := by
  constructor
  · intro h
    refine ⟨?_, h lines line [] rfl⟩
    rintro before other after rfl
    exact h before other (after ++ [line]) (by simp)
  · rintro ⟨hlines, hline⟩ before other after heq
    -- the line in question is the last one or stands before it
    induction after using List.reverseRecOn with
    | nil =>
        obtain ⟨rfl, hother⟩ := List.append_inj' heq rfl
        cases hother
        exact hline
    | append_singleton after last _ =>
        rw [← List.cons_append, ← List.append_assoc] at heq
        exact hlines before other after (List.append_inj' heq rfl).1

theorem fields_concat (lines : List Bytes) {line key value : Bytes}
    (h : splitHeaderLine line = some (key, value)) :
    fields (lines ++ [line]) = fields lines ++ [(key, value)] := by
  simp [fields, h]

/-- The parser after header lines that are all accepted. -/
def afterLines (p : HttpParser) (lines : List Bytes) : HttpParser :=
  { p with
    request := { p.request with headers := (∅ : HeaderMap).insertAll (fields lines) }
    contentLength := statedLength lines }

theorem getHeader_afterLines (p : HttpParser) (lines : List Bytes) (key : Bytes) :
    (p.afterLines lines).request.getHeader key = (fieldValues key lines).getLast?.getD [] := by
  show (match ((∅ : HeaderMap).insertAll (fields lines)).find? key with
    | none => []
    | some value => value) = _
  rw [SortedMap.find?_insertAll, SortedMap.find?_empty, Option.or_none, fieldValues]
  cases (SortedMap.valuesAt key (fields lines)).getLast? <;> rfl

/-- A line whose key is not `Content-Length` leaves the stated length as it is. -/
theorem statedLength_concat_of_ne (lines : List Bytes) {line key value : Bytes}
    (h : splitHeaderLine line = some (key, value)) (hkey : key ≠ bytes "content-length") :
    statedLength (lines ++ [line]) = statedLength lines := by
  rw [statedLength, fieldValues, fields_concat lines h, SortedMap.valuesAt_append,
    SortedMap.valuesAt_singleton_of_ne hkey, List.append_nil]
  rfl

theorem statedLength_concat (lines : List Bytes) {line value : Bytes} {n : ℕ}
    (h : splitHeaderLine line = some (bytes "content-length", value))
    (hread : readContentLength value = some n) : statedLength (lines ++ [line]) = n := by
  rw [statedLength, fieldValues, fields_concat lines h, SortedMap.valuesAt_append,
    SortedMap.valuesAt_singleton_self, List.getLast?_concat]
  simp [hread]

theorem readHeaderLine_afterLines_of_accepted (p : HttpParser) {lines : List Bytes} {line : Bytes}
    (h : AcceptedLine lines line) :
    (p.afterLines lines).readHeaderLine line = some (p.afterLines (lines ++ [line])) := by
  obtain ⟨hcount, key, value, hsplit, hne, hlength⟩ := h
  have hroom : ¬ (p.afterLines lines).request.headers.size ≥ kMaxHeaderCount := by
    show ¬ ((∅ : HeaderMap).insertAll (fields lines)).size ≥ kMaxHeaderCount
    rw [SortedMap.size_insertAll_empty]
    omega
  have hkey : key.isEmpty = false := by simpa using hne
  unfold readHeaderLine
  simp only [if_neg hroom, hsplit, hkey, Bool.false_eq_true, if_false]
  by_cases hcl : key = bytes "content-length"
  · obtain ⟨n, hn⟩ := Option.isSome_iff_exists.mp (hlength hcl)
    rw [if_pos hcl, hn]
    subst hcl
    simp only [afterLines, setHeader, statedLength_concat lines hsplit hn,
      fields_concat lines hsplit, SortedMap.insertAll_append]
    rfl
  · rw [if_neg hcl]
    simp only [afterLines, setHeader, statedLength_concat_of_ne lines hsplit hcl,
      fields_concat lines hsplit, SortedMap.insertAll_append]
    rfl

theorem readHeaderLine_afterLines_of_not_accepted (p : HttpParser) {lines : List Bytes}
    {line : Bytes} (h : ¬ AcceptedLine lines line) :
    (p.afterLines lines).readHeaderLine line = none := by
  have hsize : (p.afterLines lines).request.headers.size = SortedMap.keyCount (fields lines) :=
    SortedMap.size_insertAll_empty _
  by_contra hne
  apply h
  unfold readHeaderLine at hne
  rw [hsize] at hne
  split_ifs at hne with hcount
  · exact absurd rfl hne
  refine ⟨by omega, ?_⟩
  split at hne
  · exact absurd rfl hne
  rename_i key value hsplit
  refine ⟨key, value, hsplit, ?_⟩
  split_ifs at hne with hkey hcl
  · exact absurd rfl hne
  · refine ⟨by simpa using hkey, fun _ => ?_⟩
    cases hread : readContentLength value with
    | none => simp [hread] at hne
    | some n => rfl
  · exact ⟨by simpa using hkey, fun h => absurd h hcl⟩

/-- **Header lines.**  Reading header lines one after another succeeds exactly on
accepted lines, and leaves `afterLines`. -/
theorem afterLines_eq {p : HttpParser} (hheaders : p.request.headers = ∅)
    (hlength : p.contentLength = 0) (lines : List Bytes) :
    (AcceptedLines lines → lines.foldlM readHeaderLine p = some (p.afterLines lines)) ∧
      (¬ AcceptedLines lines → lines.foldlM readHeaderLine p = none) := by
  induction lines using List.reverseRecOn with
  | nil =>
      refine ⟨fun _ => ?_, fun h => absurd acceptedLines_nil h⟩
      obtain ⟨state, request, contentLength⟩ := p
      obtain ⟨method, path, query, version, headers, body⟩ := request
      cases hheaders
      cases hlength
      rfl
  | append_singleton lines line ih =>
      rw [List.foldlM_append, acceptedLines_concat]
      by_cases hlines : AcceptedLines lines
      · rw [ih.1 hlines]
        show (_ → [line].foldlM readHeaderLine (p.afterLines lines) = _) ∧
          (_ → [line].foldlM readHeaderLine (p.afterLines lines) = _)
        rw [List.foldlM_cons]
        refine ⟨fun h => ?_, fun h => ?_⟩
        · rw [readHeaderLine_afterLines_of_accepted p h.2]
          rfl
        · rw [readHeaderLine_afterLines_of_not_accepted p fun hline => h ⟨hlines, hline⟩]
          rfl
      · rw [ih.2 hlines]
        exact ⟨fun h => absurd h.1 hlines, fun _ => rfl⟩

theorem takeHeaderLine_nil (p : HttpParser) : p.takeHeaderLine [] = p.endOfHeaders.2 := rfl

/-- What the blank line looks at. -/
theorem endOfHeaders_afterLines (p : HttpParser) (lines : List Bytes) :
    (p.afterLines lines).endOfHeaders =
      if unsupportedCoding (transferCoding lines) then (.error, (p.afterLines lines).fail)
      else if statedLength lines = 0 then (.ok, { p.afterLines lines with state := .complete })
      else if statedLength lines > kMaxBody then (.error, (p.afterLines lines).fail)
      else (.ok, { p.afterLines lines with state := .body }) := by
  rw [endOfHeaders, getHeader_afterLines]
  rfl

/-! ## Heads -/

/-- A request head cut into lines, whatever the lines say. -/
structure RequestHead where
  requestLine : Bytes
  lines : List Bytes
  requestLine_whole : findPair 13 10 requestLine = none
  lines_whole : ∀ line ∈ lines, line ≠ [] ∧ findPair 13 10 line = none

namespace RequestHead

/-- Header lines on the wire. -/
def linesText (lines : List Bytes) : Bytes := lines.flatMap fun line => line ++ crlf

/-- The head on the wire: every line with its CRLF, then the blank line. -/
def encode (h : RequestHead) : Bytes :=
  h.requestLine ++ crlf ++ linesText h.lines ++ crlf

/-- All lines are accepted, and the stated length is within the limit. -/
structure WellFormed (h : RequestHead) (line : RequestLine) : Prop where
  requestLine : line.text = h.requestLine
  lines : AcceptedLines h.lines
  length : statedLength h.lines ≤ kMaxBody

/-- The heads that the parser accepts. -/
structure Accepted (h : RequestHead) (line : RequestLine) : Prop where
  wellFormed : h.WellFormed line
  coding : unsupportedCoding (transferCoding h.lines) = false

def Malformed (h : RequestHead) : Prop := ∀ line, ¬ h.WellFormed line

/-- The heads that the parser rejects. -/
def Rejected (h : RequestHead) : Prop :=
  h.Malformed ∨ unsupportedCoding (transferCoding h.lines) = true

theorem rejected_iff (h : RequestHead) : h.Rejected ↔ ∀ line, ¬ h.Accepted line := by
  constructor
  · rintro (hmal | hcoding) line hacc
    · exact hmal line hacc.wellFormed
    · rw [hacc.coding] at hcoding
      simp at hcoding
  · intro hnone
    by_cases hcoding : unsupportedCoding (transferCoding h.lines) = true
    · exact .inr hcoding
    · exact .inl fun line hwf => hnone line ⟨hwf, by simpa using hcoding⟩

/-- The request made of an accepted head and a body. -/
def request (h : RequestHead) (line : RequestLine) (body : Bytes) : HttpRequest :=
  { line.request with headers := (∅ : HeaderMap).insertAll (fields h.lines), body := body }

end RequestHead

/-! ## Runs over a head -/

theorem findPair_headerLine {line : Bytes} (hwhole : findPair 13 10 line = none) (rest : Bytes) :
    findPair 13 10 (line ++ crlf ++ rest) = some line.length := by
  rw [List.append_assoc]
  exact findPair_line (by decide) hwhole rest

theorem step_headerLine {p : HttpParser} (hstate : p.state = .headers) {line : Bytes}
    (hwhole : findPair 13 10 line = none) (rest : Bytes) :
    machine.Reaches p (line ++ crlf ++ rest) (p.takeHeaderLine line) rest := by
  have hstep := step_headers hstate (findPair_headerLine hwhole rest)
  have hline : (line ++ crlf ++ rest).take line.length = line := by
    rw [List.append_assoc, List.take_left]
  have hrest : (line ++ crlf ++ rest).drop (line.length + 2) = rest := by
    rw [show line.length + 2 = (line ++ crlf).length by simp [crlf], List.drop_left]
  rw [hline] at hstep
  have := reaches_of_step hstep
  rwa [hrest] at this

/-- Accepted header lines are read one after another. -/
theorem reaches_of_headerLines {p q : HttpParser} (hstate : p.state = .headers)
    {lines : List Bytes} (hwhole : ∀ line ∈ lines, line ≠ [] ∧ findPair 13 10 line = none)
    (h : lines.foldlM readHeaderLine p = some q) (rest : Bytes) :
    q.state = .headers ∧ machine.Reaches p (RequestHead.linesText lines ++ rest) q rest := by
  induction lines generalizing p with
  | nil =>
      cases h
      exact ⟨hstate, .refl _ _⟩
  | cons line lines ih =>
      obtain ⟨p', hline, hlines⟩ := Option.bind_eq_some_iff.mp h
      obtain ⟨hne, hpair⟩ := hwhole line List.mem_cons_self
      have hfirst := step_headerLine hstate hpair (RequestHead.linesText lines ++ rest)
      rw [takeHeaderLine, if_neg (by simpa using hne), hline] at hfirst
      obtain ⟨hq, hreach⟩ := ih (by rw [state_readHeaderLine hline, hstate])
        (fun other hmem => hwhole other (List.mem_cons_of_mem _ hmem)) hlines
      refine ⟨hq, ?_⟩
      rw [RequestHead.linesText, List.flatMap_cons, List.append_assoc]
      exact hfirst.trans hreach

/-- The first header line that is not accepted ends in an error. -/
theorem reaches_error_of_headerLines {p : HttpParser} (hstate : p.state = .headers)
    {lines : List Bytes} (hwhole : ∀ line ∈ lines, line ≠ [] ∧ findPair 13 10 line = none)
    (h : lines.foldlM readHeaderLine p = none) (rest : Bytes) :
    ∃ q left, q.state = .error ∧
      machine.Reaches p (RequestHead.linesText lines ++ rest) q left := by
  induction lines generalizing p with
  | nil => cases h
  | cons line lines ih =>
      obtain ⟨hne, hpair⟩ := hwhole line List.mem_cons_self
      have hfirst := step_headerLine hstate hpair (RequestHead.linesText lines ++ rest)
      rw [takeHeaderLine, if_neg (by simpa using hne)] at hfirst
      rw [RequestHead.linesText, List.flatMap_cons, List.append_assoc]
      cases hline : p.readHeaderLine line with
      | none =>
          rw [hline] at hfirst
          exact ⟨_, _, rfl, hfirst⟩
      | some p' =>
          rw [hline] at hfirst
          rw [List.foldlM_cons, hline] at h
          obtain ⟨q, left, hq, hreach⟩ := ih (by rw [state_readHeaderLine hline, hstate])
            (fun other hmem => hwhole other (List.mem_cons_of_mem _ hmem)) h
          exact ⟨q, left, hq, hfirst.trans hreach⟩

theorem encode_append (h : RequestHead) (rest : Bytes) : h.encode ++ rest =
    h.requestLine ++ crlf ++ (RequestHead.linesText h.lines ++ (crlf ++ rest)) := by
  simp [RequestHead.encode]

theorem findPair_requestLine (h : RequestHead) (rest : Bytes) :
    findPair 13 10 (h.encode ++ rest) = some h.requestLine.length := by
  rw [encode_append]
  exact findPair_headerLine h.requestLine_whole _

theorem take_requestLine (h : RequestHead) (rest : Bytes) :
    (h.encode ++ rest).take h.requestLine.length = h.requestLine := by
  rw [encode_append, List.append_assoc, List.take_left]

/-- An accepted request line leaves the parser at the first header line. -/
theorem reaches_headerSection {h : RequestHead} {line : RequestLine}
    (hline : line.text = h.requestLine) (rest : Bytes) :
    machine.Reaches {} (h.encode ++ rest) { state := .headers, request := line.request }
      (RequestHead.linesText h.lines ++ (crlf ++ rest)) := by
  have hread : readRequestLine {} ((h.encode ++ rest).take h.requestLine.length) =
      some { state := .headers, request := line.request } := by
    rw [take_requestLine, ← hline, readRequestLine_text]
  have hstep := step_requestLine_accept (p := {}) rfl (findPair_requestLine h rest) hread
  have := reaches_of_step hstep
  rwa [show h.requestLine.length + 2 = (h.requestLine ++ crlf).length by simp [crlf],
    encode_append, List.drop_left, ← encode_append] at this

/-- The parser after the blank line of an accepted head. -/
theorem reaches_blankLine {h : RequestHead} {line : RequestLine} (hacc : h.Accepted line)
    (rest : Bytes) :
    machine.Reaches {} (h.encode ++ rest)
      { state := if statedLength h.lines = 0 then .complete else .body
        request := h.request line []
        contentLength := statedLength h.lines } rest := by
  obtain ⟨hq, hlines⟩ := reaches_of_headerLines rfl h.lines_whole
    ((afterLines_eq (p := { state := .headers, request := line.request }) rfl rfl h.lines).1
      hacc.wellFormed.lines) (crlf ++ rest)
  refine (reaches_headerSection hacc.wellFormed.requestLine rest).trans (hlines.trans ?_)
  have hblank := step_headerLine hq (show findPair 13 10 ([] : Bytes) = none from rfl) rest
  rw [takeHeaderLine_nil, endOfHeaders_afterLines, hacc.coding,
    if_neg (not_lt.mpr hacc.wellFormed.length)] at hblank
  simp only [Bool.false_eq_true, if_false] at hblank
  split_ifs with hzero
  · rwa [if_pos hzero] at hblank
  · rwa [if_neg hzero] at hblank

/-- The whole body is there: the request is complete, and what follows is unread. -/
theorem reaches_request {h : RequestHead} {line : RequestLine} (hacc : h.Accepted line)
    {rest : Bytes} (hbody : statedLength h.lines ≤ rest.length) :
    machine.Reaches {} (h.encode ++ rest)
      { state := .complete
        request := h.request line (rest.take (statedLength h.lines))
        contentLength := statedLength h.lines } (rest.drop (statedLength h.lines)) := by
  refine (reaches_blankLine hacc rest).trans ?_
  by_cases hzero : statedLength h.lines = 0
  · rw [if_pos hzero, hzero]
    exact .refl _ _
  · rw [if_neg hzero]
    exact reaches_of_step (step_body rfl hbody)

/-- A rejected head ends in an error, whatever follows it. -/
theorem reaches_error_of_rejected {h : RequestHead} (hrej : h.Rejected) (rest : Bytes) :
    ∃ q left, q.state = .error ∧ machine.Reaches {} (h.encode ++ rest) q left := by
  by_cases hline : ∃ line : RequestLine, line.text = h.requestLine
  · obtain ⟨line, hline⟩ := hline
    have hstart := reaches_headerSection hline rest
    by_cases hlines : AcceptedLines h.lines
    · obtain ⟨hq, hreach⟩ := reaches_of_headerLines rfl h.lines_whole
        ((afterLines_eq (p := { state := .headers, request := line.request }) rfl rfl h.lines).1
          hlines) (crlf ++ rest)
      have hblank := step_headerLine hq (show findPair 13 10 ([] : Bytes) = none from rfl) rest
      refine ⟨_, rest, ?_, hstart.trans (hreach.trans hblank)⟩
      rw [takeHeaderLine_nil, endOfHeaders_afterLines]
      -- the coding is not supported, or the length is beyond the limit
      rcases hrej with hmal | hcoding
      · have hlong : ¬ statedLength h.lines ≤ kMaxBody := fun hle =>
          hmal line ⟨hline, hlines, hle⟩
        have hpos : statedLength h.lines ≠ 0 := by omega
        split_ifs
        · rfl
        · rfl
        · omega
      · rw [if_pos hcoding]
        rfl
    · obtain ⟨q, left, hq, hreach⟩ := reaches_error_of_headerLines rfl h.lines_whole
        ((afterLines_eq (p := { state := .headers, request := line.request }) rfl rfl h.lines).2
          hlines) (crlf ++ rest)
      exact ⟨q, left, hq, hstart.trans hreach⟩
  · -- the request line itself is rejected
    have hread : readRequestLine {} ((h.encode ++ rest).take h.requestLine.length) = none := by
      rw [take_requestLine]
      by_contra hne
      obtain ⟨q, hq⟩ := Option.ne_none_iff_exists'.mp hne
      exact hline (exists_of_readRequestLine hq)
    have hstep := step_requestLine_reject (p := {}) rfl (findPair_requestLine h rest) hread
    exact ⟨_, _, rfl, reaches_of_step hstep⟩

/-! ## Deliveries -/

/-- A request with the head `h` arriving on a connection: some bytes of it are in
the buffer, or none, and then come one or more pieces.  They may end before the
request does, or go beyond it. -/
structure Delivery (h : RequestHead) where
  buffer : Buffer
  pieces : List Bytes
  rest : Bytes
  pieces_ne_nil : pieces ≠ []
  begins : buffer.readable ++ pieces.flatten <+: h.encode ++ rest

namespace Delivery

variable {h : RequestHead}

/-- All bytes that have arrived. -/
def arrived (d : Delivery h) : Bytes := d.buffer.readable ++ d.pieces.flatten

/-- What the last call of `parse` leaves. -/
def outcome (d : Delivery h) : Parsed := feed {} d.buffer d.pieces

/-- The head has arrived to its blank line. -/
def HeadArrived (d : Delivery h) : Prop := h.encode <+: d.arrived

theorem outcome_same_or_error (d : Delivery h) :
    (verdict (guard.parse {} d.arrived).1.state = d.outcome.ret ∧
      (guard.parse {} d.arrived).1 = d.outcome.parser) ∨ d.outcome.ret = .error := by
  rcases feed_same_or_error {} d.buffer d.pieces_ne_nil with ⟨hret, hparser, -⟩ | herror
  · refine .inl ⟨?_, ?_⟩
    · rw [outcome, hret, ret_parse, Buffer.readable_append]
      rfl
    · rw [outcome, hparser, parser_parse, Buffer.readable_append]
      rfl
  · exact .inr herror

/-- A rejected head is reported as soon as it has arrived, if not before. -/
theorem ret_of_rejected (d : Delivery h) (hrej : h.Rejected) (harrived : d.HeadArrived) :
    d.outcome.ret = .error := by
  obtain ⟨rest, hrest⟩ := harrived
  rcases d.outcome_same_or_error with ⟨hret, -⟩ | herror
  · obtain ⟨q, left, hq, hreach⟩ := reaches_error_of_rejected hrej rest
    rw [← hret, ← hrest, guard_parse_of_reaches hreach (by rw [hq]; decide), hq]
    rfl
  · exact herror

/-- An accepted delivery ends where any run over the whole stream ends. -/
theorem parser_of_ret_ok (d : Delivery h) (hok : d.outcome.ret = .ok) {q : HttpParser}
    {left : Bytes} (hreach : machine.Reaches {} (h.encode ++ d.rest) q left)
    (hstuck : q.step left = none) : d.outcome.parser = q ∧ q.state = .complete := by
  obtain ⟨more, hmore⟩ := d.begins
  rcases d.outcome_same_or_error with ⟨hret, hparser⟩ | herror
  · have hstate : (guard.parse {} d.arrived).1.state = .complete :=
      eq_complete_of_verdict (hret.trans hok)
    -- the run on what has arrived is a run on the whole stream
    have hlonger := (reaches_of_guard_parse_complete hstate).append more
    rw [show d.arrived ++ more = h.encode ++ d.rest from hmore] at hlonger
    have hrun := run_of_reaches hlonger (step_complete hstate _)
    rw [run_of_reaches hreach hstuck] at hrun
    have hq : q = (guard.parse {} d.arrived).1 := congrArg Prod.fst hrun
    exact ⟨(hq.trans hparser).symm, by rw [hq]; exact hstate⟩
  · rw [hok] at herror
    cases herror

/-- **Accepted requests.**  When `parse` returns `ok`, the head is accepted and
the body has the stated length, however the request was cut. -/
theorem of_ret_ok (d : Delivery h) (hok : d.outcome.ret = .ok) :
    ∃ line, h.Accepted line ∧ ∃ body : Bytes, body.length = statedLength h.lines ∧
      d.outcome.parser.request = h.request line body := by
  have hrej : ¬ h.Rejected := by
    intro hrej
    obtain ⟨q, left, hq, hreach⟩ := reaches_error_of_rejected hrej d.rest
    obtain ⟨-, hcomplete⟩ := d.parser_of_ret_ok hok hreach (step_error hq _)
    rw [hq] at hcomplete
    cases hcomplete
  rw [RequestHead.rejected_iff] at hrej
  obtain ⟨line, hline⟩ := not_forall.mp hrej
  have hacc : h.Accepted line := not_not.mp hline
  have hbody : statedLength h.lines ≤ d.rest.length := by
    -- with a part of the body only, the run waits for the rest
    by_contra hshort
    have hwait := reaches_blankLine hacc d.rest
    rw [if_neg (by omega)] at hwait
    obtain ⟨-, hcomplete⟩ :=
      d.parser_of_ret_ok hok hwait (step_body_none rfl (not_le.mp hshort))
    cases hcomplete
  obtain ⟨hparser, -⟩ :=
    d.parser_of_ret_ok hok (reaches_request hacc hbody) (step_complete rfl _)
  refine ⟨line, hacc, d.rest.take (statedLength h.lines), ?_, by rw [hparser]⟩
  rw [List.length_take]
  omega

/-- The delivery of a head and a body of the stated length in one piece. -/
def whole (h : RequestHead) (body : Bytes) : Delivery h where
  buffer := Buffer.ofSize 0
  pieces := [h.encode ++ body]
  rest := body
  pieces_ne_nil := by simp
  begins := by simp

/-- An accepted head followed by as many bytes as it states is accepted. -/
theorem whole_of_accepted {line : RequestLine} (hacc : h.Accepted line) {body : Bytes}
    (hbody : body.length = statedLength h.lines) :
    (whole h body).outcome.ret = .ok ∧
      (whole h body).outcome.parser.request = h.request line body := by
  have hreach := reaches_request hacc hbody.ge
  have hparse := guard_parse_of_reaches hreach (by simp [verdict])
  have houtcome : (whole h body).outcome = parse {} ((Buffer.ofSize 0).append (h.encode ++ body)) :=
    rfl
  constructor
  · rw [houtcome, ret_parse, Buffer.readable_ofSize_append, hparse]
    rfl
  · rw [houtcome, parser_parse, Buffer.readable_ofSize_append, hparse, ← hbody, List.take_length]

end Delivery

end HttpParser

end WsServer
