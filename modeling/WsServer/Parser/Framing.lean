import WsServer.Parser.Head

/-!
# Where a request ends

Three laws keep the parser and a proxy in front of it at the same message
boundaries: no request with a transfer coding is accepted, a `Content-Length`
value is a decimal number, and several `Content-Length` lines agree.  The parser
breaks each of them.  It checks the coding once, at the blank line, on a map in
which a later line has replaced an earlier one; it takes the longest numeric
prefix that `strtoll` finds and does not look at what follows it; and a later
length replaces an earlier one.

Each law is stated for one head and every delivery of it, and each theorem says
for which heads the law holds.  All three rest on `Delivery.of_ret_ok`: an
accepted request has an accepted head, and a body of the length read from the
last `Content-Length` line.
-/

namespace WsServer

open CString PairSearch

namespace HttpParser

/-- The values of the `Transfer-Encoding` lines. -/
def transferCodings (lines : List Bytes) : List Bytes :=
  fieldValues (bytes "transfer-encoding") lines

/-- The values of the `Content-Length` lines. -/
def contentLengths (lines : List Bytes) : List Bytes :=
  fieldValues (bytes "content-length") lines

/-! ## Numbers in `Content-Length` values -/

/-- A decimal number is read as itself, up to saturation. -/
theorem readContentLength_of_isDecimal {value : Bytes} (h : IsDecimal value) :
    readContentLength value = some (min (decimalValue value) (2 ^ 63 - 1)) := by
  have hne : value.length ≠ 0 := fun hzero => h.1 (List.eq_nil_of_length_eq_zero hzero)
  have hnonneg : ¬ min (decimalValue value : ℤ) llongMax < 0 := by
    have : (0 : ℤ) ≤ llongMax := by decide
    omega
  unfold readContentLength
  rw [strtoll_of_isDecimal h]
  simp only [hne, hnonneg, decide_false, Bool.or_self, Bool.false_eq_true, if_false]
  congr 1
  unfold llongMax
  omega

/-- The stated length is read from one of the values, if there is one. -/
theorem exists_statedLength {lines : List Bytes} {value : Bytes}
    (h : value ∈ contentLengths lines) :
    ∃ last ∈ contentLengths lines, statedLength lines = (readContentLength last).getD 0 := by
  unfold statedLength
  cases hlast : (fieldValues (bytes "content-length") lines).getLast? with
  | none =>
      rw [List.getLast?_eq_none_iff] at hlast
      rw [contentLengths, hlast] at h
      simp at h
  | some last => exact ⟨last, List.mem_of_getLast? hlast, rfl⟩

theorem isSome_readContentLength {lines : List Bytes} (hlines : AcceptedLines lines)
    {value : Bytes} (h : value ∈ contentLengths lines) : (readContentLength value).isSome := by
  rw [contentLengths, fieldValues, SortedMap.mem_valuesAt, fields, List.mem_filterMap] at h
  obtain ⟨line, hmem, hsplit⟩ := h
  obtain ⟨before, after, rfl⟩ := List.append_of_mem hmem
  obtain ⟨-, key, other, hsplit', -, hread⟩ := hlines before line after rfl
  rw [hsplit] at hsplit'
  cases hsplit'
  exact hread rfl

/-- A head that is not rejected has a delivery that is accepted. -/
theorem exists_accepted_of_not_rejected {h : RequestHead} (hrej : ¬ h.Rejected) :
    ∃ line, h.Accepted line ∧ ∃ d : Delivery h, d.outcome.ret = .ok ∧
      d.outcome.parser.request.body.length = statedLength h.lines := by
  rw [RequestHead.rejected_iff] at hrej
  obtain ⟨line, hline⟩ := not_forall.mp hrej
  have hacc : h.Accepted line := not_not.mp hline
  have hbody : (List.replicate (statedLength h.lines) (0 : UInt8)).length =
      statedLength h.lines := List.length_replicate
  obtain ⟨hok, hrequest⟩ := Delivery.whole_of_accepted hacc hbody
  exact ⟨line, hacc, _, hok, by rw [hrequest]; exact hbody⟩

theorem not_rejected_of_ret_ok {h : RequestHead} (d : Delivery h) (hok : d.outcome.ret = .ok) :
    ¬ h.Rejected := by
  obtain ⟨line, hacc, -⟩ := d.of_ret_ok hok
  exact fun hrej => (h.rejected_iff.mp hrej) line hacc

theorem length_body_of_ret_ok {h : RequestHead} (d : Delivery h) (hok : d.outcome.ret = .ok) :
    d.outcome.parser.request.body.length = statedLength h.lines := by
  obtain ⟨line, -, body, hlength, hrequest⟩ := d.of_ret_ok hok
  rw [hrequest]
  exact hlength

/-! ## Transfer codings -/

/-- A request with an unsupported transfer coding among its lines is never
accepted. -/
def RefusesCodings (h : RequestHead) : Prop :=
  (∃ te ∈ transferCodings h.lines, unsupportedCoding te = true) →
    ∀ d : Delivery h, d.outcome.ret ≠ .ok

/-- **Transfer codings.**  Unsupported codings are refused exactly when the head
is malformed anyway, or the last coding is an unsupported one if any is. -/
theorem refusesCodings_iff (h : RequestHead) :
    RefusesCodings h ↔ h.Malformed ∨
      ((∃ te ∈ transferCodings h.lines, unsupportedCoding te = true) →
        unsupportedCoding (transferCoding h.lines) = true) := by
  constructor
  · intro hrefuses
    by_cases hcoding : ∃ te ∈ transferCodings h.lines, unsupportedCoding te = true
    · -- a head that is not rejected has a delivery that is accepted
      by_cases hrej : h.Rejected
      · rcases hrej with hmal | hlast
        · exact .inl hmal
        · exact .inr fun _ => hlast
      · obtain ⟨-, -, d, hok, -⟩ := exists_accepted_of_not_rejected hrej
        exact absurd hok (hrefuses hcoding d)
    · exact .inr fun h => absurd h hcoding
  · intro hcond hcoding d hok
    apply not_rejected_of_ret_ok d hok
    rcases hcond with hmal | hlast
    · exact .inl hmal
    · exact .inr (hlast hcoding)

/-- A head with a coding that is refused and, after it, one that is not. -/
def chunkedThenIdentity : RequestHead where
  requestLine := bytes "POST / HTTP/1.1"
  lines := [bytes "Transfer-Encoding: chunked", bytes "Transfer-Encoding: identity"]
  requestLine_whole := by decide
  lines_whole := by decide

/-- The later line hides the earlier one: the request is accepted without a body. -/
theorem not_refusesCodings : ¬ ∀ h, RefusesCodings h := by
  intro hall
  refine hall chunkedThenIdentity ⟨bytes "chunked", ?_, ?_⟩ (Delivery.whole _ []) ?_
  · decide +kernel
  · decide
  · decide +kernel

/-! ## The grammar of `Content-Length` -/

/-- The lines that state a length are decimal numbers, and the length is the
body's; any other value is an error. -/
structure LengthGrammar (h : RequestHead) : Prop where
  accepted : ∀ d : Delivery h, d.outcome.ret = .ok → ∀ value ∈ contentLengths h.lines,
    IsDecimal value ∧ d.outcome.parser.request.body.length = decimalValue value ∧
      decimalValue value ≤ kMaxBody
  refused : ∀ d : Delivery h, d.HeadArrived → ∀ value ∈ contentLengths h.lines,
    ¬ (IsDecimal value ∧ (decimalValue value : ℤ) ≤ llongMax) → d.outcome.ret = .error

/-- In an accepted head whose values are all the same decimal number, that
number is the stated length. -/
theorem decimalValue_eq_statedLength {h : RequestHead} {line : RequestLine}
    (hacc : h.Accepted line) (hdecimal : ∀ value ∈ contentLengths h.lines, IsDecimal value)
    (hsame : ∀ value ∈ contentLengths h.lines, ∀ other ∈ contentLengths h.lines,
      decimalValue value = decimalValue other) {value : Bytes}
    (hvalue : value ∈ contentLengths h.lines) : decimalValue value = statedLength h.lines := by
  obtain ⟨last, hlast, hstated⟩ := exists_statedLength hvalue
  rw [readContentLength_of_isDecimal (hdecimal last hlast), Option.getD_some] at hstated
  have hlimit := hacc.wellFormed.length
  have heq := hsame value hvalue last hlast
  have hmax : kMaxBody = 8 * 1024 * 1024 := rfl
  omega

/-- **The grammar of `Content-Length`.**  It is respected exactly when the head is
rejected, or all its lengths are decimal and the same number. -/
theorem lengthGrammar_iff (h : RequestHead) :
    LengthGrammar h ↔ h.Rejected ∨
      (∀ value ∈ contentLengths h.lines, IsDecimal value) ∧
        ∀ value ∈ contentLengths h.lines, ∀ other ∈ contentLengths h.lines,
          decimalValue value = decimalValue other := by
  constructor
  · intro hgrammar
    by_cases hrej : h.Rejected
    · exact .inl hrej
    · -- all lengths are that of the one body delivered
      obtain ⟨-, -, d, hok, -⟩ := exists_accepted_of_not_rejected hrej
      have hall := hgrammar.accepted d hok
      refine .inr ⟨fun value hvalue => (hall value hvalue).1, fun value hvalue other hother => ?_⟩
      rw [← (hall value hvalue).2.1, (hall other hother).2.1]
  · intro hcond
    constructor
    · intro d hok value hvalue
      obtain ⟨hdecimal, hsame⟩ := hcond.resolve_left (not_rejected_of_ret_ok d hok)
      obtain ⟨line, hacc, -⟩ := d.of_ret_ok hok
      have hstated := decimalValue_eq_statedLength hacc hdecimal hsame hvalue
      refine ⟨hdecimal value hvalue, ?_, ?_⟩
      · rw [length_body_of_ret_ok d hok, hstated]
      · rw [hstated]
        exact hacc.wellFormed.length
    · intro d harrived value hvalue hbad
      apply d.ret_of_rejected _ harrived
      by_contra hrej
      obtain ⟨hdecimal, hsame⟩ := hcond.resolve_left hrej
      obtain ⟨line, hacc, -⟩ := exists_accepted_of_not_rejected hrej
      have hstated := decimalValue_eq_statedLength hacc hdecimal hsame hvalue
      have hlimit := hacc.wellFormed.length
      have hmax : kMaxBody = 8 * 1024 * 1024 := rfl
      refine hbad ⟨hdecimal value hvalue, ?_⟩
      unfold llongMax
      omega

/-- A head whose length is followed by something else. -/
def trailingGarbage : RequestHead where
  requestLine := bytes "POST / HTTP/1.1"
  lines := [bytes "Content-Length: 5abc"]
  requestLine_whole := by decide
  lines_whole := by decide

/-- `5abc` is accepted, with a body of five bytes. -/
theorem not_lengthGrammar : ¬ ∀ h, LengthGrammar h := by
  intro hall
  have hok : (Delivery.whole trailingGarbage (bytes "hello")).outcome.ret = .ok := by
    decide +kernel
  have hvalue : bytes "5abc" ∈ contentLengths trailingGarbage.lines := by decide +kernel
  have := ((hall trailingGarbage).accepted _ hok _ hvalue).1
  exact absurd this (by decide)

/-! ## Several lengths -/

/-- All lines that state a length state the same one, and it is the body's;
different ones are an error. -/
structure Unambiguous (h : RequestHead) : Prop where
  agreed : ∀ d : Delivery h, d.outcome.ret = .ok → ∀ value ∈ contentLengths h.lines,
    readContentLength value = some d.outcome.parser.request.body.length
  refused : ∀ d : Delivery h, d.HeadArrived → ∀ value ∈ contentLengths h.lines,
    ∀ other ∈ contentLengths h.lines, readContentLength value ≠ readContentLength other →
      d.outcome.ret = .error

/-- **Several lengths.**  They are unambiguous exactly when the head is rejected,
or the same number is read from all of them. -/
theorem unambiguous_iff (h : RequestHead) :
    Unambiguous h ↔ h.Rejected ∨ ∀ value ∈ contentLengths h.lines,
      ∀ other ∈ contentLengths h.lines, readContentLength value = readContentLength other := by
  constructor
  · intro hunambiguous
    by_cases hrej : h.Rejected
    · exact .inl hrej
    · obtain ⟨-, -, d, hok, -⟩ := exists_accepted_of_not_rejected hrej
      have hall := hunambiguous.agreed d hok
      refine .inr fun value hvalue other hother => ?_
      rw [hall value hvalue, hall other hother]
  · intro hcond
    constructor
    · intro d hok value hvalue
      have hsame := hcond.resolve_left (not_rejected_of_ret_ok d hok)
      obtain ⟨line, hacc, -⟩ := d.of_ret_ok hok
      obtain ⟨last, hlast, hstated⟩ := exists_statedLength hvalue
      obtain ⟨n, hn⟩ := Option.isSome_iff_exists.mp
        (isSome_readContentLength hacc.wellFormed.lines hlast)
      rw [length_body_of_ret_ok d hok, hstated, hsame value hvalue last hlast, hn]
      rfl
    · intro d harrived value hvalue other hother hne
      apply d.ret_of_rejected _ harrived
      by_contra hrej
      exact hne (hcond.resolve_left hrej value hvalue other hother)

/-- A head with two lengths. -/
def twoLengths : RequestHead where
  requestLine := bytes "POST / HTTP/1.1"
  lines := [bytes "Content-Length: 5", bytes "content-length: 0"]
  requestLine_whole := by decide
  lines_whole := by decide

/-- The second length is taken, and the five bytes of the first one are left for
the next request. -/
theorem not_unambiguous : ¬ ∀ h, Unambiguous h := by
  intro hall
  have hok : (Delivery.whole twoLengths (bytes "hello")).outcome.ret = .ok := by decide +kernel
  have hfirst : bytes "5" ∈ contentLengths twoLengths.lines := by decide +kernel
  have hsecond : bytes "0" ∈ contentLengths twoLengths.lines := by decide +kernel
  have hagreed := (hall twoLengths).agreed _ hok
  have := (hagreed _ hfirst).trans (hagreed _ hsecond).symm
  revert this
  decide

end HttpParser

end WsServer
