import WsServer.Parser.Fields
import WsServer.Parser.Framing

/-!
# The number of header lines

A request is to have at most `kMaxHeaderCount` header lines.  The parser compares
the size of the header map with the limit, and a line whose name has occurred
before does not make the map grow.  So names may be repeated without end.

What the comparison does limit is the number of different names, so a section that
is accepted goes beyond the limit by no more than the lines that a later one with
the same name replaces (`length_le_of_acceptedLines`).  Where no name occurs twice
the law holds (`countLaw_of_distinctNames`).
-/

namespace WsServer

open CString PairSearch Incremental

namespace HttpParser

namespace RequestHead

/-- The head on the wire up to the end of its last header line. -/
def front (h : RequestHead) : Bytes := h.requestLine ++ crlf ++ linesText h.lines

/-- The request line or one of the header lines is refused. -/
def LinesRefused (h : RequestHead) : Prop :=
  (∀ line : RequestLine, line.text ≠ h.requestLine) ∨ ¬ AcceptedLines h.lines

/-- No name occurs twice among the header lines, in whatever spelling. -/
def DistinctNames (h : RequestHead) : Prop := ((fields h.lines).map Prod.fst).Nodup

instance DistinctNames.instDecidable (h : RequestHead) : Decidable h.DistinctNames :=
  inferInstanceAs (Decidable ((fields h.lines).map Prod.fst).Nodup)

/-- The number of header lines that a later one with the same name replaces. -/
def replacedLines (h : RequestHead) : ℕ := SortedMap.replacedCount (fields h.lines)

theorem replacedLines_eq_zero {h : RequestHead} (hnames : h.DistinctNames) :
    h.replacedLines = 0 := by
  have hsplit := SortedMap.keyCount_add_replacedCount (fields h.lines)
  have hall := SortedMap.keyCount_of_nodup hnames
  rw [replacedLines]
  omega

end RequestHead

/-- A request that is accepted has at most `kMaxHeaderCount` header lines, and a
stream with more of them is an error, whatever comes behind them. -/
structure CountLaw (h : RequestHead) : Prop where
  accepted : ∀ d : Delivery h, d.outcome.ret = .ok → h.lines.length ≤ kMaxHeaderCount
  limited : ∀ (b : Buffer) (pieces : List Bytes) (more : Bytes), pieces ≠ [] →
    b.readable ++ pieces.flatten = h.front ++ more → (feed {} b pieces).ret ≠ .error →
    h.lines.length ≤ kMaxHeaderCount

/-! ## Accepted lines -/

/-- Every accepted line has a field. -/
theorem length_fields {lines : List Bytes} (h : AcceptedLines lines) :
    (fields lines).length = lines.length := by
  have hall : ∀ line ∈ lines, (splitHeaderLine line).isSome := by
    intro line hmem
    obtain ⟨before, after, rfl⟩ := List.append_of_mem hmem
    obtain ⟨-, key, value, hsplit, -⟩ := h before line after rfl
    rw [hsplit]
    rfl
  unfold fields
  rw [List.length_filterMap_eq_countP, List.countP_eq_length]
  exact hall

/-- The check before each line limits the number of different names. -/
theorem keyCount_le_of_acceptedLines {lines : List Bytes} (h : AcceptedLines lines) :
    SortedMap.keyCount (fields lines) ≤ kMaxHeaderCount := by
  cases lines using List.reverseRecOn with
  | nil => exact Nat.zero_le _
  | append_singleton before line _ =>
      -- what is stored for the last line makes the map grow by one at most
      obtain ⟨hroom, key, value, hsplit, -⟩ := ((acceptedLines_concat before line).mp h).2
      have hinsert := SortedMap.size_insert_le
        ((∅ : HeaderMap).insertAll (fields before)) key value
      rw [fields_concat before hsplit, ← SortedMap.size_insertAll_empty,
        SortedMap.insertAll_append]
      rw [SortedMap.size_insertAll_empty] at hinsert
      exact hinsert.trans hroom

theorem length_le_of_acceptedLines {h : RequestHead} (hlines : AcceptedLines h.lines) :
    h.lines.length ≤ kMaxHeaderCount + h.replacedLines := by
  rw [← length_fields hlines, ← SortedMap.keyCount_add_replacedCount]
  exact Nat.add_le_add_right (keyCount_le_of_acceptedLines hlines) _

/-! ## Runs over the front of a head -/

theorem front_append (h : RequestHead) (more : Bytes) :
    h.front ++ more = h.requestLine ++ crlf ++ (RequestHead.linesText h.lines ++ more) := by
  rw [RequestHead.front, List.append_assoc]

/-- A refused front ends in an error, whatever follows it. -/
theorem reaches_error_of_linesRefused {h : RequestHead} (hrefused : h.LinesRefused)
    (more : Bytes) : ∃ q left, q.state = .error ∧ machine.Reaches {} (h.front ++ more) q left := by
  rw [front_append]
  cases hread : readRequestLine {} h.requestLine with
  | none => exact ⟨_, _, rfl, reaches_fail_of_requestLine rfl h.requestLine_whole hread _⟩
  | some p =>
      obtain ⟨line, hline⟩ := exists_of_readRequestLine hread
      have hp := readRequestLine_text line
      rw [hline, hread, Option.some_inj] at hp
      -- the request line is accepted, so a header line is refused
      have hlines := hrefused.resolve_left fun hnone => hnone line hline
      obtain ⟨q, left, hq, hend⟩ := reaches_error_of_headerLines (p := p) (by rw [hp])
        h.lines_whole ((afterLines_eq (by rw [hp]; rfl) (by rw [hp]) h.lines).2 hlines) more
      have hstart := reaches_of_requestLine rfl h.requestLine_whole hread
      exact ⟨q, left, hq, (hstart _).trans hend⟩

/-! ## When the law holds -/

theorem ret_feed_of_linesRefused {h : RequestHead} (hrefused : h.LinesRefused) {b : Buffer}
    {pieces : List Bytes} {more : Bytes} (hne : pieces ≠ [])
    (harrived : b.readable ++ pieces.flatten = h.front ++ more) :
    (feed {} b pieces).ret = .error := by
  rcases feed_same_or_error {} b hne with ⟨hret, -, -⟩ | herror
  · obtain ⟨q, left, hq, hreach⟩ := reaches_error_of_linesRefused hrefused more
    rw [hret, ret_parse, Buffer.readable_append, harrived,
      guard_parse_of_reaches hreach (by rw [hq]; decide), hq]
    rfl
  · exact herror

/-- **The number of header lines.**  The limit is kept where a line is refused anyway, or no name
occurs twice. -/
theorem countLaw_of_distinctNames (h : RequestHead) (hnames : h.LinesRefused ∨ h.DistinctNames) :
    CountLaw h := by
  have hcount : ¬ h.LinesRefused → h.lines.length ≤ kMaxHeaderCount := by
    intro hrefused
    have haccepted : AcceptedLines h.lines := by
      by_contra hlines
      exact hrefused (.inr hlines)
    calc h.lines.length ≤ kMaxHeaderCount + h.replacedLines := length_le_of_acceptedLines haccepted
      _ = kMaxHeaderCount := by
          rw [RequestHead.replacedLines_eq_zero (hnames.resolve_left hrefused), Nat.add_zero]
  constructor
  · intro d hok
    obtain ⟨line, hacc, -⟩ := d.of_ret_ok hok
    apply hcount
    rintro (hnone | hlines)
    · exact hnone line hacc.wellFormed.requestLine
    · exact hlines hacc.wellFormed.lines
  · intro b pieces more hne harrived hret
    exact hcount fun hrefused => hret (ret_feed_of_linesRefused hrefused hne harrived)

/-- A head with different names. -/
def distinctNames : RequestHead where
  requestLine := bytes "GET / HTTP/1.1"
  lines := [bytes "Host: a", bytes "Accept: */*", bytes "accept-encoding: gzip"]
  requestLine_whole := by decide
  lines_whole := by decide

/-- The law on this head, which is accepted. -/
theorem countLaw_of_distinctNames_sample :
    CountLaw distinctNames ∧ (Delivery.whole distinctNames []).outcome.ret = .ok :=
  ⟨countLaw_of_distinctNames distinctNames (.inr (by decide +kernel)), by decide +kernel⟩

/-- A head with one name on all of its lines. -/
def repeatedName : RequestHead where
  requestLine := bytes "GET / HTTP/1.1"
  lines := List.replicate (kMaxHeaderCount + 1) (bytes "a:")
  requestLine_whole := by decide
  lines_whole := by
    intro line hline
    rw [List.eq_of_mem_replicate hline]
    decide

/-- One line more than the limit, all with the same name, is accepted. -/
theorem not_countLaw : ¬ ∀ h, CountLaw h := by
  intro hall
  have hok : (Delivery.whole repeatedName []).outcome.ret = .ok := by decide +kernel
  have hcount := (hall repeatedName).accepted _ hok
  revert hcount
  decide

end HttpParser

end WsServer
