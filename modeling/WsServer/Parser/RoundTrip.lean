import WsServer.Parser.Framing
import WsServer.Parser.Message

/-!
# Parsing undoes writing

A `Record` is a request as a client would write it: lower-case trimmed keys, at
most one line for each, the length of the body stated in decimal.  Its fields
carry the conditions under which writing it out loses nothing.  Each record is a
`Message` with the same request (`Record.message`, `request_message`), so a
stream of records is read back record by record (`parseEach_records`).

Bodies, values and what follows the last record are arbitrary: they may contain
CRLFs, colons, or text that looks like another request.
-/

namespace WsServer

open CString PairSearch

namespace HttpParser

/-- The target written for a path and a query. -/
def writeTarget (path query : Bytes) : Bytes :=
  if query.isEmpty then path else path ++ 63 :: query

def writeRequestLine (method path query version : Bytes) : Bytes :=
  method ++ 32 :: writeTarget path query ++ 32 :: version

def writeHeaderLine (field : Bytes × Bytes) : Bytes := field.1 ++ 58 :: 32 :: field.2

/-- A request that can be written out and read back. -/
structure Record where
  method : Bytes
  path : Bytes
  query : Bytes
  version : Bytes
  headers : List (Bytes × Bytes)
  body : Bytes
  method_ne_nil : method ≠ [] := by decide
  space_notMem_method : 32 ∉ method := by decide
  path_ne_nil : path ≠ [] := by decide
  space_notMem_path : 32 ∉ path := by decide
  mark_notMem_path : 63 ∉ path := by decide
  space_notMem_query : 32 ∉ query := by decide
  version_length : 8 ≤ version.length := by decide
  version_prefix : version.take 7 = bytes "HTTP/1." := by decide
  requestLine_whole :
    findPair 13 10 (writeRequestLine method path query version) = none := by decide
  requestLine_short :
    (writeRequestLine method path query version).length ≤ kMaxRequestLine := by decide
  headers_count : headers.length ≤ kMaxHeaderCount := by decide
  headers_distinct : (headers.map Prod.fst).Nodup := by decide
  headers_whole : ∀ field ∈ headers, findPair 13 10 (writeHeaderLine field) = none := by decide
  keys_clean : ∀ field ∈ headers,
    field.1 ≠ [] ∧ trim field.1 = field.1 ∧ toLower field.1 = field.1 ∧ 58 ∉ field.1 := by decide
  values_trimmed : ∀ field ∈ headers, trim field.2 = field.2 := by decide
  body_limit : body.length ≤ kMaxBody := by decide
  length_stated : ∀ field ∈ headers, field.1 = bytes "content-length" →
    IsDecimal field.2 ∧ decimalValue field.2 = body.length := by decide +kernel
  length_unstated : (∀ field ∈ headers, field.1 ≠ bytes "content-length") → body = [] := by decide
  coding_supported : ∀ field ∈ headers, field.1 = bytes "transfer-encoding" →
    unsupportedCoding field.2 = false := by decide

namespace Record

/-- The record on the wire. -/
def encode (r : Record) : Bytes :=
  writeRequestLine r.method r.path r.query r.version ++ crlf ++
    (r.headers.flatMap fun field => writeHeaderLine field ++ crlf) ++ crlf ++ r.body

/-- The record as a request. -/
def request (r : Record) : HttpRequest where
  method := r.method
  path := r.path
  query := r.query
  version := r.version
  headers := (∅ : HeaderMap).insertAll r.headers
  body := r.body

end Record

/-! ## The two parts of a target -/

theorem writeTarget_nil (path : Bytes) : writeTarget path [] = path := rfl

theorem writeTarget_of_ne_nil (path : Bytes) {query : Bytes} (h : query ≠ []) :
    writeTarget path query = path ++ 63 :: query := by
  simp [writeTarget, h]

theorem space_notMem_writeTarget {path query : Bytes} (hpath : 32 ∉ path) (hquery : 32 ∉ query) :
    32 ∉ writeTarget path query := by
  by_cases hempty : query = []
  · rwa [hempty, writeTarget_nil]
  · rw [writeTarget_of_ne_nil path hempty]
    simp [hpath, hquery]

theorem find_of_notMem {c : UInt8} {s : Bytes} (h : c ∉ s) : find c s = none := by
  unfold find
  rw [List.findIdx?_eq_none_iff]
  intro x hx
  have : x ≠ c := fun heq => h (heq ▸ hx)
  simpa using this

theorem targetPath_writeTarget {path : Bytes} (hne : path ≠ []) (hmark : 63 ∉ path)
    (query : Bytes) : targetPath (writeTarget path query) = path := by
  have hempty : path.isEmpty = false := by simpa using hne
  by_cases hquery : query = []
  · simp [hquery, writeTarget_nil, targetPath, find_of_notMem hmark, hempty]
  · rw [writeTarget_of_ne_nil path hquery, targetPath, find_append_cons hmark]
    simp [hempty]

theorem targetQuery_writeTarget {path : Bytes} (hmark : 63 ∉ path) (query : Bytes) :
    targetQuery (writeTarget path query) [] = query := by
  by_cases hquery : query = []
  · simp [hquery, writeTarget_nil, targetQuery, find_of_notMem hmark]
  · rw [writeTarget_of_ne_nil path hquery, targetQuery, find_append_cons hmark]
    simp

/-! ## Header lines -/

/-- A space in front of a trimmed value is trimmed away. -/
theorem trim_cons_space {value : Bytes} (h : trim value = value) : trim (32 :: value) = value := by
  have hspace : isspace 32 = true := by decide
  rw [trim, List.dropWhile_cons_of_pos hspace]
  exact h

theorem splitHeaderLine_writeHeaderLine {field : Bytes × Bytes} (htrim : trim field.1 = field.1)
    (hlower : toLower field.1 = field.1) (hcolon : 58 ∉ field.1)
    (hvalue : trim field.2 = field.2) : splitHeaderLine (writeHeaderLine field) = some field := by
  have hdrop : (writeHeaderLine field).drop (field.1.length + 1) = 32 :: field.2 := by
    rw [writeHeaderLine, show field.1 ++ 58 :: 32 :: field.2 =
      (field.1 ++ [58]) ++ 32 :: field.2 by simp, show field.1.length + 1 =
      (field.1 ++ [58]).length by simp, List.drop_left]
  have htake : (writeHeaderLine field).take field.1.length = field.1 := by
    rw [writeHeaderLine, List.take_left]
  have hfind : find 58 (writeHeaderLine field) = some field.1.length :=
    find_append_cons hcolon _
  simp only [splitHeaderLine, hfind, hdrop, htake, htrim, hlower, trim_cons_space hvalue]

namespace Record

def lines (r : Record) : List Bytes := r.headers.map writeHeaderLine

theorem splitHeaderLine_of_mem (r : Record) {field : Bytes × Bytes} (h : field ∈ r.headers) :
    splitHeaderLine (writeHeaderLine field) = some field := by
  obtain ⟨-, htrim, hlower, hcolon⟩ := r.keys_clean field h
  exact splitHeaderLine_writeHeaderLine htrim hlower hcolon (r.values_trimmed field h)

theorem fields_lines (r : Record) : fields r.lines = r.headers := by
  unfold fields lines
  rw [List.filterMap_map]
  have hall : ∀ field ∈ r.headers, (splitHeaderLine ∘ writeHeaderLine) field = some field :=
    fun field hfield => r.splitHeaderLine_of_mem hfield
  rw [List.filterMap_congr hall]
  exact List.filterMap_some

theorem acceptedLines_lines (r : Record) : AcceptedLines r.lines := by
  intro before line after heq
  have hcount : before.length < kMaxHeaderCount := by
    have hlength := congrArg List.length heq
    have := r.headers_count
    simp only [lines, List.length_map, List.length_append, List.length_cons] at hlength
    omega
  have hmem : line ∈ r.lines := by simp [heq]
  obtain ⟨field, hfield, rfl⟩ := List.mem_map.mp hmem
  refine ⟨?_, field.1, field.2, r.splitHeaderLine_of_mem hfield, (r.keys_clean field hfield).1, ?_⟩
  · -- there are no more keys than lines
    calc SortedMap.keyCount (fields before) ≤ (fields before).length := SortedMap.keyCount_le _
      _ ≤ before.length := List.length_filterMap_le _ _
      _ < kMaxHeaderCount := hcount
  · intro hkey
    have hstated := (r.length_stated field hfield hkey).1
    rw [readContentLength_of_isDecimal hstated]
    rfl

theorem statedLength_lines (r : Record) : statedLength r.lines = r.body.length := by
  by_cases hvalue : ∃ value, (bytes "content-length", value) ∈ r.headers
  · -- the value that decides is one of the record's
    obtain ⟨value, hvalue⟩ := hvalue
    have hmem : value ∈ contentLengths r.lines := by
      rwa [contentLengths, fieldValues, r.fields_lines, SortedMap.mem_valuesAt]
    obtain ⟨last, hlast, hstated⟩ := exists_statedLength hmem
    rw [contentLengths, fieldValues, r.fields_lines, SortedMap.mem_valuesAt] at hlast
    obtain ⟨hdecimal, hlength⟩ := r.length_stated _ hlast rfl
    have hlimit := r.body_limit
    have hmax : kMaxBody = 8 * 1024 * 1024 := rfl
    rw [hstated, readContentLength_of_isDecimal hdecimal, Option.getD_some, hlength]
    omega
  · have hnone : ∀ field ∈ r.headers, field.1 ≠ bytes "content-length" := by
      rintro ⟨key, value⟩ hfield rfl
      exact hvalue ⟨value, hfield⟩
    have hempty : fieldValues (bytes "content-length") r.lines = [] := by
      rw [List.eq_nil_iff_forall_not_mem]
      intro value hmem
      rw [fieldValues, r.fields_lines, SortedMap.mem_valuesAt] at hmem
      exact hnone _ hmem rfl
    rw [statedLength, hempty, r.length_unstated hnone]
    rfl

theorem supported_lines (r : Record) : unsupportedCoding (transferCoding r.lines) = false := by
  unfold transferCoding
  cases hlast : (fieldValues (bytes "transfer-encoding") r.lines).getLast? with
  | none => rfl
  | some value =>
      have hmem := List.mem_of_getLast? hlast
      rw [fieldValues, r.fields_lines, SortedMap.mem_valuesAt] at hmem
      exact r.coding_supported _ hmem rfl

/-! ## Records as messages -/

def requestLine (r : Record) : RequestLine where
  method := r.method
  target := writeTarget r.path r.query
  version := r.version
  method_ne_nil := r.method_ne_nil
  space_notMem_method := r.space_notMem_method
  space_notMem_target := space_notMem_writeTarget r.space_notMem_path r.space_notMem_query
  version_length := r.version_length
  version_prefix := r.version_prefix
  short := by
    have := r.requestLine_short
    simp only [writeRequestLine, List.length_append, List.length_cons] at this
    omega

def head (r : Record) : RequestHead where
  requestLine := writeRequestLine r.method r.path r.query r.version
  lines := r.lines
  requestLine_whole := r.requestLine_whole
  lines_whole := by
    intro line hline
    obtain ⟨field, hfield, rfl⟩ := List.mem_map.mp hline
    exact ⟨by simp [writeHeaderLine], r.headers_whole field hfield⟩

def message (r : Record) : Message where
  head := r.head
  line := r.requestLine
  accepted := ⟨⟨rfl, r.acceptedLines_lines, r.statedLength_lines.trans_le r.body_limit⟩,
    r.supported_lines⟩
  body := r.body
  body_length := r.statedLength_lines.symm

theorem encode_message (r : Record) : r.message.encode = r.encode := by
  simp [Message.encode, message, RequestHead.encode, head, RequestHead.linesText, encode, lines,
    List.flatMap_map]

/-- No field is lost or changed. -/
theorem request_message (r : Record) : r.message.request = r.request := by
  have hpath := targetPath_writeTarget r.path_ne_nil r.mark_notMem_path r.query
  have hquery := targetQuery_writeTarget r.mark_notMem_path r.query
  simp only [Message.request, message, RequestHead.request, RequestLine.request, requestLine, head,
    hpath, hquery, r.fields_lines]
  rfl

/-- The headers of the request are those of the record. -/
theorem find?_request (r : Record) (key value : Bytes) :
    r.request.headers.find? key = some value ↔ (key, value) ∈ r.headers := by
  show ((∅ : HeaderMap).insertAll r.headers).find? key = some value ↔ _
  rw [SortedMap.find?_insertAll, SortedMap.find?_empty, Option.or_none]
  constructor
  · intro h
    exact SortedMap.mem_valuesAt.mp (List.mem_of_getLast? h)
  · intro hmem
    rw [SortedMap.valuesAt_eq_of_nodup r.headers_distinct hmem]
    rfl

end Record

/-- Write records into a buffer one after another. -/
def writeRecords (b : Buffer) (records : List Record) : Buffer :=
  records.foldl (fun b r => b.append r.encode) b

theorem readable_writeRecords (b : Buffer) (records : List Record) :
    (writeRecords b records).readable = b.readable ++ encodeAll (records.map Record.message) := by
  induction records generalizing b with
  | nil => simp [writeRecords, encodeAll]
  | cons r records ih =>
      show (writeRecords (b.append r.encode) records).readable = _
      rw [ih, Buffer.readable_append, List.append_assoc, ← r.encode_message]
      rfl

/-- **Parsing undoes writing.**  Records written to an empty buffer, with any
bytes behind them, are read back one by one: every call returns `ok`, every
request is that of its record, and the bytes behind them are left. -/
theorem parseEach_records {b : Buffer} (hempty : b.readable = []) (records : List Record)
    (rest : Bytes) :
    (parseEach records.length {} ((writeRecords b records).append rest)).1 =
        records.map (fun r => (.ok, r.request)) ∧
      (parseEach records.length {} ((writeRecords b records).append rest)).2.2.readable = rest ∧
      ∀ r ∈ records, ∀ key value,
        r.request.headers.find? key = some value ↔ (key, value) ∈ r.headers := by
  have hreadable : ((writeRecords b records).append rest).readable =
      encodeAll (records.map Record.message) ++ rest := by
    rw [Buffer.readable_append, readable_writeRecords, hempty, List.nil_append]
  obtain ⟨hlist, -, hrest⟩ := parseEach_encode (records.map Record.message) hreadable
  rw [List.length_map] at hlist hrest
  refine ⟨?_, hrest, fun r _ => r.find?_request⟩
  calc (parseEach records.length {} ((writeRecords b records).append rest)).1
      = (records.map Record.message).map (fun m => (.ok, m.request)) := hlist
    _ = records.map (fun r => (.ok, r.message.request)) := List.map_map
    _ = records.map (fun r => (.ok, r.request)) :=
        List.map_congr_left fun r _ => by rw [r.request_message]

/-- A request with a query, a value that contains a colon, and no body. -/
def sampleGet : Record where
  method := bytes "GET"
  path := bytes "/a"
  query := bytes "x=1?y"
  version := bytes "HTTP/1.1"
  headers := [(bytes "host", bytes "b:80"), (bytes "accept", [])]
  body := []

/-- A request whose body looks like the end of a head and another request. -/
def samplePost : Record where
  method := bytes "POST"
  path := bytes "/"
  query := []
  version := bytes "HTTP/1.0"
  headers := [(bytes "transfer-encoding", bytes "Identity"), (bytes "content-length", bytes "010")]
  body := bytes "\r\n\r\nGET /x"

/-- The law on three records and the beginning of a fourth request. -/
theorem parseEach_samples :
    (parseEach 3 {} ((writeRecords (Buffer.ofSize 16) [samplePost, sampleGet, samplePost]).append
        (bytes "PUT /\r\n"))).1 =
      [(.ok, samplePost.request), (.ok, sampleGet.request), (.ok, samplePost.request)] ∧
    (parseEach 3 {} ((writeRecords (Buffer.ofSize 16) [samplePost, sampleGet, samplePost]).append
        (bytes "PUT /\r\n"))).2.2.readable = bytes "PUT /\r\n" :=
  have hlaw := parseEach_records (Buffer.readable_ofSize 16) [samplePost, sampleGet, samplePost]
    (bytes "PUT /\r\n")
  ⟨hlaw.1, hlaw.2.1⟩

end HttpParser

end WsServer
