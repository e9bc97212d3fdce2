import WsServer.Lib.SelfDelimiting
import WsServer.Parser.RoundTrip
import WsServer.Connection.Basic
import WsServer.Model.Server

/-!
# Responses on the wire

On a connection that is kept open nothing but `Content-Length` tells the client
where a response ends.  The length is written in three places: `serveStatic`
states it, `handleRequest` states it again for `HEAD`, and `toString` adds it
where it is missing.  A client that reads a head up to its blank line and then
exactly that many bytes, or none after a `HEAD` request, gets back what the
server meant (`responses_selfDelimiting`), whatever the bodies look like.

`client` is that reader.  `Announced` is what a response must satisfy to be read
back; every branch of `dispatch` establishes it for the response to a `GET`, and
what is done to the response afterwards keeps it.
-/

namespace WsServer

open CString PairSearch SelfDelimiting
open HttpParser (crlf find_append_cons trim_cons_space)
open HttpParser.RequestHead (linesText)

/-- The name of the header that states the length of the body. -/
def lengthKey : Bytes := bytes "Content-Length"

/-! ## A client -/

namespace Client

/-- The lines before the first blank line, and what follows it. -/
def readHead (bs : Bytes) : Option (List Bytes × Bytes) :=
  match _hfind : findPair 13 10 bs with
  | none => none
  | some i =>
    if i = 0 then some ([], bs.drop 2)
    else (readHead (bs.drop (i + 2))).map fun head => (bs.take i :: head.1, head.2)
termination_by bs.length
decreasing_by
  have := add_two_le_of_findPair _hfind
  rw [List.length_drop]
  omega

/-- The name and the value in a header line, the name as it is spelled. -/
def splitField (line : Bytes) : Option (Bytes × Bytes) :=
  (find 58 line).map fun colon => (line.take colon, trim (line.drop (colon + 1)))

def statesLength (line : Bytes) : Bool :=
  match splitField line with
  | none => false
  | some field => iequals field.1 lengthKey

/-- The number in the line that states the length. -/
def statedLength (lines : List Bytes) : Option ℕ :=
  ((lines.find? statesLength).bind splitField).map fun field => decimalValue field.2

/-- The number after `HTTP/1.1` in a status line. -/
def readStatus (line : Bytes) : ℤ := decimalValue ((line.drop 9).takeWhile isdigit)

/-- A response as the client gets it. -/
structure Response where
  status : ℤ
  headers : HeaderMap
  body : Bytes

/-- Read one response: the head, and as many bytes as it states, or none when the
request was a `HEAD`. -/
def read (isHead : Bool) (bs : Bytes) : Option (Response × Bytes) :=
  match readHead bs with
  | none => none
  | some (lines, rest) =>
    match statedLength lines.tail with
    | none => none
    | some stated =>
      if rest.length < (if isHead then 0 else stated) then none
      else
        some ({
          status := readStatus (lines.headD [])
          headers := (∅ : HeaderMap).insertAll (lines.tail.filterMap splitField)
          body := rest.take (if isHead then 0 else stated) },
          rest.drop (if isHead then 0 else stated))

theorem readHead_none {bs : Bytes} (h : findPair 13 10 bs = none) : readHead bs = none := by
  unfold readHead
  split
  · rfl
  · rename_i hsome
    rw [h] at hsome
    cases hsome

theorem readHead_some {bs : Bytes} {i : ℕ} (h : findPair 13 10 bs = some i) :
    readHead bs = if i = 0 then some ([], bs.drop 2)
      else (readHead (bs.drop (i + 2))).map fun head => (bs.take i :: head.1, head.2) := by
  rw [readHead]
  split
  · rename_i hnone
    rw [h] at hnone
    cases hnone
  · rename_i hsome
    rw [h] at hsome
    cases hsome
    rfl

/-- A head that is complete stays the same. -/
theorem readHead_append {bs rest : Bytes} {lines : List Bytes}
    (h : readHead bs = some (lines, rest)) (more : Bytes) :
    readHead (bs ++ more) = some (lines, rest ++ more) := by
  induction bs using readHead.induct generalizing lines with
  | case1 bs hnone =>
      rw [readHead_none hnone] at h
      cases h
  | case2 bs hfind =>
      have hroom := add_two_le_of_findPair hfind
      rw [readHead_some hfind, if_pos rfl] at h
      cases h
      rw [readHead_some (findPair_append hfind more), if_pos rfl,
        List.drop_append_of_le_length hroom]
  | case3 bs i hfind hne ih =>
      have hroom := add_two_le_of_findPair hfind
      rw [readHead_some hfind, if_neg hne, Option.map_eq_some_iff] at h
      obtain ⟨head, hhead, heq⟩ := h
      cases heq
      rw [readHead_some (findPair_append hfind more), if_neg hne,
        List.drop_append_of_le_length hroom, ih hhead,
        List.take_append_of_le_length (by omega)]
      rfl

/-- Lines without a CRLF are read back as they are. -/
theorem readHead_linesText {lines : List Bytes}
    (hwhole : ∀ line ∈ lines, line ≠ [] ∧ findPair 13 10 line = none) (rest : Bytes) :
    readHead (linesText lines ++ (crlf ++ rest)) = some (lines, rest) := by
  induction lines with
  | nil => rw [readHead_some (i := 0) rfl, if_pos rfl]; rfl
  | cons line lines ih =>
      obtain ⟨hne, hpair⟩ := hwhole line List.mem_cons_self
      have htext : linesText (line :: lines) ++ (crlf ++ rest) =
          line ++ crlf ++ (linesText lines ++ (crlf ++ rest)) := by
        simp [linesText]
      have hlength : line.length + 2 = (line ++ crlf).length := by simp [crlf]
      rw [htext, readHead_some (HttpParser.findPair_headerLine hpair _),
        if_neg (by simpa using hne), hlength, List.drop_left,
        ih fun other hmem => hwhole other (List.mem_cons_of_mem _ hmem), List.append_assoc,
        List.take_left]
      rfl

/-- What follows a response does not matter. -/
theorem read_append {isHead : Bool} {bs rest : Bytes} {response : Response}
    (h : read isHead bs = some (response, rest)) (more : Bytes) :
    read isHead (bs ++ more) = some (response, rest ++ more) := by
  unfold read at h ⊢
  cases hhead : readHead bs with
  | none => simp [hhead] at h
  | some head =>
      obtain ⟨lines, after⟩ := head
      rw [readHead_append hhead]
      rw [hhead] at h
      cases hlength : statedLength lines.tail with
      | none => simp [hlength] at h
      | some stated =>
          simp only [hlength] at h ⊢
          by_cases hshort : after.length < (if isHead then 0 else stated)
          · rw [if_pos hshort] at h
            cases h
          · rw [if_neg hshort, Option.some_inj, Prod.mk_inj] at h
            obtain ⟨rfl, rfl⟩ := h
            have hroom := not_lt.mp hshort
            rw [if_neg (by rw [List.length_append]; omega), List.take_append_of_le_length hroom,
              List.drop_append_of_le_length hroom]

end Client

/-- The client as a reader, which knows whether the request was a `HEAD`. -/
def client : Reader Bool UInt8 Client.Response where
  read := Client.read
  read_append := Client.read_append

/-! ## Responses as lines -/

/-- A header field that is read back as it is. -/
def CleanField (field : Bytes × Bytes) : Prop :=
  58 ∉ field.1 ∧ 13 ∉ field.1 ∧ 13 ∉ field.2 ∧ trim field.2 = field.2 ∧
    (iequals field.1 lengthKey = true → field.1 = lengthKey)

instance (field : Bytes × Bytes) : Decidable (CleanField field) :=
  inferInstanceAs (Decidable (_ ∧ _))

/-- One header line without its terminator. -/
def fieldLine (field : Bytes × Bytes) : Bytes := field.1 ++ bytes ": " ++ field.2

theorem fieldLine_whole {field : Bytes × Bytes} (h : CleanField field) :
    fieldLine field ≠ [] ∧ findPair 13 10 (fieldLine field) = none := by
  have hcolon : 13 ∉ bytes ": " := by decide
  refine ⟨by simp [fieldLine, bytes], findPair_of_notMem ?_⟩
  simp [fieldLine, h.2.1, h.2.2.1, hcolon]

theorem splitField_fieldLine {field : Bytes × Bytes} (h : CleanField field) :
    Client.splitField (fieldLine field) = some field := by
  have htext : fieldLine field = field.1 ++ 58 :: (32 :: field.2) := by
    simp [fieldLine, bytes]
  have hdrop : (field.1 ++ 58 :: (32 :: field.2)).drop (field.1.length + 1) = 32 :: field.2 := by
    simp
  rw [Client.splitField, htext, find_append_cons h.1, Option.map_some, List.take_left, hdrop,
    trim_cons_space h.2.2.2.1]

theorem statesLength_fieldLine {field : Bytes × Bytes} (h : CleanField field) :
    Client.statesLength (fieldLine field) = true ↔ field.1 = lengthKey := by
  rw [Client.statesLength, splitField_fieldLine h]
  refine ⟨h.2.2.2.2, fun hkey => ?_⟩
  show iequals field.1 lengthKey = true
  rw [hkey, iequals_iff]

/-- A number as the value of a header. -/
theorem natToString_clean (n : ℕ) : 13 ∉ natToString n ∧ trim (natToString n) = natToString n := by
  have hdigit := (isDecimal_natToString n).2
  have hspace : ∀ c ∈ natToString n, isspace c = false := fun c hc =>
    isspace_of_isdigit (hdigit c hc)
  refine ⟨fun hmem => ?_, ?_⟩
  · have := hdigit 13 hmem
    revert this
    decide
  · have hfront : (natToString n).dropWhile isspace = natToString n := by
      cases htext : natToString n with
      | nil => rfl
      | cons c rest =>
          have := hspace c (by simp [htext])
          simp [this]
    rw [trim, hfront, List.rdropWhile_eq_self_iff]
    intro hne
    have := hspace _ (List.getLast_mem hne)
    simp [this]

/-- A stated length is read back as it is. -/
theorem lengthField_clean (n : ℕ) : CleanField (lengthKey, natToString n) := by
  obtain ⟨hreturn, htrim⟩ := natToString_clean n
  have hkey : 58 ∉ lengthKey ∧ 13 ∉ lengthKey := by decide
  exact ⟨hkey.1, hkey.2, hreturn, htrim, fun _ => rfl⟩

namespace HttpResponse

def statusLine (response : HttpResponse) : Bytes :=
  bytes "HTTP/1.1 " ++ intToString response.status ++ bytes " " ++
    (if response.reason.isEmpty then reasonPhrase response.status else response.reason)

/-- The header fields as they are sent. -/
def sentFields (response : HttpResponse) : List (Bytes × Bytes) :=
  response.headers.entries ++
    if (response.headers.find? lengthKey).isNone then
      [(lengthKey, natToString response.body.length)]
    else []

/-- The header map as it is sent: with the length of the body. -/
def sentHeaders (response : HttpResponse) : HeaderMap :=
  if (response.headers.find? lengthKey).isNone then
    response.headers.insert lengthKey (natToString response.body.length)
  else response.headers

theorem linesText_fieldLines (fields : List (Bytes × Bytes)) :
    linesText (fields.map fieldLine) = fields.flatMap headerText := by
  rw [linesText, List.flatMap_map]
  rfl

theorem toString_eq (response : HttpResponse) : response.toString =
    linesText (response.statusLine :: response.sentFields.map fieldLine) ++
      (crlf ++ response.body) := by
  have hcrlf : bytes "\r\n" = crlf := by decide
  have hlines : linesText (response.statusLine :: response.sentFields.map fieldLine) =
      response.statusLine ++ crlf ++ response.sentFields.flatMap headerText := by
    rw [← linesText_fieldLines]
    exact List.flatMap_cons
  have hfields : response.sentFields.flatMap headerText =
      response.headers.entries.flatMap headerText ++
        if (response.headers.find? lengthKey).isNone then
          headerText (lengthKey, natToString response.body.length)
        else [] := by
    rw [sentFields, List.flatMap_append]
    split_ifs <;> simp
  rw [hlines, hfields]
  simp only [toString, statusLine, lengthKey, hcrlf, List.append_assoc]
  rfl

theorem insertAll_sentFields (response : HttpResponse) :
    (∅ : HeaderMap).insertAll response.sentFields = response.sentHeaders := by
  rw [sentFields, SortedMap.insertAll_append, SortedMap.insertAll_entries, sentHeaders]
  split_ifs <;> rfl

theorem notMem_reasonPhrase (status : ℤ) {c : UInt8} (h : c = 13 ∨ c = 58) :
    c ∉ reasonPhrase status := by
  unfold reasonPhrase
  rcases h with rfl | rfl
  · split <;> decide
  · split <;> decide

/-- What the client relies on: the status is written as a plain number, no field
disturbs the lines, and a length that is stated is that of the body; the body
itself is left out after a `HEAD`. -/
structure Announced (isHead : Bool) (response : HttpResponse) : Prop where
  status : 0 ≤ response.status
  reason : response.reason = []
  fields : ∀ field ∈ response.headers.entries, CleanField field
  stated : ∀ value, response.headers.find? lengthKey = some value →
    ∃ n, value = natToString n ∧ (isHead = false → n = response.body.length)
  unsent : isHead = true → response.body = []

namespace Announced

variable {isHead : Bool} {response : HttpResponse}

theorem statusLine_whole (h : Announced isHead response) :
    13 ∉ response.statusLine ∧ 58 ∉ response.statusLine := by
  have hnumber : ∀ c : UInt8, isdigit c = false → c ∉ intToString response.status := by
    intro c hc hmem
    obtain ⟨n, hn⟩ := Int.eq_ofNat_of_zero_le h.status
    rw [hn] at hmem
    rw [(isDecimal_natToString n).2 c hmem] at hc
    cases hc
  have hphrase := fun c hc => notMem_reasonPhrase response.status (c := c) hc
  have hversion : 13 ∉ bytes "HTTP/1.1 " ∧ 58 ∉ bytes "HTTP/1.1 " := by decide
  have hspace : 13 ∉ bytes " " ∧ 58 ∉ bytes " " := by decide
  rw [statusLine, h.reason]
  simp only [List.isEmpty_nil, if_true, List.mem_append, not_or]
  exact ⟨⟨⟨⟨hversion.1, hnumber 13 (by decide)⟩, hspace.1⟩, hphrase 13 (.inl rfl)⟩,
    ⟨⟨hversion.2, hnumber 58 (by decide)⟩, hspace.2⟩, hphrase 58 (.inr rfl)⟩

theorem readStatus_statusLine (h : Announced isHead response) :
    Client.readStatus response.statusLine = response.status := by
  obtain ⟨n, hn⟩ := Int.eq_ofNat_of_zero_le h.status
  obtain ⟨phrase, hphrase⟩ : ∃ phrase, response.statusLine =
      bytes "HTTP/1.1 " ++ (natToString n ++ 32 :: phrase) :=
    ⟨_, by rw [statusLine, hn, List.append_assoc, List.append_assoc]; rfl⟩
  have hdigits : (natToString n ++ 32 :: phrase).takeWhile isdigit = natToString n := by
    rw [List.takeWhile_append_of_pos (isDecimal_natToString n).2]
    simp [isdigit]
  have hlength : (bytes "HTTP/1.1 ").length = 9 := by decide
  have hdrop : (bytes "HTTP/1.1 " ++ (natToString n ++ 32 :: phrase)).drop 9 =
      natToString n ++ 32 :: phrase := by
    rw [← hlength, List.drop_left]
  rw [Client.readStatus, hphrase, hdrop, hdigits, decimalValue_natToString, hn]

/-- The length is stated once, by a number; it is that of the body, unless the
request was a `HEAD`. -/
theorem valuesAt_lengthKey (h : Announced isHead response) :
    ∃ n, SortedMap.valuesAt lengthKey response.sentFields = [natToString n] ∧
      (isHead = false → n = response.body.length) := by
  cases hfind : response.headers.find? lengthKey with
  | none =>
      refine ⟨response.body.length, ?_, fun _ => rfl⟩
      have hkeys : ∀ value, (lengthKey, value) ∉ response.headers.entries := by
        intro value hmem
        rw [← SortedMap.find?_eq_some_iff, hfind] at hmem
        cases hmem
      have hempty : SortedMap.valuesAt lengthKey response.headers.entries = [] := by
        rw [List.eq_nil_iff_forall_not_mem]
        intro value hvalue
        exact hkeys value (SortedMap.mem_valuesAt.mp hvalue)
      rw [sentFields, hfind, SortedMap.valuesAt_append, hempty]
      exact SortedMap.valuesAt_singleton_self _ _
  | some value =>
      obtain ⟨n, rfl, hn⟩ := h.stated value hfind
      refine ⟨n, ?_, hn⟩
      rw [sentFields, hfind, SortedMap.valuesAt_append,
        SortedMap.valuesAt_eq_of_nodup response.headers.keys_nodup
          ((SortedMap.find?_eq_some_iff _).mp hfind)]
      rfl

theorem sentFields_clean (h : Announced isHead response) :
    ∀ field ∈ response.sentFields, CleanField field := by
  intro field hfield
  rw [sentFields, List.mem_append] at hfield
  rcases hfield with hfield | hfield
  · exact h.fields field hfield
  · split_ifs at hfield
    · rw [List.mem_singleton] at hfield
      rw [hfield]
      exact lengthField_clean _
    · exact absurd hfield List.not_mem_nil

/-- **One length.**  Exactly one header line states a length. -/
theorem filter_statesLength (h : Announced isHead response) :
    ∃ n, (response.sentFields.map fieldLine).filter Client.statesLength =
        [fieldLine (lengthKey, natToString n)] ∧
      (isHead = false → n = response.body.length) := by
  obtain ⟨n, hvalues, hn⟩ := h.valuesAt_lengthKey
  refine ⟨n, ?_, hn⟩
  have hsingle : response.sentFields.filter (Client.statesLength ∘ fieldLine) =
      [(lengthKey, natToString n)] := by
    refine SortedMap.filter_of_valuesAt ?_ hvalues
    intro field hfield
    exact statesLength_fieldLine (h.sentFields_clean field hfield)
  rw [List.filter_map, hsingle, List.map_singleton]

theorem statedLength_sentFields (h : Announced isHead response) :
    ∃ n, Client.statedLength (response.sentFields.map fieldLine) = some n ∧
      (if isHead then 0 else n) = response.body.length := by
  obtain ⟨n, hfilter, hn⟩ := h.filter_statesLength
  refine ⟨n, ?_, ?_⟩
  · rw [Client.statedLength, ← List.head?_filter, hfilter, List.head?_cons, Option.bind_some,
      splitField_fieldLine (lengthField_clean n), Option.map_some, decimalValue_natToString]
  · cases isHead with
    | false => simpa using hn rfl
    | true => simp [h.unsent rfl]

/-- The head of the response, line by line. -/
theorem readHead_toString (h : Announced isHead response) :
    Client.readHead response.toString =
      some (response.statusLine :: response.sentFields.map fieldLine, response.body) := by
  rw [toString_eq]
  apply Client.readHead_linesText
  intro line hline
  rcases List.mem_cons.mp hline with rfl | hline
  · exact ⟨by simp [statusLine, bytes], findPair_of_notMem h.statusLine_whole.1⟩
  · obtain ⟨field, hfield, rfl⟩ := List.mem_map.mp hline
    exact fieldLine_whole (h.sentFields_clean field hfield)

/-- **Reading undoes writing.** -/
theorem read_toString (h : Announced isHead response) :
    Client.read isHead response.toString =
      some (⟨response.status, response.sentHeaders, response.body⟩, []) := by
  obtain ⟨n, hstated, hlength⟩ := h.statedLength_sentFields
  have hfields : (response.sentFields.map fieldLine).filterMap Client.splitField =
      response.sentFields := by
    rw [List.filterMap_map]
    have hall : ∀ field ∈ response.sentFields,
        (Client.splitField ∘ fieldLine) field = some field := fun field hfield =>
      splitField_fieldLine (h.sentFields_clean field hfield)
    rw [List.filterMap_congr hall]
    exact List.filterMap_some
  unfold Client.read
  rw [h.readHead_toString]
  simp only [List.tail_cons, List.headD_cons, hstated, hlength, lt_irrefl, if_false,
    h.readStatus_statusLine, hfields, insertAll_sentFields, List.take_length, List.drop_length]

/-- Exactly one line of the whole head states a length. -/
theorem countP_statesLength (h : Announced isHead response) :
    (response.statusLine :: response.sentFields.map fieldLine).countP Client.statesLength = 1 := by
  obtain ⟨n, hfilter, -⟩ := h.filter_statesLength
  have hstatus : Client.statesLength response.statusLine = false := by
    rw [Client.statesLength, Client.splitField, HttpParser.find_of_notMem h.statusLine_whole.2]
    rfl
  rw [List.countP_cons_of_neg (by simp [hstatus]), List.countP_eq_length_filter, hfilter]
  rfl

/-! ### What is done to a response -/

theorem of_make {status : ℤ} (hstatus : 0 ≤ status) (body : Bytes) {contentType : Bytes}
    (hclean : CleanField (bytes "Content-Type", contentType)) :
    Announced false (make status body contentType) where
  status := hstatus
  reason := rfl
  fields := by
    intro field hfield
    rw [show field = (bytes "Content-Type", contentType) from List.mem_singleton.mp hfield]
    exact hclean
  stated := by
    intro value hfind
    have hmem : (lengthKey, value) ∈ [(bytes "Content-Type", contentType)] :=
      (SortedMap.find?_eq_some_iff _).mp hfind
    have hkey := congrArg Prod.fst (List.mem_singleton.mp hmem)
    have hne : lengthKey ≠ bytes "Content-Type" := by decide
    exact absurd hkey hne
  unsent := by simp

theorem setHeader (h : Announced isHead response) {key value : Bytes}
    (hclean : CleanField (key, value)) (hkey : key ≠ lengthKey) :
    Announced isHead (response.setHeader key value) where
  status := h.status
  reason := h.reason
  fields := by
    intro field hfield
    rcases SortedMap.mem_insertEntry hfield with rfl | hfield
    · exact hclean
    · exact h.fields field hfield
  stated := by
    intro other hfind
    have hother : (response.headers.insert key value).find? lengthKey = some other := hfind
    rw [SortedMap.find?_insert, if_neg hkey.symm] at hother
    exact h.stated other hother
  unsent := h.unsent

/-- The length is stated anew, or for the first time. -/
theorem stateLength (h : Announced false response) :
    Announced false (response.setHeader lengthKey (natToString response.body.length)) where
  status := h.status
  reason := h.reason
  fields := by
    intro field hfield
    rcases SortedMap.mem_insertEntry hfield with rfl | hfield
    · exact lengthField_clean _
    · exact h.fields field hfield
  stated := by
    intro other hfind
    have hother : (response.headers.insert lengthKey _).find? lengthKey = some other := hfind
    rw [SortedMap.find?_insert_self, Option.some_inj] at hother
    exact ⟨_, hother.symm, fun _ => rfl⟩
  unsent := by simp

/-- The response to a `HEAD`: the length stays, the body goes. -/
theorem withoutBody (h : Announced false response) :
    Announced true (Server.withoutBody response) where
  status := h.status
  reason := h.reason
  fields := h.stateLength.fields
  stated := by
    intro value hfind
    obtain ⟨n, hn, -⟩ := h.stateLength.stated value hfind
    exact ⟨n, hn, fun hfalse => by cases hfalse⟩
  unsent := fun _ => rfl

theorem finalResponse (h : Announced isHead response) (request : HttpRequest) :
    Announced isHead (Session.finalResponse request response) := by
  unfold Session.finalResponse
  split
  · exact h
  · exact h.setHeader (by decide) (by decide)

end Announced

end HttpResponse

/-! ## The server -/

namespace Server

open HttpResponse (Announced)

theorem contentType_clean {value : Bytes} (h : 13 ∉ value ∧ trim value = value) :
    CleanField (bytes "Content-Type", value) := by
  have hkey : 58 ∉ bytes "Content-Type" ∧ 13 ∉ bytes "Content-Type" := by decide
  have hother : iequals (bytes "Content-Type") lengthKey = false := by decide
  exact ⟨hkey.1, hkey.2, h.1, h.2, fun hlength => by simp [hother] at hlength⟩

theorem contentTypeOf_clean (path : Bytes) :
    CleanField (bytes "Content-Type", contentTypeOf path) := by
  apply contentType_clean
  unfold contentTypeOf
  split
  · decide
  · dsimp only
    split_ifs <;> decide

theorem announced_serveStatic (opts : Options) (files : FileSystem) (request : HttpRequest) :
    Announced false (serveStatic opts files request {}).response := by
  unfold serveStatic
  dsimp only
  split
  · exact .of_make (by decide) _ (by decide)
  split
  · exact .of_make (by decide) _ (by decide)
  split
  · exact .of_make (by decide) _ (by decide)
  · rename_i data _
    have htyped : Announced false
        (HttpResponse.make 200 data (contentTypeOf (opts.docRoot ++ relativePath request))) :=
      .of_make (by decide) _ (contentTypeOf_clean _)
    exact htyped.stateLength

/-- Whatever is asked for, the response to it states the length of its body, or
leaves it to `toString`. -/
theorem announced_dispatch (opts : Options) (files : FileSystem) (snapshot : Stats)
    (request : HttpRequest) : Announced false (dispatch opts files snapshot request {}).response := by
  unfold dispatch
  dsimp only
  split
  · exact .of_make (by decide) _ (by decide)
  split
  · split
    · exact .of_make (by decide) _ (by decide)
    · exact .of_make (by decide) _ (by decide)
  split
  · exact .of_make (by decide) _ (by decide)
  split
  · exact announced_serveStatic opts files request
  · exact .of_make (by decide) _ (by decide)

theorem announced_handleRequest (opts : Options) (files : FileSystem) (snapshot : Stats)
    (request : HttpRequest) :
    Announced (request.method = bytes "HEAD")
      (handleRequest opts files snapshot request {}).response := by
  have hnamed : Announced false ((dispatch opts files snapshot request {}).response.setHeader
      (bytes "Server") (bytes "ws-server/1.0")) :=
    (announced_dispatch opts files snapshot request).setHeader (by decide) (by decide)
  unfold handleRequest
  dsimp only
  by_cases hhead : request.method = bytes "HEAD"
  · rw [if_pos hhead, decide_eq_true hhead]
    exact hnamed.withoutBody
  · rw [if_neg hhead, decide_eq_false hhead]
    exact hnamed

/-! ## Responses one after another -/

/-- A request, with what its response is made from. -/
structure Exchange where
  request : HttpRequest
  files : FileSystem
  snapshot : Stats

namespace Exchange

def isHead (e : Exchange) : Bool := e.request.method = bytes "HEAD"

/-- The response as the connection sends it. -/
def response (opts : Options) (e : Exchange) : HttpResponse :=
  Session.finalResponse e.request (handleRequest opts e.files e.snapshot e.request {}).response

theorem announced (opts : Options) (e : Exchange) : Announced e.isHead (e.response opts) :=
  (announced_handleRequest opts e.files e.snapshot e.request).finalResponse e.request

/-- What the client is to make of it. -/
def meant (opts : Options) (e : Exchange) : Client.Response where
  status := (e.response opts).status
  headers := (e.response opts).sentHeaders
  body := (e.response opts).body

/-- The response as a message. -/
def message (opts : Options) (e : Exchange) : client.Message where
  expected := e.isHead
  text := (e.response opts).toString
  value := e.meant opts
  read_text := (e.announced opts).read_toString

end Exchange

/-- What the server writes on a connection. -/
def written (opts : Options) (exchanges : List Exchange) : Bytes :=
  exchanges.flatMap fun e => (e.response opts).toString

theorem stream_messages (opts : Options) (exchanges : List Exchange) :
    client.stream (exchanges.map (Exchange.message opts)) = written opts exchanges :=
  List.flatMap_map _ _ _

theorem expected_messages (opts : Options) (exchanges : List Exchange) :
    (exchanges.map (Exchange.message opts)).map Reader.Message.expected =
      exchanges.map Exchange.isHead := List.map_map

/-- **Responses delimit themselves.**  A client that reads the responses to any
requests one after another gets the status, the headers and the body of each, and
is left with what comes behind them; there is no other way to cut them into
responses; and every head states one length. -/
theorem responses_selfDelimiting (opts : Options) (exchanges : List Exchange) :
    (∀ rest, client.readAll (exchanges.map Exchange.isHead) (written opts exchanges ++ rest) =
      some (exchanges.map (Exchange.meant opts), rest)) ∧
    (∀ messages : List client.Message,
      messages.map Reader.Message.expected = exchanges.map Exchange.isHead →
      client.stream messages = written opts exchanges →
      messages = exchanges.map (Exchange.message opts)) ∧
    ∀ e ∈ exchanges, ∃ head, Client.readHead (e.response opts).toString =
      some (head, (e.response opts).body) ∧ head.countP Client.statesLength = 1 := by
  refine ⟨?_, ?_, ?_⟩
  · intro rest
    have hread := Reader.readAll_stream (exchanges.map (Exchange.message opts)) rest
    rwa [stream_messages, expected_messages, List.map_map] at hread
  · intro messages hexpected hstream
    rw [← stream_messages] at hstream
    rw [← expected_messages opts] at hexpected
    exact Reader.stream_injective hexpected hstream
  · intro e _
    exact ⟨_, (e.announced opts).readHead_toString, (e.announced opts).countP_statesLength⟩

/-- A document root with one page. -/
def samplePages : FileSystem where
  isRegular path := path = bytes "./www/index.html"
  read _ := some (bytes "<p>\r\n\r\n</p>")

def sampleHead : Exchange where
  request := { method := bytes "HEAD", path := bytes "/", version := bytes "HTTP/1.1" }
  files := samplePages
  snapshot := {}

/-- A body that looks like the end of a head and another response. -/
def sampleEcho : Exchange where
  request := {
    method := bytes "POST", path := bytes "/echo", version := bytes "HTTP/1.1"
    body := bytes "\r\n\r\nHTTP/1.1 200 OK\r\nContent-Length: 7\r\n\r\n" }
  files := samplePages
  snapshot := {}

/-- The law on a `HEAD` and an echo, with the beginning of a third response. -/
theorem responses_selfDelimiting_samples :
    client.readAll [true, false] (written {} [sampleHead, sampleEcho] ++ bytes "HTTP/1.1 4") =
      some ([sampleHead.meant {}, sampleEcho.meant {}], bytes "HTTP/1.1 4") ∧
    [sampleHead.message {}, sampleEcho.message {}] =
      [sampleHead, sampleEcho].map (Exchange.message {}) ∧
    (sampleHead.meant {}).headers.find? lengthKey = some (bytes "11") ∧
    (sampleHead.meant {}).body = [] ∧ (sampleEcho.meant {}).body = sampleEcho.request.body :=
  have hlaw := responses_selfDelimiting {} [sampleHead, sampleEcho]
  ⟨hlaw.1 _, hlaw.2.1 [sampleHead.message {}, sampleEcho.message {}] rfl rfl, by decide +kernel,
    by decide +kernel, by decide +kernel⟩

end Server

end WsServer
