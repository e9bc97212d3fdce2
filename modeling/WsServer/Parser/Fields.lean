import WsServer.Parser.Head

/-!
# Header fields

What `trim` and `toLower` do to the two parts of a header line.  A stored key is
lower-case and trimmed and has no colon, a stored value is trimmed
(`splitHeaderLine_clean`), and neither depends on the white space around the
parts of the line or on the letter case of the name.

`readRequestLine_eq_some` and `readHeaderLine_eq_some` say everything that
accepting a line does to the parser.
-/

namespace WsServer

open CString PairSearch

/-! ## White space and letter case -/

theorem isspace_tolower (c : UInt8) : isspace (tolower c) = isspace c := by
  revert c
  decide +kernel

theorem tolower_tolower (c : UInt8) : tolower (tolower c) = tolower c := by
  revert c
  decide +kernel

theorem tolower_eq_colon {c : UInt8} (h : tolower c = 58) : c = 58 := by
  revert c
  decide +kernel

theorem toLower_toLower (s : Bytes) : toLower (toLower s) = toLower s := by
  rw [toLower, toLower, List.map_map]
  exact List.map_congr_left fun c _ => tolower_tolower c

theorem colon_mem_of_mem_toLower {s : Bytes} (h : 58 ∈ toLower s) : 58 ∈ s := by
  obtain ⟨c, hc, hcolon⟩ := List.mem_map.mp h
  rwa [tolower_eq_colon hcolon] at hc

theorem mem_of_mem_trim {s : Bytes} {c : UInt8} (h : c ∈ trim s) : c ∈ s := by
  have hfront : trim s <+: s.dropWhile isspace := List.rdropWhile_prefix _ _
  exact (List.dropWhile_sublist _).subset (hfront.subset h)

theorem trim_trim (s : Bytes) : trim (trim s) = trim s := by
  have hfront : (trim s).dropWhile isspace = trim s := by
    cases htrim : trim s with
    | nil => rfl
    | cons c rest =>
        -- the first byte is the first one of `s` that is not white space
        have hprefix : trim s <+: s.dropWhile isspace := List.rdropWhile_prefix _ _
        obtain ⟨more, hmore⟩ := hprefix
        rw [htrim, List.cons_append] at hmore
        have hc : isspace c = false := by
          have := List.head?_dropWhile_not isspace s
          rw [← hmore] at this
          simpa using this
        rw [List.dropWhile_cons_of_neg (by simp [hc])]
  rw [trim, hfront]
  exact List.rdropWhile_idempotent _ _

theorem trim_toLower (s : Bytes) : trim (toLower s) = toLower (trim s) := by
  have hcomp : isspace ∘ tolower = isspace := funext isspace_tolower
  simp only [trim, toLower, List.rdropWhile, List.dropWhile_map, ← List.map_reverse, hcomp]

/-- White space around a string is trimmed away. -/
theorem trim_append {front back : Bytes} (hfront : ∀ c ∈ front, isspace c = true)
    (hback : ∀ c ∈ back, isspace c = true) (s : Bytes) : trim (front ++ s ++ back) = trim s := by
  rw [trim, List.append_assoc, List.dropWhile_append_of_pos hfront]
  by_cases hspace : ∀ c ∈ s, isspace c = true
  · -- nothing but white space is left
    have hall : ∀ c ∈ s ++ back, isspace c = true := by
      intro c hc
      rcases List.mem_append.mp hc with hc | hc
      · exact hspace c hc
      · exact hback c hc
    rw [trim, List.dropWhile_eq_nil_iff.mpr hall, List.dropWhile_eq_nil_iff.mpr hspace]
  · have hne : (s.dropWhile isspace).isEmpty = false := by
      simpa using hspace
    rw [List.dropWhile_append, hne, if_neg (by simp), trim, List.rdropWhile, List.reverse_append,
      List.dropWhile_append_of_pos fun c hc => hback c (List.mem_reverse.mp hc)]
    rfl

namespace HttpParser

/-! ## What is stored -/

/-- A key as it is stored. -/
structure CleanKey (key : Bytes) : Prop where
  nonempty : key ≠ []
  lowercase : toLower key = key
  colon : 58 ∉ key
  trimmed : trim key = key

theorem drop_length_succ (front : Bytes) (c : UInt8) (rest : Bytes) :
    (front ++ c :: rest).drop (front.length + 1) = rest := by
  simp

theorem splitHeaderLine_eq_some {line key value : Bytes}
    (h : splitHeaderLine line = some (key, value)) :
    ∃ name rest, line = name ++ 58 :: rest ∧ 58 ∉ name ∧ key = toLower (trim name) ∧
      value = trim rest := by
  unfold splitHeaderLine at h
  split at h
  · cases h
  · rename_i colon hcolon
    cases h
    obtain ⟨name, rest, rfl, hname, rfl⟩ := exists_of_find hcolon
    refine ⟨name, rest, rfl, hname, ?_, ?_⟩
    · rw [List.take_left]
    · rw [drop_length_succ]

theorem splitHeaderLine_append {name : Bytes} (h : 58 ∉ name) (rest : Bytes) :
    splitHeaderLine (name ++ 58 :: rest) = some (toLower (trim name), trim rest) := by
  simp only [splitHeaderLine, find_append_cons h, List.take_left, drop_length_succ]

/-- What is stored for a line is clean, if it has a name. -/
theorem splitHeaderLine_clean {line key value : Bytes}
    (h : splitHeaderLine line = some (key, value)) (hne : key ≠ []) :
    CleanKey key ∧ trim value = value := by
  obtain ⟨name, rest, -, hname, rfl, rfl⟩ := splitHeaderLine_eq_some h
  refine ⟨⟨hne, toLower_toLower _, ?_, ?_⟩, trim_trim rest⟩
  · intro hcolon
    exact hname (mem_of_mem_trim (colon_mem_of_mem_toLower hcolon))
  · rw [trim_toLower, trim_trim]

/-! ## What accepting a line does -/

theorem readRequestLine_eq_some {p q : HttpParser} {line : Bytes}
    (h : p.readRequestLine line = some q) :
    line.length ≤ kMaxRequestLine ∧ ∃ method target version,
      splitRequestLine line = some (method, target, version) ∧ method ≠ [] ∧
      8 ≤ version.length ∧ version.take 7 = bytes "HTTP/1." ∧
      q = { p with
        state := .headers
        request := { p.request with
          method := method
          version := version
          path := targetPath target
          query := targetQuery target p.request.query } } := by
  unfold readRequestLine at h
  split at h
  · cases h
  · rename_i hsize
    split at h
    · cases h
    · rename_i method target version hsplit
      split at h
      · cases h
      · rename_i hparts
        simp only [Bool.or_eq_true, decide_eq_true_eq, not_or, not_lt, List.isEmpty_iff, ne_eq,
          not_not] at hparts hsize
        obtain ⟨⟨hmethod, hlength⟩, hversion⟩ := hparts
        cases h
        exact ⟨hsize.1, method, target, version, hsplit, hmethod, hlength, hversion, rfl⟩

theorem readHeaderLine_eq_some {p q : HttpParser} {line : Bytes}
    (h : p.readHeaderLine line = some q) :
    p.request.headers.size < kMaxHeaderCount ∧ ∃ key value,
      splitHeaderLine line = some (key, value) ∧ key ≠ [] ∧
      (key ≠ bytes "content-length" ∧ q = p.setHeader key value ∨
        key = bytes "content-length" ∧ ∃ n, readContentLength value = some n ∧
          q = { p with contentLength := n }.setHeader key value) := by
  unfold readHeaderLine at h
  split at h
  · cases h
  · rename_i hcount
    refine ⟨not_le.mp hcount, ?_⟩
    split at h
    · cases h
    · rename_i key value hsplit
      refine ⟨key, value, hsplit, ?_⟩
      split_ifs at h with hempty hlength
      · refine ⟨by simpa using hempty, .inr ⟨hlength, ?_⟩⟩
        split at h
        · cases h
        · rename_i n hn
          cases h
          exact ⟨n, hn, rfl⟩
      · cases h
        exact ⟨by simpa using hempty, .inl ⟨hlength, rfl⟩⟩

/-! ## Runs over one line -/

theorem take_line (line rest : Bytes) : (line ++ crlf ++ rest).take line.length = line := by
  rw [List.append_assoc, List.take_left]

/-- An accepted request line is taken with its CRLF. -/
theorem reaches_of_requestLine {p q : HttpParser} (hstate : p.state = .requestLine) {line : Bytes}
    (hwhole : findPair 13 10 line = none) (hread : p.readRequestLine line = some q)
    (rest : Bytes) : machine.Reaches p (line ++ crlf ++ rest) q rest := by
  have hstep := step_requestLine_accept hstate (findPair_headerLine hwhole rest)
    (by rw [take_line, hread])
  have hlength : line.length + 2 = (line ++ crlf).length := by simp [crlf]
  have := reaches_of_step hstep
  rwa [hlength, List.drop_left] at this

/-- A refused one stays in the buffer. -/
theorem reaches_fail_of_requestLine {p : HttpParser} (hstate : p.state = .requestLine)
    {line : Bytes} (hwhole : findPair 13 10 line = none) (hread : p.readRequestLine line = none)
    (rest : Bytes) : machine.Reaches p (line ++ crlf ++ rest) p.fail (line ++ crlf ++ rest) :=
  reaches_of_step (step_requestLine_reject hstate (findPair_headerLine hwhole rest)
    (by rw [take_line, hread]))

theorem targetPath_ne_nil (target : Bytes) : targetPath target ≠ [] := by
  unfold targetPath
  dsimp only
  split_ifs with hempty
  · decide
  · simpa using hempty

end HttpParser

end WsServer
