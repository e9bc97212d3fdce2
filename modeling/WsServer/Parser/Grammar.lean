import WsServer.Parser.Fields

/-!
# The grammar of request lines

A request line is a method, a target and a version, each not empty, with single
spaces between them, and the version is `HTTP/1.` and one digit.  The parser
looks for two spaces and compares the beginning of what stands behind the second
one.  So it takes an empty target, and anything behind `HTTP/1.`, spaces and
further parts included, as long as it is at least one byte.

`grammarLaw_iff` says for which lines this makes a difference.
-/

namespace WsServer

open CString PairSearch

namespace HttpParser

/-- A request line as it should be. -/
def Grammatical (line : Bytes) : Prop :=
  ∃ method target digit, line = method ++ 32 :: target ++ 32 :: (bytes "HTTP/1." ++ [digit]) ∧
    method ≠ [] ∧ target ≠ [] ∧ 32 ∉ method ∧ 32 ∉ target ∧ isdigit digit = true

/-- `parseRequestLine` succeeds on grammatical lines only, and any other line is an
error. -/
def GrammarLaw (line : Bytes) : Prop :=
  ∀ (p : HttpParser) (buf : Buffer) (rest : Bytes), p.state = .requestLine →
    buf.readable = line ++ crlf ++ rest →
    ((p.parseRequestLine buf).ret = .ok → Grammatical line) ∧
      (¬ Grammatical line → (p.parseRequestLine buf).ret = .error)

/-! ## What is accepted -/

/-- The state of the parser has no part in the decision. -/
theorem isSome_readRequestLine (p : HttpParser) (line : Bytes) :
    (p.readRequestLine line).isSome = (readRequestLine {} line).isSome := by
  unfold readRequestLine
  split
  · rfl
  · split
    · rfl
    · split <;> rfl

theorem isSome_readRequestLine_iff (p : HttpParser) (line : Bytes) :
    (p.readRequestLine line).isSome ↔ ∃ parts : RequestLine, parts.text = line := by
  rw [isSome_readRequestLine]
  constructor
  · intro h
    obtain ⟨q, hq⟩ := Option.isSome_iff_exists.mp h
    exact exists_of_readRequestLine hq
  · rintro ⟨parts, rfl⟩
    rw [readRequestLine_text]
    rfl

theorem peekLine_of_readable {buf : Buffer} {line rest : Bytes}
    (hwhole : findPair 13 10 line = none) (h : buf.readable = line ++ crlf ++ rest) :
    peekLine buf = some (line, line.length + 2) := by
  unfold peekLine
  rw [Buffer.findCRLF_zero, h, findPair_headerLine hwhole]
  simp only [take_line]

/-- A complete line is accepted or refused at once. -/
theorem ret_parseRequestLine {p : HttpParser} {buf : Buffer} {line rest : Bytes}
    (hwhole : findPair 13 10 line = none) (h : buf.readable = line ++ crlf ++ rest) :
    (p.parseRequestLine buf).ret =
      if (p.readRequestLine line).isSome then .ok else .error := by
  unfold parseRequestLine
  rw [peekLine_of_readable hwhole h]
  dsimp only
  cases p.readRequestLine line with
  | none => rfl
  | some q => rfl

/-- A line that the parser accepts is grammatical exactly when its target is not
empty and its version is one digit behind `HTTP/1.`. -/
theorem grammatical_text_iff (parts : RequestLine) :
    Grammatical parts.text ↔ parts.target ≠ [] ∧
      ∃ digit, isdigit digit = true ∧ parts.version = bytes "HTTP/1." ++ [digit] := by
  constructor
  · rintro ⟨method, target, digit, htext, -, htarget, hmethod, hspace, hdigit⟩
    -- the first two spaces cut the line in one way only
    have hsplit := splitRequestLine_text hmethod hspace (bytes "HTTP/1." ++ [digit])
    have hparts := splitRequestLine_text parts.space_notMem_method parts.space_notMem_target
      parts.version
    rw [← htext, RequestLine.text, hparts, Option.some_inj, Prod.mk_inj, Prod.mk_inj] at hsplit
    obtain ⟨-, rfl, hversion⟩ := hsplit
    exact ⟨htarget, digit, hdigit, hversion⟩
  · rintro ⟨htarget, digit, hdigit, hversion⟩
    refine ⟨parts.method, parts.target, digit, ?_, parts.method_ne_nil, htarget,
      parts.space_notMem_method, parts.space_notMem_target, hdigit⟩
    rw [RequestLine.text, hversion]

/-! ## When the law holds -/

/-- Where the law holds, a line that is accepted is grammatical. -/
theorem GrammarLaw.grammatical {parts : RequestLine} (hlaw : GrammarLaw parts.text)
    (hwhole : findPair 13 10 parts.text = none) : Grammatical parts.text := by
  have hreadable : ((Buffer.ofSize 0).append (parts.text ++ crlf)).readable =
      parts.text ++ crlf ++ [] := by
    rw [Buffer.readable_ofSize_append, List.append_nil]
  have hok := ret_parseRequestLine (p := {}) hwhole hreadable
  rw [if_pos ((isSome_readRequestLine_iff {} _).mpr ⟨parts, rfl⟩)] at hok
  exact (hlaw {} _ [] rfl hreadable).1 hok

/-- **The grammar of request lines.**  It is respected exactly on the lines that
the parser refuses, and on those with a target and one digit as the minor
version. -/
theorem grammarLaw_iff {line : Bytes} (hwhole : findPair 13 10 line = none) :
    GrammarLaw line ↔ ∀ parts : RequestLine, parts.text = line → parts.target ≠ [] ∧
      ∃ digit, isdigit digit = true ∧ parts.version = bytes "HTTP/1." ++ [digit] := by
  constructor
  · rintro hlaw parts rfl
    exact (grammatical_text_iff parts).mp (hlaw.grammatical hwhole)
  · intro hcond p buf rest _ hreadable
    rw [ret_parseRequestLine hwhole hreadable]
    by_cases haccepted : (p.readRequestLine line).isSome
    · obtain ⟨parts, htext⟩ := (isSome_readRequestLine_iff p line).mp haccepted
      have hgrammatical : Grammatical line := by
        rw [← htext, grammatical_text_iff]
        exact hcond parts htext
      exact ⟨fun _ => hgrammatical, fun hnot => absurd hgrammatical hnot⟩
    · rw [if_neg haccepted]
      refine ⟨fun hok => ?_, fun _ => rfl⟩
      cases hok

/-- The law on a line as it should be. -/
theorem grammarLaw_sample : GrammarLaw (bytes "GET /a HTTP/1.0") := by
  have hgrammatical : Grammatical (bytes "GET /a HTTP/1.0") :=
    ⟨bytes "GET", bytes "/a", 48, by decide, by decide, by decide, by decide, by decide, by decide⟩
  refine (grammarLaw_iff (by decide)).mpr fun parts htext => ?_
  rw [← htext, grammatical_text_iff] at hgrammatical
  exact hgrammatical

/-- A line with a fourth part. -/
def fourParts : RequestLine where
  method := bytes "HEAD"
  target := bytes "/page"
  version := bytes "HTTP/1.0 x"
  method_ne_nil := by decide
  space_notMem_method := by decide
  space_notMem_target := by decide
  version_length := by decide
  version_prefix := by decide
  short := by decide

/-- It is accepted, with the fourth part as the end of the version. -/
theorem not_grammarLaw :
    ¬ ∀ line : Bytes, findPair 13 10 line = none → GrammarLaw line := by
  intro hall
  have hwhole : findPair 13 10 fourParts.text = none := by decide
  have hgrammatical := (hall _ hwhole).grammatical hwhole
  obtain ⟨-, digit, -, hversion⟩ := (grammatical_text_iff fourParts).mp hgrammatical
  have hlength := congrArg List.length hversion
  rw [List.length_append, List.length_singleton] at hlength
  exact absurd hlength (by decide)

end HttpParser

end WsServer
