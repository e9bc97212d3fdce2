import WsServer.Model.LogLine

/-!
# The end of a line

`Logger::write` cuts a line off so that it fits into `t_line`, and puts the newline behind it only
if there is room for two more bytes.  The room is for a NUL that nobody reads, and where the text
leaves one byte only, the line is handed over without its newline (`write_iff`).

The text is printed in three pieces, and what `t_line` holds after each of them is the beginning of
all that has been printed so far (`Holds`): 4095 bytes of it, or all.
-/

namespace WsServer

open CString Word

/-! ## The buffer -/

theorem sizeDiff_of_le {a b : ℕ} (hle : b ≤ a) (ha : a < sizeRange) : sizeDiff a b = a - b := by
  unfold sizeDiff
  rw [show a + sizeRange - b = a - b + sizeRange by omega, Nat.add_mod_right]
  exact Nat.mod_eq_of_lt (by omega)

theorem printed?_eq_some {text : Bytes} (h : text.length ≤ INT_MAX) :
    printed? text = some text.length := if_pos h

theorem printed?_eq_none {text : Bytes} (h : INT_MAX < text.length) : printed? text = none :=
  if_neg (not_le.mpr h)

namespace LineBuffer

/-- What is copied stands behind what was there before it. -/
theorem copyAt_spec (line : LineBuffer) (offset : ℕ) (data : Bytes)
    (hfits : offset + data.length ≤ kStackBuf) :
    ∃ line', line.copyAt offset data = .ok line' ∧ ∀ n ≤ data.length,
      line'.content.take (offset + n) = line.content.take offset ++ data.take n := by
  refine ⟨_, dif_pos hfits, fun n hn => ?_⟩
  have hlength : (line.content.take offset).length = offset := by
    rw [List.length_take, line.length_eq]
    omega
  show (line.content.take offset ++ data ++ line.content.drop _).take (offset + n) = _
  rw [List.append_assoc, List.take_append, hlength, Nat.add_sub_cancel_left,
    List.take_append_of_le_length hn, List.take_of_length_le (by omega)]

end LineBuffer

/-- The used part of `t_line` is the beginning of a text. -/
structure LineState.Holds (s : LineState) (text : Bytes) : Prop where
  used : s.used = min text.length (kStackBuf - 1)
  content : s.line.content.take s.used = text.take (kStackBuf - 1)

namespace LineState

variable {s : LineState} {text more : Bytes}

theorem Holds.used_lt (h : Holds s text) : s.used < kStackBuf := by
  rw [h.used]
  unfold kStackBuf
  omega

/-- **One piece.**  Nothing outside of `t_line` is touched, and what does not fit is cut off. -/
theorem Holds.print (h : Holds s text) (hmore : more.length ≤ INT_MAX) :
    ∃ s', s.print more = .ok s' ∧ Holds s' (text ++ more) := by
  have hused := h.used_lt
  have hroom : sizeDiff kStackBuf s.used = kStackBuf - s.used :=
    sizeDiff_of_le hused.le (by decide)
  have hrest : sizeDiff (kStackBuf - s.used) 1 = kStackBuf - 1 - s.used := by
    rw [sizeDiff_of_le (by omega) (lt_of_le_of_lt (Nat.sub_le _ _) (by decide))]
    omega
  have hlength : (more.take (kStackBuf - 1 - s.used)).length =
      min more.length (kStackBuf - 1 - s.used) := by
    rw [List.length_take, min_comm]
  obtain ⟨line, hcopy, htake⟩ := LineBuffer.copyAt_spec s.line s.used
    (more.take (kStackBuf - 1 - s.used) ++ [0]) (by
      rw [List.length_append, hlength, List.length_singleton]
      omega)
  refine ⟨⟨line, s.used + min more.length (kStackBuf - 1 - s.used)⟩, ?_, ?_, ?_⟩
  · have hprint : s.line.printAt s.used (kStackBuf - s.used) more = .ok line := by
      rw [LineBuffer.printAt, if_neg (by omega), show kStackBuf - s.used - 1 =
        kStackBuf - 1 - s.used by omega]
      exact hcopy
    simp only [LineState.print, printed?_eq_some hmore, hroom, hrest, hprint]
    rfl
  · have hold := h.used
    show s.used + min more.length (kStackBuf - 1 - s.used) = _
    rw [List.length_append]
    omega
  · have hpiece := htake (min more.length (kStackBuf - 1 - s.used)) (by
      rw [List.length_append, hlength]
      exact Nat.le_add_right _ _)
    -- where the first text has been cut off, nothing is left of the second one
    have hleft : kStackBuf - 1 - s.used = kStackBuf - 1 - text.length := by
      have hold := h.used
      omega
    calc line.content.take (s.used + min more.length (kStackBuf - 1 - s.used))
      _ = text.take (kStackBuf - 1) ++
            (more.take (kStackBuf - 1 - s.used) ++ [0]).take
              (min more.length (kStackBuf - 1 - s.used)) := by rw [hpiece, h.content]
      _ = text.take (kStackBuf - 1) ++ more.take (kStackBuf - 1 - s.used) := by
          rw [List.take_append_of_le_length hlength.ge, ← hlength, List.take_length]
      _ = text.take (kStackBuf - 1) ++ more.take (kStackBuf - 1 - text.length) := by
          rw [hleft]
      _ = (text ++ more).take (kStackBuf - 1) := List.take_append.symm

/-- The end: the newline is there if two bytes are left. -/
theorem Holds.terminate (h : Holds s text) : ∃ s', s.terminate = .ok s' ∧
    s'.line.read s'.used = .ok (if text.length + 1 < kStackBuf then text ++ [10]
      else text.take (kStackBuf - 1)) := by
  have hused := h.used_lt
  have hold := h.used
  unfold LineState.terminate
  by_cases hroom : text.length + 1 < kStackBuf
  · have hlength : s.used = text.length := by omega
    obtain ⟨line, hcopy, htake⟩ := LineBuffer.copyAt_spec s.line s.used [10] (by
      rw [List.length_singleton]
      omega)
    rw [if_pos (by omega), hcopy, if_pos hroom]
    refine ⟨⟨line, s.used + 1⟩, rfl, ?_⟩
    have hall : text.take (kStackBuf - 1) = text := List.take_of_length_le (by omega)
    have hpiece : line.content.take (s.used + 1) = text ++ [10] := by
      rw [htake 1 le_rfl, h.content, hall]
      rfl
    show line.read (s.used + 1) = _
    rw [LineBuffer.read, if_pos (by omega), hpiece]
  · rw [if_neg (by omega), if_neg hroom]
    refine ⟨s, rfl, ?_⟩
    rw [LineBuffer.read, if_pos hused.le, h.content]

end LineState

/-! ## The head -/

theorem length_natToString_le {n k : ℕ} (hk : 0 < k) (h : n < 10 ^ k) :
    (natToString n).length ≤ k := by
  rw [natToString, List.length_map]
  exact (Nat.length_toDigits_le_iff (by decide) hk).mpr h

/-- A number of `k` digits is printed to so many bytes, and a sign. -/
theorem length_padded_le {width k : ℕ} {z : ℤ} (hk : 0 < k) (hwidth : width ≤ k)
    (h : z.natAbs < 10 ^ k) : (padded width z).length ≤ k + 1 := by
  cases z with
  | ofNat n =>
      have hdigits := length_natToString_le (n := n) hk h
      rw [padded, List.length_leftpad]
      omega
  | negSucc n =>
      have hdigits := length_natToString_le (n := n + 1) hk h
      rw [padded, List.length_cons, List.length_leftpad]
      omega

theorem length_levelName (lv : LogLevel) : ((levelName lv).rightpad 5 32).length = 5 := by
  cases lv <;> rfl

namespace Logger

theorem length_headText {tm : Tm} (htm : tm.InRange) (ts : Timespec) (lv : LogLevel) :
    0 < (headText tm ts lv).length ∧ (headText tm ts lv).length < headSize := by
  obtain ⟨hyear, hmon, hmday, hhour, hmin, hsec⟩ := htm
  have hyear' : (padded 4 (tm.year + 1900)).length ≤ 11 :=
    length_padded_le (by decide) (by decide) (by omega)
  have htwo {z : ℤ} (hlow : 0 ≤ z) (hhigh : z < 100) : (padded 2 z).length ≤ 3 :=
    length_padded_le (by decide) (by decide) (by omega)
  have hmon' := htwo (z := tm.mon + 1) (by omega) (by omega)
  have hmday' := htwo (z := tm.mday) (by omega) (by omega)
  have hhour' := htwo hhour.1 (by omega)
  have hmin' := htwo hmin.1 (by omega)
  have hsec' := htwo hsec.1 (by omega)
  have hmilli : (padded 3 (ts.nsec / 1000000 : ℕ)).length ≤ 4 := by
    have hnsec := ts.nsec_lt
    exact length_padded_le (by decide) (by decide) (by omega)
  have hlevel := length_levelName lv
  have hone : (bytes "-").length = 1 ∧ (bytes " ").length = 1 ∧ (bytes ":").length = 1 ∧
      (bytes ".").length = 1 := by decide
  unfold headText headSize
  simp only [List.length_append, hone, hlevel]
  omega

/-- The head fits, so that all of it is copied. -/
theorem writeHead_spec {head : Bytes} (hpos : 0 < head.length) (hlt : head.length < headSize)
    (t_line : LineBuffer) : ∃ s, writeHead head t_line = .ok s ∧ s.Holds head := by
  have hsizes : headSize ≤ INT_MAX ∧ headSize ≤ kStackBuf - 1 := by decide
  obtain ⟨line, hcopy, htake⟩ := LineBuffer.copyAt_spec t_line 0 head (by omega)
  refine ⟨⟨line, head.length⟩, ?_, ?_, ?_⟩
  · have hnot : ¬(head.length = 0 ∨ kStackBuf ≤ head.length) := by omega
    simp only [writeHead, printed?_eq_some (hlt.le.trans hsizes.1), if_pos hlt, if_neg hnot,
      List.take_length, hcopy]
    rfl
  · exact (min_eq_left (hlt.le.trans hsizes.2)).symm
  · have hall := htake head.length le_rfl
    rw [Nat.zero_add] at hall
    show line.content.take head.length = _
    rw [hall, List.take_length, List.take_of_length_le (hlt.le.trans hsizes.2)]
    rfl

/-! ## The record -/

/-- `Logger::write` returns without a record: `snprintf` fails for the place or for the message. -/
def Returns (file : Bytes) (line : ℤ) (message : Option Bytes) : Prop :=
  INT_MAX < (location file line).length ∨ ∀ text, message = some text → INT_MAX < text.length

/-- The line and its newline fit into `t_line` with one byte to spare, or the line is cut off behind
a newline of its own. -/
def EndsInTime (text : Bytes) : Prop :=
  text.length + 1 < kStackBuf ∨ text[kStackBuf - 2]? = some 10

/-- One terminated line: the whole head, the beginning of what follows it, and a newline. -/
def IsLine (head rest record : Bytes) : Prop :=
  record.length ≤ kStackBuf ∧ ∃ front, front <+: rest ∧ record = head ++ front ++ [10]

/-- Nothing outside of `t_line` has been accessed, and what `append` gets, if it gets anything, is
a line. -/
structure Proper (head rest : Bytes) (result : Except LineExit Bytes) : Prop where
  inside : result ≠ .error .outside
  line : ∀ record, result = .ok record → IsLine head rest record

variable {localtime : Localtime} {ts : Timespec} {lv : LogLevel} {file : Bytes} {line : ℤ}
  {message : Option Bytes} {t_line : LineBuffer}

theorem write_of_returns (h : Returns file line message) :
    write localtime ts lv file line message t_line = .error .returned := by
  have hhead := length_headText (localtime.inRange ts.sec) ts lv
  obtain ⟨s, hs, hholds⟩ := writeHead_spec hhead.1 hhead.2 t_line
  by_cases hplace : INT_MAX < (location file line).length
  · have hlocation : writeLocation (location file line) s = .error .returned := by
      simp only [writeLocation, if_pos hholds.used_lt, LineState.print, printed?_eq_none hplace]
    simp only [write, hs, hlocation, Except.bind, bind]
  · obtain ⟨s', hs', hholds'⟩ := hholds.print (not_lt.mp hplace)
    have hlocation : writeLocation (location file line) s = .ok s' := by
      rw [writeLocation, if_pos hholds.used_lt, hs']
    have hmessage : writeMessage message s' = .error .returned := by
      cases message with
      | none => rfl
      | some text =>
          have hlong := h.resolve_left hplace text rfl
          simp only [writeMessage, LineState.print, printed?_eq_none hlong]
    simp only [write, hs, hlocation, hmessage, Except.bind, bind]

theorem write_of_printed {text : Bytes} (hplace : (location file line).length ≤ INT_MAX)
    (htext : text.length ≤ INT_MAX) :
    let all := headText (localtime.tm ts.sec) ts lv ++ location file line ++ text
    write localtime ts lv file line (some text) t_line =
      .ok (if all.length + 1 < kStackBuf then all ++ [10] else all.take (kStackBuf - 1)) := by
  have hhead := length_headText (localtime.inRange ts.sec) ts lv
  obtain ⟨s, hs, hholds⟩ := writeHead_spec hhead.1 hhead.2 t_line
  obtain ⟨s₁, hs₁, hholds₁⟩ := hholds.print hplace
  obtain ⟨s₂, hs₂, hholds₂⟩ := hholds₁.print htext
  obtain ⟨s₃, hs₃, hread⟩ := hholds₂.terminate
  have hlocation : writeLocation (location file line) s = .ok s₁ := by
    rw [writeLocation, if_pos hholds.used_lt, hs₁]
  simp only [write, hs, hlocation, writeMessage, hs₂, hs₃, Except.bind, bind]
  exact hread

/-- What is handed over is a line exactly if it ends in time. -/
theorem isLine_iff {head rest : Bytes} (hhead : head.length < headSize) :
    IsLine head rest (if (head ++ rest).length + 1 < kStackBuf then head ++ rest ++ [10]
      else (head ++ rest).take (kStackBuf - 1)) ↔ EndsInTime (head ++ rest) := by
  have hsize : headSize ≤ kStackBuf - 2 := by decide
  have hpos : kStackBuf - 2 + 1 = kStackBuf - 1 := by decide
  by_cases hfits : (head ++ rest).length + 1 < kStackBuf
  · rw [if_pos hfits]
    refine iff_of_true ⟨?_, rest, List.prefix_rfl, rfl⟩ (.inl hfits)
    rw [List.length_append, List.length_singleton]
    exact hfits.le
  · rw [if_neg hfits]
    constructor
    · rintro ⟨-, front, -, hrecord⟩
      -- the newline is the last of the 4095 bytes
      have hlength : min (kStackBuf - 1) (head ++ rest).length = (head ++ front).length + 1 :=
        calc min (kStackBuf - 1) (head ++ rest).length
          _ = ((head ++ rest).take (kStackBuf - 1)).length := List.length_take.symm
          _ = (head ++ front ++ [10]).length := congrArg List.length hrecord
          _ = (head ++ front).length + 1 := List.length_append
      have hlast : (head ++ front).length = kStackBuf - 2 := by omega
      refine .inr ?_
      calc (head ++ rest)[kStackBuf - 2]?
        _ = ((head ++ rest).take (kStackBuf - 1))[kStackBuf - 2]? :=
            (List.getElem?_take_of_lt (by omega)).symm
        _ = some 10 := by rw [hrecord, ← hlast, List.getElem?_concat_length]
    · intro hends
      have hnewline := hends.resolve_left hfits
      refine ⟨?_, rest.take (kStackBuf - 2 - head.length), List.take_prefix _ _, ?_⟩
      · rw [List.length_take]
        exact (min_le_left _ _).trans (Nat.sub_le _ _)
      · have hall : head.take (kStackBuf - 2) = head := List.take_of_length_le (by omega)
        rw [← hpos, List.take_add_one, hnewline, List.take_append, hall]
        rfl

theorem proper_of_printed {text : Bytes} (hplace : (location file line).length ≤ INT_MAX)
    (htext : text.length ≤ INT_MAX) :
    Proper (headText (localtime.tm ts.sec) ts lv) (location file line ++ text)
        (write localtime ts lv file line (some text) t_line) ↔
      EndsInTime (headText (localtime.tm ts.sec) ts lv ++ (location file line ++ text)) := by
  have hhead := length_headText (localtime.inRange ts.sec) ts lv
  rw [write_of_printed hplace htext, ← isLine_iff hhead.2, List.append_assoc]
  constructor
  · intro hproper
    exact hproper.line _ rfl
  · intro hline
    refine ⟨fun heq => ?_, fun record hrecord => ?_⟩
    · cases heq
    · rwa [← Except.ok.inj hrecord]

/-- **Log lines.**  What `Logger::write` hands over is one line, with all of the time and the level
and a newline at its end, and no byte outside of `t_line` is touched, exactly when there is nothing
to hand over, or the line and its newline are shorter than `t_line`, or it is cut off behind a
newline of its own. -/
theorem write_iff (localtime : Localtime) (ts : Timespec) (lv : LogLevel) (file : Bytes) (line : ℤ)
    (message : Option Bytes) (t_line : LineBuffer) :
    let head := headText (localtime.tm ts.sec) ts lv
    let rest := location file line ++ message.getD []
    Proper head rest (write localtime ts lv file line message t_line) ↔
      Returns file line message ∨ EndsInTime (head ++ rest) := by
  intro head rest
  by_cases hreturns : Returns file line message
  · rw [write_of_returns hreturns]
    refine iff_of_true ⟨fun heq => ?_, fun record hrecord => ?_⟩ (.inl hreturns)
    · cases heq
    · cases hrecord
  · have hprinted := hreturns
    unfold Returns at hprinted
    push Not at hprinted
    obtain ⟨hplace, text, rfl, htext⟩ := hprinted
    rw [or_iff_right hreturns]
    exact proper_of_printed hplace htext

/-- A line of a file `a.cc` at the beginning of 1970, with a message of 20000 letters. -/
def firstSecond : Localtime where
  tm _ := ⟨70, 0, 1, 0, 0, 0⟩
  inRange _ := by constructor <;> decide

theorem not_endsInTime_of_letters {front : Bytes} {n : ℕ} {c : UInt8} (hc : c ≠ 10)
    (hfront : front.length ≤ kStackBuf - 2) (hlong : kStackBuf ≤ front.length + n) :
    ¬EndsInTime (front ++ List.replicate n c) := by
  rintro (hshort | hnewline)
  · rw [List.length_append, List.length_replicate] at hshort
    omega
  · rw [List.getElem?_append_right hfront, List.getElem?_replicate] at hnewline
    split at hnewline
    · exact hc (Option.some.inj hnewline)
    · cases hnewline

def zeroed : LineBuffer := ⟨List.replicate kStackBuf 0, List.length_replicate⟩

/-- A long message is cut off together with its newline. -/
theorem not_write_terminates : ¬∀ localtime ts lv file line message t_line,
    Proper (headText (localtime.tm ts.sec) ts lv) (location file line ++ message.getD [])
      (write localtime ts lv file line message t_line) := by
  intro hlaw
  let ts : Timespec := ⟨0, 0, by decide⟩
  have hplace : (location (bytes "a.cc") 1).length = 7 := by decide
  have hhead : (headText (firstSecond.tm ts.sec) ts .LOG_INFO).length = 30 := by decide
  have hsizes : 20000 ≤ INT_MAX ∧ 7 ≤ INT_MAX ∧ 37 ≤ kStackBuf - 2 ∧ kStackBuf ≤ 37 + 20000 := by
    decide
  obtain ⟨text, htext⟩ : ∃ text : Bytes, text = List.replicate 20000 122 := ⟨_, rfl⟩
  have hlength : text.length = 20000 := by rw [htext, List.length_replicate]
  have hlong := hlaw firstSecond ts .LOG_INFO (bytes "a.cc") 1 (some text) zeroed
  rw [Option.getD_some] at hlong
  have hends := (proper_of_printed (by omega) (by omega)).mp hlong
  rw [← List.append_assoc, htext] at hends
  refine not_endsInTime_of_letters (by decide) ?_ ?_ hends
  all_goals
    rw [List.length_append, hhead, hplace]
    omega

end Logger

end WsServer
