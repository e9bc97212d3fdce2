import WsServer.Lib.Word
import WsServer.Model.Buffer

/-!
# The buffer as the machine runs it

`RawBuffer` is a byte vector with two 64-bit indices and nothing known about them.
Its operations are those of `Buffer` with every step that C++ leaves unchecked: a sum
or difference that wraps around, a byte read or written outside the vector, and a
copy inside the vector that overwrites a byte which it still has to move are all
faults (`none`).  Each operation on the raw form of a `Buffer` does not fault, and
gives the raw form of what `Buffer` says, as long as the sums it forms fit.
-/

namespace WsServer

open CString Word

/-! ## Copying, byte by byte -/

/-- `std::copy` from outside the vector to the bytes from `i` on. -/
def store? (buf : Bytes) (i : ℕ) : Bytes → Option Bytes
  | [] => some buf
  | x :: rest => if i < buf.length then store? (buf.set i x) (i + 1) rest else none

/-- `std::copy` inside the vector, of the `n` bytes from `src` on.  A byte written must not
be one of those that are still to be moved. -/
def move? (buf : Bytes) (src dst : ℕ) : ℕ → Option Bytes
  | 0 => some buf
  | n + 1 =>
      if src < buf.length ∧ dst < buf.length ∧ ¬ (src ≤ dst ∧ dst < src + (n + 1)) then
        move? (buf.set dst (buf.getD src 0)) (src + 1) (dst + 1) n
      else none

/-- `std::string(first, n)`. -/
def slice? (buf : Bytes) (i n : ℕ) : Option Bytes :=
  if i + n ≤ buf.length then some ((buf.drop i).take n) else none

theorem store?_eq {buf : Bytes} {i : ℕ} {data : Bytes} (h : i + data.length ≤ buf.length) :
    store? buf i data = some (overwrite buf i data) := by
  induction data generalizing buf i with
  | nil => simp [store?, overwrite]
  | cons x rest ih =>
      rw [List.length_cons] at h
      have hlt : i < buf.length := by omega
      rw [store?, if_pos hlt, ih (by rw [List.length_set]; omega)]
      have htake : (buf.set i x).take (i + 1) = buf.take i ++ [x] := by
        rw [List.take_add_one, List.take_set_of_le (le_refl i)]
        simp [hlt]
      have hdrop : (buf.set i x).drop (i + 1 + rest.length) = buf.drop (i + (x :: rest).length) := by
        rw [List.drop_set_of_lt (by omega), List.length_cons]
        congr 1
        omega
      simp [overwrite, htake, hdrop]

/-- A copy towards the front stays clear of what it has to move. -/
theorem move?_eq {buf : Bytes} {src dst n : ℕ} (hdst : dst < src) (hsrc : src + n ≤ buf.length) :
    move? buf src dst n = some (copyForward buf src dst n) := by
  induction n generalizing buf src dst with
  | zero => rfl
  | succ n ih =>
      have hclear : src < buf.length ∧ dst < buf.length ∧ ¬ (src ≤ dst ∧ dst < src + (n + 1)) := by
        refine ⟨?_, ?_, ?_⟩ <;> omega
      rw [move?, if_pos hclear, copyForward]
      exact ih (by omega) (by rw [List.length_set]; omega)

/-! ## The operations -/

structure RawBuffer where
  buf : Bytes
  readIdx : ℕ
  writeIdx : ℕ
  deriving DecidableEq

namespace RawBuffer

def ofSize (initialSize : ℕ) : RawBuffer := ⟨List.replicate initialSize 0, 0, 0⟩

def readableBytes (b : RawBuffer) : Option ℕ := sub? b.writeIdx b.readIdx

def writableBytes (b : RawBuffer) : Option ℕ := sub? b.buf.length b.writeIdx

def prependableBytes (b : RawBuffer) : ℕ := b.readIdx

def retrieveAll (b : RawBuffer) : RawBuffer := { b with readIdx := 0, writeIdx := 0 }

def retrieve (b : RawBuffer) (len : ℕ) : Option RawBuffer := do
  let readable ← b.readableBytes
  if len ≥ readable then return b.retrieveAll
  else
    let readIdx ← add? b.readIdx len
    return { b with readIdx := readIdx }

def retrieveAsString (b : RawBuffer) (len : ℕ) : Option (Bytes × RawBuffer) := do
  let readable ← b.readableBytes
  let n := min len readable
  let result ← slice? b.buf b.readIdx n
  let b' ← b.retrieve n
  return (result, b')

def retrieveAllAsString (b : RawBuffer) : Option (Bytes × RawBuffer) := do
  let readable ← b.readableBytes
  b.retrieveAsString readable

def makeSpace (b : RawBuffer) (len : ℕ) : Option RawBuffer := do
  let writable ← b.writableBytes
  let free ← add? writable b.prependableBytes
  let need ← add? len Buffer.kPrependSize
  if free < need then
    let size ← add? b.writeIdx len
    return { b with buf := resize b.buf size }
  else
    let readable ← b.readableBytes
    let buf ← move? b.buf b.readIdx Buffer.kPrependSize readable
    let writeIdx ← add? Buffer.kPrependSize readable
    return ⟨buf, Buffer.kPrependSize, writeIdx⟩

def ensureWritableBytes (b : RawBuffer) (len : ℕ) : Option RawBuffer := do
  let writable ← b.writableBytes
  if writable < len then b.makeSpace len else return b

def append (b : RawBuffer) (data : Bytes) : Option RawBuffer := do
  let b ← b.ensureWritableBytes data.length
  let buf ← store? b.buf b.writeIdx data
  let writeIdx ← add? b.writeIdx data.length
  return { b with buf := buf, writeIdx := writeIdx }

/-- The size of the side buffer of `readFd`. -/
def extraSize : ℕ := 65536

/-- `readFd`, when `readv` returns these bytes: it fills the tail of the vector first, and
then the side buffer, if that has been offered. -/
def readFd (b : RawBuffer) (received : Bytes) : Option RawBuffer := do
  let writable ← b.writableBytes
  let extra := if writable < extraSize then extraSize else 0
  if received.length > writable + extra then none
  else
    let buf ← store? b.buf b.writeIdx (received.take writable)
    if received.length ≤ writable then
      let writeIdx ← add? b.writeIdx received.length
      return { b with buf := buf, writeIdx := writeIdx }
    else append { b with buf := buf, writeIdx := buf.length } (received.drop writable)

def shrink (b : RawBuffer) (reserve : ℕ) : Option RawBuffer := do
  let size ← add? b.writeIdx reserve
  return { b with buf := resize b.buf size }

end RawBuffer

/-! ## No operation faults -/

namespace Buffer

/-- A buffer without what is known about its indices. -/
def raw (b : Buffer) : RawBuffer := ⟨b.buf, b.readIdx, b.writeIdx⟩

@[simp] theorem raw_buf (b : Buffer) : b.raw.buf = b.buf := rfl

@[simp] theorem raw_readIdx (b : Buffer) : b.raw.readIdx = b.readIdx := rfl

@[simp] theorem raw_writeIdx (b : Buffer) : b.raw.writeIdx = b.writeIdx := rfl

theorem raw_ofSize (n : ℕ) : (ofSize n).raw = RawBuffer.ofSize n := rfl

@[simp] theorem readableBytes_raw (b : Buffer) : b.raw.readableBytes = some b.readableBytes :=
  sub?_of_le b.read_le

@[simp] theorem writableBytes_raw (b : Buffer) : b.raw.writableBytes = some b.writableBytes :=
  sub?_of_le b.write_le

theorem raw_retrieve (b : Buffer) (len : ℕ) (hfits : b.buf.length < sizeRange) :
    b.raw.retrieve len = some (b.retrieve len).raw := by
  have hread := b.read_le
  have hwrite := b.write_le
  simp only [RawBuffer.retrieve, readableBytes_raw, Option.bind_eq_bind, Option.bind_some]
  unfold retrieve
  split
  · rfl
  · rename_i hlt
    unfold readableBytes at hlt
    rw [raw_readIdx, add?_of_lt (by omega)]
    rfl

theorem raw_retrieveAsString (b : Buffer) (len : ℕ) (hfits : b.buf.length < sizeRange) :
    b.raw.retrieveAsString len =
      some ((b.retrieveAsString len).1, (b.retrieveAsString len).2.raw) := by
  have hread := b.read_le
  have hwrite := b.write_le
  have hinside : b.readIdx + min len b.readableBytes ≤ b.buf.length := by
    unfold readableBytes
    omega
  have hslice : slice? b.buf b.readIdx (min len b.readableBytes) =
      some (b.readable.take (min len b.readableBytes)) := by
    rw [slice?, if_pos hinside, readable, List.take_take, Nat.min_eq_left (Nat.min_le_right _ _)]
  simp only [RawBuffer.retrieveAsString, readableBytes_raw, Option.bind_eq_bind, Option.bind_some,
    raw_retrieve b _ hfits, raw_buf, raw_readIdx, hslice]
  rfl

theorem raw_makeSpace (b : Buffer) {len : ℕ} (hlen : b.writableBytes < len)
    (hfits : b.buf.length + len + kPrependSize < sizeRange) :
    b.raw.makeSpace len = some (b.makeSpace len).raw := by
  have hread := b.read_le
  have hwrite := b.write_le
  have hfree : add? b.writableBytes b.raw.prependableBytes =
      some (b.writableBytes + b.prependableBytes) := by
    refine add?_of_lt ?_
    show b.writableBytes + b.readIdx < _
    unfold writableBytes
    omega
  simp only [RawBuffer.makeSpace, writableBytes_raw, readableBytes_raw, Option.bind_eq_bind,
    Option.bind_some, hfree, add?_of_lt (show len + kPrependSize < sizeRange by omega)]
  unfold makeSpace
  split
  · rw [raw_writeIdx, add?_of_lt (by omega)]
    rfl
  · rename_i hroom
    unfold writableBytes at hroom hlen
    unfold prependableBytes at hroom
    have hmove : move? b.raw.buf b.raw.readIdx kPrependSize b.readableBytes =
        some (copyForward b.buf b.readIdx kPrependSize b.readableBytes) := by
      refine move?_eq ?_ ?_
      · show kPrependSize < b.readIdx
        omega
      · show b.readIdx + b.readableBytes ≤ b.buf.length
        unfold readableBytes
        omega
    have hindex : kPrependSize + b.readableBytes < sizeRange := by
      unfold readableBytes
      omega
    simp only [hmove, Option.bind_some, add?_of_lt hindex]
    rfl

theorem raw_ensureWritableBytes (b : Buffer) (len : ℕ)
    (hfits : b.buf.length + len + kPrependSize < sizeRange) :
    b.raw.ensureWritableBytes len = some (b.ensureWritableBytes len).raw := by
  simp only [RawBuffer.ensureWritableBytes, writableBytes_raw, Option.bind_eq_bind,
    Option.bind_some]
  unfold ensureWritableBytes
  split
  · rename_i hlen
    exact raw_makeSpace b hlen hfits
  · rfl

/-! ### How far the vector grows -/

theorem length_ensureWritableBytes_le (b : Buffer) (len : ℕ) :
    (b.ensureWritableBytes len).buf.length ≤ b.buf.length + len := by
  have hwrite := b.write_le
  unfold ensureWritableBytes
  split
  · unfold makeSpace
    split
    · rw [length_resize]
      omega
    · rw [length_copyForward]
      omega
  · omega

theorem length_append_eq (b : Buffer) (data : Bytes) :
    (b.append data).buf.length = (b.ensureWritableBytes data.length).buf.length := by
  have hroom := le_writableBytes_ensureWritableBytes b data.length
  have hwrite := (b.ensureWritableBytes data.length).write_le
  unfold writableBytes at hroom
  simp only [append, overwrite, List.length_append, List.length_take, List.length_drop]
  omega

theorem raw_append (b : Buffer) (data : Bytes)
    (hfits : b.buf.length + data.length + kPrependSize < sizeRange) :
    b.raw.append data = some (b.append data).raw := by
  have hroom := le_writableBytes_ensureWritableBytes b data.length
  have hwrite := (b.ensureWritableBytes data.length).write_le
  have hgrowth := length_ensureWritableBytes_le b data.length
  unfold writableBytes at hroom
  have hinside : (b.ensureWritableBytes data.length).writeIdx + data.length ≤
      (b.ensureWritableBytes data.length).buf.length := by omega
  have hstore := store?_eq hinside
  have hindex := add?_of_lt (hinside.trans_lt (hgrowth.trans_lt (by omega)))
  simp only [RawBuffer.append, raw_ensureWritableBytes b _ hfits, Option.bind_eq_bind,
    Option.bind_some, raw_buf, raw_writeIdx, hstore, hindex]
  rfl

/-- The most bytes that `readv` can return: those of the free tail, and those of the side
buffer when the tail is smaller than it. -/
def offered (b : Buffer) : ℕ :=
  b.writableBytes + if b.writableBytes < RawBuffer.extraSize then RawBuffer.extraSize else 0

/-- Bytes written over others leave the length as it is. -/
theorem length_overwrite {buf : Bytes} {i : ℕ} {data : Bytes} (h : i + data.length ≤ buf.length) :
    (overwrite buf i data).length = buf.length := by
  simp only [overwrite, List.length_append, List.length_take, List.length_drop]
  omega

theorem raw_readFd (b : Buffer) {received : Bytes} (hoffered : received.length ≤ b.offered)
    (hfits : b.buf.length + received.length + kPrependSize < sizeRange) :
    b.raw.readFd received = some (b.readFd received).raw := by
  have hwrite := b.write_le
  have htail : b.writeIdx + (received.take b.writableBytes).length ≤ b.buf.length := by
    rw [List.length_take]
    unfold writableBytes
    omega
  simp only [RawBuffer.readFd, writableBytes_raw, Option.bind_eq_bind, Option.bind_some, raw_buf,
    raw_writeIdx, raw_readIdx, store?_eq htail]
  unfold offered at hoffered
  rw [if_neg (not_lt.mpr hoffered)]
  unfold readFd
  split
  · rename_i hall
    rw [add?_of_lt (by omega), List.take_of_length_le hall]
    rfl
  · rename_i hmore
    have hlength := length_overwrite htail
    simp only [hlength]
    exact raw_append ⟨overwrite b.buf b.writeIdx (received.take b.writableBytes), b.readIdx,
      b.buf.length, b.read_le.trans b.write_le, hlength.ge⟩ (received.drop b.writableBytes)
      (by rw [hlength, List.length_drop]; omega)

theorem length_readFd_le (b : Buffer) (received : Bytes) :
    (b.readFd received).buf.length ≤ b.buf.length + received.length := by
  have hwrite := b.write_le
  unfold readFd
  split
  · rename_i hall
    unfold writableBytes at hall
    rw [length_overwrite (by omega)]
    omega
  · rename_i hmore
    have htail : b.writeIdx + (received.take b.writableBytes).length ≤ b.buf.length := by
      rw [List.length_take]
      unfold writableBytes
      omega
    rw [length_append_eq]
    refine (length_ensureWritableBytes_le _ _).trans ?_
    rw [length_overwrite htail, List.length_drop]
    omega

theorem raw_shrink (b : Buffer) (reserve : ℕ) (hfits : b.buf.length + reserve < sizeRange) :
    b.raw.shrink reserve = some (b.shrink reserve).raw := by
  have hwrite := b.write_le
  rw [RawBuffer.shrink, raw_writeIdx, add?_of_lt (by omega)]
  rfl

theorem length_shrink_le (b : Buffer) (reserve : ℕ) :
    (b.shrink reserve).buf.length ≤ b.buf.length + reserve := by
  have hwrite := b.write_le
  rw [shrink, length_resize]
  omega

/-- Shrinking cuts the free tail only. -/
@[simp] theorem readable_shrink (b : Buffer) (reserve : ℕ) :
    (b.shrink reserve).readable = b.readable := by
  simp only [readable_eq_drop_take, shrink]
  rw [take_resize (Nat.le_add_right _ _) b.write_le]

theorem length_retrieve (b : Buffer) (len : ℕ) : (b.retrieve len).buf.length = b.buf.length := by
  unfold retrieve
  split <;> rfl

end Buffer

end WsServer
