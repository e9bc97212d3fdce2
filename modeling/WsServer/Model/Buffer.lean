import WsServer.Lib.PairSearch
import WsServer.Lib.CString

/-!
# The connection buffer

`Buffer` (`buffer.h`, `buffer.cpp`): a byte vector with a read and a write index.
Bytes before `readIdx` are dead, those from `readIdx` to `writeIdx` are unread,
and those from `writeIdx` on are free.  The two index inequalities are fields,
so a buffer with crossed indices cannot be built.

Seen from outside a buffer is a queue of bytes, `readable`.  Each operation has
one lemma that says what it does to this queue; nothing outside this file looks
at the indices.
-/

namespace WsServer

open CString PairSearch

/-! ## Moving bytes inside a vector -/

/-- `buf.resize(n)`: cut, or extend by zero bytes. -/
def resize (buf : Bytes) (n : ℕ) : Bytes := buf.take n ++ List.replicate (n - buf.length) 0

/-- `std::copy` from outside the vector to the bytes at `i`. -/
def overwrite (buf : Bytes) (i : ℕ) (data : Bytes) : Bytes :=
  buf.take i ++ data ++ buf.drop (i + data.length)

/-- `std::copy` inside a vector: `n` bytes, one after another in ascending order. -/
def copyForward (buf : Bytes) (src dst : ℕ) : ℕ → Bytes
  | 0 => buf
  | n + 1 => copyForward (buf.set dst (buf.getD src 0)) (src + 1) (dst + 1) n

@[simp] theorem length_resize (buf : Bytes) (n : ℕ) : (resize buf n).length = n := by
  simp only [resize, List.length_append, List.length_take, List.length_replicate]
  omega

theorem take_resize {buf : Bytes} {n i : ℕ} (hi : i ≤ n) (hlen : i ≤ buf.length) :
    (resize buf n).take i = buf.take i := by
  rw [resize, List.take_append_of_le_length (by rw [List.length_take]; omega), List.take_take,
    Nat.min_eq_left hi]

theorem take_overwrite {buf : Bytes} {i : ℕ} (hi : i ≤ buf.length) (data : Bytes) :
    (overwrite buf i data).take (i + data.length) = buf.take i ++ data := by
  have hlength : (buf.take i ++ data).length = i + data.length := by
    rw [List.length_append, List.length_take, Nat.min_eq_left hi]
  rw [overwrite, ← hlength, List.take_left]

/-- Copying towards the front does not overwrite a byte that is still to be
copied, so the source arrives unchanged. -/
theorem copyForward_eq {buf : Bytes} {src dst n : ℕ} (hdst : dst ≤ src)
    (hsrc : src + n ≤ buf.length) :
    copyForward buf src dst n = buf.take dst ++ (buf.drop src).take n ++ buf.drop (dst + n) := by
  induction n generalizing buf src dst with
  | zero => simp [copyForward]
  | succ n ih =>
      have hlt : src < buf.length := by omega
      rw [copyForward, ih (by omega) (by rw [List.length_set]; omega)]
      have htake : (buf.set dst (buf.getD src 0)).take (dst + 1) = buf.take dst ++ [buf[src]] := by
        rw [List.take_add_one, List.take_set_of_le (le_refl dst)]
        simp [hlt, show dst < buf.length by omega]
      have hsource : (buf.set dst (buf.getD src 0)).drop (src + 1) = buf.drop (src + 1) :=
        List.drop_set_of_lt (by omega)
      have htail : (buf.set dst (buf.getD src 0)).drop (dst + 1 + n) = buf.drop (dst + (n + 1)) := by
        rw [List.drop_set_of_lt (by omega)]
        congr 1
        omega
      rw [htake, hsource, htail, List.drop_eq_getElem_cons hlt, List.take_succ_cons]
      simp

theorem length_copyForward (buf : Bytes) (src dst n : ℕ) :
    (copyForward buf src dst n).length = buf.length := by
  induction n generalizing buf src dst with
  | zero => rfl
  | succ n ih => rw [copyForward, ih, List.length_set]

/-! ## The buffer -/

/-- A byte vector with a read and a write index. -/
structure Buffer where
  buf : Bytes
  readIdx : ℕ
  writeIdx : ℕ
  read_le : readIdx ≤ writeIdx
  write_le : writeIdx ≤ buf.length

namespace Buffer

def kInitialSize : ℕ := 1024

def kPrependSize : ℕ := 8

/-- The constructor. -/
def ofSize (initialSize : ℕ) : Buffer :=
  ⟨List.replicate initialSize 0, 0, 0, le_refl 0, Nat.zero_le _⟩

def readableBytes (b : Buffer) : ℕ := b.writeIdx - b.readIdx

def writableBytes (b : Buffer) : ℕ := b.buf.length - b.writeIdx

def prependableBytes (b : Buffer) : ℕ := b.readIdx

/-- The unread bytes: `readableBytes()` bytes from `peek()` on. -/
def readable (b : Buffer) : Bytes := (b.buf.drop b.readIdx).take b.readableBytes

/-- The offset of the first CRLF at or after `offset`; `none` is `npos`. -/
def findCRLF (b : Buffer) (offset : ℕ) : Option ℕ :=
  if offset ≥ b.readableBytes then none
  else (findPair 13 10 (b.readable.drop offset)).map (· + offset)

def retrieveAll (b : Buffer) : Buffer := ⟨b.buf, 0, 0, le_refl 0, Nat.zero_le _⟩

def retrieve (b : Buffer) (len : ℕ) : Buffer :=
  if h : len ≥ b.readableBytes then b.retrieveAll
  else ⟨b.buf, b.readIdx + len, b.writeIdx, by unfold readableBytes at h; omega, b.write_le⟩

def retrieveAsString (b : Buffer) (len : ℕ) : Bytes × Buffer :=
  let n := min len b.readableBytes
  (b.readable.take n, b.retrieve n)

def retrieveAllAsString (b : Buffer) : Bytes × Buffer := b.retrieveAsString b.readableBytes

/-- Make room for `len` bytes: grow, or move the unread bytes to the front. -/
def makeSpace (b : Buffer) (len : ℕ) : Buffer :=
  if h : b.writableBytes + b.prependableBytes < len + kPrependSize then
    ⟨resize b.buf (b.writeIdx + len), b.readIdx, b.writeIdx, b.read_le, by simp⟩
  else
    ⟨copyForward b.buf b.readIdx kPrependSize b.readableBytes, kPrependSize,
      kPrependSize + b.readableBytes, Nat.le_add_right _ _, by
        rw [length_copyForward]
        have hread := b.read_le
        have hwrite := b.write_le
        unfold writableBytes prependableBytes at h
        unfold readableBytes
        omega⟩

def ensureWritableBytes (b : Buffer) (len : ℕ) : Buffer :=
  if b.writableBytes < len then b.makeSpace len else b

def append (b : Buffer) (data : Bytes) : Buffer :=
  let c := b.ensureWritableBytes data.length
  ⟨overwrite c.buf c.writeIdx data, c.readIdx, c.writeIdx + data.length,
    Nat.le_add_right_of_le c.read_le, by
      have := c.write_le
      simp only [overwrite, List.length_append, List.length_take, List.length_drop]
      omega⟩

/-- `readFd` when `readv` has returned the bytes `data`: they fill the free tail
of the vector, and what does not fit goes through the side buffer and `append`. -/
def readFd (b : Buffer) (data : Bytes) : Buffer :=
  if h : data.length ≤ b.writableBytes then
    ⟨overwrite b.buf b.writeIdx data, b.readIdx, b.writeIdx + data.length,
      Nat.le_add_right_of_le b.read_le, by
        have := b.write_le
        simp only [overwrite, List.length_append, List.length_take, List.length_drop]
        omega⟩
  else
    append ⟨overwrite b.buf b.writeIdx (data.take b.writableBytes), b.readIdx, b.buf.length,
      b.read_le.trans b.write_le, by
        have := b.write_le
        unfold writableBytes at h ⊢
        simp only [overwrite, List.length_append, List.length_take, List.length_drop]
        omega⟩ (data.drop b.writableBytes)

def shrink (b : Buffer) (reserve : ℕ) : Buffer :=
  ⟨resize b.buf (b.writeIdx + reserve), b.readIdx, b.writeIdx, b.read_le, by simp⟩

/-! ## The buffer as a queue of bytes -/

@[simp] theorem length_readable (b : Buffer) : b.readable.length = b.readableBytes := by
  have := b.write_le
  simp only [readable, readableBytes, List.length_take, List.length_drop]
  omega

theorem readable_eq_drop_take (b : Buffer) :
    b.readable = (b.buf.take b.writeIdx).drop b.readIdx := by
  rw [List.drop_take]
  rfl

@[simp] theorem readable_ofSize (n : ℕ) : (ofSize n).readable = [] := by
  simp [readable, readableBytes, ofSize]

theorem findCRLF_zero (b : Buffer) : b.findCRLF 0 = findPair 13 10 b.readable := by
  unfold findCRLF
  split
  · rename_i h
    have hempty : b.readable = [] := List.eq_nil_of_length_eq_zero (by simpa using h)
    rw [hempty]
    rfl
  · simp

@[simp] theorem readable_retrieveAll (b : Buffer) : b.retrieveAll.readable = [] := by
  simp [readable, readableBytes, retrieveAll]

@[simp] theorem readable_retrieve (b : Buffer) (len : ℕ) :
    (b.retrieve len).readable = b.readable.drop len := by
  unfold retrieve
  split
  · rename_i h
    rw [readable_retrieveAll, List.drop_of_length_le (by simpa using h)]
  · simp only [readable_eq_drop_take, List.drop_drop]

@[simp] theorem retrieveAsString_fst (b : Buffer) (len : ℕ) :
    (b.retrieveAsString len).1 = b.readable.take len := by
  simp only [retrieveAsString, ← length_readable, ← List.take_take, List.take_length]

@[simp] theorem readable_retrieveAsString (b : Buffer) (len : ℕ) :
    (b.retrieveAsString len).2.readable = b.readable.drop len := by
  simp only [retrieveAsString, readable_retrieve]
  rcases Nat.le_total len b.readableBytes with h | h
  · rw [Nat.min_eq_left h]
  · rw [Nat.min_eq_right h, List.drop_of_length_le (by simp), List.drop_of_length_le (by simpa using h)]

/-- The unread bytes are moved only when they lie beyond their destination. -/
theorem readable_makeSpace (b : Buffer) {len : ℕ} (hlen : b.writableBytes < len) :
    (b.makeSpace len).readable = b.readable := by
  have hread := b.read_le
  have hwrite := b.write_le
  unfold makeSpace
  split
  · simp only [readable_eq_drop_take]
    rw [take_resize (Nat.le_add_right _ _) hwrite]
  · rename_i h
    unfold writableBytes prependableBytes at h
    unfold writableBytes at hlen
    have hfront : kPrependSize ≤ b.readIdx := by omega
    have hinside : b.readIdx + b.readableBytes ≤ b.buf.length := by
      unfold readableBytes
      omega
    have hmoved : copyForward b.buf b.readIdx kPrependSize b.readableBytes =
        overwrite b.buf kPrependSize b.readable := by
      rw [copyForward_eq hfront hinside, overwrite, length_readable]
      rfl
    have hroom : kPrependSize ≤ b.buf.length := by omega
    rw [readable_eq_drop_take]
    calc ((copyForward b.buf b.readIdx kPrependSize b.readableBytes).take
          (kPrependSize + b.readableBytes)).drop kPrependSize
        = (b.buf.take kPrependSize ++ b.readable).drop kPrependSize := by
          rw [hmoved, ← length_readable, take_overwrite hroom]
      _ = b.readable := List.drop_left' (by rw [List.length_take, Nat.min_eq_left hroom])

@[simp] theorem readable_ensureWritableBytes (b : Buffer) (len : ℕ) :
    (b.ensureWritableBytes len).readable = b.readable := by
  unfold ensureWritableBytes
  split
  · rename_i h
    exact readable_makeSpace b h
  · rfl

/-- After `ensureWritableBytes(len)` there is room for `len` bytes. -/
theorem le_writableBytes_ensureWritableBytes (b : Buffer) (len : ℕ) :
    len ≤ (b.ensureWritableBytes len).writableBytes := by
  have hread := b.read_le
  have hwrite := b.write_le
  unfold ensureWritableBytes
  split
  · unfold makeSpace
    split
    · simp [writableBytes]
    · rename_i h
      unfold writableBytes prependableBytes at h
      simp only [writableBytes, length_copyForward, readableBytes]
      omega
  · rename_i h
    exact not_lt.mp h

/-- Writing `data` at the write index and moving the index behind it appends
`data` to the queue. -/
theorem readable_overwrite (b : Buffer) {data : Bytes} {w : ℕ} (hw : w = b.writeIdx + data.length)
    (hread : b.readIdx ≤ w) (hwrite : w ≤ (overwrite b.buf b.writeIdx data).length) :
    readable ⟨overwrite b.buf b.writeIdx data, b.readIdx, w, hread, hwrite⟩ =
      b.readable ++ data := by
  subst hw
  have hidx : b.readIdx ≤ (b.buf.take b.writeIdx).length := by
    rw [List.length_take, Nat.min_eq_left b.write_le]
    exact b.read_le
  rw [readable_eq_drop_take]
  calc ((overwrite b.buf b.writeIdx data).take (b.writeIdx + data.length)).drop b.readIdx
      = (b.buf.take b.writeIdx ++ data).drop b.readIdx := by rw [take_overwrite b.write_le]
    _ = (b.buf.take b.writeIdx).drop b.readIdx ++ data := List.drop_append_of_le_length hidx
    _ = b.readable ++ data := by rw [← readable_eq_drop_take]

@[simp] theorem readable_append (b : Buffer) (data : Bytes) :
    (b.append data).readable = b.readable ++ data := by
  unfold append
  rw [readable_overwrite _ rfl, readable_ensureWritableBytes]

theorem readable_ofSize_append (n : ℕ) (data : Bytes) : ((ofSize n).append data).readable = data := by
  rw [readable_append, readable_ofSize, List.nil_append]

@[simp] theorem readable_readFd (b : Buffer) (data : Bytes) :
    (b.readFd data).readable = b.readable ++ data := by
  unfold readFd
  split
  · rw [readable_overwrite _ rfl]
  · rename_i h
    have hle := b.write_le
    have hfill : b.buf.length = b.writeIdx + (data.take b.writableBytes).length := by
      unfold writableBytes at h ⊢
      rw [List.length_take]
      omega
    rw [readable_append, readable_overwrite b hfill, List.append_assoc, List.take_append_drop]

end Buffer

end WsServer
