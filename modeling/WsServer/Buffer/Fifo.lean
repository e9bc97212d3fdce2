import WsServer.Buffer.Machine
import WsServer.Lib.Refinement
import WsServer.Lib.Transition

/-!
# The buffer refines a queue of bytes

What a buffer is for: bytes go in at the back and come out at the front (`Fifo.step`).
The machine refines this queue over runs of any length (`fifo_run`): it does not fault,
answers what the queue answers, and its unread bytes are the queue.

The one thing that the operations of a run share is the room for their sums.  Every
operation lets the vector grow by at most the length it is given (`length_step_le`), so
the sums fit as long as the initial size and all lengths together do.
-/

namespace WsServer

open CString Word

/-- The operations on a buffer. -/
inductive BufferOp
  | append (data : Bytes)
  | ensureWritableBytes (len : ℕ)
  | retrieve (len : ℕ)
  | retrieveAll
  | retrieveAsString (len : ℕ)
  | retrieveAllAsString
  | shrink (reserve : ℕ)
  /-- `readFd` when `readv` returns these bytes. -/
  | readFd (received : Bytes)
  /-- `readFd` when `readv` returns -1. -/
  | readFdFailed

namespace BufferOp

/-- The room that an operation may ask for. -/
def room : BufferOp → ℕ
  | append data => data.length
  | ensureWritableBytes len => len
  | shrink reserve => reserve
  | readFd received => received.length
  | _ => 0

end BufferOp

/-! ## The queue -/

/-- A queue of bytes: the string returned, and the queue after an operation. -/
def Fifo.step (queue : Bytes) : BufferOp → Bytes × Bytes
  | .append data => ([], queue ++ data)
  | .ensureWritableBytes _ => ([], queue)
  | .retrieve len => ([], queue.drop (min len queue.length))
  | .retrieveAll => ([], [])
  | .retrieveAsString len => (queue.take (min len queue.length), queue.drop (min len queue.length))
  | .retrieveAllAsString => (queue, [])
  | .shrink _ => ([], queue)
  | .readFd received => ([], queue ++ received)
  | .readFdFailed => ([], queue)

/-! ## The machine and the model -/

/-- One operation of the machine: the string returned, and the buffer after it. -/
def RawBuffer.step (b : RawBuffer) : BufferOp → Option (Bytes × RawBuffer)
  | .append data => (b.append data).map ([], ·)
  | .ensureWritableBytes len => (b.ensureWritableBytes len).map ([], ·)
  | .retrieve len => (b.retrieve len).map ([], ·)
  | .retrieveAll => some ([], b.retrieveAll)
  | .retrieveAsString len => b.retrieveAsString len
  | .retrieveAllAsString => b.retrieveAllAsString
  | .shrink reserve => (b.shrink reserve).map ([], ·)
  | .readFd received => (b.readFd received).map ([], ·)
  | .readFdFailed => some ([], b)

namespace Buffer

/-- The buffer after an operation. -/
def step (b : Buffer) : BufferOp → Buffer
  | .append data => b.append data
  | .ensureWritableBytes len => b.ensureWritableBytes len
  | .retrieve len => b.retrieve len
  | .retrieveAll => b.retrieveAll
  | .retrieveAsString len => (b.retrieveAsString len).2
  | .retrieveAllAsString => b.retrieveAllAsString.2
  | .shrink reserve => b.shrink reserve
  | .readFd received => b.readFd received
  | .readFdFailed => b

/-- `readv` returns no more bytes than it has been offered room for. -/
def Possible (b : Buffer) : BufferOp → Prop
  | .readFd received => received.length ≤ b.offered
  | _ => True

instance (b : Buffer) (op : BufferOp) : Decidable (b.Possible op) := by
  unfold Possible
  split <;> infer_instance

theorem length_step_le (b : Buffer) (op : BufferOp) :
    (b.step op).buf.length ≤ b.buf.length + op.room := by
  cases op with
  | append data =>
      refine (length_append_eq b data).le.trans ?_
      exact length_ensureWritableBytes_le b data.length
  | ensureWritableBytes len => exact length_ensureWritableBytes_le b len
  | retrieve len => exact (length_retrieve b len).le
  | retrieveAll => exact le_refl _
  | retrieveAsString len => exact (length_retrieve b _).le
  | retrieveAllAsString => exact (length_retrieve b _).le
  | shrink reserve => exact length_shrink_le b reserve
  | readFd received => exact length_readFd_le b received
  | readFdFailed => exact le_refl _

theorem drop_min (queue : Bytes) (len : ℕ) : queue.drop (min len queue.length) = queue.drop len := by
  rcases Nat.le_total len queue.length with h | h
  · rw [Nat.min_eq_left h]
  · rw [Nat.min_eq_right h, List.drop_length, List.drop_of_length_le h]

theorem take_min (queue : Bytes) (len : ℕ) : queue.take (min len queue.length) = queue.take len := by
  rw [← List.take_take, List.take_length]

/-- **One operation.**  The machine does not fault, and does what the queue does. -/
theorem raw_step (b : Buffer) {op : BufferOp} (hpossible : b.Possible op)
    (hfits : b.buf.length + op.room + kPrependSize < sizeRange) :
    b.raw.step op = some ((Fifo.step b.readable op).1, (b.step op).raw) ∧
      (b.step op).readable = (Fifo.step b.readable op).2 := by
  cases op with
  | append data =>
      refine ⟨?_, readable_append b data⟩
      rw [RawBuffer.step, raw_append b data hfits]
      rfl
  | ensureWritableBytes len =>
      refine ⟨?_, readable_ensureWritableBytes b len⟩
      rw [RawBuffer.step, raw_ensureWritableBytes b len hfits]
      rfl
  | retrieve len =>
      refine ⟨?_, ?_⟩
      · rw [RawBuffer.step, raw_retrieve b len (by omega)]
        rfl
      · exact (readable_retrieve b len).trans (drop_min b.readable len).symm
  | retrieveAll => exact ⟨rfl, readable_retrieveAll b⟩
  | retrieveAsString len =>
      refine ⟨?_, ?_⟩
      · rw [RawBuffer.step, raw_retrieveAsString b len (by omega), retrieveAsString_fst, Fifo.step,
          take_min]
        rfl
      · exact (readable_retrieveAsString b len).trans (drop_min b.readable len).symm
  | retrieveAllAsString =>
      have hall : b.retrieveAllAsString = b.retrieveAsString b.readableBytes := rfl
      have hraw := raw_retrieveAsString b b.readableBytes (by omega)
      rw [← length_readable] at hraw
      refine ⟨?_, ?_⟩
      · simp only [RawBuffer.step, RawBuffer.retrieveAllAsString, readableBytes_raw,
          Option.bind_eq_bind, Option.bind_some]
        rw [← length_readable, hraw, retrieveAsString_fst, List.take_length, length_readable]
        rfl
      · show b.retrieveAllAsString.2.readable = []
        rw [hall, readable_retrieveAsString, ← length_readable, List.drop_length]
  | shrink reserve =>
      refine ⟨?_, readable_shrink b reserve⟩
      rw [RawBuffer.step, raw_shrink b reserve (by simp only [BufferOp.room] at hfits; omega)]
      rfl
  | readFd received =>
      refine ⟨?_, readable_readFd b received⟩
      rw [RawBuffer.step, raw_readFd b hpossible hfits]
      rfl
  | readFdFailed => exact ⟨rfl, rfl⟩

/-! ## Runs -/

/-- A machine, the queue that it stands for, and operations that it can go on with: `readv`
returns what it can, and the sums fit. -/
def Queues (raw : RawBuffer) (queue : Bytes) (ops : List BufferOp) : Prop :=
  ∃ b : Buffer, b.raw = raw ∧ b.readable = queue ∧ Transition.AllSteps step Possible b ops ∧
    b.buf.length + (ops.map BufferOp.room).sum + kPrependSize < sizeRange

theorem refines_fifo : Refinement.Refines RawBuffer.step Fifo.step Queues := by
  constructor
  rintro _ _ op rest ⟨b, rfl, rfl, ⟨hpossible, hrest⟩, hsums⟩
  rw [List.map_cons, List.sum_cons] at hsums
  obtain ⟨hraw, hqueue⟩ := raw_step b hpossible (by omega)
  have hgrowth := length_step_le b op
  exact ⟨(b.step op).raw, hraw, b.step op, rfl, hqueue, hrest, by omega⟩

/-- There is room after `ensureWritableBytes`. -/
theorem raw_ensureWritableBytes_room (b : Buffer) {len : ℕ}
    (hfits : b.buf.length + len + kPrependSize < sizeRange) :
    ∃ raw writable, b.raw.ensureWritableBytes len = some raw ∧
      raw.writableBytes = some writable ∧ len ≤ writable :=
  ⟨_, _, raw_ensureWritableBytes b len hfits, writableBytes_raw _,
    le_writableBytes_ensureWritableBytes b len⟩

/-- **A queue of bytes.**  Every run of operations whose sums fit is without faults, gives
the answers of the queue, and leaves its bytes between two indices in order. -/
theorem fifo_run (initialSize : ℕ) (ops : List BufferOp)
    (hpossible : Transition.AllSteps step Possible (ofSize initialSize) ops)
    (hsums : initialSize + (ops.map BufferOp.room).sum + kPrependSize < sizeRange) :
    ∃ raw, Refinement.run? RawBuffer.step (RawBuffer.ofSize initialSize) ops =
        some ((Refinement.run Fifo.step [] ops).1, raw) ∧
      raw.readIdx ≤ raw.writeIdx ∧ raw.writeIdx ≤ raw.buf.length ∧
      slice? raw.buf raw.readIdx (raw.writeIdx - raw.readIdx) =
        some (Refinement.run Fifo.step [] ops).2 ∧
      ∀ len, raw.buf.length + len + kPrependSize < sizeRange →
        ∃ raw' writable, raw.ensureWritableBytes len = some raw' ∧
          raw'.writableBytes = some writable ∧ len ≤ writable := by
  have hstart : Queues (RawBuffer.ofSize initialSize) [] ops := by
    refine ⟨ofSize initialSize, raw_ofSize initialSize, readable_ofSize initialSize, hpossible, ?_⟩
    simpa [ofSize] using hsums
  obtain ⟨raw, hrun, b, rfl, hqueue, -, -⟩ := refines_fifo.run hstart
  refine ⟨b.raw, hrun, b.read_le, b.write_le, ?_, fun len => raw_ensureWritableBytes_room b⟩
  have hread := b.read_le
  have hwrite := b.write_le
  rw [← hqueue, raw_buf, raw_readIdx, raw_writeIdx, slice?, if_pos (by omega)]
  rfl

/-- Growing, moving to the front, and reading over the end of the vector. -/
theorem fifo_run_sample : ∃ raw, Refinement.run? RawBuffer.step (RawBuffer.ofSize 12)
      [.append (bytes "0123456789"), .retrieve 9, .readFd (bytes "abc"), .retrieveAsString 2,
        .shrink 1, .retrieveAllAsString] =
        some ([[], [], [], bytes "9a", [], bytes "bc"], raw) ∧
      raw.readIdx ≤ raw.writeIdx ∧ raw.writeIdx ≤ raw.buf.length := by
  obtain ⟨raw, hrun, hread, hwrite, -⟩ := fifo_run 12
    [.append (bytes "0123456789"), .retrieve 9, .readFd (bytes "abc"), .retrieveAsString 2,
      .shrink 1, .retrieveAllAsString] (by decide +kernel) (by decide +kernel)
  exact ⟨raw, hrun, hread, hwrite⟩

end Buffer

end WsServer
