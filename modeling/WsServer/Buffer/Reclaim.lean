import WsServer.Buffer.Fifo

/-!
# How large the vector becomes

`makeSpace` grows the vector only when the dead bytes in front are fewer than the bytes asked for
and `kPrependSize` together.  So a vector that has just grown is at most twice as long as the unread
bytes in it, up to `kPrependSize`, and it never becomes longer than the largest number of unread
bytes allows (`reclaim_run`), however many bytes pass through.

With the length of the vector the sums of the machine are bounded too, over runs of any length
(`reclaim_machine`).
-/

namespace WsServer

open CString Word

/-- The operations by which bytes pass through: none that asks for room as such. -/
def BufferOp.passes : BufferOp → Bool
  | .ensureWritableBytes _ => false
  | .shrink _ => false
  | _ => true

namespace Buffer

variable {b : Buffer} {M : ℕ} {op : BufferOp}

/-! ## One operation -/

theorem length_ensureWritableBytes (b : Buffer) (len : ℕ) :
    (b.ensureWritableBytes len).buf.length =
      if b.writableBytes < len ∧ b.writableBytes + b.prependableBytes < len + kPrependSize then
        b.writeIdx + len
      else b.buf.length := by
  unfold ensureWritableBytes
  by_cases hshort : b.writableBytes < len
  · rw [if_pos hshort]
    unfold makeSpace
    split
    · rename_i hgrow
      rw [if_pos ⟨hshort, hgrow⟩]
      exact length_resize _ _
    · rename_i hmove
      rw [if_neg fun h => hmove h.2]
      exact length_copyForward _ _ _ _
  · rw [if_neg hshort, if_neg fun h => hshort h.1]

theorem readableBytes_append (b : Buffer) (data : Bytes) :
    (b.append data).readableBytes = b.readableBytes + data.length := by
  rw [← length_readable, readable_append, List.length_append, length_readable]

theorem readableBytes_readFd (b : Buffer) (received : Bytes) :
    (b.readFd received).readableBytes = b.readableBytes + received.length := by
  rw [← length_readable, readable_readFd, List.length_append, length_readable]

/-- A vector that grows is at most twice as long as its unread bytes, up to `kPrependSize`. -/
theorem length_append_le_max {data : Bytes} (hM : (b.append data).readableBytes ≤ M) :
    (b.append data).buf.length ≤ max b.buf.length (2 * M + kPrependSize) := by
  have hread := b.read_le
  rw [readableBytes_append] at hM
  rw [length_append_eq, length_ensureWritableBytes]
  split
  · rename_i hgrow
    have hdead : b.readIdx < data.length + kPrependSize := by
      have hroom := hgrow.2
      unfold prependableBytes at hroom
      omega
    have hlength : b.writeIdx + data.length ≤ 2 * M + kPrependSize := by
      unfold readableBytes at hM
      omega
    exact hlength.trans (le_max_right _ _)
  · exact le_max_left _ _

theorem length_readFd_le_max {received : Bytes} (hM : (b.readFd received).readableBytes ≤ M) :
    (b.readFd received).buf.length ≤ max b.buf.length (2 * M + kPrependSize) := by
  have hwrite := b.write_le
  unfold readFd at hM ⊢
  split
  · rename_i hall
    have hfits : b.writeIdx + received.length ≤ b.buf.length := by
      unfold writableBytes at hall
      omega
    exact (length_overwrite hfits).le.trans (le_max_left _ _)
  · rename_i hmore
    rw [dif_neg hmore] at hM
    have htail : b.writeIdx + (received.take b.writableBytes).length ≤ b.buf.length := by
      rw [List.length_take]
      unfold writableBytes
      omega
    have hgrowth := length_append_le_max hM
    rwa [length_overwrite htail] at hgrowth

theorem length_step_le_max (hpasses : op.passes = true) (hM : (b.step op).readableBytes ≤ M) :
    (b.step op).buf.length ≤ max b.buf.length (2 * M + kPrependSize) := by
  cases op with
  | append data => exact length_append_le_max hM
  | readFd received => exact length_readFd_le_max hM
  | retrieve len => exact (length_retrieve b len).le.trans (le_max_left _ _)
  | retrieveAll => exact le_max_left _ _
  | retrieveAsString len => exact (length_retrieve b _).le.trans (le_max_left _ _)
  | retrieveAllAsString => exact (length_retrieve b _).le.trans (le_max_left _ _)
  | readFdFailed => exact le_max_left _ _
  | ensureWritableBytes len => cases hpasses
  | shrink reserve => cases hpasses

/-- Where the free and the dead bytes are enough, the vector stays as long as it is. -/
theorem length_append_of_room {data : Bytes}
    (hroom : data.length + kPrependSize ≤ b.buf.length - b.readableBytes) :
    (b.append data).buf.length = b.buf.length := by
  have hread := b.read_le
  have hwrite := b.write_le
  rw [length_append_eq, length_ensureWritableBytes, if_neg]
  rintro ⟨-, hgrow⟩
  unfold writableBytes prependableBytes at hgrow
  unfold readableBytes at hroom
  omega

/-! ## Runs -/

/-- After the operation there are at most `M` unread bytes. -/
def StaysWithin (M : ℕ) (b : Buffer) (op : BufferOp) : Prop := (b.step op).readableBytes ≤ M

instance (M : ℕ) (b : Buffer) (op : BufferOp) : Decidable (b.StaysWithin M op) :=
  inferInstanceAs (Decidable (_ ≤ M))

theorem length_run_le_max {b : Buffer} {ops : List BufferOp}
    (hpasses : ∀ op ∈ ops, op.passes = true) (hM : Transition.AllSteps step (StaysWithin M) b ops) :
    (Transition.run step b ops).buf.length ≤ max b.buf.length (2 * M + kPrependSize) := by
  induction ops generalizing b with
  | nil => exact le_max_left _ _
  | cons op rest ih =>
      obtain ⟨hstep, hrest⟩ := hM
      have hfirst := length_step_le_max (hpasses op List.mem_cons_self) hstep
      have hlater := ih (fun op hop => hpasses op (List.mem_cons_of_mem _ hop)) hrest
      exact hlater.trans (max_le hfirst (le_max_right _ _))

/-- **Space is reclaimed.**  In a run in which there are never more than `M` unread bytes the
vector never becomes longer than it was at first, or than `2 * M + kPrependSize`; and an `append`
for which the free and the dead bytes are enough does not change its length. -/
theorem reclaim_run (initialSize M : ℕ) (ops : List BufferOp)
    (hpasses : ∀ op ∈ ops, op.passes = true)
    (hM : Transition.AllSteps step (StaysWithin M) (ofSize initialSize) ops) :
    let b := Transition.run step (ofSize initialSize) ops
    b.buf.length ≤ max initialSize (2 * M + kPrependSize) ∧
      ∀ data : Bytes, data.length + kPrependSize ≤ b.buf.length - b.readableBytes →
        (b.append data).buf.length = b.buf.length := by
  refine ⟨?_, fun data hroom => length_append_of_room hroom⟩
  have hlength : (ofSize initialSize).buf.length = initialSize := List.length_replicate
  have hrun := length_run_le_max hpasses hM
  rwa [hlength] at hrun

/-- Ten times the bytes of the vector pass through it. -/
theorem reclaim_run_sample :
    (Transition.run step (ofSize 40) (List.replicate 20 [BufferOp.append (bytes "0123456789abcdef"),
      .retrieve 9, .readFd (bytes "xyz"), .retrieveAll]).flatten).buf.length ≤ 48 := by
  refine (reclaim_run 40 20 _ ?_ ?_).1
  · intro op hop
    simp only [List.mem_flatten, List.mem_replicate] at hop
    obtain ⟨group, ⟨-, rfl⟩, hop⟩ := hop
    fin_cases hop <;> rfl
  · decide +kernel

/-! ## The machine -/

/-- A machine whose vector is within the bound, and operations that keep to `M`. -/
def Reclaims (bound M : ℕ) (raw : RawBuffer) (queue : Bytes) (ops : List BufferOp) : Prop :=
  ∃ b : Buffer, b.raw = raw ∧ b.readable = queue ∧ b.buf.length ≤ bound ∧
    (∀ op ∈ ops, op.passes = true) ∧ Transition.AllSteps step Possible b ops ∧
    Transition.AllSteps step (StaysWithin M) b ops

/-- No more bytes come in than are unread afterwards. -/
theorem room_le (hpasses : op.passes = true) (hM : (b.step op).readableBytes ≤ M) :
    op.room ≤ M := by
  cases op with
  | append data =>
      calc data.length
        _ ≤ b.readableBytes + data.length := Nat.le_add_left _ _
        _ = (b.append data).readableBytes := (readableBytes_append b data).symm
        _ ≤ M := hM
  | readFd received =>
      calc received.length
        _ ≤ b.readableBytes + received.length := Nat.le_add_left _ _
        _ = (b.readFd received).readableBytes := (readableBytes_readFd b received).symm
        _ ≤ M := hM
  | ensureWritableBytes len => cases hpasses
  | shrink reserve => cases hpasses
  | _ => exact Nat.zero_le M

theorem refines_reclaims {bound : ℕ} (hbound : 2 * M + kPrependSize ≤ bound)
    (hfits : bound + M + kPrependSize < sizeRange) :
    Refinement.Refines RawBuffer.step Fifo.step (Reclaims bound M) := by
  constructor
  rintro _ _ op rest ⟨b, rfl, rfl, hlength, hpasses, ⟨hpossible, hrest⟩, hM, hMrest⟩
  have hpass := hpasses op List.mem_cons_self
  have hroom := room_le hpass hM
  obtain ⟨hraw, hqueue⟩ := raw_step b hpossible (by omega)
  have hgrowth := length_step_le_max hpass hM
  exact ⟨(b.step op).raw, hraw, b.step op, rfl, hqueue, hgrowth.trans (max_le hlength hbound),
    fun op hop => hpasses op (List.mem_cons_of_mem _ hop), hrest, hMrest⟩

/-- The machine does not fault, however long it runs: with the unread bytes the sums are bounded. -/
theorem reclaim_machine (initialSize M : ℕ) (ops : List BufferOp)
    (hpasses : ∀ op ∈ ops, op.passes = true)
    (hpossible : Transition.AllSteps step Possible (ofSize initialSize) ops)
    (hM : Transition.AllSteps step (StaysWithin M) (ofSize initialSize) ops)
    (hfits : max initialSize (2 * M + kPrependSize) + M + kPrependSize < sizeRange) :
    ∃ raw, Refinement.run? RawBuffer.step (RawBuffer.ofSize initialSize) ops =
        some ((Refinement.run Fifo.step [] ops).1, raw) ∧
      raw.buf.length ≤ max initialSize (2 * M + kPrependSize) := by
  have hstart : Reclaims (max initialSize (2 * M + kPrependSize)) M
      (RawBuffer.ofSize initialSize) [] ops := by
    refine ⟨ofSize initialSize, raw_ofSize initialSize, readable_ofSize initialSize, ?_, hpasses,
      hpossible, hM⟩
    exact (List.length_replicate).le.trans (le_max_left _ _)
  obtain ⟨raw, hrun, b, rfl, -, hlength, -⟩ :=
    (refines_reclaims (le_max_right _ _) hfits).run hstart
  exact ⟨b.raw, hrun, hlength⟩

end Buffer

end WsServer
