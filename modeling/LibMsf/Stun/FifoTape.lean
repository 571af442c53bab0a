import LibMsf.Stun.FifoBuffer

/-!
What the functions of the circular buffer do to its tape.

There is one lemma for each function. A wrapped copy is two copies that meet at the end of the
block, and on the tape it is a plain range. Growing the buffer keeps the bytes that can be read
and loses what was written ahead of them.
-/

namespace LibMsf

open Cxx

namespace FifoBuffer

variable {b : FifoBuffer}

theorem valid_create (fresh : Nat → UInt8) {size : Nat} (hpos : 0 < size) (hlt : size < 2 ^ 63) :
    (create fresh size).Valid :=
  ⟨length_newBlock fresh size, Nat.zero_le size, hpos, hlt⟩

theorem tape_create (fresh : Nat → UInt8) (size : Nat) : (create fresh size).tape =
    { readable := [], ahead := newBlock fresh size, closed := false } := by
  simp [tape, cells, create]

/-- A new buffer that is resized is a new buffer of the other size. -/
theorem setCapacity_create (fresh : Nat → UInt8) (size size' : Nat) (h : size' ≠ size) :
    (create fresh size).setCapacity fresh size' = .ok (create fresh size', true) := by
  simp [setCapacity, create, h, readAt, writeAt, overwrite]

namespace Valid

theorem bufferLength_pos (h : b.Valid) : 0 < b.bufferLength :=
  Nat.lt_of_le_of_lt (Nat.zero_le _) h.readPosition_lt

theorem length_cells (h : b.Valid) : b.cells.length = b.bufferLength := by
  rw [cells, List.length_rotate, h.length_buffer]

theorem length_readable (h : b.Valid) : b.tape.readable.length = b.dataLength := by
  have hle := h.dataLength_le
  rw [tape, List.length_take, h.length_cells]
  omega

theorem length_ahead (h : b.Valid) : b.tape.ahead.length = b.bufferLength - b.dataLength := by
  rw [tape, List.length_drop, h.length_cells]

theorem getWriteRemaining_eq (h : b.Valid) : b.getWriteRemaining = b.tape.ahead.length :=
  h.length_ahead.symm

theorem getBuffered_eq (h : b.Valid) : b.getBuffered = b.tape.readable.length :=
  h.length_readable.symm

theorem readAt_pieces (h : b.Valid) (offset len : Nat) (hlen : offset + len ≤ b.bufferLength)
    (hoff : offset < b.bufferLength) {β : Type} (f : Bytes → Except Fault β) :
    (do
      let tail ← readAt b.buffer ((b.readPosition + offset) % b.bufferLength)
        (min len (b.bufferLength - (b.readPosition + offset) % b.bufferLength))
      let head ← readAt b.buffer 0
        (len - min len (b.bufferLength - (b.readPosition + offset) % b.bufferLength))
      f (tail ++ head)) = f ((b.cells.drop offset).take len) := by
  have hmod : (b.readPosition + offset) % b.bufferLength < b.bufferLength :=
    Nat.mod_lt _ h.bufferLength_pos
  have hcap := h.length_buffer
  have hslice := Rotation.slice offset len (by rw [hcap]; exact h.readPosition_lt) (by omega)
    (by omega)
  rw [hcap] at hslice
  rw [readAt_of_le (by omega), ok_bind, readAt_of_le (by omega), ok_bind, List.drop_zero, hslice,
    cells]

theorem readOffsetLocked_eq (h : b.Valid) (bytes offset : Nat) :
    b.readOffsetLocked bytes offset =
      .ok (b.tape.readResult offset, (b.tape.readable.drop offset).take bytes) := by
  have hle := h.dataLength_le
  unfold readOffsetLocked Tape.readResult
  by_cases hblock : b.dataLength ≤ offset
  · have hnil : b.tape.readable.drop offset = [] := by
      rw [List.drop_eq_nil_iff, h.length_readable]
      exact hblock
    have hnot : ¬ offset < b.tape.readable.length := by
      rw [h.length_readable]
      omega
    rw [if_pos hblock, if_neg hnot, hnil, List.take_nil]
    by_cases hclosed : b.state = .closed <;> simp [tape, hclosed]
  · have hlt : offset < b.tape.readable.length := by
      rw [h.length_readable]
      omega
    have hpieces := h.readAt_pieces offset (min bytes (b.dataLength - offset))
      (by omega) (by omega) (fun data => pure (StreamResult.success, data))
    rw [if_neg hblock, if_pos hlt]
    simp only [remainder_of_pos h.bufferLength_pos, ok_bind]
    rw [hpieces, pure_eq_ok, tape, List.drop_take, List.take_take]

theorem rotated (h : b.Valid) {k : Nat} (hk : k ≤ b.dataLength) :
    let b' : FifoBuffer := { b with
      readPosition := (b.readPosition + k) % b.bufferLength, dataLength := b.dataLength - k }
    b'.Valid ∧ b'.tape = b.tape.drop k := by
  have hle := h.dataLength_le
  have hcells : b.buffer.rotate ((b.readPosition + k) % b.bufferLength) =
      b.cells.drop k ++ b.cells.take k := by
    have hrotate := Rotation.rotate_further b.readPosition
      (show k ≤ b.buffer.length by rw [h.length_buffer]; omega)
    rwa [h.length_buffer] at hrotate
  have hfront : b.dataLength - k ≤ (b.cells.drop k).length := by
    rw [List.length_drop, h.length_cells]
    omega
  refine ⟨⟨h.length_buffer, ?_, Nat.mod_lt _ h.bufferLength_pos, h.bufferLength_lt⟩, ?_⟩
  · exact (Nat.sub_le _ _).trans hle
  · have hmoved : (FifoBuffer.cells { b with
        readPosition := (b.readPosition + k) % b.bufferLength, dataLength := b.dataLength - k }) =
        b.cells.drop k ++ b.cells.take k := hcells
    simp only [tape, Tape.drop, hmoved]
    rw [List.take_append_of_le_length hfront, List.drop_append_of_le_length hfront,
      List.drop_drop, List.take_take, List.drop_take, Nat.add_sub_cancel' hk, Nat.min_eq_left hk]

theorem consumeReadData_eq (h : b.Valid) {size : Nat} (hsize : size ≤ b.tape.readable.length) :
    ∃ b', b.consumeReadData size = .ok b' ∧ b'.Valid ∧ b'.bufferLength = b.bufferLength ∧
      b'.tape = b.tape.drop size := by
  rw [h.length_readable] at hsize
  obtain ⟨hvalid, htape⟩ := h.rotated hsize
  refine ⟨_, ?_, hvalid, rfl, htape⟩
  rw [consumeReadData, assertThat_of hsize, ok_bind, remainder_of_pos h.bufferLength_pos, ok_bind,
    pure_eq_ok]

theorem read_eq (h : b.Valid) (bytes : Nat) :
    ∃ b', b.read bytes = .ok (b', b.tape.readResult 0, b.tape.readable.take bytes) ∧
      b'.Valid ∧ b'.bufferLength = b.bufferLength ∧ b'.tape = b.tape.drop bytes := by
  rw [read, h.readOffsetLocked_eq, ok_bind, List.drop_zero, Tape.readResult]
  by_cases hne : 0 < b.tape.readable.length
  · have hlen : (b.tape.readable.take bytes).length ≤ b.dataLength := by
      rw [List.length_take, h.length_readable]
      omega
    obtain ⟨hvalid, htape⟩ := h.rotated hlen
    refine ⟨_, ?_, hvalid, rfl, ?_⟩
    · simp only [if_pos hne, if_true]
      rw [remainder_of_pos h.bufferLength_pos, ok_bind, pure_eq_ok]
    · rw [htape, Tape.drop, Tape.drop, List.length_take, ← List.take_eq_take_min,
        ← List.drop_eq_drop_min]
  · have hnil : b.tape.readable = [] := List.length_eq_zero_iff.mp (by omega)
    refine ⟨b, ?_, h, rfl, ?_⟩
    · simp only [if_neg hne]
      by_cases hclosed : b.tape.closed <;> simp [hclosed]
    · rw [Tape.drop, hnil, List.take_nil, List.drop_nil, List.append_nil]
      simp only [← hnil]

/-- The two pieces of a wrapped write set one range of the free cells. -/
theorem writeAt_pieces (h : b.Valid) (offset : Nat) (piece : Bytes)
    (hoff : b.dataLength + offset < b.bufferLength)
    (hlen : b.dataLength + offset + piece.length ≤ b.bufferLength) :
    ∃ first second,
      writeAt b.buffer ((b.readPosition + b.dataLength + offset) % b.bufferLength)
        (piece.take (min piece.length
          (b.bufferLength - (b.readPosition + b.dataLength + offset) % b.bufferLength))) =
          .ok first ∧
      writeAt first 0 (piece.drop (min piece.length
          (b.bufferLength - (b.readPosition + b.dataLength + offset) % b.bufferLength))) =
          .ok second ∧
      ({ b with buffer := second } : FifoBuffer).Valid ∧
      ({ b with buffer := second } : FifoBuffer).tape = b.tape.store offset piece := by
  have hlt := h.readPosition_lt
  have hcap := h.length_buffer
  have hstart : b.readPosition < b.buffer.length := by omega
  have hwrapped := Rotation.overwrite_wrapped (b.dataLength + offset) piece hstart (by omega)
    (by omega)
  have hmod : (b.readPosition + b.dataLength + offset) % b.bufferLength < b.bufferLength :=
    Nat.mod_lt _ h.bufferLength_pos
  rw [hcap, ← Nat.add_assoc] at hwrapped
  generalize (b.readPosition + b.dataLength + offset) % b.bufferLength = pos at hwrapped hmod
  generalize htail : min piece.length (b.bufferLength - pos) = tail at hwrapped
  have hfit : pos + (piece.take tail).length ≤ b.buffer.length := by
    rw [List.length_take]
    omega
  have hfit' : 0 + (piece.drop tail).length ≤
      (overwrite b.buffer pos (piece.take tail)).length := by
    rw [length_overwrite hfit, List.length_drop]
    omega
  refine ⟨_, _, writeAt_of_le hfit, writeAt_of_le hfit', ⟨?_, h.dataLength_le, hlt,
    h.bufferLength_lt⟩, ?_⟩
  · rw [length_overwrite hfit', length_overwrite hfit, hcap]
  · have hfront : (b.cells.take b.dataLength).length = b.dataLength := h.length_readable
    have hbehind := Rotation.overwrite_behind (b.cells.take b.dataLength)
      (b.cells.drop b.dataLength) piece offset
    rw [List.take_append_drop, hfront] at hbehind
    rw [← cells, hbehind] at hwrapped
    simp only [tape, cells, Tape.store] at hfront hwrapped ⊢
    rw [hwrapped, List.take_append_of_le_length (by omega), List.drop_append_of_le_length
      (by omega), List.take_take, Nat.min_self, List.drop_eq_nil_of_le (by omega), List.nil_append]

theorem writeOffsetLocked_eq (h : b.Valid) (data : Bytes) {offset : Nat}
    (hoffset : offset < 2 ^ 63) :
    ∃ b', b.writeOffsetLocked data offset =
        .ok (b', b.tape.writeResult offset, b.tape.written offset data) ∧
      b'.Valid ∧ b'.bufferLength = b.bufferLength ∧ b'.dataLength = b.dataLength ∧
      b'.tape = if b.tape.closed then b.tape
        else b.tape.store offset (b.tape.fitting offset data) := by
  have hle := h.dataLength_le
  have hlt := h.readPosition_lt
  have hbound := h.bufferLength_lt
  have hclosed_iff : b.tape.closed = decide (b.state = .closed) := rfl
  unfold writeOffsetLocked Tape.writeResult Tape.written Tape.fitting
  rw [h.length_ahead]
  by_cases hclosed : b.state = .closed
  · have htrue : b.tape.closed = true := by rw [hclosed_iff, decide_eq_true hclosed]
    exact ⟨b, by simp [hclosed, htrue], h, rfl, rfl, by simp [htrue]⟩
  have hfalse : b.tape.closed = false := by rw [hclosed_iff, decide_eq_false hclosed]
  rw [if_neg hclosed, sizeAdd_of_lt (by omega), hfalse]
  simp only [Bool.false_eq_true, if_false]
  by_cases hblock : b.bufferLength ≤ b.dataLength + offset
  · refine ⟨b, ?_, h, rfl, rfl, ?_⟩
    · rw [if_pos hblock, if_neg (by omega), Nat.sub_eq_zero_of_le (by omega), List.take_zero,
        List.length_nil]
    · rw [Nat.sub_eq_zero_of_le (by omega), List.take_zero, Tape.store_nil]
  generalize hpiece : data.take (b.bufferLength - b.dataLength - offset) = piece
  have hlength : piece.length = min data.length (b.bufferLength - b.dataLength - offset) := by
    rw [← hpiece, List.length_take, Nat.min_comm]
  obtain ⟨first, second, hfirst, hsecond, hvalid, htape⟩ := h.writeAt_pieces offset piece
    (by omega) (by omega)
  have htake : data.take (min data.length (b.bufferLength - b.dataLength - offset)) = piece := by
    rw [← hpiece, List.take_eq_take_min (i := b.bufferLength - b.dataLength - offset),
      Nat.min_comm]
  rw [if_neg hblock, if_pos (by omega), sizeSub_of_le (by omega) (by omega),
    sizeAdd_of_lt (by omega), remainder_of_pos h.bufferLength_pos, ok_bind, htake, ← hlength]
  have hfront : ∀ k, k ≤ piece.length → data.take k = piece.take k := by
    intro k hk
    rw [← hpiece, List.take_take, Nat.min_eq_left (by omega)]
  rw [hfront _ (Nat.min_le_left _ _), hfirst, ok_bind, hsecond, ok_bind, pure_eq_ok]
  exact ⟨_, rfl, hvalid, rfl, rfl, htape⟩

theorem consumeWriteBuffer_eq (h : b.Valid) {size : Nat} (hsize : size ≤ b.tape.ahead.length) :
    ∃ b', b.consumeWriteBuffer size = .ok b' ∧ b'.Valid ∧ b'.bufferLength = b.bufferLength ∧
      b'.tape = b.tape.advance size := by
  have hle := h.dataLength_le
  rw [h.length_ahead] at hsize
  refine ⟨{ b with dataLength := b.dataLength + size }, ?_, ⟨h.length_buffer, ?_,
    h.readPosition_lt, h.bufferLength_lt⟩, rfl, ?_⟩
  · rw [consumeWriteBuffer, assertThat_of hsize, ok_bind, pure_eq_ok]
  · change b.dataLength + size ≤ b.bufferLength
    omega
  · simp only [tape, cells, Tape.advance, List.take_add, List.drop_drop]

theorem write_eq (h : b.Valid) (data : Bytes) :
    ∃ b', b.write data = .ok (b', b.tape.writeResult 0, b.tape.written 0 data) ∧
      b'.Valid ∧ b'.bufferLength = b.bufferLength ∧
      b'.tape = if b.tape.closed then b.tape
        else (b.tape.store 0 (b.tape.fitting 0 data)).advance (b.tape.fitting 0 data).length := by
  obtain ⟨b₁, hwrite, hvalid, hcap, -, htape⟩ := h.writeOffsetLocked_eq data
    (show 0 < 2 ^ 63 by omega)
  rw [write, hwrite, ok_bind]
  by_cases hclosed : b.tape.closed
  · exact ⟨b₁, by simp [Tape.writeResult, hclosed], hvalid, hcap, by rw [htape, if_pos hclosed,
      if_pos hclosed]⟩
  rw [if_neg hclosed] at htape
  rw [if_neg hclosed, Tape.writeResult, Tape.written, if_neg hclosed, if_neg hclosed, ← htape]
  by_cases hroom : 0 < b.tape.ahead.length
  · have hfits : (b.tape.fitting 0 data).length ≤ b₁.tape.ahead.length := by
      have hlength : (b.tape.fitting 0 data).length ≤ b.tape.ahead.length := by
        rw [Tape.fitting, List.length_take]
        omega
      rw [htape, Tape.store, length_overwrite (by omega)]
      exact hlength
    obtain ⟨b₂, hconsume, hvalid₂, -, htape₂⟩ := hvalid.consumeWriteBuffer_eq hfits
    rw [hvalid.length_ahead] at hfits
    rw [consumeWriteBuffer, assertThat_of hfits, ok_bind, pure_eq_ok] at hconsume
    cases hconsume
    exact ⟨_, by simp [hroom], hvalid₂, hcap, htape₂⟩
  · have hnone : (b.tape.fitting 0 data).length = 0 := by
      rw [Tape.fitting, List.length_take]
      omega
    refine ⟨b₁, by simp [hroom, hnone], hvalid, hcap, ?_⟩
    rw [hnone, Tape.advance, List.take_zero, List.append_nil, List.drop_zero]

/-- What is ready to be read is kept; what was written ahead of it is not. -/
theorem setCapacity_eq (h : b.Valid) (fresh : Nat → UInt8) {size : Nat} (hpos : 0 < size)
    (hlt : size < 2 ^ 63) :
    ∃ b', b.setCapacity fresh size = .ok (b', decide (b.tape.readable.length ≤ size)) ∧ b'.Valid ∧
      b'.bufferLength = (if b.tape.readable.length ≤ size then size else b.bufferLength) ∧
      (¬ b.tape.readable.length ≤ size → b' = b) ∧
      b'.tape.readable = b.tape.readable ∧ b'.tape.closed = b.tape.closed := by
  have hle := h.dataLength_le
  rw [h.length_readable, setCapacity]
  by_cases hsmall : size < b.dataLength
  · exact ⟨b, by rw [if_pos hsmall, decide_eq_false (by omega)], h, by rw [if_neg (by omega)],
      fun _ => rfl, rfl, rfl⟩
  have hroom : b.dataLength ≤ size := by omega
  rw [if_neg hsmall, decide_eq_true hroom]
  simp only [if_pos hroom]
  by_cases hsame : size = b.bufferLength
  · exact ⟨b, by rw [if_neg (not_not.mpr hsame)], h, hsame.symm, fun _ => rfl, rfl, rfl⟩
  have hread := h.readPosition_lt
  have hslice := Rotation.slice 0 b.dataLength
    (show b.readPosition < b.buffer.length by rw [h.length_buffer]; omega)
    (by rw [h.length_buffer]; omega) (by rw [h.length_buffer]; omega)
  rw [Nat.add_zero, h.length_buffer, Nat.mod_eq_of_lt hread, List.drop_zero, ← cells] at hslice
  generalize htail : min b.dataLength (b.bufferLength - b.readPosition) = tail at hslice
  have hcap := h.length_buffer
  rw [if_pos hsame, readAt_of_le (by omega), ok_bind, readAt_of_le (by omega)]
  generalize hfirst : (b.buffer.drop b.readPosition).take tail = first at hslice
  have hlength : first.length = tail := by
    rw [← hfirst, List.length_take, List.length_drop]
    omega
  have hsecond : (b.buffer.take (b.dataLength - tail)).length = b.dataLength - tail := by
    rw [List.length_take]
    omega
  have hfirst_fits := @writeAt_done _ [] (newBlock fresh size) first
    (by rw [length_newBlock]; omega)
  have hsecond_fits := @writeAt_done _ first ((newBlock fresh size).drop first.length)
    (b.buffer.take (b.dataLength - tail))
    (by rw [List.length_drop, length_newBlock]; omega)
  rw [List.nil_append, List.length_nil, List.nil_append] at hfirst_fits
  rw [hlength, hslice] at hsecond_fits
  rw [hfirst_fits, ok_bind, ok_bind, List.drop_zero, hlength, hsecond_fits, ok_bind, pure_eq_ok]
  have hreadable : (b.cells.take b.dataLength).length = b.dataLength := h.length_readable
  refine ⟨_, rfl, ⟨?_, ?_, hpos, hlt⟩, rfl, fun hnot => absurd hroom hnot, ?_, rfl⟩
  · simp only [List.length_append, hreadable, List.length_drop, length_newBlock, hsecond]
    omega
  · change b.dataLength ≤ size
    omega
  · simp only [tape, cells, List.rotate_zero] at hreadable ⊢
    rw [List.take_append_of_le_length (by omega), List.take_take, Nat.min_self]

/-- The bytes that can be taken without wrapping come first in the order of reading. -/
theorem getReadData_eq (h : b.Valid) :
    ∃ data, b.getReadData = .ok data ∧ data <+: b.tape.readable ∧
      (data = [] → b.tape.readable = []) := by
  have hle := h.dataLength_le
  have hlt := h.readPosition_lt
  have hcap := h.length_buffer
  have hrotate : b.cells = b.buffer.drop b.readPosition ++ b.buffer.take b.readPosition :=
    List.rotate_eq_drop_append_take (by omega)
  unfold getReadData
  generalize hlen : (if b.readPosition + b.dataLength ≤ b.bufferLength then b.dataLength
    else b.bufferLength - b.readPosition) = len
  have hfits : b.readPosition + len ≤ b.bufferLength ∧ len ≤ b.dataLength ∧
      (len = 0 → b.dataLength = 0) := by
    rw [← hlen]
    split <;> omega
  have hdata : (b.buffer.drop b.readPosition).take len = b.tape.readable.take len := by
    rw [tape, hrotate, List.take_take, Nat.min_eq_left hfits.2.1,
      List.take_append_of_le_length (by rw [List.length_drop]; omega)]
  refine ⟨_, readAt_of_le (by omega), ?_, ?_⟩
  · rw [hdata]
    exact List.take_prefix _ _
  · intro hnil
    rw [hdata, List.take_eq_nil_iff] at hnil
    rcases hnil with hzero | hnil
    · exact List.length_eq_zero_iff.mp (h.length_readable.trans (hfits.2.2 hzero))
    · exact hnil

end Valid

end FifoBuffer

end LibMsf
