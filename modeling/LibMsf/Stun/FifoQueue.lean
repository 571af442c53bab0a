import LibMsf.Library.Run
import LibMsf.Stun.FifoTape

/-!
Whole runs of the circular buffer against its tape.

The tape says what the buffer is for: a queue of bytes with room behind it, where the bytes of
the room can be set before they are queued. Every run whose calls keep to the sizes they were
told refines it, whatever wraps on the way. `GetWriteBuffer` hands out the free cells that
follow the last queued byte; on an empty buffer it first goes back to the start of the block,
and what was written ahead is then no longer where it was written.
-/

namespace LibMsf

open Cxx

namespace FifoBuffer

/-- What a caller does with the block of `GetWriteBuffer`: it stores at most as many bytes as
the block has. -/
def fillWriteBuffer (b : FifoBuffer) (data : Bytes) : Except Fault (FifoBuffer × Nat) := do
  let r ← b.getWriteBuffer
  match r.2 with
  | none => return (r.1, 0)
  | some (position, size) =>
      let buffer ← writeAt r.1.buffer position (data.take size)
      return ({ r.1 with buffer := buffer }, (data.take size).length)

end FifoBuffer

inductive FifoOp where
  | setCapacity (size : Nat) (fresh : Nat → UInt8)
  | readOffset (bytes offset : Nat)
  | writeOffset (data : Bytes) (offset : Nat)
  | read (bytes : Nat)
  | write (data : Bytes)
  | close
  | getReadData
  | consumeReadData (size : Nat)
  | fillWriteBuffer (data : Bytes)
  | consumeWriteBuffer (size : Nat)
  | getBuffered
  | getWriteRemaining

inductive FifoReply where
  | done
  | accepted (answer : Bool)
  | count (n : Nat)
  | block (data : Bytes)
  | read (result : StreamResult) (data : Bytes)
  | written (result : StreamResult) (n : Nat)
  deriving DecidableEq

namespace FifoBuffer

def step (b : FifoBuffer) : FifoOp → Except Fault (FifoBuffer × FifoReply)
  | .setCapacity size fresh => do
      let r ← b.setCapacity fresh size
      return (r.1, .accepted r.2)
  | .readOffset bytes offset => do
      let r ← b.readOffset bytes offset
      return (b, .read r.1 r.2)
  | .writeOffset data offset => do
      let r ← b.writeOffset data offset
      return (r.1, .written r.2.1 r.2.2)
  | .read bytes => do
      let r ← b.read bytes
      return (r.1, .read r.2.1 r.2.2)
  | .write data => do
      let r ← b.write data
      return (r.1, .written r.2.1 r.2.2)
  | .close => .ok (b.close, .done)
  | .getReadData => do
      let data ← b.getReadData
      return (b, .block data)
  | .consumeReadData size => do
      let b' ← b.consumeReadData size
      return (b', .done)
  | .fillWriteBuffer data => do
      let r ← b.fillWriteBuffer data
      return (r.1, .count r.2)
  | .consumeWriteBuffer size => do
      let b' ← b.consumeWriteBuffer size
      return (b', .done)
  | .getBuffered => .ok (b, .count b.getBuffered)
  | .getWriteRemaining => .ok (b, .count b.getWriteRemaining)

/-- The sizes and distances that the calls may be given. -/
def Allowed (b : FifoBuffer) : FifoOp → Prop
  | .setCapacity size _ => 0 < size ∧ size < 2 ^ 63
  | .writeOffset _ offset => offset < 2 ^ 63
  | .consumeReadData size => size ≤ b.getBuffered
  | .consumeWriteBuffer size => size ≤ b.getWriteRemaining
  | _ => True

instance (b : FifoBuffer) (op : FifoOp) : Decidable (b.Allowed op) := by
  cases op <;> unfold Allowed <;> infer_instance

namespace Tape

/-- The queue of bytes with room behind it. -/
inductive Step : Tape → FifoOp → FifoReply → Tape → Prop where
  | setCapacity {t : Tape} {size : Nat} {fresh : Nat → UInt8} {ahead : Bytes}
      (h : t.readable.length ≤ size) (hroom : t.readable.length + ahead.length = size) :
      Step t (.setCapacity size fresh) (.accepted true) { t with ahead := ahead }
  | setCapacityRefused {t : Tape} {size : Nat} {fresh : Nat → UInt8}
      (h : size < t.readable.length) : Step t (.setCapacity size fresh) (.accepted false) t
  | readOffset {t : Tape} {bytes offset : Nat} :
      Step t (.readOffset bytes offset)
        (.read (t.readResult offset) ((t.readable.drop offset).take bytes)) t
  | writeOffset {t : Tape} {data : Bytes} {offset : Nat} (h : t.closed = false) :
      Step t (.writeOffset data offset)
        (.written (t.writeResult offset) (t.fitting offset data).length)
        (t.store offset (t.fitting offset data))
  | writeOffsetClosed {t : Tape} {data : Bytes} {offset : Nat} (h : t.closed = true) :
      Step t (.writeOffset data offset) (.written .eos 0) t
  | read {t : Tape} {bytes : Nat} :
      Step t (.read bytes) (.read (t.readResult 0) (t.readable.take bytes)) (t.drop bytes)
  | write {t : Tape} {data : Bytes} (h : t.closed = false) :
      Step t (.write data) (.written (t.writeResult 0) (t.fitting 0 data).length)
        { t with
          readable := t.readable ++ t.fitting 0 data
          ahead := t.ahead.drop (t.fitting 0 data).length }
  | writeClosed {t : Tape} {data : Bytes} (h : t.closed = true) :
      Step t (.write data) (.written .eos 0) t
  | close {t : Tape} : Step t .close .done { t with closed := true }
  | getReadData {t : Tape} {data : Bytes} (h : data <+: t.readable)
      (hall : data = [] → t.readable = []) : Step t .getReadData (.block data) t
  | consumeReadData {t : Tape} {size : Nat} (h : size ≤ t.readable.length) :
      Step t (.consumeReadData size) .done (t.drop size)
  | fillWriteBuffer {t : Tape} {data : Bytes} {n : Nat} {ahead : Bytes} (h : t.closed = false)
      (hsome : data ≠ [] → t.ahead ≠ [] → 0 < n) (hn : n ≤ min data.length t.ahead.length)
      (hahead : t.readable ≠ [] → ahead = t.ahead) (hperm : ahead.Perm t.ahead) :
      Step t (.fillWriteBuffer data) (.count n)
        (Tape.store { t with ahead := ahead } 0 (data.take n))
  | fillWriteBufferClosed {t : Tape} {data : Bytes} (h : t.closed = true) :
      Step t (.fillWriteBuffer data) (.count 0) t
  | consumeWriteBuffer {t : Tape} {size : Nat} (h : size ≤ t.ahead.length) :
      Step t (.consumeWriteBuffer size) .done (t.advance size)
  | getBuffered {t : Tape} : Step t .getBuffered (.count t.readable.length) t
  | getWriteRemaining {t : Tape} : Step t .getWriteRemaining (.count t.ahead.length) t

end Tape

variable {b : FifoBuffer}

namespace Valid

/-- An empty buffer goes back to the start of its block, so that the free cells are met in
another order. -/
theorem rewound (h : b.Valid) :
    let b' : FifoBuffer := if b.dataLength = 0 then { b with readPosition := 0 } else b
    b'.Valid ∧ b'.tape.readable = b.tape.readable ∧ b'.tape.closed = b.tape.closed ∧
      (b.tape.readable ≠ [] → b'.tape.ahead = b.tape.ahead) ∧
      b'.tape.ahead.Perm b.tape.ahead := by
  intro b'
  by_cases hempty : b.dataLength = 0
  · have hb' : b' = { b with readPosition := 0 } := if_pos hempty
    rw [hb']
    refine ⟨⟨h.length_buffer, h.dataLength_le, h.bufferLength_pos, h.bufferLength_lt⟩,
      ?_, rfl, ?_, ?_⟩
    · simp [tape, hempty]
    · simp [tape, hempty]
    · simp only [tape, cells, hempty, List.rotate_zero, List.drop_zero]
      exact (List.rotate_perm b.buffer b.readPosition).symm
  · have hb' : b' = b := if_neg hempty
    rw [hb']
    exact ⟨h, rfl, rfl, fun _ => rfl, .refl _⟩

/-- The free cells up to the end of the block or up to the first byte that is queued. -/
theorem freeBlock (h : b.Valid) :
    let position := (b.readPosition + b.dataLength) % b.bufferLength
    let size := if b.readPosition < position ∨ b.dataLength = 0 then b.bufferLength - position
      else b.readPosition - position
    position + size ≤ b.bufferLength ∧ size ≤ b.bufferLength - b.dataLength ∧
      (b.dataLength < b.bufferLength → 0 < size) := by
  have hle := h.dataLength_le
  have hlt := h.readPosition_lt
  intro position size
  by_cases hfull : b.dataLength = b.bufferLength
  · have hposition : position = b.readPosition := by
      simp only [position, hfull, Nat.add_mod_right, Nat.mod_eq_of_lt hlt]
    simp only [size, hposition]
    split <;> omega
  · have hposition := Rotation.mod_cases hlt (show b.dataLength < b.bufferLength by omega)
    change position = _ at hposition
    simp only [size]
    split at hposition <;> split <;> omega

theorem fillWriteBuffer_eq (h : b.Valid) (data : Bytes) (hopen : b.tape.closed = false) :
    ∃ b' n ahead, b.fillWriteBuffer data = .ok (b', n) ∧ b'.Valid ∧
      (data ≠ [] → b.tape.ahead ≠ [] → 0 < n) ∧ n ≤ min data.length b.tape.ahead.length ∧
      (b.tape.readable ≠ [] → ahead = b.tape.ahead) ∧ ahead.Perm b.tape.ahead ∧
      b'.tape = Tape.store ⟨b.tape.readable, ahead, false⟩ 0 (data.take n) := by
  obtain ⟨hvalid, hreadable, hclosed, hahead, hperm⟩ := h.rewound
  obtain ⟨hfits, hroom, hpos⟩ := hvalid.freeBlock
  generalize hb₁ : (if b.dataLength = 0 then { b with readPosition := 0 } else b) = b₁ at *
  generalize hposition : (b₁.readPosition + b₁.dataLength) % b₁.bufferLength = position at *
  generalize hsize : (if b₁.readPosition < position ∨ b₁.dataLength = 0
    then b₁.bufferLength - position else b₁.readPosition - position) = size at *
  have hget : b.getWriteBuffer = .ok (b₁, some (position, size)) := by
    rw [getWriteBuffer, if_neg (of_decide_eq_false hopen), hb₁]
    simp only [remainder_of_pos hvalid.bufferLength_pos, ok_bind, hposition, hsize, pure_eq_ok]
  have hroom' := hroom
  rw [← hvalid.length_ahead] at hroom'
  have hlength : (data.take size).length ≤ size := List.length_take_le size data
  have hstored : ∃ buffer, writeAt b₁.buffer position (data.take size) = .ok buffer ∧
      ({ b₁ with buffer := buffer } : FifoBuffer).Valid ∧
      ({ b₁ with buffer := buffer } : FifoBuffer).tape = b₁.tape.store 0 (data.take size) := by
    by_cases hfull : b₁.dataLength < b₁.bufferLength
    · obtain ⟨first, second, hfirst, hsecond, hvalid', htape'⟩ :=
        hvalid.writeAt_pieces 0 (data.take size) hfull (by omega)
      rw [Nat.add_zero, hposition, Nat.min_eq_left (by omega), List.take_length] at hfirst
      rw [Nat.add_zero, hposition, Nat.min_eq_left (by omega), List.drop_length,
        writeAt_of_le (Nat.zero_le _), overwrite_nil] at hsecond
      cases hsecond
      exact ⟨first, hfirst, hvalid', htape'⟩
    · have hnone : size = 0 := by omega
      rw [hnone, List.take_zero, Tape.store_nil]
      have hfit : position + ([] : Bytes).length ≤ b₁.buffer.length := by
        rw [hvalid.length_buffer, List.length_nil]
        omega
      exact ⟨b₁.buffer, by rw [writeAt_of_le hfit, overwrite_nil], hvalid, rfl⟩
  obtain ⟨buffer, hwrite, hvalid', htape'⟩ := hstored
  rw [hperm.length_eq] at hroom'
  refine ⟨_, (data.take size).length, b₁.tape.ahead, ?_, hvalid', ?_, ?_, hahead, hperm, ?_⟩
  · rw [fillWriteBuffer, hget, ok_bind]
    simp only [hwrite, ok_bind, pure_eq_ok]
  · intro hdata hne
    have hlt : b₁.dataLength < b₁.bufferLength := by
      have hpos' : 0 < b.tape.ahead.length := List.length_pos_iff.mpr hne
      rw [← hperm.length_eq, hvalid.length_ahead] at hpos'
      omega
    have hsome := hpos hlt
    have hdata' : 0 < data.length := List.length_pos_iff.mpr hdata
    rw [List.length_take]
    omega
  · rw [List.length_take]
    omega
  · rw [htape', ← hreadable, ← hopen, ← hclosed, List.length_take, ← List.take_eq_take_min]

end Valid

theorem step_refines (h : b.Valid) (op : FifoOp) (hallowed : b.Allowed op) :
    ∃ b' reply t', b.step op = .ok (b', reply) ∧ b.tape.Step op reply t' ∧
      b'.Valid ∧ b'.tape = t' := by
  cases op with
  | setCapacity size fresh =>
      obtain ⟨b', hset, hvalid, hcap, hsame, hreadable, hclosed⟩ :=
        h.setCapacity_eq fresh hallowed.1 hallowed.2
      refine ⟨b', _, b'.tape, by rw [step, hset, ok_bind, pure_eq_ok], ?_, hvalid, rfl⟩
      by_cases hfits : b.tape.readable.length ≤ size
      · have htape : b'.tape = ⟨b.tape.readable, b'.tape.ahead, b.tape.closed⟩ := by
          rw [← hreadable, ← hclosed]
        have hle := hvalid.dataLength_le
        have hlength := hvalid.length_readable
        rw [if_pos hfits] at hcap
        rw [decide_eq_true hfits, htape]
        refine .setCapacity hfits ?_
        rw [hvalid.length_ahead, ← hreadable]
        omega
      · rw [decide_eq_false hfits, hsame hfits]
        exact .setCapacityRefused (by omega)
  | readOffset bytes offset =>
      refine ⟨b, _, b.tape, ?_, .readOffset, h, rfl⟩
      rw [step, readOffset, h.readOffsetLocked_eq, ok_bind, pure_eq_ok]
  | writeOffset data offset =>
      obtain ⟨b', hwrite, hvalid, -, -, htape⟩ := h.writeOffsetLocked_eq data hallowed
      rw [step, writeOffset, hwrite, ok_bind, pure_eq_ok, Tape.written]
      by_cases hclosed : b.tape.closed
      · rw [if_pos hclosed] at htape ⊢
        rw [Tape.writeResult, if_pos hclosed]
        exact ⟨b', _, b.tape, rfl, .writeOffsetClosed hclosed, hvalid, htape⟩
      · rw [if_neg hclosed] at htape ⊢
        exact ⟨b', _, _, rfl, .writeOffset (Bool.not_eq_true _ ▸ hclosed), hvalid, htape⟩
  | read bytes =>
      obtain ⟨b', hread, hvalid, -, htape⟩ := h.read_eq bytes
      exact ⟨b', _, _, by rw [step, hread, ok_bind, pure_eq_ok], .read, hvalid, htape⟩
  | write data =>
      obtain ⟨b', hwrite, hvalid, -, htape⟩ := h.write_eq data
      rw [step, hwrite, ok_bind, pure_eq_ok, Tape.written]
      by_cases hclosed : b.tape.closed
      · rw [if_pos hclosed] at htape ⊢
        rw [Tape.writeResult, if_pos hclosed]
        exact ⟨b', _, b.tape, rfl, .writeClosed hclosed, hvalid, htape⟩
      · rw [if_neg hclosed] at htape ⊢
        rw [Tape.advance_store] at htape
        exact ⟨b', _, _, rfl, .write (Bool.not_eq_true _ ▸ hclosed), hvalid, htape⟩
  | close =>
      refine ⟨_, _, _, rfl, .close, ⟨h.length_buffer, h.dataLength_le, h.readPosition_lt,
        h.bufferLength_lt⟩, ?_⟩
      simp [tape, cells, FifoBuffer.close]
  | getReadData =>
      obtain ⟨data, hget, hprefix, hall⟩ := h.getReadData_eq
      exact ⟨b, _, _, by rw [step, hget, ok_bind, pure_eq_ok], .getReadData hprefix hall, h, rfl⟩
  | consumeReadData size =>
      change size ≤ b.getBuffered at hallowed
      rw [h.getBuffered_eq] at hallowed
      obtain ⟨b', hconsume, hvalid, -, htape⟩ := h.consumeReadData_eq hallowed
      exact ⟨b', _, _, by rw [step, hconsume, ok_bind, pure_eq_ok], .consumeReadData hallowed,
        hvalid, htape⟩
  | fillWriteBuffer data =>
      cases hclosed : b.tape.closed with
      | true =>
          refine ⟨b, _, b.tape, ?_, .fillWriteBufferClosed hclosed, h, rfl⟩
          rw [step, fillWriteBuffer, getWriteBuffer, if_pos (of_decide_eq_true hclosed), ok_bind]
          simp only [pure_eq_ok, ok_bind]
      | false =>
          obtain ⟨b', n, ahead, hfill, hvalid, hsome, hn, hahead, hperm, htape⟩ :=
            h.fillWriteBuffer_eq data hclosed
          rw [← hclosed] at htape
          exact ⟨b', _, _, by rw [step, hfill, ok_bind, pure_eq_ok],
            .fillWriteBuffer hclosed hsome hn hahead hperm, hvalid, htape⟩
  | consumeWriteBuffer size =>
      change size ≤ b.getWriteRemaining at hallowed
      rw [h.getWriteRemaining_eq] at hallowed
      obtain ⟨b', hconsume, hvalid, -, htape⟩ := h.consumeWriteBuffer_eq hallowed
      exact ⟨b', _, _, by rw [step, hconsume, ok_bind, pure_eq_ok], .consumeWriteBuffer hallowed,
        hvalid, htape⟩
  | getBuffered => exact ⟨b, _, b.tape, rfl, h.getBuffered_eq ▸ .getBuffered, h, rfl⟩
  | getWriteRemaining =>
      exact ⟨b, _, b.tape, rfl, h.getWriteRemaining_eq ▸ .getWriteRemaining, h, rfl⟩

/-- Every run whose calls keep to their sizes is a run of the queue, and no access of it leaves
the block. -/
theorem run_refines_tape (fresh : Nat → UInt8) (size : Nat) (hpos : 0 < size)
    (hlt : size < 2 ^ 63) (ops : List FifoOp)
    (hallowed : Run.Guarded step Allowed (create fresh size) ops) :
    ∃ b' replies, Run.execute step (create fresh size) ops = .ok (b', replies) ∧ b'.Valid ∧
      Run.Steps Tape.Step (create fresh size).tape ops replies b'.tape := by
  have hsimulates : ∀ (b : FifoBuffer) t op, (b.Valid ∧ b.tape = t) → b.Allowed op →
      ∃ b' reply t', b.step op = .ok (b', reply) ∧ t.Step op reply t' ∧
        b'.Valid ∧ b'.tape = t' := by
    rintro b _ op ⟨hvalid, rfl⟩ hop
    exact step_refines hvalid op hop
  obtain ⟨b', replies, t', hrun, hsteps, hvalid, rfl⟩ :=
    Run.execute_refines_guarded (R := fun b t => b.Valid ∧ b.tape = t) hsimulates ops
      (create fresh size) (create fresh size).tape ⟨valid_create fresh hpos hlt, rfl⟩ hallowed
  exact ⟨b', replies, hrun, hvalid, hsteps⟩

/-- A byte is written ahead, across the end of the block, before the one in front of it. -/
theorem run_refines_tape_ahead :
    ∃ b' replies, Run.execute step (create UInt8.ofNat 3)
        [.consumeWriteBuffer 1, .write [2], .read 2, .writeOffset [4] 1, .write [3], .read 3] =
          .ok (b', replies) ∧ b'.Valid ∧
      Run.Steps Tape.Step (create UInt8.ofNat 3).tape
        [.consumeWriteBuffer 1, .write [2], .read 2, .writeOffset [4] 1, .write [3], .read 3]
        replies b'.tape := by
  refine run_refines_tape UInt8.ofNat 3 (by decide) (by decide) _ ⟨by decide, fun _ _ _ => ?_⟩
  refine ⟨trivial, fun _ _ _ => ⟨trivial, fun _ _ _ => ⟨?_, fun _ _ _ => ?_⟩⟩⟩
  · exact (show 1 < 2 ^ 63 by decide)
  · exact ⟨trivial, fun _ _ _ => ⟨trivial, fun _ _ _ => trivial⟩⟩

end FifoBuffer

end LibMsf
