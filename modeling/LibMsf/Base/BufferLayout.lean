import LibMsf.Base.Buffer
import LibMsf.Library.Ring

/-!
The layout of the ring buffer and the operations on its two indices.

`Represents` relates a concrete buffer, wrapped or not, to the queue of bytes it
holds. Each operation has one lemma that says it returns without a fault and what
it does to the queue. Growth and the transfers to and from a descriptor are built
on these in `BufferFifo`.
-/

namespace LibMsf

open Cxx

namespace Buffer

variable {b : Buffer} {q : Bytes} {len : Nat}

structure Represents (b : Buffer) (q : Bytes) : Prop where
  size : b.buffer.length = b.capacity
  bounded : b.capacity < 2 ^ 63
  reader_lt : b.readerIndex < b.capacity
  length_lt : q.length < b.capacity
  writer_eq : b.writerIndex = Ring.index b.capacity b.readerIndex q.length
  cells : Ring.Window b.buffer b.readerIndex q

theorem Represents.writer_lt (h : b.Represents q) : b.writerIndex < b.capacity := by
  rw [h.writer_eq]
  exact Ring.index_lt h.reader_lt (Nat.le_of_lt h.length_lt)

/-- The writer is behind the reader by the queue length, or has wrapped. -/
theorem Represents.writer_cases (h : b.Represents q) :
    (b.readerIndex + q.length < b.capacity ∧
        b.writerIndex = b.readerIndex + q.length) ∨
      (b.capacity ≤ b.readerIndex + q.length ∧
        b.writerIndex = b.readerIndex + q.length - b.capacity) := by
  have hw := h.writer_eq
  unfold Ring.index at hw
  split at hw
  · exact .inl ⟨‹_›, hw⟩
  · exact .inr ⟨by omega, hw⟩

theorem Represents.readableBytes_eq (h : b.Represents q) : b.readableBytes = q.length := by
  have hcap := h.bounded
  have hr := h.reader_lt
  have hq := h.length_lt
  simp only [readableBytes]
  rcases h.writer_cases with ⟨hfit, hw⟩ | ⟨hwrap, hw⟩
  · have hdiff : sizeSub b.writerIndex b.readerIndex = q.length := by
      rw [sizeSub_of_le (by omega) (by omega)]
      omega
    rw [hdiff, if_neg (by omega)]
  · have hdiff : sizeSub b.writerIndex b.readerIndex = 2 ^ 64 - (b.capacity - q.length) := by
      rw [sizeSub_of_lt (by omega) (by omega)]
      omega
    rw [hdiff, if_pos (by omega), sizeAdd]
    omega

theorem Represents.writeableBytes_eq (h : b.Represents q) :
    b.writeableBytes = b.capacity - 1 - q.length := by
  have hcap := h.bounded
  have hq := h.length_lt
  have htop : sizeSub b.capacity 1 = b.capacity - 1 := sizeSub_of_le (by omega) (by omega)
  rw [writeableBytes, h.readableBytes_eq, htop, sizeSub_of_le (by omega) (by omega)]

theorem new_represents {n : Nat} (hn : 1 ≤ n) (hb : n < 2 ^ 63) :
    ∃ b, new n = .ok b ∧ b.Represents [] := by
  let b : Buffer := ⟨List.replicate n 0, n, 0, 0⟩
  have h : b.Represents [] :=
    { size := List.length_replicate
      bounded := hb
      reader_lt := hn
      length_lt := hn
      writer_eq := (Ring.index_zero hn).symm
      cells := Ring.window_nil _ _ }
  refine ⟨b, ?_, h⟩
  have hread : b.readableBytes = 0 := h.readableBytes_eq
  have hwrite : b.writeableBytes = sizeSub n 1 := by
    rw [h.writeableBytes_eq, sizeSub_of_le hn (by omega)]
    rfl
  change (assertThat (b.readableBytes = 0) >>= fun _ =>
    assertThat (b.writeableBytes = sizeSub n 1) >>= fun _ => pure b) = .ok b
  rw [assertThat_of hread, assertThat_of hwrite]
  rfl

theorem retrieveAll_represents (h : b.Represents q) : b.retrieveAll.Represents [] := by
  have hpos : 0 < b.capacity := Nat.lt_of_le_of_lt (Nat.zero_le _) h.reader_lt
  exact
    { size := h.size
      bounded := h.bounded
      reader_lt := hpos
      length_lt := hpos
      writer_eq := (Ring.index_zero hpos).symm
      cells := Ring.window_nil _ _ }

theorem Represents.advanceReader (h : b.Represents q) (hlen : len ≤ q.length) :
    { b with readerIndex := Ring.index b.capacity b.readerIndex len }.Represents
      (q.drop len) := by
  have hq := h.length_lt
  refine
    { size := h.size
      bounded := h.bounded
      reader_lt := Ring.index_lt h.reader_lt (by omega)
      length_lt := by rw [List.length_drop]; exact Nat.lt_of_le_of_lt (Nat.sub_le _ _) hq
      writer_eq := ?_
      cells := ?_ }
  · rw [List.length_drop, Ring.index_index h.reader_lt (by omega), h.writer_eq]
    congr 1
    omega
  · have hcells := h.cells
    have hw := Ring.window_drop hcells hlen (by rw [h.size]; exact h.reader_lt)
      (by rw [h.size]; omega)
    rwa [h.size] at hw

theorem retrieve_of_le (h : b.Represents q) (hlen : len ≤ q.length) :
    b.retrieve len =
      ({ b with readerIndex := Ring.index b.capacity b.readerIndex len }, some len) := by
  have hcap := h.bounded
  have hr := h.reader_lt
  have hq := h.length_lt
  have hsum : sizeAdd b.readerIndex len = b.readerIndex + len := sizeAdd_of_lt (by omega)
  rw [retrieve, if_neg (by rw [h.readableBytes_eq]; omega)]
  simp only [hsum, Ring.index]
  by_cases hwrap : b.readerIndex + len < b.capacity
  · rw [if_neg (by omega), if_pos hwrap]
  · rw [if_pos (by omega), if_neg hwrap, sizeSub_of_le (by omega) (by omega)]

theorem retrieve_of_lt (h : b.Represents q) (hlen : q.length < len) :
    b.retrieve len = (b, none) := by
  rw [retrieve, if_pos (by rw [h.readableBytes_eq]; exact hlen)]

theorem copyOut_eq (h : b.Represents q) (hlen : len ≤ q.length) :
    b.copyOut len = .ok (q.take len) := by
  have hcap := h.bounded
  have hr := h.reader_lt
  have hq := h.length_lt
  have hsize := h.size
  have hsum : sizeAdd b.readerIndex len = b.readerIndex + len := sizeAdd_of_lt (by omega)
  unfold copyOut
  simp only [hsum]
  by_cases hwrap : b.readerIndex + len < b.capacity
  · rw [if_pos hwrap, readAt_of_le (by omega), Ring.window_slice h.cells hlen (by omega)]
  · have hslice := Ring.window_slice_wrapped h.cells hlen (by omega) (by omega) (by omega)
    rw [hsize] at hslice
    rw [if_neg hwrap, sizeSub_of_le (by omega) (by omega), sizeSub_of_le (by omega) (by omega),
      readAt_of_le (by omega), readAt_of_le (by omega)]
    simp only [ok_bind, pure_eq_ok, List.drop_zero]
    rw [← hslice, List.take_of_length_le (by rw [List.length_drop]; omega)]

theorem receive_of_le (h : b.Represents q) (hlen : len ≤ q.length) :
    b.receive len = .ok (some (q.take len)) := by
  rw [receive, if_neg (by rw [h.readableBytes_eq]; omega), copyOut_eq h hlen]
  rfl

theorem receive_of_lt (h : b.Represents q) (hlen : q.length < len) : b.receive len = .ok none := by
  rw [receive, if_pos (by rw [h.readableBytes_eq]; exact hlen)]
  rfl

theorem remove_of_le (h : b.Represents q) (hlen : len ≤ q.length) :
    b.remove len = .ok
      ({ b with readerIndex := Ring.index b.capacity b.readerIndex len },
        some (q.take len)) := by
  have hcap := h.bounded
  have hr := h.reader_lt
  have hq := h.length_lt
  have hsum : sizeAdd b.readerIndex len = b.readerIndex + len := sizeAdd_of_lt (by omega)
  rw [remove, if_neg (by rw [h.readableBytes_eq]; omega), copyOut_eq h hlen]
  simp only [ok_bind, hsum, Ring.index]
  by_cases hwrap : b.readerIndex + len < b.capacity
  · rw [if_pos hwrap, if_pos hwrap]
    rfl
  · rw [if_neg hwrap, if_neg hwrap, sizeSub_of_le (by omega) (by omega)]
    rfl

theorem remove_of_lt (h : b.Represents q) (hlen : q.length < len) :
    b.remove len = .ok (b, none) := by
  rw [remove, if_pos (by rw [h.readableBytes_eq]; exact hlen)]
  rfl

theorem advanceWriter_eq {n len : Nat} (hcap : b.capacity < 2 ^ 63)
    (hr : b.readerIndex < b.capacity) (hw : b.writerIndex = Ring.index b.capacity b.readerIndex n)
    (hroom : n + len < b.capacity) :
    b.advanceWriter len =
      .ok { b with writerIndex := Ring.index b.capacity b.readerIndex (n + len) } := by
  have hsum : sizeAdd b.writerIndex len = b.writerIndex + len := by
    apply sizeAdd_of_lt
    have := Ring.index_lt (i := n) hr (by omega)
    omega
  have hnext : Ring.index b.capacity b.readerIndex (n + len) =
      if b.writerIndex + len < b.capacity then b.writerIndex + len
      else b.writerIndex + len - b.capacity := by
    rw [← Ring.index_index hr (by omega), ← hw, Ring.index]
  unfold advanceWriter
  simp only [hsum, hnext]
  by_cases hwrap : b.writerIndex + len < b.capacity
  · rw [if_pos hwrap, if_pos hwrap]
    rfl
  · have hback : b.writerIndex + len - b.capacity < b.readerIndex := by
      unfold Ring.index at hw
      split at hw <;> omega
    rw [if_neg hwrap, if_neg hwrap, sizeSub_of_le (by omega) (by omega), assertThat_of hback]
    rfl

/-- Bytes in place behind the queue become part of it once the writer moves. -/
theorem Represents.extend {q data cells : Bytes} (h : b.Represents q)
    (hsize : cells.length = b.capacity) (hroom : q.length + data.length < b.capacity)
    (hcells : Ring.Window cells b.readerIndex (q ++ data)) :
    ∃ b', { b with buffer := cells }.advanceWriter data.length = .ok b' ∧
      b'.Represents (q ++ data) ∧ b'.capacity = b.capacity := by
  refine ⟨{ b with
      buffer := cells
      writerIndex := Ring.index b.capacity b.readerIndex (q.length + data.length) },
    advanceWriter_eq h.bounded h.reader_lt h.writer_eq hroom, ?_, rfl⟩
  exact
    { size := hsize
      bounded := h.bounded
      reader_lt := h.reader_lt
      length_lt := by rw [List.length_append]; exact hroom
      writer_eq := by rw [List.length_append]
      cells := hcells }

theorem Represents.writeAt_writer (h : b.Represents q) (data : Bytes)
    (hroom : q.length + data.length < b.capacity) (hfit : b.writerIndex + data.length ≤ b.capacity)
    :
    ∃ cells, writeAt b.buffer b.writerIndex data = .ok cells ∧
      cells.length = b.capacity ∧ Ring.Window cells b.readerIndex (q ++ data) := by
  have hsize := h.size
  have hfit' : b.writerIndex + data.length ≤ b.buffer.length := by omega
  refine ⟨overwrite b.buffer b.writerIndex data, writeAt_of_le hfit', ?_, ?_⟩
  · rw [length_overwrite hfit', hsize]
  · apply Ring.window_write h.cells (by omega) _ hfit'
    rw [hsize, h.writer_eq]

/-- A write that reaches the end of the block goes on at cell 0. -/
theorem Represents.writeAt_wrapped (h : b.Represents q) (first second : Bytes)
    (hroom : q.length + (first.length + second.length) < b.capacity)
    (hfit : b.writerIndex + first.length ≤ b.capacity)
    (hend : second ≠ [] → b.writerIndex + first.length = b.capacity) :
    ∃ middle cells, writeAt b.buffer b.writerIndex first = .ok middle ∧
      writeAt middle 0 second = .ok cells ∧
      cells.length = b.capacity ∧ Ring.Window cells b.readerIndex (q ++ (first ++ second)) := by
  obtain ⟨middle, hwrite, hsize, hwindow⟩ := h.writeAt_writer first (by omega) hfit
  have hfit' : 0 + second.length ≤ middle.length := by omega
  refine ⟨middle, overwrite middle 0 second, hwrite, writeAt_of_le hfit', ?_, ?_⟩
  · rw [length_overwrite hfit', hsize]
  · by_cases hsecond : second = []
    · simpa [hsecond] using hwindow
    · rw [← List.append_assoc]
      apply Ring.window_write hwindow _ _ hfit'
      · rw [List.length_append]
        omega
      · rw [hsize, List.length_append, ← Ring.index_index h.reader_lt (by omega), ← h.writer_eq,
          Ring.index, if_neg (by have := hend hsecond; omega), hend hsecond, Nat.sub_self]

theorem doAppend_represents {q data : Bytes} (h : b.Represents q)
    (hroom : q.length + data.length < b.capacity) :
    ∃ b', b.doAppend data = .ok b' ∧ b'.Represents (q ++ data) := by
  have hcap := h.bounded
  have hw := h.writer_lt
  have hsum : sizeAdd b.writerIndex data.length = b.writerIndex + data.length :=
    sizeAdd_of_lt (by omega)
  have hassert : data.length ≤ b.writeableBytes := by
    rw [h.writeableBytes_eq]
    omega
  unfold doAppend
  simp only [assertThat_of hassert, ok_bind, hsum]
  by_cases hwrap : b.writerIndex + data.length < b.capacity
  · obtain ⟨cells, hwrite, hsize, hwindow⟩ := h.writeAt_writer data hroom (by omega)
    obtain ⟨b', hb', hrep, _⟩ := h.extend hsize hroom hwindow
    refine ⟨b', ?_, hrep⟩
    rw [if_pos hwrap, hwrite]
    exact hb'
  · have hsplit := List.take_append_drop (b.capacity - b.writerIndex) data
    have hfirst : (data.take (b.capacity - b.writerIndex)).length =
        b.capacity - b.writerIndex := by
      rw [List.length_take]
      omega
    have hsecond : (data.drop (b.capacity - b.writerIndex)).length =
        data.length - (b.capacity - b.writerIndex) := List.length_drop
    obtain ⟨middle, cells, hwrite, hwrite', hsize, hwindow⟩ :=
      h.writeAt_wrapped (data.take (b.capacity - b.writerIndex))
        (data.drop (b.capacity - b.writerIndex)) (by omega) (by omega) (fun _ => by omega)
    rw [hsplit] at hwindow
    obtain ⟨b', hb', hrep, _⟩ := h.extend hsize hroom hwindow
    refine ⟨b', ?_, hrep⟩
    rw [if_neg hwrap, sizeSub_of_le (by omega) (by omega), hwrite]
    simp only [ok_bind]
    rw [hwrite']
    exact hb'

end Buffer

end LibMsf
