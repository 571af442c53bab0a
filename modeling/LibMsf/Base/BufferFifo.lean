import LibMsf.Base.BufferLayout

/-!
Growth of the ring buffer and its transfers from and to a descriptor.

Growth while wrapped and the iovec layouts of `ReadFd` and `WriteFd` are brought
back to the layout lemmas: each of these operations returns without a fault, and
its effect on the queue is stated without the indices.
-/

namespace LibMsf

open Cxx

namespace Buffer

variable {b : Buffer} {q : Bytes}

/-- The queue of a wrapped buffer is its tail followed by its head. -/
theorem Represents.unroll (h : b.Represents q) (hwrap : b.capacity ≤ b.readerIndex + q.length)
    (hw : b.writerIndex = b.readerIndex + q.length - b.capacity) :
    b.buffer.drop b.readerIndex ++ b.buffer.take b.writerIndex = q := by
  have hr := h.reader_lt
  have hq := h.length_lt
  have hsize := h.size
  have hslice := Ring.window_slice_wrapped h.cells (Nat.le_refl _) (by omega) (by omega) (by omega)
  rwa [hsize, ← hw, List.take_length] at hslice

/-- A queue that does not wrap stays where it is when cells are added behind the last one. -/
theorem Represents.resized (h : b.Represents q) {capacity : Nat}
    (hfit : b.readerIndex + q.length < b.capacity) (hle : b.capacity ≤ capacity)
    (hbounded : capacity < 2 ^ 63) :
    Represents { b with capacity := capacity, buffer := resize b.buffer capacity } q := by
  have hsize := h.size
  have hw := h.writer_eq
  rw [Ring.index, if_pos hfit] at hw
  have hresize : resize b.buffer capacity =
      b.buffer ++ List.replicate (capacity - b.buffer.length) default :=
    resize_of_le (by omega)
  refine ⟨?_, hbounded, Nat.lt_of_lt_of_le h.reader_lt hle, Nat.lt_of_lt_of_le h.length_lt hle,
    ?_, ?_⟩
  · simp only [hresize, List.length_append, List.length_replicate]
    omega
  · rw [Ring.index, if_pos (by simp only; omega)]
    exact hw
  · simp only [hresize]
    exact Ring.window_grow h.cells (by omega) _

theorem represents_front (q : Bytes) {spare : Nat} (hbounded : q.length + spare + 1 < 2 ^ 63) :
    Represents ⟨q ++ List.replicate (spare + 1) 0, q.length + spare + 1, 0, q.length⟩ q := by
  refine ⟨?_, hbounded, Nat.succ_pos _, by simp only; omega, ?_, Ring.window_of_front q _⟩
  · simp only [List.length_append, List.length_replicate, Nat.add_assoc]
  · rw [Ring.index, if_pos (by simp only; omega), Nat.zero_add]

theorem write_parts (tail head : Bytes) (spare : Nat) :
    ∃ cells, writeAt (resize [] ((tail ++ head).length + spare)) 0 tail = .ok cells ∧
      writeAt cells tail.length head = .ok (tail ++ head ++ List.replicate spare 0) := by
  have hfresh : resize ([] : Bytes) ((tail ++ head).length + spare) =
      List.replicate (tail.length + (head.length + spare)) 0 := by
    simp only [resize, List.take_nil, List.nil_append, List.length_nil, Nat.sub_zero,
      List.length_append, Nat.add_assoc]
    rfl
  refine ⟨tail ++ List.replicate (head.length + spare) 0, ?_, ?_⟩
  · rw [hfresh, writeAt_of_le (by simp), overwrite_front, List.drop_replicate,
      Nat.add_sub_cancel_left]
  · rw [writeAt_of_le (by simp), overwrite_append, overwrite_front, List.drop_replicate,
      Nat.add_sub_cancel_left, List.append_assoc]

theorem makeSpace_represents (h : b.Represents q) {len : Nat}
    (hshort : b.capacity - 1 - q.length < len) (hfits : q.length + len + 1 < 2 ^ 63) :
    ∃ b', b.makeSpace len = .ok b' ∧ b'.Represents q ∧ b'.capacity = q.length + len + 1 := by
  have hcap := h.bounded
  have hr := h.reader_lt
  have hq := h.length_lt
  have hsize := h.size
  have hnew : sizeAdd b.capacity (sizeSub len b.writeableBytes) = q.length + len + 1 := by
    rw [h.writeableBytes_eq, sizeSub_of_le (by omega) (by omega), sizeAdd_of_lt (by omega)]
    omega
  simp only [makeSpace, hnew, h.readableBytes_eq]
  cases h.writer_cases with
  | inl hstraight =>
      obtain ⟨hfit, hw⟩ := hstraight
      have hgrown := h.resized hfit (show b.capacity ≤ q.length + len + 1 by omega) hfits
      refine ⟨_, ?_, hgrown, rfl⟩
      rw [if_pos (by omega), pure_eq_ok, ok_bind, assertThat_of hgrown.readableBytes_eq.symm]
      rfl
  | inr hwrapped =>
      obtain ⟨hwrap, hw⟩ := hwrapped
      have hunroll := h.unroll hwrap hw
      have hpart : sizeSub b.buffer.length b.readerIndex =
          (b.buffer.drop b.readerIndex).length := by
        rw [sizeSub_of_le (by omega) (by omega), List.length_drop]
      have hwriter : sizeAdd (b.buffer.drop b.readerIndex).length b.writerIndex = q.length := by
        rw [List.length_drop, sizeAdd_of_lt (by omega)]
        omega
      have htail : readAt b.buffer b.readerIndex (b.buffer.drop b.readerIndex).length =
          .ok (b.buffer.drop b.readerIndex) := by
        rw [readAt_of_le (by rw [List.length_drop]; omega), List.take_length]
      have hhead : readAt b.buffer 0 b.writerIndex = .ok (b.buffer.take b.writerIndex) := by
        rw [readAt_of_le (by omega), List.drop_zero]
      obtain ⟨cells, hfirst, hsecond⟩ := write_parts (b.buffer.drop b.readerIndex)
        (b.buffer.take b.writerIndex) (len + 1)
      rw [hunroll, ← Nat.add_assoc] at hfirst
      rw [hunroll] at hsecond
      have hgrown := represents_front q hfits
      refine ⟨_, ?_, hgrown, rfl⟩
      rw [if_neg (by omega)]
      simp only [hpart, htail, hwriter, hhead, hfirst, hsecond, ok_bind, pure_eq_ok,
        assertThat_of hgrown.readableBytes_eq.symm]

theorem append_represents {q data : Bytes} (h : b.Represents q)
    (hfits : q.length + data.length + 1 < 2 ^ 63) :
    ∃ b', b.append data = .ok b' ∧ b'.Represents (q ++ data) := by
  have hq := h.length_lt
  unfold append
  by_cases hroom : b.writeableBytes < data.length
  · rw [if_pos hroom]
    rw [h.writeableBytes_eq] at hroom
    obtain ⟨grown, hgrown, hrep, hcapacity⟩ := makeSpace_represents h hroom hfits
    rw [hgrown]
    exact doAppend_represents hrep (by omega)
  · rw [if_neg hroom]
    rw [h.writeableBytes_eq] at hroom
    exact doAppend_represents h (by omega)

theorem offered_one (off len : Nat) : offered [(off, len)] = len := rfl

theorem offered_two (off len off' len' : Nat) :
    offered [(off, len), (off', len')] = len + len' := rfl

theorem scatter_one {cells data : Bytes} {off len : Nat} :
    scatter [(off, len)] cells data =
      (writeAt cells off (data.take len) >>= fun c => .ok (c, data.drop len)) := rfl

theorem scatter_two {cells data : Bytes} {off len off' len' : Nat} :
    scatter [(off, len), (off', len')] cells data =
      (writeAt cells off (data.take len) >>= fun c =>
        writeAt c off' ((data.drop len).take len') >>= fun c' =>
          .ok (c', (data.drop len).drop len')) := rfl

/-- The iovecs of `ReadFd`: one that ends in the buffer, or one up to its end and one at its
front. -/
theorem Represents.readVec_cases (h : b.Represents q) :
    b.readVec = [(b.writerIndex, b.writeableBytes)] ∧
        b.writerIndex + b.writeableBytes ≤ b.capacity ∨
      b.readVec = [(b.writerIndex, b.capacity - b.writerIndex), (0, b.readerIndex - 1)] ∧
        b.capacity - b.writerIndex + (b.readerIndex - 1) = b.writeableBytes := by
  have hcap := h.bounded
  have hr := h.reader_lt
  have hq := h.length_lt
  have hwr := h.writer_lt
  have hwriteable := h.writeableBytes_eq
  unfold readVec
  rcases h.writer_cases with ⟨hfit, hw⟩ | ⟨hwrap, hw⟩
  · rw [if_pos (by omega)]
    by_cases hzero : b.readerIndex = 0
    · have htop : sizeSub b.capacity 1 = b.capacity - 1 := sizeSub_of_le (by omega) (by omega)
      have hroom : sizeSub (sizeSub b.capacity 1) b.writerIndex = b.writeableBytes := by
        rw [htop, sizeSub_of_le (by omega) (by omega)]
        omega
      rw [if_pos hzero, hroom]
      exact .inl ⟨rfl, by omega⟩
    · rw [if_neg hzero, sizeSub_of_le (by omega) (by omega)]
      by_cases hhead : 1 < b.readerIndex
      · rw [if_pos hhead, sizeSub_of_le (by omega) (by omega)]
        exact .inr ⟨rfl, by omega⟩
      · have hroom : b.capacity - b.writerIndex = b.writeableBytes := by omega
        rw [if_neg hhead, hroom]
        exact .inl ⟨rfl, by omega⟩
  · have hbelow : sizeSub b.readerIndex 1 = b.readerIndex - 1 := sizeSub_of_le (by omega) (by omega)
    have hroom : sizeSub (sizeSub b.readerIndex 1) b.writerIndex = b.writeableBytes := by
      rw [hbelow, sizeSub_of_le (by omega) (by omega)]
      omega
    rw [if_neg (by omega), hroom]
    exact .inl ⟨rfl, by omega⟩

/-- `ReadFd` has room for its iovecs, the one of the stack array included. -/
theorem Represents.readVec_slots (h : b.Represents q) (room : Nat) :
    ¬3 < b.readVec.length + (if room < extraSize then 1 else 0) := by
  have hvec : b.readVec.length ≤ 2 := by
    rcases h.readVec_cases with ⟨hvec, -⟩ | ⟨hvec, -⟩
    · simp [hvec]
    · simp [hvec]
  split
  · omega
  · omega

/-- In every layout the iovecs of `ReadFd` cover exactly the writeable cells. -/
theorem Represents.offered_readVec (h : b.Represents q) : offered b.readVec = b.writeableBytes := by
  rcases h.readVec_cases with ⟨hvec, -⟩ | ⟨hvec, hsum⟩
  · rw [hvec, offered_one]
  · rw [hvec, offered_two, hsum]

/-- Filling the iovecs of `ReadFd` in order puts the bytes behind the queue. -/
theorem scatter_readVec (h : b.Represents q) (data : Bytes) :
    ∃ cells, scatter b.readVec b.buffer data = .ok (cells, data.drop b.writeableBytes) ∧
      cells.length = b.capacity ∧
      Ring.Window cells b.readerIndex (q ++ data.take b.writeableBytes) := by
  have hq := h.length_lt
  have hwr := h.writer_lt
  have hwriteable := h.writeableBytes_eq
  have hlen (n : Nat) (data : Bytes) : (data.take n).length ≤ n := List.length_take_le _ _
  rcases h.readVec_cases with ⟨hvec, hend⟩ | ⟨hvec, hsum⟩
  · have htake := hlen b.writeableBytes data
    obtain ⟨cells, hwrite, hsize, hwindow⟩ :=
      h.writeAt_writer (data.take b.writeableBytes) (by omega) (by omega)
    exact ⟨cells, by rw [hvec, scatter_one, hwrite]; rfl, hsize, hwindow⟩
  · have htake := hlen (b.capacity - b.writerIndex) data
    have hrest := hlen (b.readerIndex - 1) (data.drop (b.capacity - b.writerIndex))
    -- The front of the buffer is written to only when the first iovec is full.
    have hfull : (data.drop (b.capacity - b.writerIndex)).take (b.readerIndex - 1) ≠ [] →
        b.writerIndex + (data.take (b.capacity - b.writerIndex)).length = b.capacity := by
      intro hne
      have hlong : b.capacity - b.writerIndex ≤ data.length := by
        by_contra hshort
        exact hne (by rw [List.drop_of_length_le (by omega), List.take_nil])
      rw [List.length_take]
      omega
    obtain ⟨middle, cells, hwrite, hwrite', hsize, hwindow⟩ :=
      h.writeAt_wrapped _ _ (by omega) (by omega) hfull
    refine ⟨cells, ?_, hsize, ?_⟩
    · rw [hvec, scatter_two, hwrite]
      simp only [ok_bind]
      rw [hwrite', List.drop_drop, hsum]
      rfl
    · rwa [← hsum, List.take_add]

/-- `ReadFd` appends what `readv` delivered, through the stack array if need be. -/
theorem readFd_represents {q bytes : Bytes} (h : b.Represents q)
    (hfits : q.length + bytes.length + 1 < 2 ^ 63) :
    ∃ b' n, b.readFd (some bytes) = .ok (b', some (bytes.take n)) ∧
      (n ≤ bytes.length ∧ min bytes.length extraSize ≤ n) ∧
      b'.Represents (q ++ bytes.take n) := by
  have hcap := h.bounded
  have hq := h.length_lt
  obtain ⟨room, hroom⟩ : ∃ room, b.writeableBytes = room := ⟨_, rfl⟩
  have hroomEq : room = b.capacity - 1 - q.length := hroom ▸ h.writeableBytes_eq
  obtain ⟨extra, hextra⟩ : ∃ extra, (if room < extraSize then extraSize else 0) = extra :=
    ⟨_, rfl⟩
  obtain ⟨data, hdata⟩ : ∃ data, bytes.take (room + extra) = data := ⟨_, rfl⟩
  have hlength : data.length = min (room + extra) bytes.length := by
    rw [← hdata, List.length_take]
  have hcount : data.length ≤ bytes.length ∧ min bytes.length extraSize ≤ data.length := by
    rw [hlength]
    split at hextra <;> omega
  have hcut : bytes.take data.length = data := by
    rw [hlength, ← hdata, List.take_eq_take_iff]
    omega
  have hsum := h.offered_readVec
  obtain ⟨cells, hscatter, hsize, hwindow⟩ := scatter_readVec h data
  rw [hroom] at hsum hscatter hwindow
  have hfree : q.length + (data.take room).length < b.capacity := by
    rw [List.length_take]
    omega
  obtain ⟨full, hfull, hrep, _⟩ := h.extend hsize hfree hwindow
  have hwritten (n : Nat) (hn : (data.take room).length = n) (hle : n ≤ room) :
      { b with buffer := cells }.hasWritten n = .ok full := by
    have hsame : { b with buffer := cells }.writeableBytes = room := hroom
    unfold hasWritten
    rw [hsame, assertThat_of hle, ← hn]
    exact hfull
  unfold readFd
  simp only [hroom, hsum, hextra, hdata]
  rw [if_neg (h.readVec_slots room)]
  simp only [pure_eq_ok, ok_bind, hscatter]
  by_cases hle : data.length ≤ room
  · have hall : data.take room = data := List.take_of_length_le hle
    refine ⟨full, data.length, ?_, hcount, ?_⟩
    · rw [if_pos hle, hwritten data.length (by rw [hall]) hle, hcut]
      rfl
    · rw [hcut, ← hall]
      exact hrep
  · have hmore : readAt (data.drop room) 0 (sizeSub data.length room) = .ok (data.drop room) := by
      rw [sizeSub_of_le (by omega) (by omega), readAt_of_le (by rw [List.length_drop]; omega),
        List.drop_zero, List.take_of_length_le (by rw [List.length_drop])]
    have htake : (data.take room).length = room := by
      rw [List.length_take]
      omega
    have hgrow : (q ++ data.take room).length + (data.drop room).length + 1 < 2 ^ 63 := by
      rw [List.length_append, htake, List.length_drop]
      omega
    obtain ⟨b', happend, hrep'⟩ := append_represents hrep hgrow
    refine ⟨b', data.length, ?_, hcount, ?_⟩
    · rw [if_neg hle, hwritten room htake (Nat.le_refl _)]
      simp only [ok_bind, hmore, happend, hcut]
    · rwa [List.append_assoc, List.take_append_drop, ← hcut] at hrep'

theorem readFd_none (h : b.Represents q) : b.readFd none = .ok (b, none) := by
  obtain ⟨room, hroom⟩ : ∃ room, b.writeableBytes = room := ⟨_, rfl⟩
  unfold readFd
  simp only [hroom]
  rw [if_neg (h.readVec_slots room)]
  rfl

theorem Represents.reader_eq_writer_iff (h : b.Represents q) :
    b.readerIndex = b.writerIndex ↔ q = [] := by
  have hq := h.length_lt
  have hr := h.reader_lt
  rw [← List.length_eq_zero_iff]
  rcases h.writer_cases with ⟨hfit, hw⟩ | ⟨hwrap, hw⟩ <;> omega

/-- The iovecs of `WriteFd` hold the whole queue in order. -/
theorem gather_writeVec (h : b.Represents q) (hq : q ≠ []) :
    gather b.buffer b.writeVec = .ok q := by
  have hcap := h.bounded
  have hr := h.reader_lt
  have hlen := h.length_lt
  have hsize := h.size
  have hne : b.readerIndex ≠ b.writerIndex := fun he => hq (h.reader_eq_writer_iff.mp he)
  unfold writeVec
  rcases h.writer_cases with ⟨hfit, hw⟩ | ⟨hwrap, hw⟩
  · have hslice := Ring.window_slice h.cells (Nat.le_refl _) (by omega)
    have hcount : sizeSub b.writerIndex b.readerIndex = q.length := by
      rw [sizeSub_of_le (by omega) (by omega)]
      omega
    rw [if_pos (by omega), hcount]
    simp only [gather, readAt_of_le (show b.readerIndex + q.length ≤ b.buffer.length by omega),
      hslice, List.take_length, ok_bind, pure_eq_ok, List.append_nil]
  · have hunroll := h.unroll hwrap hw
    have hcount : sizeSub b.capacity b.readerIndex = b.capacity - b.readerIndex :=
      sizeSub_of_le (by omega) (by omega)
    have htail : readAt b.buffer b.readerIndex (b.capacity - b.readerIndex) =
        .ok (b.buffer.drop b.readerIndex) := by
      rw [readAt_of_le (by omega), List.take_of_length_le (by rw [List.length_drop]; omega)]
    rw [if_neg (by omega), if_neg hne, hcount]
    by_cases hzero : b.writerIndex = 0
    · rw [hzero, List.take_zero, List.append_nil] at hunroll
      simp only [hzero, ne_eq, not_true_eq_false, if_false, gather, htail, ok_bind, pure_eq_ok,
        List.append_nil, hunroll]
    · have hfront : readAt b.buffer 0 b.writerIndex = .ok (b.buffer.take b.writerIndex) := by
        rw [readAt_of_le (by omega), List.drop_zero]
      rw [if_pos hzero]
      simp only [gather, htail, hfront, ok_bind, pure_eq_ok, List.append_nil, hunroll]

theorem writeFd_some (h : b.Represents q) (n : Nat) :
    ∃ b', b.writeFd (some n) = .ok (b', some (q.take n)) ∧ b'.Represents (q.drop n) := by
  unfold writeFd
  by_cases hq : q = []
  · subst hq
    refine ⟨b, ?_, by simpa using h⟩
    rw [if_pos (h.reader_eq_writer_iff.mpr rfl)]
    simp
  · rw [if_neg (fun he => hq (h.reader_eq_writer_iff.mp he))]
    simp only [pure_eq_ok, ok_bind, gather_writeVec h hq]
    by_cases hn : 0 < (q.take n).length
    · have hle : (q.take n).length ≤ q.length := List.length_take_le' _ _
      refine ⟨_, by rw [if_pos hn, retrieve_of_le h hle], ?_⟩
      have hrep := h.advanceReader hle
      have hdrop : q.drop (q.take n).length = q.drop n := by
        rw [List.length_take]
        by_cases hcut : n ≤ q.length
        · rw [Nat.min_eq_left hcut]
        · rw [Nat.min_eq_right (by omega), List.drop_length, List.drop_of_length_le (by omega)]
      rwa [hdrop] at hrep
    · refine ⟨b, by rw [if_neg hn], ?_⟩
      have hzero : n = 0 := by
        have hpos := List.length_pos_iff.mpr hq
        rw [List.length_take] at hn
        omega
      rw [hzero, List.drop_zero]
      exact h

theorem writeFd_none (h : b.Represents q) :
    b.writeFd none = .ok (b, if q = [] then some [] else none) := by
  unfold writeFd
  by_cases hq : q = []
  · rw [if_pos (h.reader_eq_writer_iff.mpr hq), if_pos hq]
    simp
  · rw [if_neg (fun he => hq (h.reader_eq_writer_iff.mp he)), if_neg hq]
    simp only [pure_eq_ok, ok_bind, gather_writeVec h hq]

end Buffer

end LibMsf
