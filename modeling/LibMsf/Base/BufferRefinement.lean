import LibMsf.Base.BufferFifo

/-!
The ring buffer refines a FIFO queue of bytes.

`FifoStep` says what each operation is for on the queue alone: it knows no
capacity, no indices and no iovecs. The results are about whole runs from a new
buffer of any size, wrapped or not, with any results of `readv` and `writev`.
-/

namespace LibMsf

open Cxx

inductive FifoStep : Bytes → BufferOp → BufferReply → Bytes → Prop where
  | append (q data : Bytes) : FifoStep q (.append data) .done (q ++ data)
  | retrieve {q : Bytes} {len : Nat} (h : len ≤ q.length) :
      FifoStep q (.retrieve len) (.count len) (q.drop len)
  | retrieveShort {q : Bytes} {len : Nat} (h : q.length < len) :
      FifoStep q (.retrieve len) .refused q
  | retrieveAll (q : Bytes) : FifoStep q .retrieveAll .done []
  | receive {q : Bytes} {len : Nat} (h : len ≤ q.length) :
      FifoStep q (.receive len) (.bytes (q.take len)) q
  | receiveShort {q : Bytes} {len : Nat} (h : q.length < len) :
      FifoStep q (.receive len) .refused q
  | remove {q : Bytes} {len : Nat} (h : len ≤ q.length) :
      FifoStep q (.remove len) (.bytes (q.take len)) (q.drop len)
  | removeShort {q : Bytes} {len : Nat} (h : q.length < len) :
      FifoStep q (.remove len) .refused q
  | readFd (q arrived : Bytes) {n : Nat}
      (h : n ≤ arrived.length ∧ min arrived.length Buffer.extraSize ≤ n) :
      FifoStep q (.readFd (some arrived)) (.bytes (arrived.take n)) (q ++ arrived.take n)
  | readFdFailed (q : Bytes) : FifoStep q (.readFd none) .refused q
  | writeFd (q : Bytes) (n : Nat) :
      FifoStep q (.writeFd (some n)) (.bytes (q.take n)) (q.drop n)
  | writeFdFailed {q : Bytes} (h : q ≠ []) : FifoStep q (.writeFd none) .refused q
  | writeFdEmpty : FifoStep [] (.writeFd none) (.bytes []) []

/-- Bytes that an operation may add to the queue. -/
def BufferOp.incoming : BufferOp → Nat
  | .append data => data.length
  | .readFd (some arrived) => arrived.length
  | _ => 0

/-- The capacity that the operation may need, one empty cell included, is below `2 ^ 63`. -/
def FitsCapacity (q : Bytes) (op : BufferOp) : Prop :=
  q.length + op.incoming + 1 < 2 ^ 63

theorem Buffer.step_refines (b : Buffer) (q : Bytes) (op : BufferOp) (h : b.Represents q)
    (hfits : FitsCapacity q op) :
    ∃ b' reply q', b.step op = .ok (b', reply) ∧ FifoStep q op reply q' ∧ b'.Represents q' := by
  cases op with
  | append data =>
      obtain ⟨b', hb', hrep⟩ := append_represents h hfits
      exact ⟨b', _, _, by simp only [step, hb', ok_bind, pure_eq_ok], .append q data, hrep⟩
  | retrieve len =>
      rcases Nat.lt_or_ge q.length len with hlen | hlen
      · exact ⟨b, _, _, by simp only [step, retrieve_of_lt h hlen, BufferReply.ofCount],
          .retrieveShort hlen, h⟩
      · exact ⟨_, _, _, by simp only [step, retrieve_of_le h hlen, BufferReply.ofCount],
          .retrieve hlen, h.advanceReader hlen⟩
  | retrieveAll => exact ⟨_, _, _, rfl, .retrieveAll q, retrieveAll_represents h⟩
  | receive len =>
      rcases Nat.lt_or_ge q.length len with hlen | hlen
      · exact ⟨b, _, _, by
          simp only [step, receive_of_lt h hlen, ok_bind, pure_eq_ok, BufferReply.ofBytes],
          .receiveShort hlen, h⟩
      · exact ⟨b, _, _, by
          simp only [step, receive_of_le h hlen, ok_bind, pure_eq_ok, BufferReply.ofBytes],
          .receive hlen, h⟩
  | remove len =>
      rcases Nat.lt_or_ge q.length len with hlen | hlen
      · exact ⟨b, _, _, by
          simp only [step, remove_of_lt h hlen, ok_bind, pure_eq_ok, BufferReply.ofBytes],
          .removeShort hlen, h⟩
      · exact ⟨_, _, _, by
          simp only [step, remove_of_le h hlen, ok_bind, pure_eq_ok, BufferReply.ofBytes],
          .remove hlen, h.advanceReader hlen⟩
  | readFd arrived =>
      cases arrived with
      | none =>
          exact ⟨b, _, _, by
            simp only [step, readFd_none h, ok_bind, pure_eq_ok, BufferReply.ofBytes],
            .readFdFailed q, h⟩
      | some bytes =>
          obtain ⟨b', n, hb', hn, hrep⟩ := readFd_represents h hfits
          exact ⟨b', _, _, by
            simp only [step, hb', ok_bind, pure_eq_ok, BufferReply.ofBytes],
            .readFd q bytes hn, hrep⟩
  | writeFd accepts =>
      cases accepts with
      | none =>
          by_cases hq : q = []
          · subst hq
            exact ⟨b, _, _, by
              simp only [step, writeFd_none h, if_true, ok_bind, pure_eq_ok, BufferReply.ofBytes],
              .writeFdEmpty, h⟩
          · exact ⟨b, _, _, by
              simp only [step, writeFd_none h, if_neg hq, ok_bind, pure_eq_ok,
                BufferReply.ofBytes],
              .writeFdFailed hq, h⟩
      | some n =>
          obtain ⟨b', hb', hrep⟩ := writeFd_some h n
          exact ⟨b', _, _, by simp only [step, hb', ok_bind, pure_eq_ok, BufferReply.ofBytes],
            .writeFd q n, hrep⟩

theorem FifoStep.length_le {q q' : Bytes} {op : BufferOp} {reply : BufferReply}
    (h : FifoStep q op reply q') : q'.length ≤ q.length + op.incoming := by
  cases h with
  | append data => simp [BufferOp.incoming]
  | retrieveAll => simp
  | readFd arrived hn =>
      simp only [List.length_append, List.length_take, BufferOp.incoming]
      omega
  | retrieve _ | remove _ | writeFd _ _ =>
      rw [List.length_drop]
      omega
  | _ => simp

theorem fifoRun_length_le {q q' : Bytes} {ops : List BufferOp} {replies : List BufferReply}
    (h : Run.Steps FifoStep q ops replies q') :
    q'.length ≤ q.length + (ops.map BufferOp.incoming).sum := by
  induction h with
  | nil => simp
  | cons head _ ih =>
      have := head.length_le
      simp only [List.map_cons, List.sum_cons]
      omega

/-- Bounding the bytes ever offered bounds the capacity at every point of the run. -/
theorem admissible_of_total {ops : List BufferOp}
    (htotal : (ops.map BufferOp.incoming).sum + 1 < 2 ^ 63) :
    Run.Admissible FifoStep FitsCapacity [] ops := by
  intro before op after heq replies q hsteps
  have hlen := fifoRun_length_le hsteps
  rw [heq] at htotal
  simp only [List.map_append, List.map_cons, List.sum_append, List.sum_cons] at htotal
  simp only [List.length_nil] at hlen
  unfold FitsCapacity
  omega

/-- Every run from a new buffer returns without a fault, its replies are those of
a FIFO queue, and the buffer it ends in holds exactly that queue: the indices are in
range, a copy of the readable bytes gives the queue, and a request for more than it
holds changes nothing. -/
theorem Buffer.run_refines_fifo (initialSize : Nat) (ops : List BufferOp)
    (hsize : 1 ≤ initialSize) (hbound : initialSize < 2 ^ 63)
    (hfits : Run.Admissible FifoStep FitsCapacity [] ops) :
    ∃ b₀ b replies q, Buffer.new initialSize = .ok b₀ ∧ b₀.run ops = .ok (b, replies) ∧
      Run.Steps FifoStep [] ops replies q ∧
      b.readableBytes = q.length ∧ b.receive q.length = .ok (some q) ∧
      b.readerIndex < b.capacity ∧ b.writerIndex < b.capacity ∧
      b.buffer.length = b.capacity ∧
      ∀ len, q.length < len → b.step (.retrieve len) = .ok (b, .refused) ∧
        b.step (.receive len) = .ok (b, .refused) ∧
        b.step (.remove len) = .ok (b, .refused) := by
  obtain ⟨b₀, hnew, hrep₀⟩ := new_represents hsize hbound
  obtain ⟨b, replies, q, hrun, hsteps, hrep⟩ :=
    Run.execute_refines step_refines ops b₀ [] hrep₀ hfits
  refine ⟨b₀, b, replies, q, hnew, hrun, hsteps, hrep.readableBytes_eq, ?_, hrep.reader_lt,
    hrep.writer_lt, hrep.size, ?_⟩
  · rw [receive_of_le hrep (Nat.le_refl _), List.take_length]
  · intro len hlen
    simp only [step, retrieve_of_lt hrep hlen, receive_of_lt hrep hlen, remove_of_lt hrep hlen,
      ok_bind, pure_eq_ok, BufferReply.ofCount, BufferReply.ofBytes, and_self]

/-- A run on four cells that wraps, grows while wrapped and drains to a descriptor. -/
def wrappingOps : List BufferOp :=
  [.append [1, 2, 3], .remove 2, .append [4, 5], .receive 9, .readFd (some [6, 7]),
    .writeFd (some 3)]

theorem Buffer.run_refines_fifo_wrapping :
    (1 ≤ 4 ∧ 4 < 2 ^ 63 ∧ Run.Admissible FifoStep FitsCapacity [] wrappingOps) ∧
      ∃ b₀ b replies q, Buffer.new 4 = .ok b₀ ∧ b₀.run wrappingOps = .ok (b, replies) ∧
        Run.Steps FifoStep [] wrappingOps replies q ∧ b.receive q.length = .ok (some q) := by
  have hfits : Run.Admissible FifoStep FitsCapacity [] wrappingOps :=
    admissible_of_total (by decide)
  obtain ⟨b₀, b, replies, q, hnew, hrun, hsteps, _, hreceive, _⟩ :=
    Buffer.run_refines_fifo 4 wrappingOps (by decide) (by decide) hfits
  exact ⟨⟨by decide, by decide, hfits⟩, b₀, b, replies, q, hnew, hrun, hsteps, hreceive⟩

example : (Buffer.new 4 >>= fun b => b.run wrappingOps) =
    .ok (⟨[3, 4, 5, 6, 7, 0], 6, 3, 5⟩,
      [.done, .bytes [1, 2], .done, .refused, .bytes [6, 7], .bytes [3, 4, 5]]) := by
  decide +kernel

end LibMsf
