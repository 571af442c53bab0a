import LibMsf.Base.LogStream
import LibMsf.Library.Loop
import LibMsf.Library.Ring
import LibMsf.Library.Run

/-!
The circular log buffer against a bounded queue of bytes.

The mask is the size minus one, and `kLargeBuffer` is no power of two, so a masked counter
does not advance with the counter: 256 maps to 0, and lines lie on top of each other long
before the buffer is full. A wrapped copy writes the front of the line twice. What is left of
the queue is the part of the runs in which every line goes right behind the bytes that are
queued and no copy wraps.
-/

namespace LibMsf

open Cxx

/-- The bytes of a bounded queue, and how many of them the reader was told of. -/
structure BoundedQueue where
  queue : Bytes := []
  reported : Nat := 0

inductive BoundedQueue.Step (capacity : Nat) :
    BoundedQueue → CircularOp → CircularReply → BoundedQueue → Prop where
  | append {t : BoundedQueue} {data : Bytes} (h : t.queue.length + data.length ≤ capacity) :
      Step capacity t (.append data) (.stored (capacity - (t.queue.length + data.length)))
        { t with queue := t.queue ++ data }
  | appendFull {t : BoundedQueue} {data : Bytes}
      (h : capacity < t.queue.length + data.length) :
      Step capacity t (.append data) .refused t
  | peek {t : BoundedQueue} {found : Bytes} (hne : found ≠ []) (h : found <+: t.queue) :
      Step capacity t .peek (.bytes found) { t with reported := found.length }
  | peekEmpty {t : BoundedQueue} (h : t.queue = []) :
      Step capacity t .peek .nothing { t with reported := 0 }
  | pop {t : BoundedQueue} {len : Nat} (h : len ≤ t.reported) :
      Step capacity t (.pop len) .done
        { queue := t.queue.drop len, reported := t.reported - len }

namespace CircularBuffer

variable {size : Nat} {b : CircularBuffer size} {q : Bytes}

def readPos (b : CircularBuffer size) : Nat := b.readCount &&& capacityMask size

def writePos (b : CircularBuffer size) : Nat := b.writeCount &&& capacityMask size

theorem masked_writeCount (b : CircularBuffer size) :
    b.writeCount &&& capacityMask size = b.writePos := rfl

def queued (b : CircularBuffer size) : Nat := b.writeCount - b.readCount

/-- A range of the buffer without queued bytes. -/
def Apart (b : CircularBuffer size) (pos len : Nat) : Prop :=
  pos + len ≤ size ∧
    (pos + len ≤ b.readPos ∨ b.readPos + b.queued ≤ pos ∨ b.queued = 0)

/-- The ranges that a refused append sets to zero. -/
def ZeroesApart (b : CircularBuffer size) : Prop :=
  let free := size - b.queued
  let realEnd := (b.writeCount + free) % 2 ^ 64 &&& capacityMask size
  if b.writePos < realEnd then b.Apart b.writePos free
  else b.Apart b.writePos (size - b.writePos) ∧ b.Apart 0 realEnd

/-- An append that fits goes right behind the queued bytes and its masked end is ahead of
its masked start; one that does not fit sets no queued byte to zero; a pop leaves nothing,
or moves the masked position as far as the counter. -/
def Straight (b : CircularBuffer size) : CircularOp → Prop
  | .append data =>
      b.queued + data.length < 2 ^ 64 ∧
        (b.queued + data.length ≤ size →
          b.writeCount + data.length < 2 ^ 64 ∧ b.writePos = b.readPos + b.queued ∧
            b.writePos + data.length ≤ size ∧
            b.writePos < (b.writeCount + data.length) &&& capacityMask size) ∧
        (size < b.queued + data.length → b.queued < size → b.ZeroesApart)
  | .peek => True
  | .pop len =>
      len = b.queued ∨
        (b.readCount + len) &&& capacityMask size = b.readPos + len ∧
          b.readPos + len < b.writePos

def withCells (b : CircularBuffer size) (cells : Bytes) : CircularBuffer size :=
  { b with buffer := cells }

/-- The queued bytes are in one piece, and `peek` sees it. -/
structure Contiguous (b : CircularBuffer size) (q : Bytes) : Prop where
  sized : b.buffer.length = size
  counts : b.readCount + q.length = b.writeCount
  bounded : b.writeCount < 2 ^ 64
  inside : b.readPos + q.length ≤ size
  window : Ring.Window b.buffer b.readPos q
  ahead : q ≠ [] → b.readPos < b.writePos

theorem Contiguous.queued_eq (h : Contiguous b q) : b.queued = q.length := by
  have hcounts := h.counts
  rw [queued]
  omega

theorem contiguous_new {cells : Bytes} (hcells : cells.length = size) :
    Contiguous (new cells : CircularBuffer size) [] := by
  refine ⟨hcells, rfl, ?_, ?_, Ring.window_nil _ _, fun hne => absurd rfl hne⟩
  · exact Nat.two_pow_pos 64
  · simp [readPos, new]

theorem append_of_room {data : Bytes} (hpos : 0 < data.length)
    (hcounts : b.readCount ≤ b.writeCount) (hbound : b.writeCount + data.length < 2 ^ 64)
    (hroom : b.queued + data.length ≤ size)
    (hlt : b.writePos < (b.writeCount + data.length) &&& capacityMask size)
    (hfit : b.writePos + data.length ≤ b.buffer.length) :
    b.append data =
      .ok ({ b with
          writeCount := b.writeCount + data.length
          buffer := overwrite b.buffer b.writePos data },
        some (size - (b.queued + data.length))) := by
  have hend : sizeAdd b.writeCount data.length = b.writeCount + data.length :=
    sizeAdd_of_lt hbound
  have htaken : sizeSub (b.writeCount + data.length) b.readCount = b.queued + data.length := by
    rw [sizeSub_of_le (by omega) hbound, queued]
    omega
  have hcopy : b.copyToBuffer b.writeCount (b.writeCount + data.length) data =
      .ok (overwrite b.buffer b.writePos data) := by
    simp only [copyToBuffer, masked_writeCount, if_pos hlt, writeAt_of_le hfit]
  simp only [append, assertThat_of hpos, hend, htaken, if_pos hroom, hcopy, ok_bind, pure_eq_ok]

theorem Contiguous.append {q data : Bytes} (h : Contiguous b q) (hpos : 0 < data.length)
    (hroom : q.length + data.length ≤ size) (hstraight : b.Straight (.append data)) :
    ∃ b', b.append data = .ok (b', some (size - (q.length + data.length))) ∧
      Contiguous b' (q ++ data) := by
  have hqueued := h.queued_eq
  have hcounts := h.counts
  have hsized := h.sized
  rw [← hqueued] at hroom
  obtain ⟨hbound, hwrite, hfit, hlt⟩ := hstraight.2.1 hroom
  have hfit' : b.writePos + data.length ≤ b.buffer.length := by omega
  have happend := append_of_room hpos (by omega) hbound hroom hlt hfit'
  rw [hqueued] at happend hwrite hroom
  refine ⟨_, happend, ?_, ?_, hbound, ?_, ?_, ?_⟩
  · exact (length_overwrite hfit').trans hsized
  · rw [List.length_append]
    simp only
    omega
  · rw [List.length_append]
    simp only [readPos] at hwrite ⊢
    omega
  · have hindex : b.writePos = Ring.index b.buffer.length b.readPos q.length := by
      rw [Ring.index, if_pos (by omega)]
      exact hwrite
    exact Ring.window_write h.window (by omega) hindex hfit'
  · intro _
    simp only [readPos, writePos] at hwrite hlt ⊢
    omega

theorem length_zeros (len : Nat) : (zeros len).length = len := List.length_replicate

theorem Contiguous.zeroed (h : Contiguous b q) {pos len : Nat} (hapart : b.Apart pos len) :
    ∃ cells, writeAt b.buffer pos (zeros len) = .ok cells ∧
      Contiguous (b.withCells cells) q := by
  obtain ⟨hfit, hapart⟩ := hapart
  have hsized := h.sized
  have hinside := h.inside
  rw [h.queued_eq] at hapart
  have hfit' : pos + (zeros len).length ≤ b.buffer.length := by
    rw [length_zeros]
    omega
  refine ⟨_, writeAt_of_le hfit', (length_overwrite hfit').trans hsized, h.counts, h.bounded,
    h.inside, ?_, h.ahead⟩
  have hinside' : b.readPos + q.length ≤ b.buffer.length := by omega
  refine Ring.window_overwrite_apart h.window hinside' hfit' ?_
  rw [length_zeros]
  exact hapart.imp_right (Or.imp_right List.length_eq_zero_iff.mp)

theorem Contiguous.setZero (h : Contiguous b q) {len : Nat} (hfull : size < q.length + len)
    (hbound : q.length + len < 2 ^ 64) (hzeroes : q.length < size → b.ZeroesApart) :
    ∃ cells, b.setZero b.writeCount len = .ok cells ∧
      Contiguous (b.withCells cells) q := by
  have hcounts := h.counts
  have hcount := h.bounded
  have hinside := h.inside
  have hoverflow : sizeSub (sizeSub (sizeAdd b.writeCount len) b.readCount) size =
      q.length + len - size := by
    simp only [sizeSub, sizeAdd]
    omega
  have hreal : sizeSub (sizeAdd b.readCount size) b.writeCount = size - q.length := by
    simp only [sizeSub, sizeAdd]
    omega
  simp only [CircularBuffer.setZero, hoverflow, hreal, masked_writeCount]
  by_cases hfree : q.length < size
  · have hapart := hzeroes hfree
    simp only [ZeroesApart, h.queued_eq] at hapart
    rw [if_pos (by omega), assertThat_of (by omega), ok_bind]
    simp only [sizeAdd]
    split at hapart
    · rename_i hlt
      rw [if_pos hlt]
      exact h.zeroed hapart
    · rename_i hlt
      rw [if_neg hlt]
      obtain ⟨cells, hfirst, h'⟩ := h.zeroed hapart.1
      rw [hfirst, ok_bind]
      exact h'.zeroed hapart.2
  · rw [if_neg (by omega)]
    exact ⟨_, rfl, h⟩

theorem Contiguous.refuse {q data : Bytes} (h : Contiguous b q) (hpos : 0 < data.length)
    (hfull : size < q.length + data.length) (hstraight : b.Straight (.append data)) :
    ∃ b', b.append data = .ok (b', none) ∧ Contiguous b' q := by
  have hcounts := h.counts
  have hcount := h.bounded
  obtain ⟨hbound, -, hzeroes⟩ := hstraight
  rw [h.queued_eq] at hbound hzeroes
  have htaken : sizeSub (sizeAdd b.writeCount data.length) b.readCount =
      q.length + data.length := by
    simp only [sizeSub, sizeAdd]
    omega
  have hback : sizeSub (sizeAdd b.writeCount data.length) data.length = b.writeCount := by
    simp only [sizeSub, sizeAdd]
    omega
  obtain ⟨cells, hzero, h'⟩ := h.setZero hfull hbound (hzeroes hfull)
  refine ⟨_, ?_, h'⟩
  simp only [CircularBuffer.append, assertThat_of hpos, htaken, hback,
    if_neg (Nat.not_le.mpr hfull), hzero, ok_bind, pure_eq_ok, withCells]

theorem Contiguous.peek_nil (h : Contiguous b []) : b.peek = .ok none := by
  have hcounts : b.readCount = b.writeCount := h.counts
  rw [peek, if_neg (by omega)]

theorem peek_of_ahead (hcounts : b.readCount < b.writeCount) (hbound : b.writeCount < 2 ^ 64)
    (hsize : b.queued ≤ size) (hahead : b.readPos < b.writePos) :
    b.peek = .ok (some (b.readPos, b.queued)) := by
  have havail : sizeSub b.writeCount b.readCount = b.queued :=
    sizeSub_of_le (Nat.le_of_lt hcounts) hbound
  have hend : sizeAdd b.readCount b.queued = b.writeCount := by
    rw [queued, sizeAdd_of_lt (by omega)]
    omega
  have hstop : ¬ b.writePos ≤ b.readCount &&& capacityMask size := Nat.not_le.mpr hahead
  simp only [peek, if_pos hcounts, havail, hend, masked_writeCount, if_neg hstop,
    assertThat_of hsize, ok_bind, pure_eq_ok, readPos]

theorem Contiguous.peek_all (h : Contiguous b q) (hne : q ≠ []) :
    b.peek = .ok (some (b.readPos, q.length)) ∧ readAt b.buffer b.readPos q.length = .ok q := by
  have hcounts := h.counts
  have hinside := h.inside
  have hsized := h.sized
  have hqueued := h.queued_eq
  have hpos := List.length_pos_iff.mpr hne
  constructor
  · rw [← hqueued]
    exact peek_of_ahead (by omega) h.bounded (by omega) (h.ahead hne)
  · rw [readAt_of_le (by omega), Ring.window_slice h.window (Nat.le_refl _) (by omega),
      List.take_length]

theorem Contiguous.pop (h : Contiguous b q) {len : Nat} (hlen : len ≤ q.length)
    (hstraight : b.Straight (.pop len)) :
    ∃ b', b.pop len = .ok b' ∧ Contiguous b' (q.drop len) := by
  have hcounts := h.counts
  have hcount := h.bounded
  have hinside := h.inside
  have hsized := h.sized
  have hread : sizeAdd b.readCount len = b.readCount + len := sizeAdd_of_lt (by omega)
  refine ⟨{ b with readCount := b.readCount + len }, ?_, ?_⟩
  · simp only [CircularBuffer.pop, hread,
      assertThat_of (show b.readCount + len ≤ b.writeCount by omega), ok_bind, pure_eq_ok]
  · have hmask : b.writePos ≤ capacityMask size := Nat.and_le_right
    cases hstraight with
    | inl hall =>
        rw [h.queued_eq] at hall
        rw [hall, List.drop_length]
        refine ⟨hsized, ?_, hcount, ?_, Ring.window_nil _ _, fun hne => absurd rfl hne⟩
        · simpa only [List.length_nil, Nat.add_zero] using hcounts
        · have hread : b.readCount + q.length &&& capacityMask size ≤ capacityMask size :=
            Nat.and_le_right
          simp only [readPos, List.length_nil, Nat.add_zero]
          exact hread.trans (Nat.sub_le size 1)
    | inr hpart =>
        rw [capacityMask] at hmask
        have hindex : Ring.index b.buffer.length b.readPos len =
            b.readCount + len &&& capacityMask size := by
          rw [hpart.1, Ring.index, if_pos (by omega)]
        refine ⟨hsized, ?_, hcount, ?_, ?_, ?_⟩
        · simp only [List.length_drop]
          omega
        · simp only [readPos] at hpart hinside ⊢
          rw [hpart.1, List.length_drop]
          omega
        · have hwindow := Ring.window_drop h.window hlen (by omega) (by omega)
          rw [hindex] at hwindow
          exact hwindow
        · intro _
          simp only [readPos] at hpart ⊢
          rw [hpart.1]
          exact hpart.2

/-- `WriteCircularToFile` ends, and writes `q`. -/
def WritesOut (b : CircularBuffer size) (q : Bytes) : Prop :=
  ∃ b', Run.Returns fetch (b, []) (.ok (b', q))

theorem Contiguous.writesOut (h : Contiguous b q) : b.WritesOut q := by
  by_cases hne : q = []
  · subst hne
    refine ⟨b, .done ?_⟩
    simp only [fetch, h.peek_nil, ok_bind, pure_eq_ok]
  · obtain ⟨hpeek, hread⟩ := h.peek_all hne
    obtain ⟨b', hpop, h'⟩ := h.pop (Nat.le_refl _) (.inl h.queued_eq.symm)
    rw [List.drop_length] at h'
    have hturn : fetch (b, []) = .ok (.inl (b', q)) := by
      simp only [fetch, hpeek, hread, hpop, ok_bind, pure_eq_ok, List.nil_append]
    have hlast : fetch (b', q) = .ok (.inr (b', q)) := by
      simp only [fetch, h'.peek_nil, ok_bind, pure_eq_ok]
    exact ⟨b', .again hturn (.done hlast)⟩

end CircularBuffer

namespace CircularSession

open CircularBuffer

variable {size : Nat}

def Represents (s : CircularSession size) (t : BoundedQueue) : Prop :=
  Contiguous s.buffer t.queue ∧ s.reported = t.reported ∧ t.reported ≤ t.queue.length

theorem step_refines (s : CircularSession size) (t : BoundedQueue) (op : CircularOp)
    (h : s.Represents t) (hop : s.Permitted op ∧ s.buffer.Straight op) :
    ∃ s' reply t', s.step op = .ok (s', reply) ∧ BoundedQueue.Step size t op reply t' ∧
      s'.Represents t' := by
  obtain ⟨hbuffer, hreported, hle⟩ := h
  obtain ⟨hpermitted, hstraight⟩ := hop
  cases op with
  | append data =>
      by_cases hroom : t.queue.length + data.length ≤ size
      · obtain ⟨b', happend, hbuffer'⟩ := hbuffer.append hpermitted.1 hroom hstraight
        refine ⟨{ s with buffer := b' }, _, _, ?_, .append hroom, hbuffer', hreported, ?_⟩
        · simp only [step, happend, ok_bind, pure_eq_ok]
        · rw [List.length_append]
          exact hle.trans (Nat.le_add_right _ _)
      · obtain ⟨b', happend, hbuffer'⟩ :=
          hbuffer.refuse hpermitted.1 (Nat.lt_of_not_le hroom) hstraight
        refine ⟨{ s with buffer := b' }, _, _, ?_, .appendFull (Nat.lt_of_not_le hroom),
          hbuffer', hreported, hle⟩
        simp only [step, happend, ok_bind, pure_eq_ok]
  | peek =>
      by_cases hne : t.queue = []
      · have hpeek := (hne ▸ hbuffer).peek_nil
        refine ⟨{ s with reported := 0 }, _, _, ?_, .peekEmpty hne, hbuffer, rfl, Nat.zero_le _⟩
        simp only [step, hpeek, ok_bind, pure_eq_ok]
      · obtain ⟨hpeek, hread⟩ := hbuffer.peek_all hne
        refine ⟨{ s with reported := t.queue.length }, _, _, ?_, .peek hne List.prefix_rfl,
          hbuffer, rfl, Nat.le_refl _⟩
        simp only [step, hpeek, hread, ok_bind, pure_eq_ok]
  | pop len =>
      have hlen : len ≤ t.reported := hreported ▸ hpermitted
      obtain ⟨b', hpop, hbuffer'⟩ := hbuffer.pop (hlen.trans hle) hstraight
      refine ⟨{ buffer := b', reported := s.reported - len }, _, _, ?_, .pop hlen, hbuffer',
        ?_, ?_⟩
      · simp only [step, hpop, ok_bind, pure_eq_ok]
      · rw [hreported]
      · rw [List.length_drop]
        exact Nat.sub_le_sub_right hle len

/-- As long as every operation is straight where it happens, the buffer is a bounded queue:
no access leaves it, the replies are those of the queue, and `WriteCircularToFile` would
write exactly the bytes that are queued. -/
theorem run_refines_queue {cells : Bytes} (hcells : cells.length = kLargeBuffer)
    {ops : List CircularOp}
    (hops : Run.Guarded step (fun s op => s.Permitted op ∧ s.buffer.Straight op)
      (start kLargeBuffer cells) ops) :
    ∃ s replies t, Run.execute step (start kLargeBuffer cells) ops = .ok (s, replies) ∧
      Run.Steps (BoundedQueue.Step kLargeBuffer) {} ops replies t ∧
      s.buffer.WritesOut t.queue := by
  obtain ⟨s, replies, t, hrun, hsteps, hrep⟩ := Run.execute_refines_guarded step_refines ops
    (start kLargeBuffer cells) {} ⟨contiguous_new hcells, rfl, Nat.zero_le _⟩ hops
  exact ⟨s, replies, t, hrun, hsteps, hrep.1.writesOut⟩

section Positions

variable (size w r told len : Nat) (cells data : Bytes)

theorem step_append_of_room (hlen : data.length = len) (hpos : 0 < len) (hcounts : r ≤ w)
    (hbound : w + len < 2 ^ 64) (hroom : w - r + len ≤ size)
    (hlt : w &&& capacityMask size < (w + len) &&& capacityMask size)
    (hfit : (w &&& capacityMask size) + len ≤ cells.length) :
    step (⟨⟨w, r, cells⟩, told⟩ : CircularSession size) (.append data) =
      .ok (⟨⟨w + len, r, overwrite cells (w &&& capacityMask size) data⟩, told⟩,
        .stored (size - (w - r + len))) := by
  subst hlen
  have happend := append_of_room (b := (⟨w, r, cells⟩ : CircularBuffer size)) hpos hcounts hbound
    hroom hlt hfit
  simp only [step, happend, ok_bind, pure_eq_ok]
  rfl

theorem step_peek_of_ahead (hcounts : r < w) (hbound : w < 2 ^ 64) (hsize : w - r ≤ size)
    (hahead : r &&& capacityMask size < w &&& capacityMask size)
    (hfit : (r &&& capacityMask size) + (w - r) ≤ cells.length) :
    step (⟨⟨w, r, cells⟩, told⟩ : CircularSession size) .peek =
      .ok (⟨⟨w, r, cells⟩, w - r⟩,
        .bytes ((cells.drop (r &&& capacityMask size)).take (w - r))) := by
  have hpeek := peek_of_ahead (b := (⟨w, r, cells⟩ : CircularBuffer size)) hcounts hbound hsize
    hahead
  simp only [readPos, queued] at hpeek
  simp only [step, hpeek, readAt_of_le hfit, ok_bind, pure_eq_ok]

end Positions

/-- A short line is stored, found and popped in part. -/
theorem run_refines_queue_short_line :
    ∃ s replies t,
      Run.execute step (start kLargeBuffer (zeros kLargeBuffer))
        [.append [1, 2, 3], .peek, .pop 2] = .ok (s, replies) ∧
      Run.Steps (BoundedQueue.Step kLargeBuffer) {} [.append [1, 2, 3], .peek, .pop 2] replies t ∧
      s.buffer.WritesOut t.queue := by
  have hfit : 0 + 3 ≤ (zeros kLargeBuffer).length := by
    rw [length_zeros]
    decide
  have hstored := step_append_of_room kLargeBuffer 0 0 0 3 (zeros kLargeBuffer) [1, 2, 3] rfl
    (by decide) (by decide) (by decide) (by decide) (by decide) hfit
  have hfound := step_peek_of_ahead kLargeBuffer 3 0 0 (overwrite (zeros kLargeBuffer) 0 [1, 2, 3])
    (by decide) (by decide) (by decide) (by decide) (by rw [length_overwrite hfit]; exact hfit)
  have hstraight : (new (zeros kLargeBuffer) : CircularBuffer kLargeBuffer).Straight
      (.append [1, 2, 3]) := by
    refine ⟨by decide, fun _ => by decide, fun hfull => absurd hfull (by decide)⟩
  exact run_refines_queue (length_zeros _)
    (.cons ⟨⟨Nat.succ_pos 2, by decide⟩, hstraight⟩ hstored
      (.cons ⟨trivial, trivial⟩ hfound
        ⟨⟨Nat.le_succ 2, .inr (by decide)⟩, fun _ _ _ => trivial⟩))

section Crossing

variable {first second : Bytes}

/-- The buffer behind lines of 300 and 100 bytes; the masked position of 300 is 44. -/
def crossed (first second : Bytes) : Bytes :=
  overwrite (overwrite (zeros kLargeBuffer) 0 first) 44 second

theorem fits_crossed (hfirst : first.length = 300) (hsecond : second.length = 100) :
    0 + first.length ≤ (zeros kLargeBuffer).length ∧
      44 + second.length ≤ (overwrite (zeros kLargeBuffer) 0 first).length := by
  have hfit : 0 + first.length ≤ (zeros kLargeBuffer).length := by
    rw [length_zeros, hfirst]
    decide
  refine ⟨hfit, ?_⟩
  rw [length_overwrite hfit, length_zeros, hsecond]
  decide

theorem crossed_at (hfirst : first.length = 300) (hsecond : second.length = 100) :
    ((crossed first second).take 400)[44]? = second[0]? := by
  rw [List.getElem?_take_of_lt (by decide), crossed,
    getElem?_overwrite (fits_crossed hfirst hsecond).2, if_pos (by omega)]

theorem execute_crossing (hfirst : first.length = 300) (hsecond : second.length = 100) :
    Run.Guarded step Permitted (start kLargeBuffer (zeros kLargeBuffer))
        [.append first, .append second, .peek] ∧
      Run.execute step (start kLargeBuffer (zeros kLargeBuffer))
        [.append first, .append second, .peek] =
          .ok (⟨⟨400, 0, crossed first second⟩, 400⟩,
            [.stored (kLargeBuffer - 300), .stored (kLargeBuffer - 400),
              .bytes ((crossed first second).take 400)]) := by
  obtain ⟨hfit₁, hfit₂⟩ := fits_crossed hfirst hsecond
  have hstored₁ := step_append_of_room kLargeBuffer 0 0 0 300 (zeros kLargeBuffer) first hfirst
    (by decide) (by decide) (by decide) (by decide) (by decide) (hfirst ▸ hfit₁)
  have hstored₂ := step_append_of_room kLargeBuffer 300 0 0 100
    (overwrite (zeros kLargeBuffer) 0 first) second hsecond
    (by decide) (by decide) (by decide) (by decide) (by decide) (hsecond ▸ hfit₂)
  have hfit₃ : 0 + 400 ≤ (crossed first second).length := by
    rw [crossed, length_overwrite hfit₂, length_overwrite hfit₁, length_zeros]
    decide
  have hfound := step_peek_of_ahead kLargeBuffer 400 0 0 (crossed first second)
    (by decide) (by decide) (by decide) (by decide) hfit₃
  constructor
  · exact .cons ⟨by omega, by omega⟩ hstored₁ (.cons ⟨by omega, by omega⟩ hstored₂
      (.cons trivial hfound trivial))
  · exact Run.execute_cons hstored₁ (Run.execute_cons hstored₂ (Run.execute_cons hfound rfl))

/-- A queue finds the bytes of the two lines in their order. -/
theorem peeked_of_steps {capacity : Nat} {remain₁ remain₂ : Nat} {found : Bytes} {t : BoundedQueue}
    (h : Run.Steps (BoundedQueue.Step capacity) {} [.append first, .append second, .peek]
      [.stored remain₁, .stored remain₂, .bytes found] t) : found <+: first ++ second := by
  cases h with
  | cons head tail =>
      cases head
      cases tail with
      | cons head tail =>
          cases head
          cases tail with
          | cons head tail =>
              cases head with
              | peek hne hprefix => exact hprefix

end Crossing

/-- Bytes of the second line are written over bytes of the first one that are still queued. -/
theorem second_line_overwrites_first :
    Run.Guarded step Permitted (start kLargeBuffer (zeros kLargeBuffer))
        [.append (.replicate 300 1), .append (.replicate 100 2), .peek] ∧
      ¬ ∃ s replies t, Run.execute step (start kLargeBuffer (zeros kLargeBuffer))
            [.append (.replicate 300 1), .append (.replicate 100 2), .peek] = .ok (s, replies) ∧
          Run.Steps (BoundedQueue.Step kLargeBuffer) {}
            [.append (.replicate 300 1), .append (.replicate 100 2), .peek] replies t := by
  have hfirst : (List.replicate 300 1 : Bytes).length = 300 := List.length_replicate
  have hsecond : (List.replicate 100 2 : Bytes).length = 100 := List.length_replicate
  obtain ⟨hguarded, hrun⟩ := execute_crossing hfirst hsecond
  refine ⟨hguarded, ?_⟩
  rintro ⟨s, replies, t, hrun', hsteps⟩
  cases hrun.symm.trans hrun'
  obtain ⟨rest, hrest⟩ := peeked_of_steps hsteps
  have hat := crossed_at hfirst hsecond
  rw [List.getElem?_replicate, if_pos (by decide)] at hat
  -- The queue has a byte of the first line there.
  obtain ⟨hlt, -⟩ := List.getElem?_eq_some_iff.mp hat
  rw [← List.getElem?_append_left hlt, hrest, List.getElem?_append_left (by omega),
    List.getElem?_replicate, if_pos (by decide)] at hat
  exact absurd hat (by decide)

end CircularSession

end LibMsf
