import LibMsf.Base.LogStream
import LibMsf.Library.Census
import LibMsf.Library.Path

/-!
`AsyncLoggingDoubleBuffering` of `base/async_logging.h`, used by one thread that does not wait for
the writer.

A call appends its line to the buffer of its partition and rotates the buffer out when that
failed, or when little space is left behind the line. In either case it appends the line again.
Each buffer keeps the numbers of the calls whose lines were stored in it. The partition of a call
and the bytes that a new buffer happens to hold are parameters of the call.
-/

namespace LibMsf

open Cxx

/-- A buffer, and the calls that stored their line there. -/
structure ShardBuffer (size : Nat) where
  buffer : CircularBuffer size
  stored : List Nat := []

def ShardBuffer.append {size : Nat} (b : ShardBuffer size) (call : Nat) (line : Bytes) :
    Except Fault (ShardBuffer size × Option Nat) := do
  let (buffer, remain) ← b.buffer.append line
  match remain with
  | some remain => .ok ({ buffer := buffer, stored := b.stored ++ [call] }, some remain)
  | none => .ok ({ b with buffer := buffer }, none)

structure AsyncLoggingDoubleBuffering (size : Nat) where
  perThread : List (ShardBuffer size)
  buffers : List (ShardBuffer size) := []
  emptyBuffers : List (ShardBuffer size)
  calls : Nat := 0

structure ShardCall where
  index1 : Nat
  line : Bytes
  newCells : Bytes

namespace AsyncLoggingDoubleBuffering

variable {size : Nat}

/-- The constructor of `LoggingBase`; `cells` is what the new buffers happen to hold. -/
def start (size partitions : Nat) (cells : Nat → Bytes) : AsyncLoggingDoubleBuffering size :=
  { perThread := (List.range partitions).map fun i => { buffer := .new (cells i) }
    emptyBuffers := (List.range (min 6 partitions)).map fun i =>
      { buffer := .new (cells (partitions + i)) } }

/-- The space behind a line that is too little, in the arithmetic of `size_t`. -/
def threshold (index1 : Nat) : Nat := 8 * 1024 * (index1 + 1) % 2 ^ 64

def takeEmpty (s : AsyncLoggingDoubleBuffering size) (newCells : Bytes) :
    ShardBuffer size × List (ShardBuffer size) :=
  match s.emptyBuffers.getLast? with
  | some b => (b, s.emptyBuffers.dropLast)
  | none => ({ buffer := .new newCells }, [])

def rotate (s : AsyncLoggingDoubleBuffering size) (current : ShardBuffer size)
    (call : ShardCall) : Except Fault (AsyncLoggingDoubleBuffering size) := do
  let taken := s.takeEmpty call.newCells
  let next ← taken.1.append s.calls call.line
  .ok { perThread := s.perThread.set call.index1 next.1
        buffers := s.buffers ++ [current]
        emptyBuffers := taken.2
        calls := s.calls + 1 }

def append (s : AsyncLoggingDoubleBuffering size) (current : ShardBuffer size)
    (call : ShardCall) : Except Fault (AsyncLoggingDoubleBuffering size) := do
  let (current, remain) ← current.append s.calls call.line
  let full := remain.isNone
  -- A refused append leaves `remain` at zero.
  if full ∨ remain.getD 0 ≤ threshold call.index1 then s.rotate current call
  else .ok { s with
    perThread := s.perThread.set call.index1 current
    calls := s.calls + 1 }

def step (s : AsyncLoggingDoubleBuffering size) (call : ShardCall) :
    Option (Except Fault (AsyncLoggingDoubleBuffering size)) :=
  match s.perThread[call.index1]? with
  | some current => some (s.append current call)
  | none => none

/-- Lines are not empty and shorter than a buffer, and a new buffer has its size. -/
def Permitted (_ : AsyncLoggingDoubleBuffering size) (call : ShardCall) : Prop :=
  0 < call.line.length ∧ call.line.length < size ∧ call.newCells.length = size

/-- The calls whose lines are in the buffers that wait for the writer or are in use. -/
def allStored (s : AsyncLoggingDoubleBuffering size) : List Nat :=
  (s.buffers ++ s.perThread).flatMap ShardBuffer.stored

/-- Every line was stored once. -/
def StoredOnce (s : AsyncLoggingDoubleBuffering size) : Prop :=
  ∀ call, s.allStored.count call = if call < s.calls then 1 else 0

/-- The copy of a line to a place in the buffer does not wrap, or reads no more than the line. -/
def Copies (size start len : Nat) : Prop :=
  start &&& CircularBuffer.capacityMask size < (start + len) &&& CircularBuffer.capacityMask size ∨
    size - (start &&& CircularBuffer.capacityMask size) ≤ len ∧
      (start + len) &&& CircularBuffer.capacityMask size ≤ len

/-- A line that fits can be copied and leaves enough space, and one that does not fit can be copied
to the front of another buffer. -/
def LeavesSpace (s : AsyncLoggingDoubleBuffering size) (call : ShardCall) : Prop :=
  ∀ current, s.perThread[call.index1]? = some current →
    if current.buffer.writeCount + call.line.length ≤ size then
      Copies size current.buffer.writeCount call.line.length ∧
        threshold call.index1 < size - (current.buffer.writeCount + call.line.length)
    else Copies size 0 call.line.length

end AsyncLoggingDoubleBuffering

namespace ShardBuffer

open CircularBuffer AsyncLoggingDoubleBuffering

variable {size : Nat}

/-- Nothing was read from the buffer. -/
structure Ready (b : ShardBuffer size) : Prop where
  sized : b.buffer.buffer.length = size
  unread : b.buffer.readCount = 0
  bounded : b.buffer.writeCount ≤ size

structure Fresh (b : ShardBuffer size) : Prop extends Ready b where
  unwritten : b.buffer.writeCount = 0
  unused : b.stored = []

theorem fresh_new {cells : Bytes} (h : cells.length = size) :
    Fresh ({ buffer := .new cells } : ShardBuffer size) :=
  ⟨⟨h, rfl, Nat.zero_le size⟩, rfl, rfl⟩

theorem Fresh.room {b : ShardBuffer size} (h : Fresh b) {len : Nat} (hlen : len < size) :
    b.buffer.writeCount + len ≤ size := by
  rw [h.unwritten]
  omega

section Append

variable {b : ShardBuffer size} {call : Nat} {line : Bytes}

theorem masked_le (size n : Nat) : n &&& capacityMask size ≤ size :=
  Nat.and_le_right.trans (Nat.sub_le size 1)

theorem writeAt_sized {cells : Bytes} (pos : Nat) (data : Bytes) (hsized : cells.length = size)
    (hfit : pos + data.length ≤ size) :
    ∃ cells', writeAt cells pos data = .ok cells' ∧ cells'.length = size := by
  have hfit' : pos + data.length ≤ cells.length := by omega
  exact ⟨_, writeAt_of_le hfit', (length_overwrite hfit').trans hsized⟩

theorem copyToBuffer_of_copies (h : Ready b)
    (hroom : b.buffer.writeCount + line.length ≤ size)
    (hcopies : Copies size b.buffer.writeCount line.length) :
    ∃ cells, b.buffer.copyToBuffer b.buffer.writeCount (b.buffer.writeCount + line.length) line =
      .ok cells ∧ cells.length = size := by
  rw [copyToBuffer]
  split
  · have hle : b.buffer.writeCount &&& capacityMask size ≤ b.buffer.writeCount :=
      Nat.and_le_left
    exact writeAt_sized _ _ h.sized (by omega)
  · rename_i hwrap
    obtain ⟨hfirst, hsecond⟩ := hcopies.resolve_left hwrap
    have hstart := masked_le size b.buffer.writeCount
    have hstop := masked_le size (b.buffer.writeCount + line.length)
    rw [readAt_of_le (by omega), ok_bind, List.drop_zero]
    obtain ⟨cells, hcells, hsized⟩ := writeAt_sized (b.buffer.writeCount &&& capacityMask size)
      (line.take (size - (b.buffer.writeCount &&& capacityMask size))) h.sized (by
        rw [List.length_take]
        omega)
    rw [hcells, ok_bind, readAt_of_le (by omega), ok_bind, List.drop_zero]
    refine writeAt_sized _ _ hsized ?_
    rw [List.length_take]
    omega

/-- A wrapped copy of a shorter line reads behind its end. -/
theorem copyToBuffer_of_not_copies (h : Ready b)
    (hcopies : ¬Copies size b.buffer.writeCount line.length) :
    ∃ e, b.buffer.copyToBuffer b.buffer.writeCount (b.buffer.writeCount + line.length) line =
      .error e := by
  rw [Copies, not_or, not_and_or] at hcopies
  rw [copyToBuffer, if_neg hcopies.1]
  have hstart := masked_le size b.buffer.writeCount
  by_cases hfirst : size - (b.buffer.writeCount &&& capacityMask size) ≤ line.length
  · have hsecond := hcopies.2.resolve_left (not_not.mpr hfirst)
    obtain ⟨cells, hcells, -⟩ := writeAt_sized (b.buffer.writeCount &&& capacityMask size)
      (line.take (size - (b.buffer.writeCount &&& capacityMask size))) h.sized (by
        rw [List.length_take]
        omega)
    rw [readAt_of_le (by omega), ok_bind, List.drop_zero, hcells, ok_bind, readAt,
      if_neg (by omega)]
    exact ⟨_, rfl⟩
  · rw [readAt, if_neg (by omega)]
    exact ⟨_, rfl⟩

theorem buffer_append_eq (h : Ready b) (hsize : size < 2 ^ 32) (hpos : 0 < line.length)
    (hlen : line.length < size) :
    b.buffer.append line =
      if b.buffer.writeCount + line.length ≤ size then do
        let cells ← b.buffer.copyToBuffer b.buffer.writeCount
          (b.buffer.writeCount + line.length) line
        return ({ b.buffer with
            writeCount := b.buffer.writeCount + line.length
            buffer := cells },
          some (size - (b.buffer.writeCount + line.length)))
      else do
        let cells ← b.buffer.setZero b.buffer.writeCount line.length
        return ({ b.buffer with buffer := cells }, none) := by
  have hbounded := h.bounded
  have hend : sizeAdd b.buffer.writeCount line.length = b.buffer.writeCount + line.length :=
    sizeAdd_of_lt (by omega)
  have htaken : sizeSub (b.buffer.writeCount + line.length) b.buffer.readCount =
      b.buffer.writeCount + line.length := by
    rw [h.unread, sizeSub_of_le (Nat.zero_le _) (by omega), Nat.sub_zero]
  have hback : sizeSub (b.buffer.writeCount + line.length) line.length =
      b.buffer.writeCount := by
    rw [sizeSub_of_le (by omega) (by omega), Nat.add_sub_cancel]
  simp only [CircularBuffer.append, assertThat_of hpos, ok_bind, hend, htaken, hback]

theorem setZero_sized (h : Ready b) (hsize : size < 2 ^ 32) (hlen : line.length < size)
    (hfull : size < b.buffer.writeCount + line.length) :
    ∃ cells, b.buffer.setZero b.buffer.writeCount line.length = .ok cells ∧
      cells.length = size := by
  have hbounded := h.bounded
  have hover : sizeSub (sizeSub (sizeAdd b.buffer.writeCount line.length) b.buffer.readCount)
      size = b.buffer.writeCount + line.length - size := by
    rw [h.unread, sizeAdd_of_lt (by omega), sizeSub_of_le (Nat.zero_le _) (by omega),
      Nat.sub_zero, sizeSub_of_le (by omega) (by omega)]
  have hreal : sizeSub (sizeAdd b.buffer.readCount size) b.buffer.writeCount =
      size - b.buffer.writeCount := by
    rw [h.unread, sizeAdd_of_lt (by omega), Nat.zero_add, sizeSub_of_le hbounded (by omega)]
  have hstop : sizeAdd b.buffer.writeCount (size - b.buffer.writeCount) = size := by
    rw [sizeAdd_of_lt (by omega), Nat.add_sub_cancel' hbounded]
  simp only [setZero, hover, hreal, hstop]
  split
  · rw [assertThat_of (by omega), ok_bind]
    have hstart := masked_le size b.buffer.writeCount
    have hle : b.buffer.writeCount &&& capacityMask size ≤ b.buffer.writeCount :=
      Nat.and_le_left
    split
    · refine writeAt_sized _ _ h.sized ?_
      rw [zeros, List.length_replicate]
      omega
    · obtain ⟨cells, hcells, hsized⟩ := writeAt_sized (b.buffer.writeCount &&& capacityMask size)
        (zeros (size - (b.buffer.writeCount &&& capacityMask size))) h.sized (by
          rw [zeros, List.length_replicate]
          omega)
      rw [hcells, ok_bind]
      refine writeAt_sized _ _ hsized ?_
      rw [zeros, List.length_replicate, Nat.zero_add]
      exact masked_le size size
  · exact ⟨_, rfl, h.sized⟩

section Outcome

variable (h : Ready b) (hsize : size < 2 ^ 32) (hpos : 0 < line.length)
  (hlen : line.length < size) (call : Nat)

include h hsize hpos hlen

theorem append_stored (hroom : b.buffer.writeCount + line.length ≤ size)
    (hcopies : Copies size b.buffer.writeCount line.length) :
    ∃ b', b.append call line = .ok (b', some (size - (b.buffer.writeCount + line.length))) ∧
      Ready b' ∧ b'.stored = b.stored ++ [call] ∧
      b'.buffer.writeCount = b.buffer.writeCount + line.length := by
  obtain ⟨cells, hcells, hsized⟩ := copyToBuffer_of_copies h hroom hcopies
  refine ⟨{ buffer := { b.buffer with
      writeCount := b.buffer.writeCount + line.length
      buffer := cells }, stored := b.stored ++ [call] }, ?_, ⟨hsized, h.unread, hroom⟩, rfl, rfl⟩
  rw [append, buffer_append_eq h hsize hpos hlen, if_pos hroom, hcells]
  rfl

theorem append_faults (hroom : b.buffer.writeCount + line.length ≤ size)
    (hcopies : ¬Copies size b.buffer.writeCount line.length) :
    ∃ e, b.append call line = .error e := by
  obtain ⟨e, he⟩ := copyToBuffer_of_not_copies h hcopies
  refine ⟨e, ?_⟩
  rw [append, buffer_append_eq h hsize hpos hlen, if_pos hroom, he]
  rfl

theorem append_refused (hfull : size < b.buffer.writeCount + line.length) :
    ∃ b', b.append call line = .ok (b', none) ∧ Ready b' ∧ b'.stored = b.stored := by
  obtain ⟨cells, hcells, hsized⟩ := setZero_sized h hsize hlen hfull
  refine ⟨{ b with buffer := { b.buffer with buffer := cells } }, ?_,
    ⟨hsized, h.unread, h.bounded⟩, rfl⟩
  rw [append, buffer_append_eq h hsize hpos hlen, if_neg (not_le.mpr hfull), hcells]
  rfl

end Outcome

end Append

end ShardBuffer

namespace AsyncLoggingDoubleBuffering

open ShardBuffer

structure Sharded (s : AsyncLoggingDoubleBuffering size) : Prop where
  ready : ∀ b ∈ s.perThread, b.Ready
  spare : ∀ b ∈ s.emptyBuffers, b.Fresh
  once : s.StoredOnce

theorem start_sharded {partitions : Nat} {cells : Nat → Bytes}
    (hcells : ∀ i, (cells i).length = size) : Sharded (start size partitions cells) := by
  refine ⟨?_, ?_, ?_⟩
  · intro b hb
    obtain ⟨i, -, rfl⟩ := List.mem_map.mp hb
    exact (fresh_new (hcells i)).toReady
  · intro b hb
    obtain ⟨i, -, rfl⟩ := List.mem_map.mp hb
    exact fresh_new (hcells _)
  · intro call
    have hnone : (start size partitions cells).allStored = [] := by
      refine List.flatMap_eq_nil_iff.mpr (fun b hb => ?_)
      obtain ⟨i, -, rfl⟩ := List.mem_map.mp hb
      rfl
    rw [hnone, start, if_neg (Nat.not_lt_zero call), List.count_nil]

section Step

variable {s : AsyncLoggingDoubleBuffering size} {call : ShardCall} {current : ShardBuffer size}

theorem step_of_current (hcurrent : s.perThread[call.index1]? = some current) :
    s.step call = some (s.append current call) := by
  simp only [step, hcurrent]

theorem Sharded.takeEmpty (h : Sharded s) {newCells : Bytes} (hcells : newCells.length = size) :
    (s.takeEmpty newCells).1.Fresh ∧ ∀ b ∈ (s.takeEmpty newCells).2, b.Fresh := by
  rw [AsyncLoggingDoubleBuffering.takeEmpty]
  split
  · rename_i b hlast
    refine ⟨h.spare b (List.mem_of_getLast? hlast), ?_⟩
    exact fun b hb => h.spare b (List.mem_of_mem_dropLast hb)
  · refine ⟨fresh_new hcells, ?_⟩
    intro b hb
    cases hb

theorem Sharded.ready_set (h : Sharded s) {i : Nat} {next : ShardBuffer size}
    (hnext : next.Ready) : ∀ b ∈ s.perThread.set i next, b.Ready := by
  intro b hb
  cases List.mem_or_eq_of_mem_set hb with
  | inl hold => exact h.ready b hold
  | inr heq => exact heq ▸ hnext

theorem Sharded.rotate (h : Sharded s) (hsize : size < 2 ^ 32) (hpermitted : Permitted s call)
    (hcopies : Copies size 0 call.line.length) (rotated : ShardBuffer size)
    (hcurrent : s.perThread[call.index1]? = some current) :
    ∃ s', s.rotate rotated call = .ok s' ∧ s'.calls = s.calls + 1 ∧
      (∀ b ∈ s'.perThread, b.Ready) ∧ (∀ b ∈ s'.emptyBuffers, b.Fresh) ∧
      ∀ c, s'.allStored.count c + current.stored.count c =
        s.allStored.count c + rotated.stored.count c + [s.calls].count c := by
  obtain ⟨hpos, hlen, hcells⟩ := hpermitted
  obtain ⟨hempty, hspare⟩ := h.takeEmpty hcells
  have hcopies' : Copies size (s.takeEmpty call.newCells).1.buffer.writeCount
      call.line.length := hempty.unwritten ▸ hcopies
  obtain ⟨next, hnext, hready, hstored, -⟩ :=
    append_stored hempty.toReady hsize hpos hlen s.calls (hempty.room hlen) hcopies'
  rw [hempty.unused, List.nil_append] at hstored
  have hrotate : s.rotate rotated call = .ok
      { perThread := s.perThread.set call.index1 next
        buffers := s.buffers ++ [rotated]
        emptyBuffers := (s.takeEmpty call.newCells).2
        calls := s.calls + 1 } := by
    simp only [AsyncLoggingDoubleBuffering.rotate, hnext, ok_bind]
  refine ⟨_, hrotate, rfl, h.ready_set hready, hspare, ?_⟩
  intro c
  have hset := Census.count_flatMap_set_add (b := next) (f := ShardBuffer.stored) c hcurrent
  rw [hstored] at hset
  simp only [allStored, List.flatMap_append, List.count_append, List.flatMap_singleton]
  omega

theorem Sharded.rotate_faults (h : Sharded s) (hsize : size < 2 ^ 32)
    (hpermitted : Permitted s call) (hcopies : ¬Copies size 0 call.line.length)
    (rotated : ShardBuffer size) : ∃ e, s.rotate rotated call = .error e := by
  obtain ⟨hpos, hlen, hcells⟩ := hpermitted
  obtain ⟨hempty, -⟩ := h.takeEmpty hcells
  have hcopies' : ¬Copies size (s.takeEmpty call.newCells).1.buffer.writeCount
      call.line.length := hempty.unwritten ▸ hcopies
  obtain ⟨e, he⟩ :=
    append_faults hempty.toReady hsize hpos hlen s.calls (hempty.room hlen) hcopies'
  exact ⟨e, by simp only [AsyncLoggingDoubleBuffering.rotate, he, error_bind]⟩

theorem StoredOnce.next (h : s.StoredOnce) {s' : AsyncLoggingDoubleBuffering size}
    (hcalls : s'.calls = s.calls + 1)
    (hcount : ∀ c, s'.allStored.count c = s.allStored.count c + [s.calls].count c) :
    s'.StoredOnce := by
  intro c
  rw [hcount, h c, hcalls]
  by_cases hc : c = s.calls
  · rw [hc, if_neg (Nat.lt_irrefl _), if_pos (Nat.lt_succ_self _), List.count_singleton_self]
  · have hnone : [s.calls].count c = 0 := List.count_eq_zero.mpr (by simpa using hc)
    rw [hnone, Nat.add_zero]
    exact if_congr (by omega) rfl rfl

theorem append_refused_eq {rotated : ShardBuffer size}
    (happend : current.append s.calls call.line = .ok (rotated, none)) :
    s.append current call = s.rotate rotated call := by
  simp [AsyncLoggingDoubleBuffering.append, happend]

theorem append_tight_eq {rotated : ShardBuffer size} {remain : Nat}
    (happend : current.append s.calls call.line = .ok (rotated, some remain))
    (htight : remain ≤ threshold call.index1) : s.append current call = s.rotate rotated call := by
  simp [AsyncLoggingDoubleBuffering.append, happend, htight]

theorem append_roomy_eq {next : ShardBuffer size} {remain : Nat}
    (happend : current.append s.calls call.line = .ok (next, some remain))
    (hroomy : threshold call.index1 < remain) :
    s.append current call =
      .ok { s with perThread := s.perThread.set call.index1 next, calls := s.calls + 1 } := by
  simp [AsyncLoggingDoubleBuffering.append, happend, hroomy]

theorem Sharded.append_roomy (h : Sharded s) (hsize : size < 2 ^ 32)
    (hpermitted : Permitted s call) (hcurrent : s.perThread[call.index1]? = some current)
    (hroom : current.buffer.writeCount + call.line.length ≤ size)
    (hcopies : Copies size current.buffer.writeCount call.line.length)
    (hroomy : threshold call.index1 < size - (current.buffer.writeCount + call.line.length)) :
    ∃ s' next, s.append current call = .ok s' ∧ Sharded s' ∧
      s'.perThread[call.index1]? = some next ∧
      next.buffer.writeCount = current.buffer.writeCount + call.line.length := by
  have hready := h.ready current (List.mem_of_getElem? hcurrent)
  obtain ⟨next, hnext, hnextReady, hstored, hwrite⟩ :=
    append_stored hready hsize hpermitted.1 hpermitted.2.1 s.calls hroom hcopies
  refine ⟨_, next, append_roomy_eq hnext hroomy,
    ⟨h.ready_set hnextReady, h.spare, h.once.next rfl ?_⟩,
    List.getElem?_set_self (List.getElem?_eq_some_iff.mp hcurrent).1, hwrite⟩
  intro c
  have hset := Census.count_flatMap_set_add (b := next) (f := ShardBuffer.stored) c hcurrent
  rw [hstored, List.count_append] at hset
  simp only [allStored, List.flatMap_append, List.count_append]
  omega

theorem Sharded.append (h : Sharded s) (hsize : size < 2 ^ 32) (hpermitted : Permitted s call)
    (hspace : LeavesSpace s call) (hcurrent : s.perThread[call.index1]? = some current) :
    ∃ s', s.append current call = .ok s' ∧ Sharded s' := by
  have hready := h.ready current (List.mem_of_getElem? hcurrent)
  have hcond := hspace current hcurrent
  split at hcond
  · rename_i hroom
    obtain ⟨s', -, happend, h', -⟩ := h.append_roomy hsize hpermitted hcurrent hroom hcond.1 hcond.2
    exact ⟨s', happend, h'⟩
  · rename_i hfull
    obtain ⟨rotated, hrotated, -, hstored⟩ :=
      append_refused hready hsize hpermitted.1 hpermitted.2.1 s.calls (not_le.mp hfull)
    obtain ⟨s', hrotate, hcount, hready', hspare, hall⟩ :=
      h.rotate hsize hpermitted hcond rotated hcurrent
    refine ⟨s', (append_refused_eq hrotated).trans hrotate, hready', hspare,
      h.once.next hcount ?_⟩
    intro c
    have hone := hall c
    rw [hstored] at hone
    omega

/-- A line that leaves too little space behind it is stored in two buffers. -/
theorem Sharded.append_twice (h : Sharded s) (hsize : size < 2 ^ 32)
    (hpermitted : Permitted s call) (hcurrent : s.perThread[call.index1]? = some current)
    (hroom : current.buffer.writeCount + call.line.length ≤ size)
    (hcopies : Copies size current.buffer.writeCount call.line.length)
    (hcopies' : Copies size 0 call.line.length)
    (htight : size - (current.buffer.writeCount + call.line.length) ≤ threshold call.index1) :
    ∃ s', s.append current call = .ok s' ∧ s'.allStored.count s.calls = 2 := by
  have hready := h.ready current (List.mem_of_getElem? hcurrent)
  obtain ⟨rotated, hrotated, -, hstored, -⟩ :=
    append_stored hready hsize hpermitted.1 hpermitted.2.1 s.calls hroom hcopies
  obtain ⟨s', hrotate, -, -, -, hall⟩ := h.rotate hsize hpermitted hcopies' rotated hcurrent
  refine ⟨s', (append_tight_eq hrotated htight).trans hrotate, ?_⟩
  have hone := hall s.calls
  have hnew := h.once s.calls
  rw [if_neg (Nat.lt_irrefl _)] at hnew
  rw [hstored, List.count_append, List.count_singleton_self] at hone
  omega

theorem Sharded.not_storedOnce (h : Sharded s) (hsize : size < 2 ^ 32)
    (hpermitted : Permitted s call) (hspace : ¬LeavesSpace s call)
    {s' : AsyncLoggingDoubleBuffering size} (hstep : s.step call = some (.ok s')) :
    ¬s'.StoredOnce := by
  intro honce
  rw [LeavesSpace, not_forall] at hspace
  obtain ⟨current, hspace⟩ := hspace
  rw [Classical.not_imp] at hspace
  obtain ⟨hcurrent, hcond⟩ := hspace
  have hready := h.ready current (List.mem_of_getElem? hcurrent)
  have hpos := hpermitted.1
  have hlen := hpermitted.2.1
  rw [step_of_current hcurrent, Option.some.injEq] at hstep
  split at hcond
  · rename_i hroom
    by_cases hcopies : Copies size current.buffer.writeCount call.line.length
    · have htight : size - (current.buffer.writeCount + call.line.length) ≤
          threshold call.index1 := not_lt.mp (fun hroomy => hcond ⟨hcopies, hroomy⟩)
      by_cases hcopies' : Copies size 0 call.line.length
      · obtain ⟨s₁, happend, htwo⟩ :=
          h.append_twice hsize hpermitted hcurrent hroom hcopies hcopies' htight
        cases happend.symm.trans hstep
        have hone := honce s.calls
        split at hone
        · omega
        · omega
      · obtain ⟨rotated, hrotated, -, -⟩ :=
          append_stored hready hsize hpos hlen s.calls hroom hcopies
        obtain ⟨e, he⟩ := h.rotate_faults hsize hpermitted hcopies' rotated
        cases ((append_tight_eq hrotated htight).trans he).symm.trans hstep
    · obtain ⟨e, he⟩ := append_faults hready hsize hpos hlen s.calls hroom hcopies
      simp [AsyncLoggingDoubleBuffering.append, he] at hstep
  · rename_i hfull
    obtain ⟨rotated, hrotated, -, -⟩ :=
      append_refused hready hsize hpos hlen s.calls (not_le.mp hfull)
    obtain ⟨e, he⟩ := h.rotate_faults hsize hpermitted hcond rotated
    cases ((append_refused_eq hrotated).trans he).symm.trans hstep

theorem Sharded.step (h : Sharded s) (hsize : size < 2 ^ 32) (hpermitted : Permitted s call)
    (hspace : LeavesSpace s call) {r : Except Fault (AsyncLoggingDoubleBuffering size)}
    (hstep : AsyncLoggingDoubleBuffering.step s call = some r) : ∃ s', r = .ok s' ∧ Sharded s' := by
  rw [AsyncLoggingDoubleBuffering.step] at hstep
  split at hstep
  · rename_i current hcurrent
    obtain ⟨s', happend, h'⟩ := h.append hsize hpermitted hspace hcurrent
    cases hstep
    exact ⟨s', happend, h'⟩
  · cases hstep

end Step

def StoredOnceResult (r : Except Fault (AsyncLoggingDoubleBuffering size)) : Prop :=
  ∃ s, r = .ok s ∧ s.StoredOnce

theorem kLargeBuffer_lt : kLargeBuffer < 2 ^ 32 := by decide

/-- Every line is stored once throughout a run just when every line that fits can be copied and
leaves enough space, and every other one can be copied to the front of a buffer. -/
theorem run_storedOnce_iff (partitions : Nat) (cells : Nat → Bytes)
    (hcells : ∀ i, (cells i).length = kLargeBuffer) (calls : List ShardCall)
    (r : Except Fault (AsyncLoggingDoubleBuffering kLargeBuffer))
    (hrun : Run.Path step Permitted (start kLargeBuffer partitions cells) calls r) :
    (∀ before after r', calls = before ++ after →
      Run.Path step Permitted (start kLargeBuffer partitions cells) before r' →
        StoredOnceResult r') ↔
      ∀ before call after s, calls = before ++ call :: after →
        Run.Path step Permitted (start kLargeBuffer partitions cells) before (.ok s) →
          LeavesSpace s call := by
  refine Run.Path.good_iff ?_ ?_ ?_ hrun (start_sharded hcells)
  · exact fun s h => ⟨s, rfl, h.once⟩
  · exact fun s call r h hpermitted hspace hstep =>
      h.step kLargeBuffer_lt hpermitted hspace hstep
  · rintro s call r h hpermitted hspace hstep ⟨s', rfl, honce⟩
    exact h.not_storedOnce kLargeBuffer_lt hpermitted hspace hstep honce

def zeroCells : Nat → Bytes := fun _ => List.replicate kLargeBuffer 0

theorem length_zeroCells (i : Nat) : (zeroCells i).length = kLargeBuffer :=
  List.length_replicate

/-- A call of the only thread, with a line of some length. -/
def lineCall (len : Nat) : ShardCall :=
  { index1 := 0, line := List.replicate len 7, newCells := zeroCells 0 }

theorem length_lineCall (len : Nat) : (lineCall len).line.length = len :=
  List.length_replicate

theorem lineCall_permitted (len : Nat) (hpos : 0 < len) (hlen : len < kLargeBuffer)
    (s : AsyncLoggingDoubleBuffering kLargeBuffer) : Permitted s (lineCall len) := by
  rw [Permitted, length_lineCall]
  exact ⟨hpos, hlen, length_zeroCells 0⟩

theorem start_current (len : Nat) :
    ∃ current, (start kLargeBuffer 1 zeroCells).perThread[(lineCall len).index1]? = some current ∧
      current.buffer.writeCount = 0 :=
  ⟨_, rfl, rfl⟩

/-- A second line that does not fit behind the first is refused and goes to another buffer. -/
theorem refused_path (len len' : Nat) (hpos : 0 < len) (hcopies : Copies kLargeBuffer 0 len)
    (hroom : threshold 0 < kLargeBuffer - len) (hlen' : len' < kLargeBuffer)
    (hcopies' : Copies kLargeBuffer 0 len') (hfull : kLargeBuffer < len + len') :
    ∃ s, Run.Path step (fun s call => Permitted s call ∧ LeavesSpace s call)
      (start kLargeBuffer 1 zeroCells) [lineCall len, lineCall len'] (.ok s) := by
  have hstart : Sharded (start kLargeBuffer 1 zeroCells) := start_sharded length_zeroCells
  obtain ⟨current, hcurrent, hwrite⟩ := start_current len
  have hpermitted := lineCall_permitted len hpos (by omega) (start kLargeBuffer 1 zeroCells)
  have hend : current.buffer.writeCount + (lineCall len).line.length = len := by
    rw [hwrite, length_lineCall, Nat.zero_add]
  have hfits : current.buffer.writeCount + (lineCall len).line.length ≤ kLargeBuffer := by
    omega
  have hcopy : Copies kLargeBuffer current.buffer.writeCount (lineCall len).line.length := by
    rw [hwrite, length_lineCall]
    exact hcopies
  have hroomy : threshold (lineCall len).index1 <
      kLargeBuffer - (current.buffer.writeCount + (lineCall len).line.length) := by
    rw [hend]
    exact hroom
  have hspace : LeavesSpace (start kLargeBuffer 1 zeroCells) (lineCall len) := by
    intro current' hcurrent'
    cases hcurrent.symm.trans hcurrent'
    rw [if_pos hfits]
    exact ⟨hcopy, hroomy⟩
  obtain ⟨s₁, next, hs₁, h₁, hcurrent', hwrite'⟩ :=
    hstart.append_roomy kLargeBuffer_lt hpermitted hcurrent hfits hcopy hroomy
  have hcurrent' : s₁.perThread[(lineCall len').index1]? = some next := hcurrent'
  have hpermitted' := lineCall_permitted len' (by omega) hlen' s₁
  have hspace' : LeavesSpace s₁ (lineCall len') := by
    intro current' hcurrent''
    cases hcurrent'.symm.trans hcurrent''
    rw [hwrite', hend, length_lineCall, if_neg (Nat.not_le.mpr hfull)]
    exact hcopies'
  obtain ⟨s₂, hs₂, -⟩ := h₁.append kLargeBuffer_lt hpermitted' hspace' hcurrent'
  exact ⟨s₂, .cons ⟨hpermitted, hspace⟩ ((step_of_current hcurrent).trans (congrArg some hs₁))
    (.cons ⟨hpermitted', hspace'⟩ ((step_of_current hcurrent').trans (congrArg some hs₂))
      (.nil s₂))⟩

theorem run_storedOnce_refused :
    ∃ r, Run.Path step Permitted (start kLargeBuffer 1 zeroCells)
      [lineCall 3000000, lineCall 2000000] r ∧ StoredOnceResult r := by
  obtain ⟨s, hpath⟩ := refused_path 3000000 2000000 (by decide) (.inl (by decide))
    (by decide) (by decide) (.inl (by decide)) (by decide)
  have hrun := hpath.mono (fun _ _ h => h.1)
  exact ⟨_, hrun, Run.Path.good_of_meets (fun _ _ h => h.2)
    (run_storedOnce_iff 1 zeroCells length_zeroCells _ _ hrun) hpath hrun⟩

/-- A line that leaves one byte of the buffer is stored twice. -/
theorem long_line_stored_twice :
    ∃ s, Run.Path step Permitted (start kLargeBuffer 1 zeroCells) [lineCall 3999999] (.ok s) ∧
      s.allStored.count 0 = 2 ∧ ¬s.StoredOnce := by
  have hlen := length_lineCall 3999999
  have hpermitted := lineCall_permitted 3999999 (by decide) (by decide)
    (start kLargeBuffer 1 zeroCells)
  obtain ⟨current, hcurrent, hwrite⟩ := start_current 3999999
  have hcopies : Copies kLargeBuffer 0 (lineCall 3999999).line.length := by
    rw [hlen]
    exact .inl (by decide)
  have hroom : current.buffer.writeCount + (lineCall 3999999).line.length ≤ kLargeBuffer := by
    rw [hwrite, hlen]
    decide
  have htight : kLargeBuffer - (current.buffer.writeCount + (lineCall 3999999).line.length) ≤
      threshold (lineCall 3999999).index1 := by
    rw [hwrite, hlen]
    decide
  obtain ⟨s, happend, htwo⟩ := (start_sharded length_zeroCells).append_twice kLargeBuffer_lt
    hpermitted hcurrent hroom (hwrite ▸ hcopies) hcopies htight
  have hstep := (step_of_current hcurrent).trans (congrArg some happend)
  refine ⟨s, .cons hpermitted hstep (.nil s), htwo, ?_⟩
  intro honce
  have hone : s.allStored.count 0 = if 0 < s.calls then 1 else 0 := honce 0
  have htwo' : s.allStored.count 0 = 2 := htwo
  split at hone
  · omega
  · omega

end AsyncLoggingDoubleBuffering

end LibMsf
