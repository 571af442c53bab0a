import LibMsf.Cxx.Memory

/-!
The two buffers of `base/log_stream.h`.

`FixedBuffer` is a block that is filled from the front. `CircularBuffer` is the instance of
`CircularBufferTemplate` for one size; it is used by one thread here, so that the atomic
counter is a plain one. A `memcpy` reads the bytes of the line that it names, and no others.
The parameter `len` of `copyToBuffer_` is an `int`, which holds every length that an append
accepts, because `SIZE` is an `int` too.
-/

namespace LibMsf

open Cxx

def kLargeBuffer : Nat := 4000 * 1000

/-- The bytes between `data_` and `cur_`. -/
structure FixedBuffer (size : Nat) where
  contents : Bytes
  fits : contents.length ≤ size

namespace FixedBuffer

variable {size : Nat}

def new : FixedBuffer size := ⟨[], Nat.zero_le size⟩

def avail (b : FixedBuffer size) : Nat := size - b.contents.length

theorem fits_append (b : FixedBuffer size) {line : Bytes} (h : line.length < b.avail) :
    (b.contents ++ line).length ≤ size := by
  rw [avail] at h
  rw [List.length_append]
  omega

def append (b : FixedBuffer size) (line : Bytes) : FixedBuffer size :=
  if h : line.length < b.avail then ⟨b.contents ++ line, b.fits_append h⟩ else b

def reset (_ : FixedBuffer size) : FixedBuffer size := new

theorem append_of_lt {b : FixedBuffer size} {line : Bytes} (h : line.length < b.avail) :
    (b.append line).contents = b.contents ++ line := by
  rw [append, dif_pos h]

end FixedBuffer

/-- The counters run on and are reduced by the mask where a position is needed. -/
structure CircularBuffer (size : Nat) where
  writeCount : Nat := 0
  readCount : Nat := 0
  buffer : Bytes

namespace CircularBuffer

variable {size : Nat}

/-- The constructor sets the counters and leaves the bytes as they are. -/
def new (cells : Bytes) : CircularBuffer size := { buffer := cells }

def capacityMask (size : Nat) : Nat := size - 1

def copyToBuffer (b : CircularBuffer size) (start stop : Nat) (data : Bytes) :
    Except Fault Bytes :=
  let realStart := start &&& capacityMask size
  let realEnd := stop &&& capacityMask size
  if realStart < realEnd then writeAt b.buffer realStart data
  else do
    -- Both copies start at the front of the line.
    let first ← readAt data 0 (size - realStart)
    let cells ← writeAt b.buffer realStart first
    let second ← readAt data 0 realEnd
    writeAt cells 0 second

def zeros (len : Nat) : Bytes := List.replicate len 0

def setZero (b : CircularBuffer size) (originStart len : Nat) : Except Fault Bytes :=
  let overflowLen := sizeSub (sizeSub (sizeAdd originStart len) b.readCount) size
  if overflowLen < len then do
    let realLen := sizeSub (sizeAdd b.readCount size) originStart
    assertThat (realLen = len - overflowLen)
    let realStart := originStart &&& capacityMask size
    let realEnd := sizeAdd originStart realLen &&& capacityMask size
    if realStart < realEnd then writeAt b.buffer realStart (zeros realLen)
    else
      let cells ← writeAt b.buffer realStart (zeros (size - realStart))
      writeAt cells 0 (zeros realEnd)
  else .ok b.buffer

/-- With the remaining space if the line was stored. -/
def append (b : CircularBuffer size) (data : Bytes) :
    Except Fault (CircularBuffer size × Option Nat) := do
  assertThat (0 < data.length)
  let originStart := b.writeCount
  let allocEnd := sizeAdd originStart data.length
  let taken := sizeSub allocEnd b.readCount
  if taken ≤ size then
    let cells ← b.copyToBuffer originStart allocEnd data
    return ({ b with writeCount := allocEnd, buffer := cells }, some (size - taken))
  else
    let cells ← b.setZero originStart data.length
    return ({ b with writeCount := sizeSub allocEnd data.length, buffer := cells }, none)

/-- Where the readable bytes start and how many of them are in one piece. -/
def peek (b : CircularBuffer size) : Except Fault (Option (Nat × Nat)) :=
  if b.readCount < b.writeCount then do
    let readAvail := sizeSub b.writeCount b.readCount
    let start := b.readCount &&& capacityMask size
    let stop := sizeAdd b.readCount readAvail &&& capacityMask size
    let len := if stop ≤ start then size - start else readAvail
    assertThat (len ≤ size)
    return some (start, len)
  else .ok none

def pop (b : CircularBuffer size) (len : Nat) : Except Fault (CircularBuffer size) := do
  assertThat (sizeAdd b.readCount len ≤ b.writeCount)
  return { b with readCount := sizeAdd b.readCount len }

/-- A turn of `WriteCircularToFile` of `base/async_logging.h`, with what is written so far.
A `peek` that finds nothing sets the length to zero, so nothing is done behind the loop. -/
def fetch (s : CircularBuffer size × Bytes) :
    Except Fault ((CircularBuffer size × Bytes) ⊕ (CircularBuffer size × Bytes)) := do
  match ← s.1.peek with
  | some (start, len) =>
      let bytes ← readAt s.1.buffer start len
      let b ← s.1.pop len
      return .inl (b, s.2 ++ bytes)
  | none => return .inr s

end CircularBuffer

inductive CircularOp where
  | append (data : Bytes)
  | peek
  | pop (len : Nat)

inductive CircularReply where
  | stored (remain : Nat)
  | refused
  | bytes (found : Bytes)
  | nothing
  | done

/-- A buffer and how many bytes of the last `peek` are not popped yet. -/
structure CircularSession (size : Nat) where
  buffer : CircularBuffer size
  reported : Nat := 0

namespace CircularSession

variable {size : Nat}

def start (size : Nat) (cells : Bytes) : CircularSession size := { buffer := .new cells }

def step (s : CircularSession size) :
    CircularOp → Except Fault (CircularSession size × CircularReply)
  | .append data => do
      match ← s.buffer.append data with
      | (b, some remain) => return ({ s with buffer := b }, .stored remain)
      | (b, none) => return ({ s with buffer := b }, .refused)
  | .peek => do
      match ← s.buffer.peek with
      | some (start, len) =>
          let found ← readAt s.buffer.buffer start len
          return ({ s with reported := len }, .bytes found)
      | none => return ({ s with reported := 0 }, .nothing)
  | .pop len => do
      let b ← s.buffer.pop len
      return ({ buffer := b, reported := s.reported - len }, .done)

/-- Lines are not empty and have a length of type `size_t`; no more is popped than was
reported. -/
def Permitted (s : CircularSession size) : CircularOp → Prop
  | .append data => 0 < data.length ∧ data.length < 2 ^ 64
  | .peek => True
  | .pop len => len ≤ s.reported

end CircularSession

end LibMsf
