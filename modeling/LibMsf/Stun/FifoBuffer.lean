import LibMsf.Library.Rotation

/-!
The circular byte buffer under the pseudo-TCP stream.

`data_length_` bytes from `read_position_` on, wrapping at the end of the block, are ready to
be read. The cells behind them can be written before they are ready: `WriteOffset` puts bytes
at a distance from the last ready one, and `ConsumeWriteBuffer` makes cells ready without
writing them. The functions are written as the source computes them, with `size_t` sums that
wrap; `tape` is the same buffer as two plain lists.
-/

namespace LibMsf

open Cxx

inductive StreamState where
  | closed
  | opening
  | opened
  deriving DecidableEq, Repr

inductive StreamResult where
  | error
  | success
  | block
  | eos
  deriving DecidableEq, Repr

/-- `a % n`; a division by zero ends the process. -/
def remainder (a n : Nat) : Except Fault Nat :=
  if n = 0 then .error .aborted else .ok (a % n)

theorem remainder_of_pos {a n : Nat} (h : 0 < n) : remainder a n = .ok (a % n) :=
  if_neg (by omega)

structure FifoBuffer where
  state : StreamState
  buffer : Bytes
  bufferLength : Nat
  dataLength : Nat
  readPosition : Nat
  deriving DecidableEq, Repr

namespace FifoBuffer

/-- `new char[size]`: the cells are not set and hold anything. -/
def newBlock (fresh : Nat → UInt8) (size : Nat) : Bytes := (List.range size).map fresh

theorem length_newBlock (fresh : Nat → UInt8) (size : Nat) :
    (newBlock fresh size).length = size := by
  rw [newBlock, List.length_map, List.length_range]

def create (fresh : Nat → UInt8) (size : Nat) : FifoBuffer where
  state := .opened
  buffer := newBlock fresh size
  bufferLength := size
  dataLength := 0
  readPosition := 0

def getBuffered (b : FifoBuffer) : Nat := b.dataLength

def getWriteRemaining (b : FifoBuffer) : Nat := b.bufferLength - b.dataLength

def setCapacity (b : FifoBuffer) (fresh : Nat → UInt8) (size : Nat) :
    Except Fault (FifoBuffer × Bool) :=
  if size < b.dataLength then .ok (b, false)
  else if size ≠ b.bufferLength then do
    let copy := b.dataLength
    let tailCopy := min copy (b.bufferLength - b.readPosition)
    let tail ← readAt b.buffer b.readPosition tailCopy
    let buffer ← writeAt (newBlock fresh size) 0 tail
    let head ← readAt b.buffer 0 (copy - tailCopy)
    let buffer ← writeAt buffer tailCopy head
    return ({ b with buffer := buffer, bufferLength := size, readPosition := 0 }, true)
  else .ok (b, true)

def readOffsetLocked (b : FifoBuffer) (bytes offset : Nat) :
    Except Fault (StreamResult × Bytes) :=
  if b.dataLength ≤ offset then
    .ok (if b.state ≠ .closed then .block else .eos, [])
  else do
    let available := b.dataLength - offset
    let readPosition ← remainder (b.readPosition + offset) b.bufferLength
    let copy := min bytes available
    let tailCopy := min copy (b.bufferLength - readPosition)
    let tail ← readAt b.buffer readPosition tailCopy
    let head ← readAt b.buffer 0 (copy - tailCopy)
    return (.success, tail ++ head)

def writeOffsetLocked (b : FifoBuffer) (data : Bytes) (offset : Nat) :
    Except Fault (FifoBuffer × StreamResult × Nat) :=
  if b.state = .closed then .ok (b, .eos, 0)
  else if b.bufferLength ≤ sizeAdd b.dataLength offset then .ok (b, .block, 0)
  else do
    let available := sizeSub (b.bufferLength - b.dataLength) offset
    let writePosition ← remainder (sizeAdd (b.readPosition + b.dataLength) offset) b.bufferLength
    let copy := min data.length available
    let tailCopy := min copy (b.bufferLength - writePosition)
    let buffer ← writeAt b.buffer writePosition (data.take tailCopy)
    let buffer ← writeAt buffer 0 ((data.take copy).drop tailCopy)
    return ({ b with buffer := buffer }, .success, copy)

def readOffset (b : FifoBuffer) (bytes offset : Nat) : Except Fault (StreamResult × Bytes) :=
  b.readOffsetLocked bytes offset

def writeOffset (b : FifoBuffer) (data : Bytes) (offset : Nat) :
    Except Fault (FifoBuffer × StreamResult × Nat) :=
  b.writeOffsetLocked data offset

def read (b : FifoBuffer) (bytes : Nat) : Except Fault (FifoBuffer × StreamResult × Bytes) := do
  let r ← b.readOffsetLocked bytes 0
  if r.1 = .success then
    let readPosition ← remainder (b.readPosition + r.2.length) b.bufferLength
    return ({ b with readPosition := readPosition, dataLength := b.dataLength - r.2.length },
      r.1, r.2)
  else return (b, r.1, r.2)

def write (b : FifoBuffer) (data : Bytes) : Except Fault (FifoBuffer × StreamResult × Nat) := do
  let r ← b.writeOffsetLocked data 0
  if r.2.1 = .success then
    return ({ r.1 with dataLength := r.1.dataLength + r.2.2 }, r.2.1, r.2.2)
  else return (r.1, r.2.1, r.2.2)

def close (b : FifoBuffer) : FifoBuffer := { b with state := .closed }

/-- The bytes that can be read without wrapping. -/
def getReadData (b : FifoBuffer) : Except Fault Bytes :=
  readAt b.buffer b.readPosition
    (if b.readPosition + b.dataLength ≤ b.bufferLength then b.dataLength
      else b.bufferLength - b.readPosition)

def consumeReadData (b : FifoBuffer) (size : Nat) : Except Fault FifoBuffer := do
  assertThat (size ≤ b.dataLength)
  let readPosition ← remainder (b.readPosition + size) b.bufferLength
  return { b with readPosition := readPosition, dataLength := b.dataLength - size }

/-- The place and the size of the free cells that can be written without wrapping. -/
def getWriteBuffer (b : FifoBuffer) : Except Fault (FifoBuffer × Option (Nat × Nat)) :=
  if b.state = .closed then .ok (b, none)
  else do
    let b := if b.dataLength = 0 then { b with readPosition := 0 } else b
    let writePosition ← remainder (b.readPosition + b.dataLength) b.bufferLength
    let size :=
      if b.readPosition < writePosition ∨ b.dataLength = 0 then b.bufferLength - writePosition
      else b.readPosition - writePosition
    return (b, some (writePosition, size))

def consumeWriteBuffer (b : FifoBuffer) (size : Nat) : Except Fault FifoBuffer := do
  assertThat (size ≤ b.bufferLength - b.dataLength)
  return { b with dataLength := b.dataLength + size }

/-- An object is smaller than half the address space. -/
structure Valid (b : FifoBuffer) : Prop where
  length_buffer : b.buffer.length = b.bufferLength
  dataLength_le : b.dataLength ≤ b.bufferLength
  readPosition_lt : b.readPosition < b.bufferLength
  bufferLength_lt : b.bufferLength < 2 ^ 63

/-- The bytes that can be read, in order, and the free cells behind them. -/
structure Tape where
  readable : Bytes
  ahead : Bytes
  closed : Bool

namespace Tape

/-- The first `k` bytes are read; their cells become free. -/
def drop (t : Tape) (k : Nat) : Tape :=
  { t with readable := t.readable.drop k, ahead := t.ahead ++ t.readable.take k }

/-- Free cells are set. -/
def store (t : Tape) (offset : Nat) (data : Bytes) : Tape :=
  { t with ahead := overwrite t.ahead offset data }

/-- The first `k` free cells become readable as they are. -/
def advance (t : Tape) (k : Nat) : Tape :=
  { t with readable := t.readable ++ t.ahead.take k, ahead := t.ahead.drop k }

/-- As many of the bytes as there is room for. -/
def fitting (t : Tape) (offset : Nat) (data : Bytes) : Bytes :=
  data.take (t.ahead.length - offset)

def readResult (t : Tape) (offset : Nat) : StreamResult :=
  if offset < t.readable.length then .success else if t.closed then .eos else .block

def writeResult (t : Tape) (offset : Nat) : StreamResult :=
  if t.closed then .eos else if offset < t.ahead.length then .success else .block

/-- A closed buffer takes no bytes. -/
def written (t : Tape) (offset : Nat) (data : Bytes) : Nat :=
  if t.closed then 0 else (t.fitting offset data).length

theorem store_nil (t : Tape) (offset : Nat) : t.store offset [] = t := by
  rw [store, overwrite_nil]

/-- Bytes that are stored at the front of the room and then made readable are appended. -/
theorem advance_store (t : Tape) {data : Bytes} :
    (t.store 0 data).advance data.length =
      { t with readable := t.readable ++ data, ahead := t.ahead.drop data.length } := by
  simp only [store, advance, overwrite_front, List.take_left, List.drop_left]

end Tape

def cells (b : FifoBuffer) : Bytes := b.buffer.rotate b.readPosition

def tape (b : FifoBuffer) : Tape where
  readable := b.cells.take b.dataLength
  ahead := b.cells.drop b.dataLength
  closed := decide (b.state = .closed)

end FifoBuffer

end LibMsf
