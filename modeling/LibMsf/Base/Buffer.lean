import LibMsf.Library.Run

/-!
The ring buffer of `base/buffer.h` and `base/buffer.cc`.

The index arithmetic is the `size_t` arithmetic of the source, wrap-around
included, and each `memcpy`, `std::copy` and iovec goes through the checked ranges,
so an index error or a failing `assert` shows up as a fault. One cell always stays
empty to tell a full buffer from an empty one.
-/

namespace LibMsf

open Cxx

structure Buffer where
  buffer : Bytes
  capacity : Nat
  readerIndex : Nat
  writerIndex : Nat
  deriving DecidableEq, Repr

namespace Buffer

/-- The `ssize_t` difference of the indices, moved up by the capacity when negative. -/
def readableBytes (b : Buffer) : Nat :=
  let diff := sizeSub b.writerIndex b.readerIndex
  if 2 ^ 63 ≤ diff then sizeAdd diff b.capacity else diff

def writeableBytes (b : Buffer) : Nat :=
  sizeSub (sizeSub b.capacity 1) b.readableBytes

def new (initialSize : Nat) : Except Fault Buffer := do
  let b : Buffer := ⟨List.replicate initialSize 0, initialSize, 0, 0⟩
  assertThat (b.readableBytes = 0)
  assertThat (b.writeableBytes = sizeSub initialSize 1)
  return b

/-- `none` stands for the result -1. -/
def retrieve (b : Buffer) (len : Nat) : Buffer × Option Nat :=
  if b.readableBytes < len then (b, none)
  else
    let next := sizeAdd b.readerIndex len
    let next := if b.capacity ≤ next then sizeSub next b.capacity else next
    ({ b with readerIndex := next }, some len)

def retrieveAll (b : Buffer) : Buffer :=
  { b with readerIndex := 0, writerIndex := 0 }

/-- The copy that `Receive` and `Remove` make, in one piece or in two. -/
def copyOut (b : Buffer) (len : Nat) : Except Fault Bytes := do
  let next := sizeAdd b.readerIndex len
  if next < b.capacity then
    readAt b.buffer b.readerIndex len
  else
    let first ← readAt b.buffer b.readerIndex (sizeSub b.capacity b.readerIndex)
    let second ← readAt b.buffer 0 (sizeSub next b.capacity)
    return first ++ second

def receive (b : Buffer) (len : Nat) : Except Fault (Option Bytes) := do
  if b.readableBytes < len then
    return none
  else
    return some (← b.copyOut len)

def remove (b : Buffer) (len : Nat) : Except Fault (Buffer × Option Bytes) := do
  if b.readableBytes < len then
    return (b, none)
  else
    let data ← b.copyOut len
    let next := sizeAdd b.readerIndex len
    if next < b.capacity then
      return ({ b with readerIndex := next }, some data)
    else
      return ({ b with readerIndex := sizeSub next b.capacity }, some data)

/-- Move the writer index over bytes that are already in place. -/
def advanceWriter (b : Buffer) (len : Nat) : Except Fault Buffer := do
  let next := sizeAdd b.writerIndex len
  if next < b.capacity then
    return { b with writerIndex := next }
  else
    let b := { b with writerIndex := sizeSub next b.capacity }
    assertThat (b.writerIndex < b.readerIndex)
    return b

def hasWritten (b : Buffer) (len : Nat) : Except Fault Buffer := do
  assertThat (len ≤ b.writeableBytes)
  b.advanceWriter len

def doAppend (b : Buffer) (data : Bytes) : Except Fault Buffer := do
  assertThat (data.length ≤ b.writeableBytes)
  let next := sizeAdd b.writerIndex data.length
  if next < b.capacity then
    let cells ← writeAt b.buffer b.writerIndex data
    { b with buffer := cells }.advanceWriter data.length
  else
    let room := sizeSub b.capacity b.writerIndex
    let cells ← writeAt b.buffer b.writerIndex (data.take room)
    let cells ← writeAt cells 0 (data.drop room)
    { b with buffer := cells }.advanceWriter data.length

def makeSpace (b : Buffer) (len : Nat) : Except Fault Buffer := do
  let readable := b.readableBytes
  let capacity := sizeAdd b.capacity (sizeSub len b.writeableBytes)
  let grown ←
    if b.readerIndex ≤ b.writerIndex then
      pure { b with capacity := capacity, buffer := resize b.buffer capacity }
    else do
      let part1 := sizeSub b.buffer.length b.readerIndex
      let tail ← readAt b.buffer b.readerIndex part1
      let head ← readAt b.buffer 0 b.writerIndex
      let cells ← writeAt (resize [] capacity) 0 tail
      let cells ← writeAt cells part1 head
      pure ⟨cells, capacity, 0, sizeAdd part1 b.writerIndex⟩
  assertThat (readable = grown.readableBytes)
  return grown

def append (b : Buffer) (data : Bytes) : Except Fault Buffer := do
  let b ← if b.writeableBytes < data.length then b.makeSpace data.length else pure b
  b.doAppend data

/-- Size of the array on the stack of `ReadFd`. -/
def extraSize : Nat := 65536

/-- The iovecs of `ReadFd` that point into the buffer: offset and length. -/
def readVec (b : Buffer) : List (Nat × Nat) :=
  if b.readerIndex ≤ b.writerIndex then
    if b.readerIndex = 0 then
      [(b.writerIndex, sizeSub (sizeSub b.capacity 1) b.writerIndex)]
    else if 1 < b.readerIndex then
      [(b.writerIndex, sizeSub b.capacity b.writerIndex), (0, sizeSub b.readerIndex 1)]
    else
      [(b.writerIndex, sizeSub b.capacity b.writerIndex)]
  else
    [(b.writerIndex, sizeSub (sizeSub b.readerIndex 1) b.writerIndex)]

/-- Bytes that a list of iovecs offers. -/
def offered : List (Nat × Nat) → Nat
  | [] => 0
  | (_, len) :: vec => len + offered vec

/-- The kernel fills the iovecs in order; what is left goes to the next one. -/
def scatter : List (Nat × Nat) → Bytes → Bytes → Except Fault (Bytes × Bytes)
  | [], cells, data => .ok (cells, data)
  | (off, len) :: vec, cells, data => do
      let cells ← writeAt cells off (data.take len)
      scatter vec cells (data.drop len)

/-- `arrived` is `none` when `readv` fails. Otherwise `readv` transfers the bytes
that are there, as far as the iovecs offer room for them. -/
def readFd (b : Buffer) (arrived : Option Bytes) : Except Fault (Buffer × Option Bytes) := do
  let writeable := b.writeableBytes
  let vec := b.readVec
  let extra := if writeable < extraSize then extraSize else 0
  if 3 < vec.length + (if writeable < extraSize then 1 else 0) then
    throw .outOfBounds
  match arrived with
  | none => return (b, none)
  | some bytes =>
      let data := bytes.take (offered vec + extra)
      let (cells, rest) ← scatter vec b.buffer data
      let filled := { b with buffer := cells }
      if data.length ≤ writeable then
        return (← filled.hasWritten data.length, some data)
      else
        let full ← filled.hasWritten writeable
        let more ← readAt rest 0 (sizeSub data.length writeable)
        return (← full.append more, some data)

def writeVec (b : Buffer) : List (Nat × Nat) :=
  if b.readerIndex < b.writerIndex then
    [(b.readerIndex, sizeSub b.writerIndex b.readerIndex)]
  else if b.readerIndex = b.writerIndex then []
  else if b.writerIndex ≠ 0 then
    [(b.readerIndex, sizeSub b.capacity b.readerIndex), (0, b.writerIndex)]
  else
    [(b.readerIndex, sizeSub b.capacity b.readerIndex)]

def gather (cells : Bytes) : List (Nat × Nat) → Except Fault Bytes
  | [] => .ok []
  | (off, len) :: vec => do
      let first ← readAt cells off len
      return first ++ (← gather cells vec)

/-- `accepts` is `none` when `writev` fails, else the most it takes. Without
anything to send the source returns 0 before it calls `writev`. -/
def writeFd (b : Buffer) (accepts : Option Nat) : Except Fault (Buffer × Option Bytes) := do
  if b.readerIndex = b.writerIndex then
    return (b, some [])
  let queued ← gather b.buffer b.writeVec
  match accepts with
  | none => return (b, none)
  | some n =>
      let sent := queued.take n
      if 0 < sent.length then
        return ((b.retrieve sent.length).1, some sent)
      else
        return (b, some sent)

end Buffer

inductive BufferOp where
  | append (data : Bytes)
  | retrieve (len : Nat)
  | retrieveAll
  | receive (len : Nat)
  | remove (len : Nat)
  | readFd (arrived : Option Bytes)
  | writeFd (accepts : Option Nat)
  deriving DecidableEq, Repr

inductive BufferReply where
  | done
  | refused
  | count (n : Nat)
  | bytes (data : Bytes)
  deriving DecidableEq, Repr

namespace BufferReply

def ofCount : Option Nat → BufferReply
  | none => .refused
  | some n => .count n

def ofBytes : Option Bytes → BufferReply
  | none => .refused
  | some data => .bytes data

end BufferReply

namespace Buffer

def step (b : Buffer) : BufferOp → Except Fault (Buffer × BufferReply)
  | .append data => do return (← b.append data, .done)
  | .retrieve len => .ok ((b.retrieve len).1, .ofCount (b.retrieve len).2)
  | .retrieveAll => .ok (b.retrieveAll, .done)
  | .receive len => do return (b, .ofBytes (← b.receive len))
  | .remove len => do
      let r ← b.remove len
      return (r.1, .ofBytes r.2)
  | .readFd arrived => do
      let r ← b.readFd arrived
      return (r.1, .ofBytes r.2)
  | .writeFd accepts => do
      let r ← b.writeFd accepts
      return (r.1, .ofBytes r.2)

def run : Buffer → List BufferOp → Except Fault (Buffer × List BufferReply) :=
  Run.execute step

end Buffer

end LibMsf
