import LibMsf.Base.LogStream

/-!
Logging with a background thread: `AsyncLogging` of `base/async_logging.h` and
`base/async_logging.cc`.

Sections under the mutex are single actions; waiting on the condition variable ends at any
time, by a notification, by the timeout or for no reason. What the loop does to its own
variables between two accesses to shared ones is one action too. The output is the stream
of bytes passed to the log file. The constructor leaves `thread_` null, so the model starts
with the loop already running on some thread, as `start` means it to; `stop` is called once.
-/

namespace LibMsf

open Cxx

abbrev LogBuffer := FixedBuffer kLargeBuffer

abbrev BufferPtr := Option LogBuffer

/-- Where the loop is: at the test of `running_`, about to lock the mutex, waiting on the
condition variable, writing buffers from some index on, recycling buffers, or at its end. -/
inductive LoggingPc where
  | head
  | lock
  | waiting
  | write (next : Nat)
  | recycle
  | done
deriving DecidableEq

inductive StopPc where
  | notCalled
  | joining
  | returned
deriving DecidableEq

structure AsyncLogging where
  running : Bool := true
  currentBuffer : BufferPtr := some .new
  nextBuffer : BufferPtr := some .new
  buffers : List BufferPtr := []
  pc : LoggingPc := .head
  newBuffer1 : BufferPtr := some .new
  newBuffer2 : BufferPtr := some .new
  buffersToWrite : List BufferPtr := []
  output : Bytes := []
  stopping : StopPc := .notCalled
  /-- The lines appended so far, one after the other. -/
  appended : Bytes := []

namespace AsyncLogging

def deref (p : BufferPtr) : Except Fault LogBuffer :=
  match p with
  | some b => .ok b
  | none => .error .outOfBounds

def append (s : AsyncLogging) (line : Bytes) : Except Fault AsyncLogging := do
  let current ← deref s.currentBuffer
  if line.length < current.avail then
    return { s with
      currentBuffer := some (current.append line)
      appended := s.appended ++ line }
  else
    let fresh : LogBuffer := s.nextBuffer.getD .new
    return { s with
      buffers := s.buffers ++ [s.currentBuffer]
      nextBuffer := none
      currentBuffer := some (fresh.append line)
      appended := s.appended ++ line }

/-- The section of the loop under the mutex, after the wait. -/
def exchange (s : AsyncLogging) : AsyncLogging :=
  { s with
    buffersToWrite := s.buffers ++ [s.currentBuffer]
    buffers := s.buffersToWrite
    currentBuffer := s.newBuffer1
    newBuffer1 := none
    nextBuffer := if s.nextBuffer.isNone then s.newBuffer2 else s.nextBuffer
    newBuffer2 := if s.nextBuffer.isNone then none else s.newBuffer2
    pc := .write 0 }

def exchangeAndCheck (s : AsyncLogging) : Except Fault AsyncLogging := do
  let s := s.exchange
  assertThat (s.buffersToWrite ≠ [])
  return s

def isEmpty (p : BufferPtr) : Prop := ∃ b, p = some b ∧ b.contents = []

instance (p : BufferPtr) : Decidable (isEmpty p) :=
  match p with
  | none => isFalse (fun ⟨_, h, _⟩ => by cases h)
  | some b => decidable_of_iff (b.contents = [])
      ⟨fun h => ⟨b, rfl, h⟩, fun ⟨_, h, hb⟩ => by cases h; exact hb⟩

def test (s : AsyncLogging) : Except Fault AsyncLogging := do
  if s.running then
    assertThat (isEmpty s.newBuffer1)
    assertThat (isEmpty s.newBuffer2)
    assertThat (s.buffersToWrite = [])
    return { s with pc := .lock }
  else
    return { s with pc := .done }

def writeNext (s : AsyncLogging) (next : Nat) : Except Fault AsyncLogging :=
  match s.buffersToWrite[next]? with
  | some p => do
      let b ← deref p
      return { s with output := s.output ++ b.contents, pc := .write (next + 1) }
  | none => .ok { s with pc := .recycle }

/-- Moving the last buffer out of the vector, and resetting it. -/
def takeBack (toWrite : List BufferPtr) : Except Fault (BufferPtr × List BufferPtr) := do
  assertThat (toWrite ≠ [])
  let b ← deref (toWrite.getLast?.getD none)
  return (some b.reset, toWrite.dropLast)

def refill (p : BufferPtr) (toWrite : List BufferPtr) :
    Except Fault (BufferPtr × List BufferPtr) :=
  if p.isNone then takeBack toWrite else .ok (p, toWrite)

def recycle (s : AsyncLogging) : Except Fault AsyncLogging := do
  let toWrite := if 2 < s.buffersToWrite.length then s.buffersToWrite.take 2 else s.buffersToWrite
  let (newBuffer1, toWrite) ← refill s.newBuffer1 toWrite
  let (newBuffer2, _) ← refill s.newBuffer2 toWrite
  return { s with
    newBuffer1 := newBuffer1
    newBuffer2 := newBuffer2
    buffersToWrite := []
    pc := .head }

inductive Action where
  | append (line : Bytes)
  | test
  | lock
  | wake
  | write
  | recycle
  | stop
  | join

def step (s : AsyncLogging) : Action → Option (Except Fault AsyncLogging)
  | .append line => some (s.append line)
  | .test => if s.pc = .head then some s.test else none
  | .lock =>
      if s.pc = .lock then
        if s.buffers = [] then some (.ok { s with pc := .waiting }) else some s.exchangeAndCheck
      else none
  | .wake => if s.pc = .waiting then some s.exchangeAndCheck else none
  | .write =>
      match s.pc with
      | .write next => some (s.writeNext next)
      | _ => none
  | .recycle => if s.pc = .recycle then some s.recycle else none
  | .stop =>
      if s.stopping = .notCalled then
        some (.ok { s with running := false, stopping := .joining })
      else none
  | .join =>
      if s.stopping = .joining ∧ s.pc = .done then some (.ok { s with stopping := .returned })
      else none

end AsyncLogging

end LibMsf
