import LibMsf.Cxx.Memory

/-!
The read and write barriers of `base/log_stream.h`, over one vector of states.

Every thread has at most one barrier at a time, as in `AsyncLoggingDoubleBuffering::append`. A
load, a compare-exchange, a `fetch_sub` and a store are single actions; a thread that must wait
loads again. The states are 32-bit words: a reader adds one, and a writer sets a bit.
-/

namespace LibMsf

open Cxx

def WRITE_MASK : Nat := 2 ^ 30

def READ_MASK : Nat := 2 ^ 16 - 1

def IDLE : Nat := 0

/-- Where a thread is. `reading` and `writing` have their barrier, and the others but `idle` are
inside its constructor or destructor. -/
inductive BarrierPc where
  | idle
  | readLoad (j : Nat)
  | readCas (j old : Nat)
  | reading (j : Nat)
  | writeLoad (i : Nat)
  | writeCas (i old : Nat)
  | draining (i : Nat)
  | writing
  | resetting (i : Nat)
deriving DecidableEq

namespace BarrierPc

/-- The second loop of the writer's constructor, from an element on. -/
def drainFrom (size i : Nat) : BarrierPc :=
  if i < size then .draining i else .writing

/-- The first loop. -/
def markFrom (size i : Nat) : BarrierPc :=
  if i < size then .writeLoad i else drainFrom size 0

/-- The loop of the destructor. -/
def resetFrom (size i : Nat) : BarrierPc :=
  if i < size then .resetting i else .idle

end BarrierPc

structure BarrierVector where
  size : Nat
  states : Nat → Nat
  threads : List BarrierPc

namespace BarrierVector

def start (size numThreads : Nat) : BarrierVector :=
  { size := size
    states := fun _ => IDLE
    threads := List.replicate numThreads .idle }

def setThread (s : BarrierVector) (t : Nat) (pc : BarrierPc) : BarrierVector :=
  { s with threads := s.threads.set t pc }

def setState (s : BarrierVector) (j word : Nat) : BarrierVector :=
  { s with states := Function.update s.states j (word % 2 ^ 32) }

/-- What a thread does next in a constructor or destructor. -/
def advance (s : BarrierVector) (t : Nat) : BarrierPc → Option BarrierVector
  | .readLoad j =>
      if s.states j &&& WRITE_MASK ≠ 0 then some s
      else some (s.setThread t (.readCas j (s.states j)))
  | .readCas j old =>
      if s.states j = old then some ((s.setState j (old + 1)).setThread t (.reading j))
      else some (s.setThread t (.readLoad j))
  | .writeLoad i =>
      if s.states i &&& WRITE_MASK = 0 then some (s.setThread t (.writeCas i (s.states i)))
      else some s
  | .writeCas i old =>
      if s.states i = old then
        some ((s.setState i (old ||| WRITE_MASK)).setThread t (.markFrom s.size (i + 1)))
      else some (s.setThread t (.writeLoad i))
  | .draining i =>
      if s.states i &&& READ_MASK ≠ 0 then some s
      else some (s.setThread t (.drainFrom s.size (i + 1)))
  | .resetting i => some ((s.setState i IDLE).setThread t (.resetFrom s.size (i + 1)))
  | .idle | .reading _ | .writing => none

/-- A thread begins a `ReadBarrier` or a `WriteBarrier`, goes on with what it began, or begins to
destroy what it has. A `ReadBarrier` is destroyed by a `fetch_sub`. -/
inductive Action where
  | readBarrier (t j : Nat)
  | writeBarrier (t : Nat)
  | go (t : Nat)
  | destroy (t : Nat)

def step (s : BarrierVector) : Action → Option (Except Fault BarrierVector)
  | .readBarrier t j =>
      match s.threads[t]? with
      | some .idle => if j < s.size then some (.ok (s.setThread t (.readLoad j))) else none
      | _ => none
  | .writeBarrier t =>
      match s.threads[t]? with
      | some .idle => some (.ok (s.setThread t (.markFrom s.size 0)))
      | _ => none
  | .go t =>
      match s.threads[t]? with
      | some pc => (s.advance t pc).map .ok
      | none => none
  | .destroy t =>
      match s.threads[t]? with
      | some (.reading j) =>
          some (.ok ((s.setState j (s.states j + (2 ^ 32 - 1))).setThread t .idle))
      | some .writing => some (.ok (s.setThread t (.resetFrom s.size 0)))
      | _ => none

end BarrierVector

end LibMsf
