import LibMsf.Cxx.Memory
import LibMsf.Cxx.Semaphores

/-!
The reader and writer lock of `base/shm.cc`: the System V part of `ShmManager`.

Any number of processes use one key; each of them runs `InitializeSysv` and then locks and
unlocks. The key is not `IPC_PRIVATE`; the source gives `shm_key_` no value at all, and with
the zero of a static object each process would have a set of its own. The calls to `semget`,
`semctl` and `semop` are single actions. A `semop` that sleeps is an action that cannot be
taken yet; one that a signal interrupts is repeated by the code and changes nothing. `readers`
and `writers` say which process holds what, with an entry for each lock. Processes do not
exit, and the set is not removed.
-/

namespace LibMsf

open Cxx

abbrev ProcId := Nat

/-- The first semaphore is the one of the writers, the second one that of the readers. -/
abbrev Sems := Fin 2 → Nat

/-- Where a process is: before `InitializeSysv`, behind a `semget` that found the set, behind
the `semget` that made it, or behind `InitializeSysv`. -/
inductive ShmPc where
  | start
  | found
  | created
  | ready
deriving DecidableEq

structure ShmLock where
  hasSet : Bool := false
  sems : Sems := fun _ => 0
  pcs : ProcId → ShmPc := fun _ => .start
  readers : List ProcId := []
  writers : List ProcId := []

namespace ShmLock

/-- What a lock function gives its caller. -/
inductive LockReply where
  | returned (held : Bool)
  | threw

def readSops (nowait : Bool) : List (Sembuf (Fin 2)) :=
  [⟨0, 0, nowait⟩, ⟨1, 1, nowait⟩]

def writeSops (nowait : Bool) : List (Sembuf (Fin 2)) :=
  [⟨0, 0, nowait⟩, ⟨1, 0, nowait⟩, ⟨0, 1, nowait⟩]

/-- A call that is repeated when it is interrupted, and returns whether it succeeded. -/
def retried (sops : List (Sembuf (Fin 2))) (sems : Sems) : Option (LockReply × Sems) :=
  match semop sems sops with
  | .done sems' => some (.returned true, sems')
  | .sleeps => none
  | .eagain | .erange => some (.returned false, sems)

/-- A call that is made once, and throws when it fails for another reason than `EAGAIN`. -/
def tried (sops : List (Sembuf (Fin 2))) (sems : Sems) : Option (LockReply × Sems) :=
  match semop sems sops with
  | .done sems' => some (.returned true, sems')
  | .sleeps => none
  | .eagain => some (.returned false, sems)
  | .erange => some (.threw, sems)

def readLock : Sems → Option (LockReply × Sems) := retried (readSops false)

def writeLock : Sems → Option (LockReply × Sems) := retried (writeSops false)

def tryReadLock : Sems → Option (LockReply × Sems) := tried (readSops true)

def tryWriteLock : Sems → Option (LockReply × Sems) := tried (writeSops true)

def unReadLock : Sems → Option (LockReply × Sems) := retried [⟨1, -1, false⟩]

def unWriteLock : Sems → Option (LockReply × Sems) := retried [⟨0, -1, false⟩]

inductive Action where
  | semgetExcl (p : ProcId)
  | semget (p : ProcId)
  | setAll (p : ProcId)
  | readLock (p : ProcId)
  | tryReadLock (p : ProcId)
  | writeLock (p : ProcId)
  | tryWriteLock (p : ProcId)
  | unReadLock (p : ProcId)
  | unWriteLock (p : ProcId)

def setPc (s : ShmLock) (p : ProcId) (pc : ShmPc) : ShmLock :=
  { s with pcs := Function.update s.pcs p pc }

/-- A call of a lock function in a process that is ready, and who holds what after it. -/
def call (s : ShmLock) (p : ProcId) (f : Sems → Option (LockReply × Sems))
    (readers writers : List ProcId) : Option (Except Fault ShmLock) :=
  if s.pcs p = .ready then
    match f s.sems with
    | some (.returned true, sems) =>
        some (.ok { s with sems := sems, readers := readers, writers := writers })
    | some (_, sems) => some (.ok { s with sems := sems })
    | none => none
  else none

def step (s : ShmLock) : Action → Option (Except Fault ShmLock)
  | .semgetExcl p =>
      if s.pcs p = .start then
        if s.hasSet then some (.ok (s.setPc p .found))
        else some (.ok ({ s with hasSet := true, sems := fun _ => 0 }.setPc p .created))
      else none
  | .semget p => if s.pcs p = .found then some (.ok (s.setPc p .ready)) else none
  | .setAll p =>
      if s.pcs p = .created then some (.ok ({ s with sems := fun _ => 0 }.setPc p .ready))
      else none
  | .readLock p => s.call p readLock (p :: s.readers) s.writers
  | .tryReadLock p => s.call p tryReadLock (p :: s.readers) s.writers
  | .writeLock p => s.call p writeLock s.readers (p :: s.writers)
  | .tryWriteLock p => s.call p tryWriteLock s.readers (p :: s.writers)
  | .unReadLock p =>
      if p ∈ s.readers then s.call p unReadLock (s.readers.erase p) s.writers else none
  | .unWriteLock p =>
      if p ∈ s.writers then s.call p unWriteLock s.readers (s.writers.erase p) else none

end ShmLock

end LibMsf
