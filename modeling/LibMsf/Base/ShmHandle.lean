import LibMsf.Base.Shm
import LibMsf.Library.Path

/-!
The identifier that `ShmManager` of `base/shm.cc` locks with.

The manager has one field for it. `InitializeSysv` puts the semaphore set there, and
`AllocateShmget` the shared memory segment; the lock functions pass on what they find. What the
kernel answers to the system calls of a call is a parameter of the call. The log lines are left
out, and so is the memory itself.
-/

namespace LibMsf

open Cxx

inductive AllocateMethod where
  | invalid
  | mappingFile
  | mappingMem
  | mappingDevZero
  | sysvShmget
  | posixShmopen
deriving DecidableEq

/-- What the system calls return that one call of the manager makes, by those of their arguments
that the manager chooses. Addresses are numbers, with -1 for `MAP_FAILED`. -/
structure ShmKernel where
  semget : (key : Int) → (excl : Bool) → Int := fun _ _ => -1
  errno : Int := 0
  semctl : (semId : Int) → Int := fun _ => -1
  shmget : (key : Int) → (size : Nat) → Int := fun _ _ => -1
  shmat : (shmId : Int) → Int := fun _ => -1
  shmctl : (shmId : Int) → Int := fun _ => -1
  shmdt : (addr : Int) → Int := fun _ => -1
  openZero : Int := -1
  mmap : (size : Nat) → (fd : Int) → Int := fun _ _ => -1
  munmap : (addr : Int) → (size : Nat) → Int := fun _ _ => -1
  close : (fd : Int) → Int := fun _ => -1
  pageSize : Nat := 0
  shmOpen : (name : String) → Int := fun _ => -1
  ftruncate : (fd : Int) → (size : Nat) → Int := fun _ _ => -1
  shmUnlink : (name : String) → Int := fun _ => -1

structure ShmManager where
  size : Nat
  mapAddr : Int
  allocMethod : AllocateMethod
  semId : Int
  shmKey : Int
  regionSize : Nat := 0
  shmName : String := "posix_shm"
  posixShmAddr : Int := 0

namespace ShmManager

def eexist : Int := 17

def mapFailed : Int := -1

def initializeSysv (m : ShmManager) (k : ShmKernel) : ShmManager × Bool :=
  let m := { m with semId := k.semget m.shmKey true }
  if m.semId < 0 then
    if k.errno ≠ eexist then (m, false)
    else
      let m := { m with semId := k.semget m.shmKey false }
      if m.semId < 0 then (m, false) else (m, true)
  else if k.semctl m.semId < 0 then (m, false)
  else (m, true)

def initializePosix (m : ShmManager) : ShmManager × Bool :=
  (m, true)

def initializeShm (m : ShmManager) (k : ShmKernel) : ShmManager × Bool :=
  match m.allocMethod with
  | .sysvShmget => m.initializeSysv k
  | .posixShmopen => m.initializePosix
  | _ => (m, true)

def allocateMappingFile (m : ShmManager) : ShmManager × Bool :=
  (m, false)

def allocateMappingMem (m : ShmManager) (k : ShmKernel) : ShmManager × Bool :=
  let m := { m with mapAddr := k.mmap m.size (-1) }
  if m.mapAddr = mapFailed then (m, false) else (m, true)

def allocateMappingDevZero (m : ShmManager) (k : ShmKernel) : ShmManager × Bool :=
  if k.openZero = -1 then (m, false)
  else
    let m := { m with mapAddr := k.mmap m.size k.openZero }
    if m.mapAddr = mapFailed then (m, false)
    else if k.close k.openZero < 0 then (m, false)
    else (m, true)

/-- The removal of the segment may fail; that is only logged. -/
def allocateShmget (m : ShmManager) (k : ShmKernel) : ShmManager × Bool :=
  let m := { m with semId := k.shmget m.shmKey m.size }
  if m.semId = -1 then (m, false)
  else
    let m := { m with mapAddr := k.shmat m.semId }
    (m, m.mapAddr ≠ mapFailed)

def allocateShmopen (m : ShmManager) (k : ShmKernel) : ShmManager × Bool :=
  let m := { m with regionSize := k.pageSize }
  let fd := k.shmOpen m.shmName
  if fd < 0 then (m, false)
  else if k.ftruncate fd m.regionSize ≠ 0 then (m, false)
  else
    let m := { m with posixShmAddr := k.mmap m.regionSize fd }
    if m.posixShmAddr = mapFailed then (m, false) else (m, true)

def allocate (m : ShmManager) (k : ShmKernel) : ShmManager × Bool :=
  match m.allocMethod with
  | .mappingFile => m.allocateMappingFile
  | .mappingMem => m.allocateMappingMem k
  | .mappingDevZero => m.allocateMappingDevZero k
  | .sysvShmget => m.allocateShmget k
  | .posixShmopen => m.allocateShmopen k
  | .invalid => (m, false)

/-- A `munmap` or `shmdt` of the mapped memory that fails is only logged. -/
def free (m : ShmManager) (k : ShmKernel) : ShmManager × Bool :=
  match m.allocMethod with
  | .posixShmopen =>
      if k.munmap m.posixShmAddr m.regionSize ≠ 0 then (m, false)
      else if k.shmUnlink m.shmName ≠ 0 then (m, false)
      else (m, true)
  | _ => (m, true)

inductive Call where
  | init (k : ShmKernel)
  | allocate (k : ShmKernel)
  | free (k : ShmKernel)

def perform (m : ShmManager) : Call → ShmManager × Bool
  | .init k => m.initializeShm k
  | .allocate k => m.allocate k
  | .free k => m.free k

/-- The manager, and the semaphore set that the last `Initialize` obtained. -/
structure Session where
  manager : ShmManager
  obtained : Option Int := none

namespace Session

def obtainedAfter (s : Session) (m : ShmManager) : Call → Option Int
  | .init _ => some m.semId
  | _ => s.obtained

def step (s : Session) (call : Call) : Option (Except Fault Session) :=
  let m := (s.manager.perform call).1
  some (.ok { manager := m, obtained := s.obtainedAfter m call })

/-- The segment that is allocated behind an `Initialize` happens to have the number of the
set. -/
def SameNumber (s : Session) : Call → Prop
  | .allocate k =>
      ∀ id, s.obtained = some id → k.shmget s.manager.shmKey s.manager.size = id
  | _ => True

/-- The manager is one for System V memory, and its field holds the set. -/
structure Holding (s : Session) : Prop where
  sysv : s.manager.allocMethod = .sysvShmget
  held : ∀ id, s.obtained = some id → s.manager.semId = id

section Step

variable {s : Session} {call : Call}

theorem initializeSysv_allocMethod (m : ShmManager) (k : ShmKernel) :
    (m.initializeSysv k).1.allocMethod = m.allocMethod := by
  simp only [initializeSysv]
  repeat' split
  all_goals rfl

theorem allocateShmget_fields (m : ShmManager) (k : ShmKernel) :
    (m.allocateShmget k).1.allocMethod = m.allocMethod ∧
      (m.allocateShmget k).1.semId = k.shmget m.shmKey m.size := by
  simp only [allocateShmget]
  split
  · exact ⟨rfl, rfl⟩
  · exact ⟨rfl, rfl⟩

theorem Holding.step (h : Holding s) (hsame : SameNumber s call) {r : Except Fault Session}
    (hstep : Session.step s call = some r) : ∃ s', r = .ok s' ∧ Holding s' := by
  cases hstep
  refine ⟨_, rfl, ?_⟩
  cases call with
  | init k =>
      have heq : s.manager.perform (.init k) = s.manager.initializeSysv k := by
        simp only [perform, ShmManager.initializeShm, h.sysv]
      refine ⟨?_, ?_⟩
      · rw [heq, initializeSysv_allocMethod]
        exact h.sysv
      · intro id hid
        exact Option.some.inj hid
  | allocate k =>
      have heq : s.manager.perform (.allocate k) = s.manager.allocateShmget k := by
        simp only [perform, ShmManager.allocate, h.sysv]
      rw [heq]
      refine ⟨(allocateShmget_fields _ _).1.trans h.sysv, ?_⟩
      intro id hid
      exact (allocateShmget_fields _ _).2.trans (hsame id hid)
  | free k =>
      have heq : s.manager.perform (.free k) = (s.manager, true) := by
        simp only [perform, ShmManager.free, h.sysv]
      rw [heq]
      exact ⟨h.sysv, h.held⟩

end Step

/-- A manager for System V memory that has not been used. -/
def fresh : ShmManager :=
  { size := 4096, mapAddr := 0, allocMethod := .sysvShmget, semId := 0, shmKey := 7 }

end Session

end ShmManager

end LibMsf
