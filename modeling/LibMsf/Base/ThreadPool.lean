import LibMsf.Cxx.Memory

/-!
The thread pool of `base/thread_pool.cc`, started and with any number of producers.

Sections under the mutex are single actions, and so is the test of `running_` outside it.
A thread that waits on a condition variable is woken by a notification or for no reason,
and then runs its section again. A notification of one thread wakes one of those that wait,
if there are any; which one is part of the action. A task is known by its name and returns.
`accepted` and `dequeued` are the history of the queue. `Stop` is called once at most.
-/

namespace LibMsf

open Cxx

/-- Where a worker is in `RunInThread`: at the test of `running_`, before the lock of
`GetTask`, waiting for a task, woken, behind the section with a task, in the task, or out. -/
inductive WorkerPc (T : Type) where
  | head
  | get
  | waiting
  | woken
  | took (task : T)
  | call (task : T)
  | done
deriving DecidableEq

/-- Where a producer is: outside `AddTask`, waiting for room, woken, or behind the push. -/
inductive ProducerPc (T : Type) where
  | idle
  | waiting (task : T)
  | woken (task : T)
  | pushed
deriving DecidableEq

def WorkerPc.waits {T : Type} : WorkerPc T → Bool
  | .waiting => true
  | _ => false

def ProducerPc.waits {T : Type} : ProducerPc T → Bool
  | .waiting _ => true
  | _ => false

inductive PoolStopPc where
  | notCalled
  | notify
  | join
  | returned
deriving DecidableEq

structure ThreadPool (T : Type) where
  running : Bool := true
  maxQueueSize : Nat
  queue : List T := []
  workers : List (WorkerPc T)
  producers : List (ProducerPc T)
  stopping : PoolStopPc := .notCalled
  accepted : List T := []
  dequeued : List T := []

namespace ThreadPool

variable {T : Type}

/-- A pool behind `Start`, as it is meant: `Thread::ThreadLoop` only names `loop_cb()` and does
not call what it returns, so that no worker would run. -/
def start (numThreads numProducers maxQueueSize : Nat) : ThreadPool T :=
  { maxQueueSize := maxQueueSize
    workers := List.replicate numThreads .head
    producers := List.replicate numProducers .idle }

def setWorker (s : ThreadPool T) (w : Nat) (pc : WorkerPc T) : ThreadPool T :=
  { s with workers := s.workers.set w pc }

def setProducer (s : ThreadPool T) (p : Nat) (pc : ProducerPc T) : ThreadPool T :=
  { s with producers := s.producers.set p pc }

def isFull (s : ThreadPool T) : Prop :=
  0 < s.maxQueueSize ∧ s.maxQueueSize ≤ s.queue.length

instance (s : ThreadPool T) : Decidable s.isFull := inferInstanceAs (Decidable (_ ∧ _))

/-- The section of `AddTask`, from its start or from the end of a wait on. -/
def addSection (s : ThreadPool T) (p : Nat) (task : T) : ThreadPool T :=
  if s.isFull then s.setProducer p (.waiting task)
  else if s.running = false then s.setProducer p .idle
  else
    { s with queue := s.queue ++ [task], accepted := s.accepted ++ [task] }.setProducer p .pushed

/-- The section of `GetTask`; `front` of an empty queue is a fault. -/
def getSection (s : ThreadPool T) (w : Nat) : Except Fault (ThreadPool T) :=
  match s.queue with
  | [] => if s.running then .ok (s.setWorker w .waiting) else .error .outOfBounds
  | task :: rest =>
      .ok ({ s with queue := rest, dequeued := s.dequeued ++ [task] }.setWorker w (.took task))

/-- A notification of `not_full_`. -/
def wakeProducer (s : ThreadPool T) : Option Nat → Option (ThreadPool T)
  | some p =>
      match s.producers[p]? with
      | some (.waiting task) => some (s.setProducer p (.woken task))
      | _ => none
  | none => if s.producers.any ProducerPc.waits then none else some s

/-- A notification of `not_empty_`. -/
def wakeWorker (s : ThreadPool T) : Option Nat → Option (ThreadPool T)
  | some w =>
      match s.workers[w]? with
      | some .waiting => some (s.setWorker w .woken)
      | _ => none
  | none => if s.workers.any WorkerPc.waits then none else some s

inductive Action (T : Type) where
  | addTask (p : Nat) (task : T)
  | spuriousAdd (p : Nat)
  | resumeAdd (p : Nat)
  | notifyNotEmpty (p : Nat) (target : Option Nat)
  | testRunning (w : Nat)
  | getTask (w : Nat)
  | spuriousGet (w : Nat)
  | resumeGet (w : Nat)
  | notifyNotFull (w : Nat) (target : Option Nat)
  | finish (w : Nat)
  | stop
  | notifyAll
  | join

def step (s : ThreadPool T) : Action T → Option (Except Fault (ThreadPool T))
  | .addTask p task =>
      match s.producers[p]? with
      | some .idle =>
          -- Without threads the caller runs the task.
          if s.workers.isEmpty then some (.ok s) else some (.ok (s.addSection p task))
      | _ => none
  | .spuriousAdd p => (s.wakeProducer (some p)).map .ok
  | .resumeAdd p =>
      match s.producers[p]? with
      | some (.woken task) => some (.ok (s.addSection p task))
      | _ => none
  | .notifyNotEmpty p target =>
      match s.producers[p]? with
      | some .pushed => ((s.setProducer p .idle).wakeWorker target).map .ok
      | _ => none
  | .testRunning w =>
      match s.workers[w]? with
      | some .head => some (.ok (s.setWorker w (if s.running then .get else .done)))
      | _ => none
  | .getTask w =>
      match s.workers[w]? with
      | some .get => some (s.getSection w)
      | _ => none
  | .spuriousGet w => (s.wakeWorker (some w)).map .ok
  | .resumeGet w =>
      match s.workers[w]? with
      | some .woken => some (s.getSection w)
      | _ => none
  | .notifyNotFull w target =>
      match s.workers[w]? with
      | some (.took task) =>
          if 0 < s.maxQueueSize then ((s.setWorker w (.call task)).wakeProducer target).map .ok
          else if target = none then some (.ok (s.setWorker w (.call task))) else none
      | _ => none
  | .finish w =>
      match s.workers[w]? with
      | some (.call _) => some (.ok (s.setWorker w .head))
      | _ => none
  | .stop =>
      if s.stopping = .notCalled then
        some (.ok { s with running := false, stopping := .notify })
      else none
  | .notifyAll =>
      if s.stopping = .notify then
        some (.ok { s with
          workers := s.workers.map fun pc => if pc.waits then .woken else pc
          stopping := .join })
      else none
  | .join =>
      if s.stopping = .join ∧ s.workers.all (fun pc => pc matches .done) then
        some (.ok { s with stopping := .returned })
      else none

section Cases

variable {s s' : ThreadPool T} {r : Except Fault (ThreadPool T)}

theorem wakeProducer_cases {target : Option Nat} (h : s.wakeProducer target = some s') :
    s' = s ∨ ∃ p task, s.producers[p]? = some (.waiting task) ∧
      s' = s.setProducer p (.woken task) := by
  cases target with
  | none =>
      simp only [wakeProducer, Option.ite_none_left_eq_some, Option.some.injEq] at h
      exact .inl h.2.symm
  | some p =>
      simp only [wakeProducer] at h
      split at h
      · rename_i task hpc
        exact .inr ⟨p, task, hpc, (Option.some.inj h).symm⟩
      · cases h

theorem wakeWorker_cases {target : Option Nat} (h : s.wakeWorker target = some s') :
    s' = s ∨ ∃ w, s.workers[w]? = some .waiting ∧ s' = s.setWorker w .woken := by
  cases target with
  | none =>
      simp only [wakeWorker, Option.ite_none_left_eq_some, Option.some.injEq] at h
      exact .inl h.2.symm
  | some w =>
      simp only [wakeWorker] at h
      split at h
      · rename_i hpc
        exact .inr ⟨w, hpc, (Option.some.inj h).symm⟩
      · cases h

/-- What a step does, and where its thread stands when it is taken. -/
inductive Stepped (s : ThreadPool T) (r : Except Fault (ThreadPool T)) : Action T → Prop where
  | inline {p : Nat} {task : T} (threads : s.workers = []) (result : r = .ok s) :
      Stepped s r (.addTask p task)
  | addTask {p : Nat} {task : T} (threads : s.workers ≠ []) (pc : s.producers[p]? = some .idle)
      (result : r = .ok (s.addSection p task)) : Stepped s r (.addTask p task)
  | spuriousAdd {p : Nat} {s' : ThreadPool T} (wake : s.wakeProducer (some p) = some s')
      (result : r = .ok s') : Stepped s r (.spuriousAdd p)
  | resumeAdd {p : Nat} {task : T} (pc : s.producers[p]? = some (.woken task))
      (result : r = .ok (s.addSection p task)) : Stepped s r (.resumeAdd p)
  | notifyNotEmpty {p : Nat} {target : Option Nat} {s' : ThreadPool T}
      (pc : s.producers[p]? = some .pushed)
      (wake : (s.setProducer p .idle).wakeWorker target = some s') (result : r = .ok s') :
      Stepped s r (.notifyNotEmpty p target)
  | testRunning {w : Nat} (pc : s.workers[w]? = some .head)
      (result : r = .ok (s.setWorker w (if s.running then .get else .done))) :
      Stepped s r (.testRunning w)
  | getTask {w : Nat} (pc : s.workers[w]? = some .get) (result : r = s.getSection w) :
      Stepped s r (.getTask w)
  | spuriousGet {w : Nat} {s' : ThreadPool T} (wake : s.wakeWorker (some w) = some s')
      (result : r = .ok s') : Stepped s r (.spuriousGet w)
  | resumeGet {w : Nat} (pc : s.workers[w]? = some .woken) (result : r = s.getSection w) :
      Stepped s r (.resumeGet w)
  | notifyNotFull {w : Nat} {target : Option Nat} {task : T} {s' : ThreadPool T}
      (pc : s.workers[w]? = some (.took task))
      (wake : (s.setWorker w (.call task)).wakeProducer target = some s') (result : r = .ok s') :
      Stepped s r (.notifyNotFull w target)
  | unbounded {w : Nat} {target : Option Nat} {task : T} (pc : s.workers[w]? = some (.took task))
      (result : r = .ok (s.setWorker w (.call task))) : Stepped s r (.notifyNotFull w target)
  | finish {w : Nat} {task : T} (pc : s.workers[w]? = some (.call task))
      (result : r = .ok (s.setWorker w .head)) : Stepped s r (.finish w)
  | stop (result : r = .ok { s with running := false, stopping := .notify }) : Stepped s r .stop
  | notifyAll (result : r = .ok { s with
      workers := s.workers.map fun pc => if pc.waits then .woken else pc
      stopping := .join }) : Stepped s r .notifyAll
  | join (result : r = .ok { s with stopping := .returned }) : Stepped s r .join

theorem step_cases {action : Action T} (h : step s action = some r) : Stepped s r action := by
  cases action with
  | addTask p task =>
      simp only [step] at h
      split at h
      · rename_i hpc
        split at h
        · rename_i hempty
          exact .inline (List.isEmpty_iff.mp hempty) (Option.some.inj h).symm
        · rename_i hempty
          refine .addTask (fun hnil => hempty (List.isEmpty_iff.mpr hnil)) hpc ?_
          exact (Option.some.inj h).symm
      · cases h
  | spuriousAdd p =>
      obtain ⟨s', hwake, hr⟩ := Option.map_eq_some_iff.mp h
      exact .spuriousAdd hwake hr.symm
  | resumeAdd p =>
      simp only [step] at h
      split at h
      · rename_i hpc
        exact .resumeAdd hpc (Option.some.inj h).symm
      · cases h
  | notifyNotEmpty p target =>
      simp only [step] at h
      split at h
      · rename_i hpc
        obtain ⟨s', hwake, hr⟩ := Option.map_eq_some_iff.mp h
        exact .notifyNotEmpty hpc hwake hr.symm
      · cases h
  | testRunning w =>
      simp only [step] at h
      split at h
      · rename_i hpc
        exact .testRunning hpc (Option.some.inj h).symm
      · cases h
  | getTask w =>
      simp only [step] at h
      split at h
      · rename_i hpc
        exact .getTask hpc (Option.some.inj h).symm
      · cases h
  | spuriousGet w =>
      obtain ⟨s', hwake, hr⟩ := Option.map_eq_some_iff.mp h
      exact .spuriousGet hwake hr.symm
  | resumeGet w =>
      simp only [step] at h
      split at h
      · rename_i hpc
        exact .resumeGet hpc (Option.some.inj h).symm
      · cases h
  | notifyNotFull w target =>
      simp only [step] at h
      split at h
      · rename_i hpc
        split at h
        · obtain ⟨s', hwake, hr⟩ := Option.map_eq_some_iff.mp h
          exact .notifyNotFull hpc hwake hr.symm
        · simp only [Option.ite_none_right_eq_some, Option.some.injEq] at h
          exact .unbounded hpc h.2.symm
      · cases h
  | finish w =>
      simp only [step] at h
      split at h
      · rename_i hpc
        exact .finish hpc (Option.some.inj h).symm
      · cases h
  | stop =>
      simp only [step, Option.ite_none_right_eq_some, Option.some.injEq] at h
      exact .stop h.2.symm
  | notifyAll =>
      simp only [step, Option.ite_none_right_eq_some, Option.some.injEq] at h
      exact .notifyAll h.2.symm
  | join =>
      simp only [step, Option.ite_none_right_eq_some, Option.some.injEq] at h
      exact .join h.2.symm

end Cases

end ThreadPool

end LibMsf
