import LibMsf.Base.ThreadPool
import LibMsf.Library.Path

/-!
The task queue of a pool under every interleaving.

Tasks leave the queue in the order in which they came, and a bounded queue keeps its bound.
A worker leaves the wait of `GetTask` when a task is there or when the pool was stopped, and
then takes the front of the queue in both cases: a worker that finds the pool stopped and
the queue empty takes the front of nothing.
-/

namespace LibMsf

open Cxx

namespace ThreadPool

variable {T : Type} {s s' : ThreadPool T} {r : Except Fault (ThreadPool T)}

structure InOrder (s : ThreadPool T) : Prop where
  order : s.dequeued ++ s.queue = s.accepted
  bounded : 0 < s.maxQueueSize → s.queue.length ≤ s.maxQueueSize

theorem start_inOrder (numThreads numProducers maxQueueSize : Nat) :
    InOrder (start numThreads numProducers maxQueueSize : ThreadPool T) :=
  ⟨rfl, fun _ => Nat.zero_le _⟩

/-- The threads of the pool have no part in it. -/
theorem InOrder.frame (h : InOrder s) (hqueue : s'.queue = s.queue)
    (haccepted : s'.accepted = s.accepted) (hdequeued : s'.dequeued = s.dequeued)
    (hmax : s'.maxQueueSize = s.maxQueueSize) : InOrder s' := by
  refine ⟨?_, ?_⟩
  · rw [hqueue, haccepted, hdequeued]
    exact h.order
  · rw [hqueue, hmax]
    exact h.bounded

theorem InOrder.setWorker (h : InOrder s) (w : Nat) (pc : WorkerPc T) :
    InOrder (s.setWorker w pc) :=
  h.frame rfl rfl rfl rfl

theorem InOrder.setProducer (h : InOrder s) (p : Nat) (pc : ProducerPc T) :
    InOrder (s.setProducer p pc) :=
  h.frame rfl rfl rfl rfl

theorem InOrder.addSection (h : InOrder s) (p : Nat) (task : T) :
    InOrder (s.addSection p task) := by
  simp only [ThreadPool.addSection]
  split
  · exact h.setProducer p _
  · rename_i hroom
    split
    · exact h.setProducer p _
    · refine InOrder.setProducer ⟨?_, ?_⟩ p _
      · simp only [← h.order, List.append_assoc]
      · intro hpos
        have hlt : s.queue.length < s.maxQueueSize := by
          by_contra hge
          exact hroom ⟨hpos, Nat.le_of_not_lt hge⟩
        simp only [List.length_append, List.length_singleton]
        omega

/-- A worker finds a task, or a pool that is running and makes it wait. -/
theorem InOrder.getSection (h : InOrder s) (w : Nat) (hfinds : s.queue ≠ [] ∨ s.running = true) :
    ∃ s', s.getSection w = .ok s' ∧ InOrder s' := by
  simp only [ThreadPool.getSection]
  split
  · rename_i hqueue
    cases hfinds with
    | inl hne => exact absurd hqueue hne
    | inr hrunning =>
        rw [if_pos hrunning]
        exact ⟨_, rfl, h.setWorker w _⟩
  · rename_i task rest hqueue
    have horder := h.order
    have hbounded := h.bounded
    rw [hqueue] at horder hbounded
    refine ⟨_, rfl, InOrder.setWorker ⟨?_, ?_⟩ w _⟩
    · simp only [List.append_assoc, List.singleton_append]
      exact horder
    · intro hpos
      exact Nat.le_of_succ_le (hbounded hpos)

theorem getSection_of_stopped (w : Nat) (h : ¬(s.queue ≠ [] ∨ s.running = true)) :
    s.getSection w = .error .outOfBounds := by
  simp only [not_or, not_not] at h
  simp only [ThreadPool.getSection, h.1, if_neg h.2]

theorem InOrder.wakeProducer (h : InOrder s) {target : Option Nat}
    (hwake : s.wakeProducer target = some s') : InOrder s' := by
  cases wakeProducer_cases hwake with
  | inl heq => exact heq ▸ h
  | inr hwoken =>
      obtain ⟨p, task, -, rfl⟩ := hwoken
      exact h.setProducer p _

theorem InOrder.wakeWorker (h : InOrder s) {target : Option Nat}
    (hwake : s.wakeWorker target = some s') : InOrder s' := by
  cases wakeWorker_cases hwake with
  | inl heq => exact heq ▸ h
  | inr hwoken =>
      obtain ⟨w, -, rfl⟩ := hwoken
      exact h.setWorker w _

/-- A worker that runs the section of `GetTask` finds a task or a running pool. -/
def FindsTask (s : ThreadPool T) : Action T → Prop
  | .getTask _ | .resumeGet _ => s.queue ≠ [] ∨ s.running = true
  | _ => True

theorem InOrder.step {action : Action T} (h : InOrder s) (hfinds : FindsTask s action)
    (hstep : ThreadPool.step s action = some r) : ∃ s', r = .ok s' ∧ InOrder s' := by
  cases step_cases hstep with
  | inline _ result => exact ⟨s, result, h⟩
  | @addTask p task _ _ result => exact ⟨_, result, h.addSection p task⟩
  | spuriousAdd wake result => exact ⟨_, result, h.wakeProducer wake⟩
  | @resumeAdd p task _ result => exact ⟨_, result, h.addSection p task⟩
  | @notifyNotEmpty p _ _ _ wake result =>
      exact ⟨_, result, (h.setProducer p _).wakeWorker wake⟩
  | @testRunning w _ result => exact ⟨_, result, h.setWorker w _⟩
  | @getTask w _ result => exact result ▸ h.getSection w hfinds
  | spuriousGet wake result => exact ⟨_, result, h.wakeWorker wake⟩
  | @resumeGet w _ result => exact result ▸ h.getSection w hfinds
  | @notifyNotFull w _ _ _ _ wake result =>
      exact ⟨_, result, (h.setWorker w _).wakeProducer wake⟩
  | @unbounded w _ _ _ result => exact ⟨_, result, h.setWorker w _⟩
  | @finish w _ _ result => exact ⟨_, result, h.setWorker w _⟩
  | stop result => exact ⟨_, result, h.frame rfl rfl rfl rfl⟩
  | notifyAll result => exact ⟨_, result, h.frame rfl rfl rfl rfl⟩
  | join result => exact ⟨_, result, h.frame rfl rfl rfl rfl⟩

theorem step_of_no_task {action : Action T} (hfinds : ¬FindsTask s action)
    (hstep : ThreadPool.step s action = some r) : r = .error .outOfBounds := by
  cases action with
  | getTask w | resumeGet w =>
      simp only [ThreadPool.step] at hstep
      split at hstep
      · cases hstep
        exact getSection_of_stopped w hfinds
      · cases hstep
  | _ => exact absurd trivial hfinds

/-- No front of an empty queue was taken, tasks were dequeued in the order in which they
were accepted, each once at most, and the queue keeps its bound. -/
def QueueKept (r : Except Fault (ThreadPool T)) : Prop :=
  ∃ s, r = .ok s ∧ s.dequeued ++ s.queue = s.accepted ∧
    (0 < s.maxQueueSize → s.queue.length ≤ s.maxQueueSize)

/-- The queue is kept throughout a run just when no worker of it runs the section of
`GetTask` on an empty queue after `Stop`. -/
theorem run_queueKept_iff {numThreads numProducers maxQueueSize : Nat}
    {actions : List (Action T)} {r : Except Fault (ThreadPool T)}
    (hrun : Run.Path step (fun _ _ => True) (start numThreads numProducers maxQueueSize)
      actions r) :
    (∀ before after r', actions = before ++ after →
      Run.Path step (fun _ _ => True) (start numThreads numProducers maxQueueSize) before r' →
        QueueKept r') ↔
      ∀ before action after s, actions = before ++ action :: after →
        Run.Path step (fun _ _ => True) (start numThreads numProducers maxQueueSize) before
          (.ok s) → FindsTask s action := by
  refine Run.Path.good_iff ?_ ?_ ?_ hrun (start_inOrder _ _ _)
  · exact fun s h => ⟨s, rfl, h.order, h.bounded⟩
  · exact fun s action r h _ hfinds hstep => h.step hfinds hstep
  · intro s action r _ _ hfinds hstep hkept
    obtain ⟨s', hr, -⟩ := hkept
    cases hr.symm.trans (step_of_no_task hfinds hstep)

/-- Two workers, a bound of one task, and a producer that waits for room. -/
theorem run_queueKept_bounded :
    ∃ r : Except Fault (ThreadPool Nat),
      Run.Path step (fun _ _ => True) (start 2 1 1)
        [.testRunning 0, .getTask 0, .addTask 0 7, .notifyNotEmpty 0 (some 0), .addTask 0 8,
          .resumeGet 0, .notifyNotFull 0 (some 0), .resumeAdd 0] r ∧
      QueueKept r := by
  have hrun : ∃ r : Except Fault (ThreadPool Nat),
      Run.Path step (fun s a => FindsTask s a) (start 2 1 1)
        [.testRunning 0, .getTask 0, .addTask 0 7, .notifyNotEmpty 0 (some 0), .addTask 0 8,
          .resumeGet 0, .notifyNotFull 0 (some 0), .resumeAdd 0] r :=
    ⟨_, .cons trivial rfl (.cons (.inr rfl) rfl (.cons trivial rfl (.cons trivial rfl
      (.cons trivial rfl (.cons (.inr rfl) rfl (.cons trivial rfl (.cons trivial rfl
        (.nil _))))))))⟩
  obtain ⟨r, hpath⟩ := hrun
  have hfree := hpath.mono (fun _ _ _ => trivial)
  refine ⟨r, hfree, ?_⟩
  exact Run.Path.good_of_meets (fun _ _ h => h) (run_queueKept_iff hfree) hpath hfree

/-- `Stop` wakes a worker that waits, and the worker takes the front of an empty queue. -/
theorem stopped_worker_takes_front_of_nothing :
    Run.Path step (fun _ _ => True) (start 1 0 0 : ThreadPool Nat)
        [.testRunning 0, .getTask 0, .stop, .notifyAll, .resumeGet 0] (.error .outOfBounds) ∧
      ¬QueueKept (.error .outOfBounds : Except Fault (ThreadPool Nat)) := by
  refine ⟨Run.Path.of_follow rfl, ?_⟩
  rintro ⟨s, hr, -⟩
  cases hr

end ThreadPool

end LibMsf
