import LibMsf.Base.ThreadPool
import LibMsf.Library.Path

/-!
What `Stop` leaves behind in a thread pool.

`Stop` wakes the workers and not the producers, and a worker that leaves wakes nobody. So a
producer that waits for room when the last worker leaves waits for ever, and so does one that
finds a full queue later; there is no other way to be left behind.
-/

namespace LibMsf

open Cxx

namespace ThreadPool

variable {T : Type}

/-- The pool is stopped and its workers are gone, and a producer waits for room. A
notification that was sent has ended the wait, and none can be pending without a worker. -/
def Abandons (s : ThreadPool T) : Prop :=
  s.running = false ∧ (∀ pc ∈ s.workers, pc = .done) ∧ ∃ pc ∈ s.producers, pc.waits = true

/-- The last worker leaves no producer that waits, and when they are all gone the queue is not
full for a producer that comes to it. -/
def LeavesNobody (s : ThreadPool T) : Action T → Prop
  | .testRunning w => s.running = false →
      (∀ other pc, other ≠ w → s.workers[other]? = some pc → pc = .done) →
        ∀ pc ∈ s.producers, pc.waits = false
  | .addTask _ _ => s.workers ≠ [] → s.running = false → (∀ pc ∈ s.workers, pc = .done) →
      ¬s.isFull
  | .resumeAdd _ => s.running = false → (∀ pc ∈ s.workers, pc = .done) → ¬s.isFull
  | _ => True

/-- A worker leaves only a pool that is stopped, and without workers nobody waits. -/
structure Attended (s : ThreadPool T) : Prop where
  attended : ¬Abandons s
  stopped : ∀ pc ∈ s.workers, pc = .done → s.running = false
  threadless : s.workers = [] → ∀ pc ∈ s.producers, pc = .idle

theorem start_attended (numThreads numProducers maxQueueSize : Nat) :
    Attended (start numThreads numProducers maxQueueSize : ThreadPool T) := by
  refine ⟨?_, ?_, ?_⟩
  · rintro ⟨hrunning, -⟩
    cases hrunning
  · intro pc hpc hdone
    rw [List.eq_of_mem_replicate hpc] at hdone
    cases hdone
  · intro _ pc hpc
    exact List.eq_of_mem_replicate hpc

section Step

variable {s s' : ThreadPool T}

theorem Attended.frame (h : Attended s) (hrunning : s'.running = s.running)
    (hworkers : s'.workers = s.workers) (hproducers : s'.producers = s.producers) :
    Attended s' := by
  refine ⟨?_, ?_, ?_⟩
  · rw [Abandons, hrunning, hworkers, hproducers]
    exact h.attended
  · rw [hrunning, hworkers]
    exact h.stopped
  · rw [hworkers, hproducers]
    exact h.threadless

/-- A worker that is somewhere in its loop looks after the producers. -/
theorem Attended.setWorker (h : Attended s) {w : Nat} {old pc : WorkerPc T}
    (hw : s.workers[w]? = some old) (hpc : pc ≠ .done) : Attended (s.setWorker w pc) := by
  have hlt := (List.getElem?_eq_some_iff.mp hw).1
  have hmem : pc ∈ s.workers.set w pc := List.mem_set hlt pc
  refine ⟨?_, ?_, ?_⟩
  · rintro ⟨-, hgone, -⟩
    exact hpc (hgone pc hmem)
  · intro pc' hpc' hdone
    cases List.mem_or_eq_of_mem_set hpc' with
    | inl hold => exact h.stopped pc' hold hdone
    | inr heq => exact absurd (heq ▸ hdone) hpc
  · intro hempty
    exact absurd hmem (by rw [show s.workers.set w pc = [] from hempty]; exact List.not_mem_nil)

/-- A producer that goes on waits no longer. -/
theorem Attended.setProducer (h : Attended s) {p : Nat} {old pc : ProducerPc T}
    (hp : s.producers[p]? = some old) (hpc : pc.waits = false) (hbusy : pc ≠ .idle → old ≠ .idle) :
    Attended (s.setProducer p pc) := by
  refine ⟨?_, h.stopped, ?_⟩
  · rintro ⟨hrunning, hgone, pc', hmem, hwaits⟩
    cases List.mem_or_eq_of_mem_set hmem with
    | inl hold => exact h.attended ⟨hrunning, hgone, pc', hold, hwaits⟩
    | inr heq =>
        rw [heq, hpc] at hwaits
        cases hwaits
  · intro hempty pc' hmem
    cases List.mem_or_eq_of_mem_set hmem with
    | inl hold => exact h.threadless hempty pc' hold
    | inr heq =>
        rw [heq]
        by_contra hidle
        exact hbusy hidle (h.threadless hempty old (List.mem_of_getElem? hp))

theorem Attended.wakeProducer (h : Attended s) {target : Option Nat}
    (hwake : s.wakeProducer target = some s') : Attended s' := by
  cases wakeProducer_cases hwake with
  | inl heq => exact heq ▸ h
  | inr hwoken =>
      obtain ⟨p, task, hpc, rfl⟩ := hwoken
      exact h.setProducer hpc rfl (fun _ hidle => by cases hidle)

theorem Attended.wakeWorker (h : Attended s) {target : Option Nat}
    (hwake : s.wakeWorker target = some s') : Attended s' := by
  cases wakeWorker_cases hwake with
  | inl heq => exact heq ▸ h
  | inr hwoken =>
      obtain ⟨w, hpc, rfl⟩ := hwoken
      exact h.setWorker hpc (fun hdone => by cases hdone)

theorem Attended.addSection (h : Attended s) {p : Nat} {task : T} {old : ProducerPc T}
    (hp : s.producers[p]? = some old) (hthreads : s.workers ≠ [])
    (hroom : s.running = false → (∀ pc ∈ s.workers, pc = .done) → ¬s.isFull) :
    Attended (s.addSection p task) := by
  rw [ThreadPool.addSection]
  split
  · rename_i hfull
    refine ⟨?_, h.stopped, fun hempty => absurd hempty hthreads⟩
    rintro ⟨hrunning, hgone, -⟩
    exact hroom hrunning hgone hfull
  · split
    · exact h.setProducer hp rfl (fun hidle => absurd rfl hidle)
    · rename_i hrunning
      refine ⟨?_, h.stopped, fun hempty => absurd hempty hthreads⟩
      rintro ⟨hstopped, -⟩
      exact hrunning hstopped

theorem Attended.testRunning (h : Attended s) {w : Nat} (hw : s.workers[w]? = some .head)
    (hleaves : LeavesNobody s (.testRunning w)) :
    Attended (s.setWorker w (if s.running then .get else .done)) := by
  cases hrunning : s.running with
  | true => exact h.setWorker hw (fun hdone => by cases hdone)
  | false =>
      have hlt := (List.getElem?_eq_some_iff.mp hw).1
      refine ⟨?_, fun _ _ _ => hrunning, ?_⟩
      · rintro ⟨-, hgone, pc, hpc, hwaits⟩
        have hothers : ∀ other pc, other ≠ w → s.workers[other]? = some pc → pc = .done := by
          intro other pc hne hother
          have hkept : (s.workers.set w .done)[other]? = some pc :=
            (List.getElem?_set_ne hne.symm).trans hother
          exact hgone pc (List.mem_of_getElem? hkept)
        rw [hleaves hrunning hothers pc hpc] at hwaits
        cases hwaits
      · intro hempty
        have hlength : (s.workers.set w .done).length = 0 := List.length_eq_zero_iff.mpr hempty
        rw [List.length_set] at hlength
        omega

/-- A worker that takes a task, or waits for one, is in its loop; the front of an empty queue
ends the run. -/
theorem Attended.getSection (h : Attended s) {w : Nat} {old : WorkerPc T}
    (hw : s.workers[w]? = some old) (hget : s.getSection w = .ok s') : Attended s' := by
  simp only [ThreadPool.getSection] at hget
  split at hget
  · split at hget
    · cases hget
      exact h.setWorker hw (fun hdone => by cases hdone)
    · cases hget
  · rename_i task rest _
    cases hget
    have hframe : Attended { s with queue := rest, dequeued := s.dequeued ++ [task] } :=
      h.frame rfl rfl rfl
    exact hframe.setWorker hw (fun hdone => by cases hdone)

theorem Attended.stop (h : Attended s) :
    Attended { s with running := false, stopping := .notify } := by
  refine ⟨?_, fun _ _ _ => rfl, h.threadless⟩
  rintro ⟨-, hgone, pc, hpc, hwaits⟩
  cases hrunning : s.running with
  | false => exact h.attended ⟨hrunning, hgone, pc, hpc, hwaits⟩
  | true =>
      cases hworkers : s.workers with
      | nil =>
          rw [h.threadless hworkers pc hpc] at hwaits
          cases hwaits
      | cons worker rest =>
          have hmem : worker ∈ s.workers := hworkers ▸ List.mem_cons_self
          have hstopped := h.stopped worker hmem (hgone worker hmem)
          rw [hrunning] at hstopped
          cases hstopped

theorem Attended.notifyAll (h : Attended s) : Attended { s with
    workers := s.workers.map fun pc => if pc.waits then .woken else pc
    stopping := .join } := by
  have hdone : ∀ pc ∈ s.workers, (if pc.waits then .woken else pc) = .done → pc = .done := by
    intro pc _ heq
    split at heq
    · cases heq
    · exact heq
  refine ⟨?_, ?_, ?_⟩
  · rintro ⟨hrunning, hgone, hwaits⟩
    refine h.attended ⟨hrunning, ?_, hwaits⟩
    exact fun pc hpc => hdone pc hpc (hgone _ (List.mem_map_of_mem hpc))
  · intro pc hpc heq
    obtain ⟨old, hold, rfl⟩ := List.mem_map.mp hpc
    exact h.stopped old hold (hdone old hold heq)
  · intro hempty
    exact h.threadless (List.map_eq_nil_iff.mp hempty)

theorem Attended.step {action : Action T} {r : Except Fault (ThreadPool T)} (h : Attended s)
    (hleaves : LeavesNobody s action) (hstep : ThreadPool.step s action = some r) :
    ∀ s', r = .ok s' → Attended s' := by
  intro s' hr
  cases step_cases hstep with
  | inline _ result =>
      cases hr.symm.trans result
      exact h
  | addTask threads pc result =>
      cases hr.symm.trans result
      exact h.addSection pc threads (hleaves threads)
  | spuriousAdd wake result =>
      cases hr.symm.trans result
      exact h.wakeProducer wake
  | resumeAdd pc result =>
      cases hr.symm.trans result
      refine h.addSection pc (fun hempty => ?_) hleaves
      cases h.threadless hempty _ (List.mem_of_getElem? pc)
  | notifyNotEmpty pc wake result =>
      cases hr.symm.trans result
      exact (h.setProducer pc rfl (fun hidle => absurd rfl hidle)).wakeWorker wake
  | testRunning pc result =>
      cases hr.symm.trans result
      exact h.testRunning pc hleaves
  | getTask pc result => exact h.getSection pc (result.symm.trans hr)
  | spuriousGet wake result =>
      cases hr.symm.trans result
      exact h.wakeWorker wake
  | resumeGet pc result => exact h.getSection pc (result.symm.trans hr)
  | notifyNotFull pc wake result =>
      cases hr.symm.trans result
      exact (h.setWorker pc (fun hdone => by cases hdone)).wakeProducer wake
  | unbounded pc result =>
      cases hr.symm.trans result
      exact h.setWorker pc (fun hdone => by cases hdone)
  | finish pc result =>
      cases hr.symm.trans result
      exact h.setWorker pc (fun hdone => by cases hdone)
  | stop result =>
      cases hr.symm.trans result
      exact h.stop
  | notifyAll result =>
      cases hr.symm.trans result
      exact h.notifyAll
  | join result =>
      cases hr.symm.trans result
      exact h.frame rfl rfl rfl

theorem addSection_abandons {p : Nat} {task : T} {old : ProducerPc T}
    (hp : s.producers[p]? = some old) (hrunning : s.running = false)
    (hgone : ∀ pc ∈ s.workers, pc = .done) (hfull : s.isFull) :
    Abandons (s.addSection p task) := by
  rw [addSection, if_pos hfull]
  refine ⟨hrunning, hgone, .waiting task, ?_, rfl⟩
  exact List.mem_set (List.getElem?_eq_some_iff.mp hp).1 _

theorem step_abandons {action : Action T} {r : Except Fault (ThreadPool T)}
    (hleaves : ¬LeavesNobody s action) (hstep : ThreadPool.step s action = some r) :
    ∃ s', r = .ok s' ∧ Abandons s' := by
  cases step_cases hstep with
  | inline threads result => exact absurd (fun hne => absurd threads hne) hleaves
  | addTask threads pc result =>
      simp only [LeavesNobody, Classical.not_imp, not_not] at hleaves
      obtain ⟨-, hrunning, hgone, hfull⟩ := hleaves
      exact ⟨_, result, addSection_abandons pc hrunning hgone hfull⟩
  | resumeAdd pc result =>
      simp only [LeavesNobody, Classical.not_imp, not_not] at hleaves
      obtain ⟨hrunning, hgone, hfull⟩ := hleaves
      exact ⟨_, result, addSection_abandons pc hrunning hgone hfull⟩
  | @testRunning w pc result =>
      simp only [LeavesNobody, Classical.not_imp, not_forall, Bool.not_eq_false] at hleaves
      obtain ⟨hrunning, hothers, waiting, hmem, hwaits⟩ := hleaves
      refine ⟨_, result, hrunning, ?_, waiting, hmem, hwaits⟩
      intro worker hworker
      rw [hrunning] at hworker
      obtain ⟨i, hi⟩ := List.getElem?_of_mem hworker
      by_cases heq : w = i
      · subst heq
        have hlt := (List.getElem?_eq_some_iff.mp pc).1
        exact (Option.some.inj ((List.getElem?_set_self hlt).symm.trans hi)).symm
      · exact hothers i worker (Ne.symm heq) ((List.getElem?_set_ne heq).symm.trans hi)
  | _ => exact absurd trivial hleaves

end Step

def Attends (r : Except Fault (ThreadPool T)) : Prop :=
  ∀ s, r = .ok s → ¬Abandons s

/-- No producer is left behind in a run just when the last worker of it to leave leaves no
producer that waits, and no producer finds the queue full after that. -/
theorem run_attends_iff (numThreads numProducers maxQueueSize : Nat) (actions : List (Action T))
    (r : Except Fault (ThreadPool T))
    (hrun : Run.Path step (fun _ _ => True) (start numThreads numProducers maxQueueSize)
      actions r) :
    (∀ before after r', actions = before ++ after →
      Run.Path step (fun _ _ => True) (start numThreads numProducers maxQueueSize) before r' →
        Attends r') ↔
      ∀ before action after s, actions = before ++ action :: after →
        Run.Path step (fun _ _ => True) (start numThreads numProducers maxQueueSize) before
          (.ok s) → LeavesNobody s action := by
  refine Run.Path.good_iff_of_faults ?_ ?_ ?_ hrun (start_attended _ _ _)
  · intro s h s' heq
    cases heq
    exact h.attended
  · intro s action r h _ hleaves hstep
    have hnext := h.step hleaves hstep
    exact ⟨fun s' heq => (hnext s' heq).attended, hnext⟩
  · intro s action r _ _ hleaves hstep hattends
    obtain ⟨s', heq, habandons⟩ := step_abandons hleaves hstep
    exact hattends s' heq habandons

/-- The worker takes a task after `Stop` and wakes the producer before it leaves. -/
theorem run_attends_woken_producer :
    ∃ s : ThreadPool Nat, Run.Path step (fun _ _ => True) (start 1 2 1)
        [.testRunning 0, .addTask 0 7, .addTask 1 8, .stop, .getTask 0, .notifyNotFull 0 (some 1),
          .finish 0, .resumeAdd 1, .testRunning 0] (.ok s) ∧
      (s.running = false ∧ ∀ pc ∈ s.workers, pc = .done) ∧ ¬Abandons s := by
  have hrun : ∃ s : ThreadPool Nat, Run.Path step (fun s a => LeavesNobody s a) (start 1 2 1)
      [.testRunning 0, .addTask 0 7, .addTask 1 8, .stop, .getTask 0, .notifyNotFull 0 (some 1),
        .finish 0, .resumeAdd 1, .testRunning 0] (.ok s) ∧
      s.running = false ∧ ∀ pc ∈ s.workers, pc = .done := by
    refine ⟨_, .cons ?_ rfl (.cons ?_ rfl (.cons ?_ rfl (.cons trivial rfl (.cons trivial rfl
      (.cons trivial rfl (.cons trivial rfl (.cons ?_ rfl (.cons ?_ rfl (.nil _))))))))), rfl, ?_⟩
    · exact fun hstopped => by cases hstopped
    · exact fun _ hstopped => by cases hstopped
    · exact fun _ hstopped => by cases hstopped
    · exact fun _ hgone => absurd (hgone _ List.mem_cons_self) (by decide)
    · exact fun _ _ => by decide
    · decide
  obtain ⟨s, hpath, hgone⟩ := hrun
  have hfree := hpath.mono (fun _ _ _ => trivial)
  refine ⟨s, hfree, hgone, ?_⟩
  exact Run.Path.good_of_meets (fun _ _ h => h) (run_attends_iff 1 2 1 _ _ hfree) hpath hfree s rfl

/-- A producer waits for room when `Stop` is called, and the worker leaves. -/
theorem stopped_pool_abandons_producer :
    ∃ s : ThreadPool Nat, Run.Path step (fun _ _ => True) (start 1 2 1)
        [.addTask 0 7, .addTask 1 8, .stop, .notifyAll, .testRunning 0, .join] (.ok s) ∧
      Abandons s := by
  refine ⟨_, Run.Path.of_follow rfl, rfl, ?_, .waiting 8, ?_, rfl⟩
  · decide
  · decide

end ThreadPool

end LibMsf
