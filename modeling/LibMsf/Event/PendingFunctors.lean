import LibMsf.Event.EventLoop
import LibMsf.Library.Path

/-!
The queue of functors of an event loop under every interleaving.

Functors run in the order of their pushes, each once at most. A functor that waits while
the loop thread goes to sleep has a wake-up on its way: the counter of the event descriptor
is positive, or the thread that pushed last has still to write to it. Only the handler of
the wake-up event resets the counter, and the loop swaps the queue between that handler
and its next sleep.
-/

namespace LibMsf

open Cxx

namespace EventLoop

variable {F : Type} {loop : EventLoop F}

def Fresh (loop : EventLoop F) : Prop :=
  loop.pc = .outside ∧ loop.iteration = 0 ∧ loop.callingPendingFunctors = false ∧
    loop.pendingFunctors = [] ∧ loop.pushed = [] ∧ loop.executed = [] ∧
    ∀ t, loop.queueing t = false

/-- At the call to `Poll`, from the second iteration on. -/
def NoLostWakeup (loop : EventLoop F) : Prop :=
  loop.pc = .poll → 1 ≤ loop.iteration → loop.pendingFunctors ≠ [] →
    0 < loop.wakeupFd ∨ ∃ t, t ≠ loop.threadId ∧ loop.queueing t = true

/-- The functors taken out of the queue that still have to run. -/
def LoopPc.taken : LoopPc F → List F
  | .functors rest => rest
  | _ => []

/-- The loop swaps the queue before it sleeps again. -/
def LoopPc.beforeSwap : LoopPc F → Prop
  | .timers _ | .events _ | .swap => True
  | _ => False

/-- The loop thread is in `DoPendingFunctors`. -/
def LoopPc.callsFunctors : LoopPc F → Bool
  | .swap | .functors _ => true
  | _ => false

/-- Somebody has pushed and will write to the event descriptor. -/
def WakeupDue (loop : EventLoop F) : Prop :=
  ∃ t, loop.queueing t = true ∧ (t ≠ loop.threadId ∨ loop.callingPendingFunctors = true)

structure Orderly (loop : EventLoop F) : Prop where
  order : loop.executed ++ LoopPc.taken loop.pc ++ loop.pendingFunctors = loop.pushed
  calling : loop.callingPendingFunctors = LoopPc.callsFunctors loop.pc
  still : loop.pc.runsCallbacks = false → loop.queueing loop.threadId = false
  entered : loop.pc = .outside → loop.iteration = 0
  awake : 1 ≤ loop.iteration → loop.pendingFunctors ≠ [] →
    LoopPc.beforeSwap loop.pc ∨ 0 < loop.wakeupFd ∨ WakeupDue loop

theorem Fresh.orderly (h : Fresh loop) : Orderly loop := by
  obtain ⟨hpc, hiteration, hcalling, hpending, hpushed, hexecuted, hidle⟩ := h
  refine ⟨?_, ?_, ?_, ?_, ?_⟩
  · rw [hpc, hpending, hpushed, hexecuted]
    rfl
  · rw [hpc, hcalling]
    rfl
  · exact fun _ => hidle _
  · exact fun _ => hiteration
  · rw [hpending]
    exact fun _ hne => absurd rfl hne

theorem Orderly.executed_in_order (h : Orderly loop) : loop.executed <+: loop.pushed :=
  ⟨LoopPc.taken loop.pc ++ loop.pendingFunctors, by rw [← List.append_assoc]; exact h.order⟩

theorem Orderly.noLostWakeup (h : Orderly loop) : NoLostWakeup loop := by
  intro hpc hiteration hne
  cases h.awake hiteration hne with
  | inl hbefore =>
      rw [hpc] at hbefore
      exact hbefore.elim
  | inr hrest =>
      cases hrest with
      | inl hpositive => exact .inl hpositive
      | inr hdue =>
          obtain ⟨t, hqueueing, hwill⟩ := hdue
          refine .inr ⟨t, ?_, hqueueing⟩
          rintro rfl
          have hstill := h.still (by rw [hpc]; rfl)
          rw [hstill] at hqueueing
          cases hqueueing

theorem eventfdWrite_pos (counter : Nat) : 0 < eventfdWrite counter := by
  rw [eventfdWrite]
  split
  · omega
  · omega

theorem Orderly.push (h : Orderly loop) {t : ThreadId} (hcan : loop.canCall t) (cb : F) :
    Orderly (loop.push t cb) := by
  refine ⟨?_, h.calling, ?_, h.entered, ?_⟩
  · simp only [EventLoop.push, ← h.order, List.append_assoc]
  · intro hpc
    have hne : loop.threadId ≠ t := by
      intro heq
      have hcallback := hcan.2 heq.symm
      rw [show loop.pc.runsCallbacks = false from hpc] at hcallback
      cases hcallback
    simp only [EventLoop.push, Function.update_of_ne hne]
    exact h.still hpc
  · intro hiteration _
    -- A push by the loop thread outside `DoPendingFunctors` comes before the next swap.
    by_cases hwill : t ≠ loop.threadId ∨ loop.callingPendingFunctors = true
    · exact .inr (.inr ⟨t, Function.update_self _ _ _, hwill⟩)
    · simp only [not_or, not_not, Bool.not_eq_true] at hwill
      refine .inl ?_
      have hcallback := hcan.2 hwill.1
      have hcalling := h.calling
      have hentered := h.entered
      simp only [EventLoop.push] at hiteration ⊢
      cases hpc : loop.pc with
      | outside =>
          rw [hentered hpc] at hiteration
          omega
      | poll =>
          rw [hpc] at hcallback
          cases hcallback
      | swap => exact trivial
      | timers active => exact trivial
      | events active => exact trivial
      | functors rest =>
          rw [hpc, hwill.2] at hcalling
          cases hcalling

theorem Orderly.wakeup (h : Orderly loop) : Orderly loop.wakeup :=
  ⟨h.order, h.calling, h.still, h.entered, fun _ _ => .inr (.inl (eventfdWrite_pos _))⟩

theorem Orderly.notify (h : Orderly loop) (t : ThreadId) : Orderly (loop.notify t) := by
  have hstill : loop.pc.runsCallbacks = false →
      Function.update loop.queueing t false loop.threadId = false := by
    intro hpc
    by_cases heq : loop.threadId = t
    · rw [heq, Function.update_self]
    · rw [Function.update_of_ne heq]
      exact h.still hpc
  simp only [EventLoop.notify]
  split
  · exact ⟨h.order, h.calling, hstill, h.entered, fun _ _ => .inr (.inl (eventfdWrite_pos _))⟩
  · rename_i hwont
    refine ⟨h.order, h.calling, hstill, h.entered, ?_⟩
    intro hiteration hne
    cases h.awake hiteration hne with
    | inl hbefore => exact .inl hbefore
    | inr hrest =>
        cases hrest with
        | inl hpositive => exact .inr (.inl hpositive)
        | inr hdue =>
            obtain ⟨t', hqueueing, hwill⟩ := hdue
            have hother : t' ≠ t := by
              rintro rfl
              exact hwont hwill
            exact .inr (.inr ⟨t', (Function.update_of_ne hother _ _).trans hqueueing, hwill⟩)

/-- On the way to the swap nothing has to be known about wake-ups. -/
theorem Orderly.of_beforeSwap
    (horder : loop.executed ++ LoopPc.taken loop.pc ++ loop.pendingFunctors = loop.pushed)
    (hcalling : loop.callingPendingFunctors = LoopPc.callsFunctors loop.pc)
    (hidle : loop.queueing loop.threadId = false) (hbefore : LoopPc.beforeSwap loop.pc) :
    Orderly loop := by
  refine ⟨horder, hcalling, fun _ => hidle, ?_, fun _ _ => .inl hbefore⟩
  intro hpc
  rw [hpc] at hbefore
  exact hbefore.elim

/-- What a step of the loop thread does, and from where. -/
inductive Advances (loop : EventLoop F) : EventLoop F → Prop where
  | enter (hpc : loop.pc = .outside) : Advances loop { loop with pc := .poll }
  | polled (active : List LoopEvent) (hpc : loop.pc = .poll) :
      Advances loop { loop with pc := .timers active, iteration := loop.iteration + 1 }
  | timed (active : List LoopEvent) (hpc : loop.pc = .timers active) :
      Advances loop { loop with pc := .events active }
  | woken (active : List LoopEvent) (hpc : loop.pc = .events (.wakeup :: active)) :
      Advances loop { loop.handleWakeup with pc := .events active }
  | handled (active : List LoopEvent) (hpc : loop.pc = .events (.other :: active)) :
      Advances loop { loop with pc := .events active }
  | pending (hpc : loop.pc = .events []) :
      Advances loop { loop with pc := .swap, callingPendingFunctors := true }
  | swapped (hpc : loop.pc = .swap) :
      Advances loop { loop with pc := .functors loop.pendingFunctors, pendingFunctors := [] }
  | called (functor : F) (rest : List F) (hpc : loop.pc = .functors (functor :: rest)) :
      Advances loop { loop with pc := .functors rest, executed := loop.executed ++ [functor] }
  | ended (hpc : loop.pc = .functors []) :
      Advances loop { loop with pc := .poll, callingPendingFunctors := false }

theorem advances_of_advance {loop loop' : EventLoop F} {action : Action F}
    (hstep : loop.advance action = some loop') : Advances loop loop' := by
  cases action with
  | queueInLoop | runInLoop | notify | wakeup => cases hstep
  | handleEvent =>
      simp only [EventLoop.advance] at hstep
      split at hstep
      · rename_i active hpc
        cases hstep
        exact .woken active hpc
      · rename_i active hpc
        cases hstep
        exact .handled active hpc
      · cases hstep
  | enterLoop | poll | timerInLoop | doPendingFunctors | swap | callFunctor | endIteration =>
      simp only [EventLoop.advance] at hstep
      split at hstep
      all_goals cases hstep
      constructor
      assumption

/-- At the end of the iteration a wake-up that is due comes from another thread. -/
theorem Orderly.endIteration (h : Orderly loop) (hidle : loop.queueing loop.threadId = false)
    (hpc : loop.pc = .functors []) :
    Orderly { loop with pc := .poll, callingPendingFunctors := false } := by
  have horder := h.order
  have hawake := h.awake
  rw [hpc] at horder hawake
  refine ⟨horder, rfl, fun _ => hidle, ?_, ?_⟩
  · intro hpc'
    cases hpc'
  · intro hiteration hne
    cases hawake hiteration hne with
    | inl hbefore => exact hbefore.elim
    | inr hrest =>
        cases hrest with
        | inl hpositive => exact .inr (.inl hpositive)
        | inr hdue =>
            obtain ⟨t, hqueueing, -⟩ := hdue
            refine .inr (.inr ⟨t, hqueueing, .inl ?_⟩)
            intro heq
            rw [heq, hidle] at hqueueing
            cases hqueueing

/-- Every step of the loop thread keeps the queue in order; those that leave the swap
behind keep the wake-ups. -/
theorem Orderly.advance {loop loop' : EventLoop F} (h : Orderly loop)
    (hidle : loop.queueing loop.threadId = false) (hstep : Advances loop loop') :
    Orderly loop' := by
  have horder := h.order
  have hcalling := h.calling
  have hawake := h.awake
  cases hstep with
  | enter hpc =>
      rw [hpc] at horder hcalling
      refine ⟨horder, hcalling, fun _ => hidle, ?_, ?_⟩
      · intro hpoll
        cases hpoll
      · intro hiteration _
        rw [show loop.iteration = 0 from h.entered hpc] at hiteration
        omega
  | polled active hpc | timed active hpc | woken active hpc | handled active hpc =>
      rw [hpc] at horder hcalling
      exact .of_beforeSwap horder hcalling hidle trivial
  | pending hpc =>
      rw [hpc] at horder
      exact .of_beforeSwap horder rfl hidle trivial
  | swapped hpc =>
      rw [hpc] at horder hcalling
      refine ⟨?_, hcalling, fun _ => hidle, ?_, fun _ hne => absurd rfl hne⟩
      · simpa [LoopPc.taken] using horder
      · intro hpc'
        cases hpc'
  | called functor rest hpc =>
      rw [hpc] at horder hcalling hawake
      refine ⟨?_, hcalling, fun _ => hidle, ?_, hawake⟩
      · simpa [LoopPc.taken] using horder
      · intro hpc'
        cases hpc'
  | ended hpc => exact h.endIteration hidle hpc

theorem Orderly.step {action : Action F} {r : Except Fault (EventLoop F)} (h : Orderly loop)
    (hstep : EventLoop.step loop action = some r) : ∃ loop', r = .ok loop' ∧ Orderly loop' := by
  have hloop : ∀ {action : Action F},
      (if loop.queueing loop.threadId = true then none
        else (loop.advance action).map Except.ok) = some r →
      ∃ loop', r = .ok loop' ∧ Orderly loop' := by
    intro action hstep
    split at hstep
    · cases hstep
    · rename_i hidle
      obtain ⟨loop', hadvance, rfl⟩ := Option.map_eq_some_iff.mp hstep
      exact ⟨loop', rfl, h.advance (by simpa using hidle) (advances_of_advance hadvance)⟩
  cases action with
  | queueInLoop t cb =>
      simp only [EventLoop.step] at hstep
      split at hstep
      · rename_i hcan
        cases hstep
        exact ⟨_, rfl, h.push hcan cb⟩
      · cases hstep
  | runInLoop t cb =>
      simp only [EventLoop.step] at hstep
      split at hstep
      · rename_i hcan
        split at hstep
        · cases hstep
          exact ⟨loop, rfl, h⟩
        · cases hstep
          exact ⟨_, rfl, h.push hcan cb⟩
      · cases hstep
  | notify t =>
      simp only [EventLoop.step] at hstep
      split at hstep
      · cases hstep
        exact ⟨_, rfl, h.notify t⟩
      · cases hstep
  | wakeup t =>
      simp only [EventLoop.step] at hstep
      split at hstep
      · cases hstep
        exact ⟨_, rfl, h.wakeup⟩
      · cases hstep
  | enterLoop => exact hloop hstep
  | poll active => exact hloop hstep
  | timerInLoop => exact hloop hstep
  | handleEvent => exact hloop hstep
  | doPendingFunctors => exact hloop hstep
  | swap => exact hloop hstep
  | callFunctor => exact hloop hstep
  | endIteration => exact hloop hstep

/-- In every interleaving the functors run in the order of their pushes, each once at most,
and the loop never goes to sleep on a queue that nobody will wake it for. -/
theorem run_queued {loop : EventLoop F} (hfresh : Fresh loop) {actions : List (Action F)}
    {r : Except Fault (EventLoop F)}
    (hrun : Run.Path step (fun _ _ => True) loop actions r) :
    ∃ loop', r = .ok loop' ∧ loop'.executed <+: loop'.pushed ∧ NoLostWakeup loop' := by
  have keeps : ∀ (s : EventLoop F) (a : Action F) (r : Except Fault (EventLoop F)), Orderly s →
      True → EventLoop.step s a = some r → ∃ s', r = .ok s' ∧ Orderly s' :=
    fun s a r h _ hstep => h.step hstep
  obtain ⟨loop', hr, h⟩ := hrun.safe keeps hfresh.orderly
  exact ⟨loop', hr, h.executed_in_order, h.noLostWakeup⟩

/-- A functor of another thread queues a second one, which waits when the loop polls again. -/
theorem run_queued_nested :
    ∃ loop', Run.Path step (fun _ _ => True) ({ threadId := 0 } : EventLoop Nat)
        [.enterLoop, .queueInLoop 1 7, .notify 1, .poll [.wakeup], .timerInLoop, .handleEvent,
          .doPendingFunctors, .swap, .callFunctor, .queueInLoop 0 8, .notify 0, .endIteration]
        (.ok loop') ∧
      loop'.pc = .poll ∧ loop'.pendingFunctors = [8] ∧
      loop'.executed <+: loop'.pushed ∧ NoLostWakeup loop' := by
  have hrun : ∃ loop', Run.Path step (fun _ _ => True) ({ threadId := 0 } : EventLoop Nat)
      [.enterLoop, .queueInLoop 1 7, .notify 1, .poll [.wakeup], .timerInLoop, .handleEvent,
        .doPendingFunctors, .swap, .callFunctor, .queueInLoop 0 8, .notify 0, .endIteration]
      (.ok loop') ∧ loop'.pc = .poll ∧ loop'.pendingFunctors = [8] :=
    ⟨_, Run.Path.of_follow rfl, rfl, rfl⟩
  obtain ⟨loop', hpath, hpc, hpending⟩ := hrun
  obtain ⟨_, hr, horder, hwakeup⟩ := run_queued
    ⟨rfl, rfl, rfl, rfl, rfl, rfl, fun _ => rfl⟩ hpath
  cases hr
  exact ⟨loop', hpath, hpc, hpending, horder, hwakeup⟩

end EventLoop

end LibMsf
