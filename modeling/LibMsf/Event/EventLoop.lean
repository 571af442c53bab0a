import LibMsf.Cxx.Memory

/-!
The event loop and its queue of functors: `network/event/event_loop.cc`.

The loop thread is somewhere in `EnterLoop`; the other threads, and the loop thread when
it runs callbacks, are outside `QueueInLoop` or behind the push in it. The sections under
the mutex and the accesses to the event descriptor are single actions. A functor is known
by its name; what callbacks and functors do is any sequence of the calls that they can
make. `pushed` and `executed` are the history of the queue. The loop is never told to quit.
-/

namespace LibMsf

open Cxx

abbrev ThreadId := Nat

/-- An active event is the one of `wakeup_fd_`, with `HandleWakeup` as its callback, or
some other. -/
inductive LoopEvent where
  | wakeup
  | other
deriving DecidableEq

/-- Where the loop thread is: before `EnterLoop`, at the call to `Poll`, in `TimerInLoop`,
among the handlers of the active events, in `DoPendingFunctors` before the swap, or there
with functors left to run. -/
inductive LoopPc (F : Type) where
  | outside
  | poll
  | timers (active : List LoopEvent)
  | events (active : List LoopEvent)
  | swap
  | functors (rest : List F)
deriving DecidableEq

def LoopPc.runsCallbacks {F : Type} : LoopPc F → Bool
  | .poll | .swap => false
  | _ => true

structure EventLoop (F : Type) where
  threadId : ThreadId
  pc : LoopPc F := .outside
  iteration : Nat := 0
  callingPendingFunctors : Bool := false
  pendingFunctors : List F := []
  wakeupFd : Nat := 0
  queueing : ThreadId → Bool := fun _ => false
  pushed : List F := []
  executed : List F := []

namespace EventLoop

variable {F : Type}

/-- Adding one to the counter of an event descriptor fails when it is at its maximum. -/
def eventfdWrite (counter : Nat) : Nat :=
  if counter < 2 ^ 64 - 2 then counter + 1 else counter

def wakeup (loop : EventLoop F) : EventLoop F :=
  { loop with wakeupFd := eventfdWrite loop.wakeupFd }

/-- Reading takes the whole counter, and fails when it is zero. -/
def handleWakeup (loop : EventLoop F) : EventLoop F :=
  { loop with wakeupFd := 0 }

/-- The loop thread can make calls where it runs callbacks; another thread always can. -/
def canCall (loop : EventLoop F) (t : ThreadId) : Prop :=
  loop.queueing t = false ∧ (t = loop.threadId → loop.pc.runsCallbacks = true)

instance (loop : EventLoop F) (t : ThreadId) : Decidable (loop.canCall t) :=
  inferInstanceAs (Decidable (_ ∧ (_ → _)))

/-- The section of `QueueInLoop` under the mutex. -/
def push (loop : EventLoop F) (t : ThreadId) (cb : F) : EventLoop F :=
  { loop with
    pendingFunctors := loop.pendingFunctors ++ [cb]
    queueing := Function.update loop.queueing t true
    pushed := loop.pushed ++ [cb] }

/-- The rest of `QueueInLoop`. -/
def notify (loop : EventLoop F) (t : ThreadId) : EventLoop F :=
  let loop := { loop with queueing := Function.update loop.queueing t false }
  if t ≠ loop.threadId ∨ loop.callingPendingFunctors = true then loop.wakeup else loop

inductive Action (F : Type) where
  | queueInLoop (t : ThreadId) (cb : F)
  | runInLoop (t : ThreadId) (cb : F)
  | notify (t : ThreadId)
  | wakeup (t : ThreadId)
  | enterLoop
  | poll (active : List LoopEvent)
  | timerInLoop
  | handleEvent
  | doPendingFunctors
  | swap
  | callFunctor
  | endIteration

/-- A step of the loop thread in `EnterLoop`. -/
def advance (loop : EventLoop F) : Action F → Option (EventLoop F)
  | .enterLoop =>
      match loop.pc with
      | .outside => some { loop with pc := .poll }
      | _ => none
  | .poll active =>
      match loop.pc with
      | .poll => some { loop with pc := .timers active, iteration := loop.iteration + 1 }
      | _ => none
  | .timerInLoop =>
      match loop.pc with
      | .timers active => some { loop with pc := .events active }
      | _ => none
  | .handleEvent =>
      match loop.pc with
      | .events (.wakeup :: active) => some { loop.handleWakeup with pc := .events active }
      | .events (.other :: active) => some { loop with pc := .events active }
      | _ => none
  | .doPendingFunctors =>
      match loop.pc with
      | .events [] => some { loop with pc := .swap, callingPendingFunctors := true }
      | _ => none
  | .swap =>
      match loop.pc with
      | .swap =>
          some { loop with pc := .functors loop.pendingFunctors, pendingFunctors := [] }
      | _ => none
  | .callFunctor =>
      match loop.pc with
      | .functors (functor :: rest) =>
          some { loop with pc := .functors rest, executed := loop.executed ++ [functor] }
      | _ => none
  | .endIteration =>
      match loop.pc with
      | .functors [] => some { loop with pc := .poll, callingPendingFunctors := false }
      | _ => none
  | _ => none

def step (loop : EventLoop F) (action : Action F) : Option (Except Fault (EventLoop F)) :=
  match action with
  | .queueInLoop t cb => if loop.canCall t then some (.ok (loop.push t cb)) else none
  | .runInLoop t cb =>
      if loop.canCall t then
        -- In the loop thread the callback runs at once and is not queued.
        if t = loop.threadId then some (.ok loop) else some (.ok (loop.push t cb))
      else none
  | .notify t => if loop.queueing t = true then some (.ok (loop.notify t)) else none
  | .wakeup t => if loop.canCall t then some (.ok loop.wakeup) else none
  | action =>
      if loop.queueing loop.threadId = true then none
      else (loop.advance action).map .ok

end EventLoop

end LibMsf
