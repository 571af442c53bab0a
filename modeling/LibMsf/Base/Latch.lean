import LibMsf.Cxx.Memory

/-!
The latch of `base/latch.cc`, with as many `CountDown` calls as its count and any number of
callers of `Wait` and `WaitFor`.

Sections under the mutex are single actions, and so are the test of `count_` and the
notification in `CountDown`, which are outside it. A caller that waits on the condition variable
goes on after a notification, for no reason, or in `WaitFor` when its time is up, and then takes
the mutex again; `wait_for` may also find by then that the time is up, whatever woke the caller.
`returned` is what the calls gave back, with the count at that moment. A `WaitFor` is late when it
is called at a count of zero.
-/

namespace LibMsf

open Cxx

/-- Where a `CountDown` is: before its section, behind it, before the notification, or out. -/
inductive CountDownPc where
  | start
  | decremented
  | notify
  | returned
deriving DecidableEq

inductive WakeReason where
  | notified
  | spurious
  | expired
deriving DecidableEq

/-- Where a caller is: outside, waiting or woken in `Wait`, waiting or woken in `WaitFor`. -/
inductive LatchPc where
  | idle
  | waiting
  | woken
  | waitingFor (late : Bool)
  | wokenFor (late : Bool) (reason : WakeReason)
deriving DecidableEq

/-- What `notify_all` does to a caller. -/
def LatchPc.notified : LatchPc → LatchPc
  | .waiting => .woken
  | .waitingFor late => .wokenFor late .notified
  | pc => pc

inductive LatchReturn where
  | wait (count : Int)
  | waitFor (result : Bool) (count : Int) (late : Bool)
deriving DecidableEq

structure CountDownLatch where
  count : Int
  downs : List CountDownPc
  callers : List LatchPc
  returned : List LatchReturn := []

namespace CountDownLatch

def start (n numCallers : Nat) : CountDownLatch :=
  { count := n
    downs := List.replicate n .start
    callers := List.replicate numCallers .idle }

def setDown (s : CountDownLatch) (d : Nat) (pc : CountDownPc) : CountDownLatch :=
  { s with downs := s.downs.set d pc }

def setCaller (s : CountDownLatch) (c : Nat) (pc : LatchPc) : CountDownLatch :=
  { s with callers := s.callers.set c pc }

def giveBack (s : CountDownLatch) (c : Nat) (result : LatchReturn) : CountDownLatch :=
  { s with callers := s.callers.set c .idle, returned := s.returned ++ [result] }

/-- The section of `Wait`, from its start or from the end of a wait on. -/
def waitSection (s : CountDownLatch) (c : Nat) : CountDownLatch :=
  if s.count = 0 then s.giveBack c (.wait s.count) else s.setCaller c .waiting

inductive Action where
  | decrement (d : Nat)
  | test (d : Nat)
  | notifyAll (d : Nat)
  | wait (c : Nat)
  | resumeWait (c : Nat)
  | waitFor (c : Nat)
  | wake (c : Nat)
  | expire (c : Nat)
  | resumeFor (c : Nat) (timeout : Bool)

def step (s : CountDownLatch) : Action → Option (Except Fault CountDownLatch)
  | .decrement d =>
      match s.downs[d]? with
      | some .start => some (.ok ({ s with count := s.count - 1 }.setDown d .decremented))
      | _ => none
  | .test d =>
      match s.downs[d]? with
      | some .decremented =>
          some (.ok (s.setDown d (if s.count = 0 then .notify else .returned)))
      | _ => none
  | .notifyAll d =>
      match s.downs[d]? with
      | some .notify =>
          some (.ok ({ s with callers := s.callers.map LatchPc.notified }.setDown d .returned))
      | _ => none
  | .wait c =>
      match s.callers[c]? with
      | some .idle => some (.ok (s.waitSection c))
      | _ => none
  | .resumeWait c =>
      match s.callers[c]? with
      | some .woken => some (.ok (s.waitSection c))
      | _ => none
  | .waitFor c =>
      -- The count is not looked at.
      match s.callers[c]? with
      | some .idle => some (.ok (s.setCaller c (.waitingFor (s.count = 0))))
      | _ => none
  | .wake c =>
      match s.callers[c]? with
      | some .waiting => some (.ok (s.setCaller c .woken))
      | some (.waitingFor late) => some (.ok (s.setCaller c (.wokenFor late .spurious)))
      | _ => none
  | .expire c =>
      match s.callers[c]? with
      | some (.waitingFor late) => some (.ok (s.setCaller c (.wokenFor late .expired)))
      | _ => none
  | .resumeFor c timeout =>
      match s.callers[c]? with
      | some (.wokenFor late reason) =>
          if reason = .expired ∧ timeout = false then none
          else some (.ok (s.giveBack c (.waitFor (!timeout) s.count late)))
      | _ => none

end CountDownLatch

end LibMsf
