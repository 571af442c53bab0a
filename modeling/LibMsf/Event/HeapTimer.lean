import LibMsf.Library.PriorityQueue

/-!
The heap timer of `network/event/timer.h` and `timer.cc`.

Times and durations are rational milliseconds and the clock is an argument, so a
call of `TimerInLoop` during which the clock stands still is `timerInLoop` at one
`now`. Callbacks are labels of any type; the timer only decides which of them run
and in which order. The queue is any lawful implementation of
`std::priority_queue` over the source's comparison.
-/

namespace LibMsf

inductive TimerStrategy where
  | oneshot
  | limited
  | persist
deriving DecidableEq, Repr

/-- `id_` and `priority_` are never read and are left out; `expired_` is the time
the timer was started or last re-armed. -/
structure TimerItem (κ : Type) where
  interval : ℚ
  expired : ℚ
  strategy : TimerStrategy
  exeTimes : UInt32
  cb : κ
deriving DecidableEq

def getDurationMilliSecond (t1 t2 : ℚ) : ℚ :=
  t2 - t1

namespace TimerItem

variable {κ : Type}

/-- `operator<`. -/
def Less (a e : TimerItem κ) : Prop :=
  e.expired < a.expired

def isExpired (t : TimerItem κ) (t2 : ℚ) : Bool :=
  decide (t.interval < getDurationMilliSecond t.expired t2)

/-- The constructor leaves `exeTimes_` as it finds the memory. -/
def new (cb : κ) (interval : ℚ) (strategy : TimerStrategy) (clock : ℚ) (memory : UInt32) :
    TimerItem κ :=
  { interval, expired := clock, strategy, exeTimes := memory, cb }

/-- What goes back into the queue after the callback has run. -/
def rearm (t : TimerItem κ) (now : ℚ) : Option (TimerItem κ) :=
  match t.strategy with
  | .persist => some { t with expired := now }
  | .limited =>
      if 0 < t.exeTimes - 1 then some { t with exeTimes := t.exeTimes - 1, expired := now }
      else none
  | .oneshot => none

end TimerItem

/-- One call of `AddTimer`: its arguments, the clock and the memory of the new item. -/
structure AddTimerCall (κ : Type) where
  cb : κ
  interval : ℚ
  strategy : TimerStrategy
  clock : ℚ
  memory : UInt32

def AddTimerCall.item {κ : Type} (c : AddTimerCall κ) : TimerItem κ :=
  .new c.cb c.interval c.strategy c.clock c.memory

namespace HeapTimer

variable {κ : Type} (pq : PriorityQueue (TimerItem κ))

def addTimer (maxTimer : Nat) (q : pq.Carrier) (c : AddTimerCall κ) : pq.Carrier :=
  if maxTimer < pq.size q then q else pq.push q c.item

def addTimers (maxTimer : Nat) (calls : List (AddTimerCall κ)) : pq.Carrier :=
  calls.foldl (addTimer pq maxTimer) pq.empty

/-- Pop the fired timer and push it again if its strategy re-arms it. -/
def requeue (now : ℚ) (q : pq.Carrier) (largest : TimerItem κ) : pq.Carrier :=
  match largest.rearm now with
  | none => pq.pop q
  | some again => pq.push (pq.pop q) again

structure LoopResult (κ : Type) (Queue : Type) where
  ran : List κ
  queue : Queue
  wait : ℚ

/-- The callbacks run in order, the queue at return and the returned value; `none`
when the fuel does not suffice. -/
def timerInLoop (now : ℚ) : Nat → pq.Carrier → Option (LoopResult κ pq.Carrier)
  | 0, _ => none
  | fuel + 1, q =>
      match pq.top q with
      | none => some ⟨[], q, 0⟩
      | some largest =>
          if !largest.isExpired now then
            some ⟨[], q, largest.interval - getDurationMilliSecond largest.expired now⟩
          else
            (timerInLoop now fuel (requeue pq now q largest)).map fun r =>
              { r with ran := largest.cb :: r.ran }

end HeapTimer

end LibMsf
