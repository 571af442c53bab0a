import LibMsf.Cxx.Integers
import LibMsf.Event.TimerFiring

/-!
The timeout that `EnterLoop` hands to `Poll`.

`TimerInLoop` returns the milliseconds to the next deadline as a floating value, and zero
when no timer is left. The loop keeps it in a `uint32_t`, in which zero stands for the
latter alone, and hands it to `Poll` as an `int`, where a negative number stands for no
timeout at all. So a wait of less than a millisecond is taken for no timer, and one of
2^31 milliseconds or more is not limited.
-/

namespace LibMsf

open Cxx

namespace EventLoop

def kPollTimeMs : UInt32 := 10000

/-- `next_exp_time` at the end of an iteration in which `TimerInLoop` returned `r`. -/
def nextExpTime (r : ℚ) : Except Fault UInt32 := do
  let time ← truncateUInt32 r
  return if time = 0 then kPollTimeMs else time

def pollTimeout (r : ℚ) : Except Fault Int := do
  let time ← nextExpTime r
  return signedUInt32 time

/-- The loop takes the value for that of an empty queue. -/
def FallsBack (r : ℚ) : Prop :=
  truncateUInt32 r = .ok 0

/-- With a timer pending, `Poll` is given a limit, at most the time to the deadline rounded
up, and `kPollTimeMs` stands in for that time only when no timer is pending. -/
def PollsInTime (pending : Prop) (r : ℚ) : Prop :=
  ∃ timeout, pollTimeout r = .ok timeout ∧ (pending → 0 ≤ timeout ∧ timeout ≤ ⌈r⌉) ∧
    (FallsBack r → ¬pending)

section Timeout

variable {r : ℚ}

theorem pollTimeout_of_truncate {u : UInt32} (h : truncateUInt32 r = .ok u) (hu : u ≠ 0) :
    pollTimeout r = .ok (signedUInt32 u) := by
  simp only [pollTimeout, nextExpTime, h, ok_bind, if_neg hu, pure_eq_ok]

theorem fallsBack_of_lt (hnonneg : 0 ≤ r) (hlt : r < 1) : FallsBack r := by
  obtain ⟨u, htruncate, hu⟩ := truncateUInt32_of_lt hnonneg (hlt.trans (by norm_num))
  have hzero : ⌊r⌋ = 0 := Int.floor_eq_zero_iff.mpr ⟨hnonneg, hlt⟩
  have hu0 : u = 0 := UInt32.toNat_inj.mp (by rw [UInt32.toNat_zero]; omega)
  rw [FallsBack, htruncate, hu0]

theorem pollTimeout_whole (hone : 1 ≤ r) (hlt : r < 2 ^ 31) :
    pollTimeout r = .ok ⌊r⌋ ∧ ¬FallsBack r := by
  obtain ⟨u, htruncate, hu⟩ :=
    truncateUInt32_of_lt (zero_le_one.trans hone) (hlt.trans (by norm_num))
  have hpos : 1 ≤ ⌊r⌋ := Int.le_floor.mpr (by exact_mod_cast hone)
  have hsmall : ⌊r⌋ < 2 ^ 31 := Int.floor_lt.mpr (by exact_mod_cast hlt)
  have hne : u ≠ 0 := by
    rintro rfl
    rw [UInt32.toNat_zero] at hu
    omega
  refine ⟨?_, fun hfalls => hne (Except.ok.inj (htruncate.symm.trans hfalls))⟩
  rw [pollTimeout_of_truncate htruncate hne, signedUInt32_of_lt (by omega), hu]

theorem pollTimeout_negative (hle : 2 ^ 31 ≤ r) {timeout : Int}
    (h : pollTimeout r = .ok timeout) : timeout < 0 := by
  by_cases hlt : r < 2 ^ 32
  · obtain ⟨u, htruncate, hu⟩ := truncateUInt32_of_lt (le_trans (by norm_num) hle) hlt
    have hbig : 2 ^ 31 ≤ ⌊r⌋ := Int.le_floor.mpr (by exact_mod_cast hle)
    have hne : u ≠ 0 := by
      rintro rfl
      rw [UInt32.toNat_zero] at hu
      omega
    rw [pollTimeout_of_truncate htruncate hne] at h
    rw [← Except.ok.inj h]
    exact signedUInt32_neg (by omega)
  · rw [pollTimeout, nextExpTime, truncateUInt32_overflow (not_lt.mp hlt)] at h
    cases h

end Timeout

/-- For every time to a deadline: the limit is right just when at least one and less than
2^31 whole milliseconds are left. -/
theorem pollsInTime_pending_iff {r : ℚ} (hnonneg : 0 ≤ r) {pending : Prop} (hpending : pending) :
    PollsInTime pending r ↔ 1 ≤ r ∧ r < 2 ^ 31 := by
  constructor
  · rintro ⟨timeout, htimeout, hlimit, hfalls⟩
    refine ⟨not_lt.mp fun hlt => hfalls (fallsBack_of_lt hnonneg hlt) hpending, ?_⟩
    by_contra hge
    exact absurd (hlimit hpending).1
      (not_le.mpr (pollTimeout_negative (not_lt.mp hge) htimeout))
  · rintro ⟨hone, hlt⟩
    obtain ⟨htimeout, hnot⟩ := pollTimeout_whole hone hlt
    refine ⟨⌊r⌋, htimeout, fun _ => ⟨?_, Int.floor_le_ceil r⟩, fun h => absurd h hnot⟩
    exact Int.floor_nonneg.mpr hnonneg

theorem pollsInTime_idle {pending : Prop} (hidle : ¬pending) : PollsInTime pending 0 :=
  ⟨10000, by decide +kernel, fun h => absurd h hidle, fun _ => hidle⟩

end EventLoop

namespace HeapTimer

variable {κ : Type}

/-- The two ways in which `TimerInLoop` returns, whatever the clock showed and the callbacks
did before: with no timer in the queue, or with the first one not expired at the last look
at the clock. -/
inductive Returned (pq : PriorityQueue (TimerItem κ)) : pq.Carrier → ℚ → Prop where
  | empty {q : pq.Carrier} (drained : pq.top q = none) : Returned pq q 0
  | waits {q : pq.Carrier} {largest : TimerItem κ} {currTp : ℚ} (first : pq.top q = some largest)
      (early : largest.isExpired currTp = false) :
      Returned pq q (largest.interval - getDurationMilliSecond largest.expired currTp)

theorem timerInLoop_returned {pq : PriorityQueue (TimerItem κ)} {now : ℚ} {fuel : Nat}
    {q : pq.Carrier} {r : LoopResult κ pq.Carrier} (hr : timerInLoop pq now fuel q = some r) :
    Returned pq r.queue r.wait := by
  induction fuel generalizing q r with
  | zero => cases hr
  | succ fuel ih =>
      simp only [timerInLoop] at hr
      split at hr
      · rename_i hnone
        cases hr
        exact .empty hnone
      · rename_i largest hfirst
        split at hr
        · rename_i hearly
          cases hr
          exact .waits hfirst (by simpa using hearly)
        · obtain ⟨r', hr', rfl⟩ := Option.map_eq_some_iff.mp hr
          exact (ih hr' : Returned pq r'.queue r'.wait)

/-- For every queue that `TimerInLoop` leaves and every value that it returns: the next
`Poll` is given a right timeout just when a pending timer leaves at least one and less than
2^31 milliseconds. -/
theorem pollsInTime_iff (pq : PriorityQueue (TimerItem κ)) (lawful : pq.Lawful TimerItem.Less)
    (q : pq.Carrier) (r : ℚ) (hreturned : Returned pq q r) :
    EventLoop.PollsInTime (pq.contents q ≠ 0) r ↔
      (pq.contents q ≠ 0 → 1 ≤ r ∧ r < 2 ^ 31) := by
  cases hreturned with
  | empty drained =>
      have hidle : ¬pq.contents q ≠ 0 := fun h => h (lawful.top_none q drained)
      exact iff_of_true (EventLoop.pollsInTime_idle hidle) fun h => absurd h hidle
  | @waits largest currTp first early =>
      have hpending : pq.contents q ≠ 0 := by
        rw [(lawful.top_some q largest first).1]
        exact Multiset.cons_ne_zero
      have hnonneg : 0 ≤ largest.interval - getDurationMilliSecond largest.expired currTp := by
        rw [TimerItem.isExpired, decide_eq_false_iff_not, not_lt] at early
        exact sub_nonneg.mpr early
      rw [EventLoop.pollsInTime_pending_iff hnonneg hpending]
      exact ⟨fun h _ => h, fun h => h hpending⟩

/-- A timer of 10 milliseconds, started at time 0. -/
def tenMs : AddTimerCall Nat := ⟨1, 10, .oneshot, 0, 0⟩

theorem timerInLoop_tenMs (now : ℚ) (hearly : ¬tenMs.item.Due now) :
    timerInLoop (lateFirst Nat) now 1 (addTimers (lateFirst Nat) 1024 [tenMs]) =
      some ⟨[], addTimers (lateFirst Nat) 1024 [tenMs], tenMs.item.deadline - now⟩ :=
  timerInLoop_wait (by decide +kernel) hearly 0

/-- With two and a half milliseconds left, `Poll` may sleep for two. -/
theorem pollsInTime_tenMs :
    ∃ r, timerInLoop (lateFirst Nat) (15 / 2) 1 (addTimers (lateFirst Nat) 1024 [tenMs]) = some r ∧
      r.wait = 5 / 2 ∧ EventLoop.PollsInTime ((lateFirst Nat).contents r.queue ≠ 0) r.wait := by
  have hloop := timerInLoop_tenMs (15 / 2) (by decide +kernel)
  have hwait : tenMs.item.deadline - 15 / 2 = 5 / 2 := by decide +kernel
  refine ⟨_, hloop, hwait, ?_⟩
  refine (pollsInTime_iff _ lateFirst_lawful _ _ (timerInLoop_returned hloop)).mpr fun _ => ?_
  simp only [hwait]
  norm_num

/-- Half a millisecond before its deadline the timer is taken for none, and `Poll` may sleep
for ten seconds. -/
theorem half_millisecond_polls_ten_seconds :
    ∃ r, timerInLoop (lateFirst Nat) (19 / 2) 1 (addTimers (lateFirst Nat) 1024 [tenMs]) = some r ∧
      r.wait = 1 / 2 ∧ EventLoop.pollTimeout r.wait = .ok 10000 ∧
      ¬EventLoop.PollsInTime ((lateFirst Nat).contents r.queue ≠ 0) r.wait := by
  have hloop := timerInLoop_tenMs (19 / 2) (by decide +kernel)
  have hwait : tenMs.item.deadline - 19 / 2 = 1 / 2 := by decide +kernel
  refine ⟨_, hloop, hwait, ?_, ?_⟩
  · simp only [hwait]
    decide +kernel
  · simp only [hwait]
    rw [EventLoop.pollsInTime_pending_iff (by norm_num) (by decide +kernel)]
    norm_num

end HeapTimer

end LibMsf
