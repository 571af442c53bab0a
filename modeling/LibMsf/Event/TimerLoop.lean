import LibMsf.Event.HeapTimer

/-!
The loop of `TimerInLoop` over any lawful queue.

One turn pops the top timer and may push it again with the current time as its
start. The lemmas say what this does to the timers in the queue, to those that are
due and to those that will be left, and then what a whole call does when the due
timers were started before the others. Nothing here says that they were.
-/

namespace LibMsf

open PriorityQueue

namespace TimerItem

variable {κ : Type}

def deadline (t : TimerItem κ) : ℚ :=
  t.expired + t.interval

def Due (now : ℚ) (t : TimerItem κ) : Prop :=
  t.deadline < now

instance (now : ℚ) : DecidablePred (Due (κ := κ) now) :=
  fun t => inferInstanceAs (Decidable (t.deadline < now))

theorem isExpired_iff (t : TimerItem κ) (now : ℚ) : t.isExpired now = true ↔ t.Due now := by
  rw [isExpired, decide_eq_true_iff, getDurationMilliSecond, Due, deadline, lt_sub_iff_add_lt']

theorem rearm_some {t t' : TimerItem κ} {now : ℚ} (h : t.rearm now = some t') :
    t'.expired = now ∧ t'.interval = t.interval := by
  unfold rearm at h
  split at h
  · cases h; exact ⟨rfl, rfl⟩
  · split at h
    · cases h; exact ⟨rfl, rfl⟩
    · cases h
  · cases h

theorem not_due_of_rearm {t t' : TimerItem κ} {now : ℚ} (hnonneg : 0 ≤ t.interval)
    (h : t.rearm now = some t') : ¬t'.Due now := by
  obtain ⟨hstart, hinterval⟩ := rearm_some h
  simp only [Due, deadline, hstart, hinterval]
  linarith

theorem expired_lt_of_due {t : TimerItem κ} {now : ℚ} (hnonneg : 0 ≤ t.interval)
    (h : t.Due now) : t.expired < now := by
  simp only [Due, deadline] at h
  linarith

end TimerItem

namespace HeapTimer

variable {κ : Type}

/-- The timers that a list of `AddTimer` calls asks for. -/
def added (calls : List (AddTimerCall κ)) : Multiset (TimerItem κ) :=
  calls.map AddTimerCall.item

theorem added_nonneg {calls : List (AddTimerCall κ)} (h : ∀ c ∈ calls, 0 ≤ c.interval) :
    ∀ t ∈ added calls, 0 ≤ t.interval := by
  simpa [added, AddTimerCall.item, TimerItem.new] using h

/-- The timers in the queue once every due one has run. -/
def remaining (now : ℚ) (timers : Multiset (TimerItem κ)) : Multiset (TimerItem κ) :=
  timers.filter (fun t => ¬t.Due now) +
    (timers.filter (TimerItem.Due now)).filterMap (TimerItem.rearm · now)

/-- Every due timer was started before every timer that is not due. -/
def DueStartedFirst (now : ℚ) (timers : Multiset (TimerItem κ)) : Prop :=
  ∀ t ∈ timers, ∀ u ∈ timers, t.Due now → ¬u.Due now → t.expired < u.expired

theorem remaining_cons_of_not_due {now : ℚ} {u : TimerItem κ} (hdue : ¬u.Due now)
    (timers : Multiset (TimerItem κ)) :
    remaining now (u ::ₘ timers) = u ::ₘ remaining now timers := by
  simp [remaining, hdue]

theorem remaining_cons_of_due {now : ℚ} {t : TimerItem κ} (hdue : t.Due now)
    (timers : Multiset (TimerItem κ)) :
    remaining now (t ::ₘ timers) =
      (t.rearm now).elim (remaining now timers) (· ::ₘ remaining now timers) := by
  cases h : t.rearm now with
  | none =>
      simp [remaining, hdue, Multiset.filterMap_cons_none (f := (TimerItem.rearm · now)) t _ h]
  | some again =>
      simp [remaining, hdue, Multiset.filterMap_cons_some (TimerItem.rearm · now) _ _ h]

section Loop

variable {pq : PriorityQueue (TimerItem κ)} {now : ℚ} {q : pq.Carrier} {t u : TimerItem κ}

theorem timerInLoop_wait (htop : pq.top q = some t) (hdue : ¬t.Due now) (fuel : Nat) :
    timerInLoop pq now (fuel + 1) q = some ⟨[], q, t.deadline - now⟩ := by
  have hexp : t.isExpired now = false := by
    rw [← Bool.not_eq_true, TimerItem.isExpired_iff]
    exact hdue
  simp only [timerInLoop, htop, hexp, Bool.not_false, if_true, getDurationMilliSecond,
    TimerItem.deadline, Option.some.injEq, LoopResult.mk.injEq, true_and]
  ring

theorem timerInLoop_fire (htop : pq.top q = some t) (hdue : t.Due now) (fuel : Nat) :
    timerInLoop pq now (fuel + 1) q =
      (timerInLoop pq now fuel (requeue pq now q t)).map fun r =>
        { r with ran := t.cb :: r.ran } := by
  have hexp : t.isExpired now = true := (t.isExpired_iff now).mpr hdue
  simp only [timerInLoop, htop, hexp, Bool.not_true, Bool.false_eq_true, if_false]

theorem timerInLoop_mono {fuel fuel' : Nat} (hle : fuel ≤ fuel') {r : LoopResult κ pq.Carrier}
    (hr : timerInLoop pq now fuel q = some r) : timerInLoop pq now fuel' q = some r := by
  induction fuel generalizing fuel' q r with
  | zero => cases hr
  | succ fuel ih =>
      obtain ⟨fuel', rfl⟩ : ∃ k, fuel' = k + 1 := ⟨fuel' - 1, by omega⟩
      cases htop : pq.top q with
      | none => simpa only [timerInLoop, htop] using hr
      | some t =>
          by_cases hdue : t.Due now
          · rw [timerInLoop_fire htop hdue, Option.map_eq_some_iff] at hr
            obtain ⟨r', hr', rfl⟩ := hr
            rw [timerInLoop_fire htop hdue, ih (by omega) hr', Option.map_some]
          · rwa [timerInLoop_wait htop hdue] at hr ⊢

variable (lawful : pq.Lawful TimerItem.Less)
include lawful

theorem contents_addTimers (maxTimer : Nat) (calls : List (AddTimerCall κ))
    (hlen : calls.length ≤ maxTimer) :
    pq.contents (addTimers pq maxTimer calls) = added calls := by
  suffices h : ∀ q : pq.Carrier, Multiset.card (pq.contents q) + calls.length ≤ maxTimer →
      pq.contents (calls.foldl (addTimer pq maxTimer) q) =
        added calls + pq.contents q by
    simpa [addTimers, lawful.contents_empty] using
      h pq.empty (by simpa [lawful.contents_empty] using hlen)
  clear hlen
  induction calls with
  | nil => intro q _; simp [added]
  | cons c calls ih =>
      intro q hq
      rw [List.length_cons] at hq
      have hpush : addTimer pq maxTimer q c = pq.push q c.item := by
        rw [addTimer, if_neg]
        rw [lawful.size_eq]
        omega
      rw [List.foldl_cons, hpush, ih]
      · rw [lawful.contents_push, added, added, List.map_cons, ← Multiset.cons_coe,
          Multiset.add_cons, Multiset.cons_add]
      · rw [lawful.contents_push, Multiset.card_cons]
        omega

section Requeue

theorem mem_contents_requeue (htop : pq.top q = some t) (h : u ∈ pq.contents (requeue pq now q t)) :
    u ∈ pq.contents q ∨ t.rearm now = some u := by
  rw [(lawful.top_some q t htop).1, Multiset.mem_cons]
  unfold requeue at h
  split at h
  · exact .inl (.inr h)
  · rename_i again hrearm
    rw [lawful.contents_push, Multiset.mem_cons] at h
    rcases h with rfl | h
    · exact .inr hrearm
    · exact .inl (.inr h)

theorem mem_requeue_of_ne (htop : pq.top q = some t) (h : u ∈ pq.contents q) (hne : u ≠ t) :
    u ∈ pq.contents (requeue pq now q t) := by
  rw [(lawful.top_some q t htop).1, Multiset.mem_cons] at h
  have hpop := h.resolve_left hne
  unfold requeue
  split
  · exact hpop
  · rw [lawful.contents_push]
    exact Multiset.mem_cons_of_mem hpop

theorem filter_due_requeue (htop : pq.top q = some t) (hnonneg : 0 ≤ t.interval)
    (hdue : t.Due now) :
    (pq.contents q).filter (TimerItem.Due now) =
      t ::ₘ (pq.contents (requeue pq now q t)).filter (TimerItem.Due now) := by
  rw [(lawful.top_some q t htop).1, Multiset.filter_cons_of_pos _ hdue]
  unfold requeue
  split
  · rfl
  · rename_i again hrearm
    rw [lawful.contents_push,
      Multiset.filter_cons_of_neg _ (TimerItem.not_due_of_rearm hnonneg hrearm)]

theorem remaining_requeue (htop : pq.top q = some t) (hnonneg : 0 ≤ t.interval)
    (hdue : t.Due now) :
    remaining now (pq.contents (requeue pq now q t)) = remaining now (pq.contents q) := by
  rw [(lawful.top_some q t htop).1, remaining_cons_of_due hdue, requeue]
  cases hrearm : t.rearm now with
  | none => rfl
  | some again =>
      have hnot := TimerItem.not_due_of_rearm hnonneg hrearm
      simp only [lawful.contents_push, remaining_cons_of_not_due hnot, Option.elim_some]

theorem nonneg_requeue (htop : pq.top q = some t)
    (hnonneg : ∀ u ∈ pq.contents q, 0 ≤ u.interval) :
    ∀ u ∈ pq.contents (requeue pq now q t), 0 ≤ u.interval := by
  intro u hu
  rcases mem_contents_requeue lawful htop hu with hu | hrearm
  · exact hnonneg u hu
  · rw [(TimerItem.rearm_some hrearm).2]
    exact hnonneg t (by rw [(lawful.top_some q t htop).1]; exact Multiset.mem_cons_self t _)

theorem dueStartedFirst_requeue (htop : pq.top q = some t)
    (hnonneg : ∀ u ∈ pq.contents q, 0 ≤ u.interval)
    (hfirst : DueStartedFirst now (pq.contents q)) :
    DueStartedFirst now (pq.contents (requeue pq now q t)) := by
  have hmem : t ∈ pq.contents q := by
    rw [(lawful.top_some q t htop).1]
    exact Multiset.mem_cons_self t _
  intro a ha u hu hadue hudue
  rcases mem_contents_requeue lawful htop ha with ha | hrearm
  · rcases mem_contents_requeue lawful htop hu with hu | hrearm
    · exact hfirst a ha u hu hadue hudue
    · rw [(TimerItem.rearm_some hrearm).1]
      exact TimerItem.expired_lt_of_due (hnonneg a ha) hadue
  · exact absurd hadue (TimerItem.not_due_of_rearm (hnonneg t hmem) hrearm)

end Requeue

theorem mem_of_top (htop : pq.top q = some t) : t ∈ pq.contents q := by
  rw [(lawful.top_some q t htop).1]
  exact Multiset.mem_cons_self t _

theorem top_expired_le (htop : pq.top q = some t) : ∀ u ∈ pq.contents q, t.expired ≤ u.expired :=
  fun u hu => not_lt.mp ((lawful.top_some q t htop).2 u hu)

theorem timerInLoop_of_none_due (hnone : (pq.contents q).filter (TimerItem.Due now) = 0)
    (fuel : Nat) :
    ∃ wait, timerInLoop pq now (fuel + 1) q = some ⟨[], q, wait⟩ ∧
      ∀ t, pq.top q = some t → wait = t.deadline - now := by
  cases htop : pq.top q with
  | none => exact ⟨0, by simp only [timerInLoop, htop], by simp⟩
  | some t =>
      have hdue : ¬t.Due now := Multiset.filter_eq_nil.mp hnone t (mem_of_top lawful htop)
      refine ⟨t.deadline - now, timerInLoop_wait htop hdue fuel, ?_⟩
      intro u hu
      rw [Option.some.inj hu]

theorem exists_due_top (hfirst : DueStartedFirst now (pq.contents q))
    (hsome : (pq.contents q).filter (TimerItem.Due now) ≠ 0) :
    ∃ t, pq.top q = some t ∧ t.Due now := by
  obtain ⟨u, hu⟩ := Multiset.exists_mem_of_ne_zero hsome
  obtain ⟨hmem, hudue⟩ := Multiset.mem_filter.mp hu
  cases htop : pq.top q with
  | none =>
      rw [lawful.top_none q htop] at hmem
      exact absurd hmem (Multiset.notMem_zero u)
  | some t =>
      refine ⟨t, rfl, ?_⟩
      by_contra htdue
      have hlt := hfirst u hmem t (mem_of_top lawful htop) hudue htdue
      exact absurd (top_expired_le lawful htop u hmem) (not_le.mpr hlt)

/-- When the due timers were started first, the loop fires all of them and stops at
the top of what is left. -/
theorem timerInLoop_fires_due (now : ℚ) (n : Nat) (q : pq.Carrier)
    (hn : Multiset.card ((pq.contents q).filter (TimerItem.Due now)) ≤ n)
    (hnonneg : ∀ u ∈ pq.contents q, 0 ≤ u.interval)
    (hfirst : DueStartedFirst now (pq.contents q)) :
    ∃ r, timerInLoop pq now (n + 1) q = some r ∧
      (r.ran : Multiset κ) = ((pq.contents q).filter (TimerItem.Due now)).map TimerItem.cb ∧
      pq.contents r.queue = remaining now (pq.contents q) ∧
      ∀ t, pq.top r.queue = some t → r.wait = t.deadline - now := by
  induction n generalizing q with
  | zero => exact none_due q (Multiset.card_eq_zero.mp (Nat.le_zero.mp hn)) 0
  | succ n ih =>
      by_cases hnone : (pq.contents q).filter (TimerItem.Due now) = 0
      · exact none_due q hnone (n + 1)
      · obtain ⟨t, htop, hdue⟩ := exists_due_top lawful hfirst hnone
        have ht := hnonneg t (mem_of_top lawful htop)
        have hsplit := filter_due_requeue lawful htop ht hdue
        rw [hsplit, Multiset.card_cons] at hn
        obtain ⟨r, hr, hran, hqueue, hwait⟩ := ih (requeue pq now q t) (by omega)
          (nonneg_requeue lawful htop hnonneg) (dueStartedFirst_requeue lawful htop hnonneg hfirst)
        refine ⟨{ r with ran := t.cb :: r.ran }, ?_, ?_, ?_, hwait⟩
        · rw [timerInLoop_fire htop hdue, hr, Option.map_some]
        · rw [hsplit, Multiset.map_cons, ← hran, Multiset.cons_coe]
        · rw [hqueue, remaining_requeue lawful htop ht hdue]
where
  none_due (q : pq.Carrier) (hnone : (pq.contents q).filter (TimerItem.Due now) = 0)
      (fuel : Nat) :
      ∃ r, timerInLoop pq now (fuel + 1) q = some r ∧
        (r.ran : Multiset κ) = ((pq.contents q).filter (TimerItem.Due now)).map TimerItem.cb ∧
        pq.contents r.queue = remaining now (pq.contents q) ∧
        ∀ t, pq.top r.queue = some t → r.wait = t.deadline - now := by
    obtain ⟨wait, hloop, hwait⟩ := timerInLoop_of_none_due lawful hnone fuel
    refine ⟨_, hloop, by simp [hnone], ?_, hwait⟩
    rw [remaining, hnone, Multiset.filterMap_zero, add_zero, eq_comm, Multiset.filter_eq_self]
    exact Multiset.filter_eq_nil.mp hnone

/-- Every run of the loop trades a due timer for a callback. -/
theorem ran_add_due (now : ℚ) (fuel : Nat) (q : pq.Carrier) {r : LoopResult κ pq.Carrier}
    (hnonneg : ∀ u ∈ pq.contents q, 0 ≤ u.interval)
    (hr : timerInLoop pq now fuel q = some r) :
    r.ran.length + Multiset.card ((pq.contents r.queue).filter (TimerItem.Due now)) =
      Multiset.card ((pq.contents q).filter (TimerItem.Due now)) := by
  induction fuel generalizing q r with
  | zero => cases hr
  | succ fuel ih =>
      cases htop : pq.top q with
      | none =>
          simp only [timerInLoop, htop, Option.some.injEq] at hr
          subst hr
          exact Nat.zero_add _
      | some t =>
          by_cases hdue : t.Due now
          · rw [timerInLoop_fire htop hdue, Option.map_eq_some_iff] at hr
            obtain ⟨r', hr', rfl⟩ := hr
            have ht := hnonneg t (mem_of_top lawful htop)
            have hrest := ih (requeue pq now q t) (nonneg_requeue lawful htop hnonneg) hr'
            rw [filter_due_requeue lawful htop ht hdue, Multiset.card_cons, ← hrest]
            exact Nat.add_right_comm _ _ _
          · rw [timerInLoop_wait htop hdue, Option.some.injEq] at hr
            subst hr
            exact Nat.zero_add _

end Loop

end HeapTimer

end LibMsf
