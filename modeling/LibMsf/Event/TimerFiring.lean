import LibMsf.Event.TimerLoop

/-!
Which timers one call of `TimerInLoop` fires.

The queue is ordered by the start time of a timer, while the loop stops at the
first timer that is not yet due. `StartsFollowDeadlines` is the condition on the
timers under which these two agree: it is sufficient for every implementation of
the queue, and it is necessary, because an implementation may prefer the later
deadline among timers that were started at the same time.
-/

namespace LibMsf

open PriorityQueue

namespace HeapTimer

variable {κ : Type}

structure StartsFollowDeadlines (now : ℚ) (timers : Multiset (TimerItem κ)) : Prop where
  due_first : DueStartedFirst now timers
  earliest_next : ∀ u ∈ remaining now timers,
    (∀ v ∈ remaining now timers, u.expired ≤ v.expired) →
    ∀ v ∈ remaining now timers, u.deadline ≤ v.deadline

/-- An admissible order that, among timers started together, prefers the later deadline. -/
def prefersLate (x y : TimerItem κ) : Bool :=
  decide (x.expired < y.expired ∨ x.expired = y.expired ∧ y.deadline ≤ x.deadline)

def lateFirst (κ : Type) : PriorityQueue (TimerItem κ) :=
  ofPreference prefersLate

theorem prefersLate_iff (x y : TimerItem κ) :
    prefersLate x y = true ↔
      x.expired < y.expired ∨ x.expired = y.expired ∧ y.deadline ≤ x.deadline :=
  decide_eq_true_iff

theorem prefersLate_total (x y : TimerItem κ) : prefersLate x y ∨ prefersLate y x := by
  simp only [prefersLate_iff]
  rcases lt_trichotomy x.expired y.expired with h | h | h
  · exact .inl (.inl h)
  · rcases le_total y.deadline x.deadline with hd | hd
    · exact .inl (.inr ⟨h, hd⟩)
    · exact .inr (.inr ⟨h.symm, hd⟩)
  · exact .inr (.inl h)

theorem prefersLate_trans (x y z : TimerItem κ) (hxy : prefersLate x y)
    (hyz : prefersLate y z) : prefersLate x z := by
  rw [prefersLate_iff] at *
  rcases hxy with hxy | ⟨hxy, hd⟩
  · rcases hyz with hyz | ⟨hyz, -⟩
    · exact .inl (hxy.trans hyz)
    · exact .inl (hyz ▸ hxy)
  · rcases hyz with hyz | ⟨hyz, hd'⟩
    · exact .inl (hxy ▸ hyz)
    · exact .inr ⟨hxy.trans hyz, hd'.trans hd⟩

theorem lateFirst_lawful : (lateFirst κ).Lawful TimerItem.Less := by
  refine ofPreference_lawful prefersLate_total prefersLate_trans ?_
  intro x y h hless
  rcases (prefersLate_iff x y).mp h with h | ⟨h, -⟩
  · exact absurd h (not_lt.mpr (le_of_lt hless))
  · exact absurd h.symm (ne_of_lt hless)

theorem lateFirst_top {q : (lateFirst κ).Carrier} {x : TimerItem κ}
    (h : (lateFirst κ).top q = some x) : ∀ z ∈ (lateFirst κ).contents q, prefersLate x z := by
  obtain ⟨ys, hex, -⟩ := ofPreference_top h
  exact (extract_some prefersLate_total prefersLate_trans hex).2

/-- A timer that is not due and was started no later keeps a due timer in the queue. -/
theorem lateFirst_blocks {now : ℚ} {t u : TimerItem κ} (ht : t.Due now) (hu : ¬u.Due now)
    (hle : u.expired ≤ t.expired) (fuel : Nat) (q : (lateFirst κ).Carrier)
    {r : LoopResult κ (lateFirst κ).Carrier} (htq : t ∈ (lateFirst κ).contents q)
    (huq : u ∈ (lateFirst κ).contents q) (hr : timerInLoop (lateFirst κ) now fuel q = some r) :
    t ∈ (lateFirst κ).contents r.queue := by
  induction fuel generalizing q r with
  | zero => cases hr
  | succ fuel ih =>
      cases htop : (lateFirst κ).top q with
      | none =>
          simp only [timerInLoop, htop, Option.some.injEq] at hr
          subst hr
          exact htq
      | some x =>
          by_cases hdue : x.Due now
          · rw [timerInLoop_fire htop hdue, Option.map_eq_some_iff] at hr
            obtain ⟨r', hr', rfl⟩ := hr
            have hux : u ≠ x := fun h => hu (h ▸ hdue)
            have htx : t ≠ x := by
              rintro rfl
              rcases (prefersLate_iff t u).mp (lateFirst_top htop u huq) with h | ⟨-, h⟩
              · exact absurd h (not_lt.mpr hle)
              · exact hu (lt_of_le_of_lt h ht)
            exact ih (r := r') _ (mem_requeue_of_ne lateFirst_lawful htop htq htx)
              (mem_requeue_of_ne lateFirst_lawful htop huq hux) hr'
          · rw [timerInLoop_wait htop hdue, Option.some.injEq] at hr
            subst hr
            exact htq

/-- With enough fuel the call returns, has run the callback of each due timer once and
no other, and returns the least time to a deadline of the timers it leaves. -/
def FiresExactly (pq : PriorityQueue (TimerItem κ)) (maxTimer : Nat)
    (calls : List (AddTimerCall κ)) (now : ℚ) : Prop :=
  ∃ enough r,
    (∀ fuel ≥ enough, timerInLoop pq now fuel (addTimers pq maxTimer calls) = some r) ∧
    (r.ran : Multiset κ) = ((added calls).filter (TimerItem.Due now)).map TimerItem.cb ∧
    (pq.contents r.queue ≠ 0 →
      IsLeast { w | ∃ t ∈ pq.contents r.queue, w = t.expired + t.interval - now } r.wait)

theorem firesExactly_of_startsFollowDeadlines {pq : PriorityQueue (TimerItem κ)}
    (lawful : pq.Lawful TimerItem.Less) {maxTimer : Nat} {calls : List (AddTimerCall κ)} {now : ℚ}
    (hlen : calls.length ≤ maxTimer) (hnonneg : ∀ c ∈ calls, 0 ≤ c.interval)
    (h : StartsFollowDeadlines now (added calls)) :
    FiresExactly pq maxTimer calls now := by
  have hcontents := contents_addTimers lawful maxTimer calls hlen
  obtain ⟨r, hr, hran, hqueue, hwait⟩ := timerInLoop_fires_due lawful now _
    (addTimers pq maxTimer calls) le_rfl
    (by rw [hcontents]; exact added_nonneg hnonneg)
    (by rw [hcontents]; exact h.due_first)
  rw [hcontents] at hran hqueue
  refine ⟨_, r, fun fuel hfuel => timerInLoop_mono hfuel hr, hran, ?_⟩
  intro hleft
  cases htop : pq.top r.queue with
  | none => exact absurd (lawful.top_none _ htop) hleft
  | some t =>
      have hmem := mem_of_top lawful htop
      refine ⟨⟨t, hmem, hwait t htop⟩, ?_⟩
      rintro w ⟨v, hv, rfl⟩
      have hmin := top_expired_le lawful htop
      rw [hqueue] at hmem hv hmin
      rw [hwait t htop]
      exact sub_le_sub_right (h.earliest_next t hmem hmin v hv) now

theorem startsFollowDeadlines_of_lateFirst {maxTimer : Nat} {calls : List (AddTimerCall κ)}
    {now : ℚ} (hlen : calls.length ≤ maxTimer) (hnonneg : ∀ c ∈ calls, 0 ≤ c.interval)
    (h : FiresExactly (lateFirst κ) maxTimer calls now) :
    StartsFollowDeadlines now (added calls) := by
  obtain ⟨enough, r, hfuel, hran, hleast⟩ := h
  have hcontents := contents_addTimers lateFirst_lawful maxTimer calls hlen
  have hnonneg' : ∀ u ∈ (lateFirst κ).contents (addTimers (lateFirst κ) maxTimer calls),
      0 ≤ u.interval := by
    rw [hcontents]
    exact added_nonneg hnonneg
  have hfirst : DueStartedFirst now (added calls) := by
    intro t ht u hu hdue hndue
    by_contra hle
    have hstays := lateFirst_blocks hdue hndue (not_lt.mp hle) enough _
      (by rw [hcontents]; exact ht) (by rw [hcontents]; exact hu) (hfuel enough le_rfl)
    have hcount := ran_add_due lateFirst_lawful now enough _ hnonneg' (hfuel enough le_rfl)
    have hpos : 0 < Multiset.card (((lateFirst κ).contents r.queue).filter (TimerItem.Due now)) :=
      Multiset.card_pos_iff_exists_mem.mpr ⟨t, Multiset.mem_filter.mpr ⟨hstays, hdue⟩⟩
    have hlength := congrArg Multiset.card hran
    rw [Multiset.coe_card, Multiset.card_map] at hlength
    rw [hcontents] at hcount
    omega
  refine ⟨hfirst, ?_⟩
  obtain ⟨r', hr', -, hqueue, hwait⟩ := timerInLoop_fires_due lateFirst_lawful now
    (max enough (Multiset.card _)) _ (le_max_right _ _) hnonneg' (by rw [hcontents]; exact hfirst)
  obtain rfl : r = r' := by
    rw [hfuel _ (Nat.le_succ_of_le (le_max_left _ _))] at hr'
    exact Option.some.inj hr'
  rw [hcontents] at hqueue
  rw [← hqueue]
  intro u hu hmin v hv
  cases htop : (lateFirst κ).top r.queue with
  | none =>
      rw [lateFirst_lawful.top_none _ htop] at hu
      exact absurd hu (Multiset.notMem_zero u)
  | some x =>
      have hxmin := hmin x (mem_of_top lateFirst_lawful htop)
      have hxlate : u.deadline ≤ x.deadline := by
        rcases (prefersLate_iff x u).mp (lateFirst_top htop u hu) with hlt | ⟨-, hd⟩
        · exact absurd hxmin (not_le.mpr hlt)
        · exact hd
      have hne : (lateFirst κ).contents r.queue ≠ 0 := by
        rintro hzero
        rw [hzero] at hu
        exact absurd hu (Multiset.notMem_zero u)
      have hxv := (hleast hne).2 ⟨v, hv, rfl⟩
      rw [hwait x htop] at hxv
      exact hxlate.trans (sub_le_sub_iff_right now |>.mp hxv)

theorem firesExactly_iff (maxTimer : Nat) (calls : List (AddTimerCall κ)) (now : ℚ)
    (hlen : calls.length ≤ maxTimer) (hnonneg : ∀ c ∈ calls, 0 ≤ c.interval) :
    (∀ pq : PriorityQueue (TimerItem κ), pq.Lawful TimerItem.Less →
      FiresExactly pq maxTimer calls now) ↔
      StartsFollowDeadlines now (added calls) := by
  constructor
  · intro h
    exact startsFollowDeadlines_of_lateFirst hlen hnonneg (h (lateFirst κ) lateFirst_lawful)
  · intro h pq lawful
    exact firesExactly_of_startsFollowDeadlines lawful hlen hnonneg h

/-- A persistent timer that is due and a later one that is not. -/
def agreeingCalls : List (AddTimerCall Nat) :=
  [⟨0, 2, .persist, 0, 0⟩, ⟨1, 6, .oneshot, 5, 0⟩]

theorem agreeingCalls_follow : StartsFollowDeadlines 10 (added agreeingCalls) where
  due_first := by unfold DueStartedFirst; decide +kernel
  earliest_next := by decide +kernel

theorem firesExactly_iff_agreeingCalls :
    StartsFollowDeadlines 10 (added agreeingCalls) ∧
      FiresExactly (lateFirst Nat) 256 agreeingCalls 10 :=
  ⟨agreeingCalls_follow, (firesExactly_iff 256 agreeingCalls 10 (by decide) (by decide +kernel)).mpr
    agreeingCalls_follow (lateFirst Nat) lateFirst_lawful⟩

/-- A timer of 100 ms, and one of 1 ms that is added 1 ms later. -/
def hiddenCalls : List (AddTimerCall Nat) :=
  [⟨0, 100, .oneshot, 0, 0⟩, ⟨1, 1, .oneshot, 1, 0⟩]

theorem hiddenCalls_not_fired :
    (timerInLoop (lateFirst Nat) 10 3 (addTimers (lateFirst Nat) 256 hiddenCalls)).map
        (fun r => (r.ran, r.wait)) = some ([], 90) ∧
      ¬FiresExactly (lateFirst Nat) 256 hiddenCalls 10 := by
  refine ⟨by decide +kernel, ?_⟩
  intro h
  have hfollow := startsFollowDeadlines_of_lateFirst (by decide) (by decide +kernel) h
  have hfirst : ¬DueStartedFirst 10 (added hiddenCalls) := by
    unfold DueStartedFirst
    decide +kernel
  exact hfirst hfollow.due_first

end HeapTimer

end LibMsf
