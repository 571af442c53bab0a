import LibMsf.Base.Latch
import LibMsf.Library.Census
import LibMsf.Library.Path

/-!
What the callers of a latch can rely on.

`Wait` tests the count under the mutex, and the last `CountDown` notifies after its decrement,
so nobody is left waiting. `WaitFor` does not test the count at all: it waits when the count is
zero already, and a wake-up for no reason makes it return true. It keeps what it promises in the
runs in which neither happens.
-/

namespace LibMsf

open Cxx

/-- In `WaitFor`, called at a count of zero. -/
def LatchPc.late : LatchPc → Bool
  | .waitingFor late => late
  | .wokenFor late _ => late
  | _ => false

/-- `Wait` returns at a count of zero, and so does `WaitFor` with true; a late `WaitFor` returns
true. -/
def LatchReturn.Right : LatchReturn → Prop
  | .wait count => count = 0
  | .waitFor result count late => (result = true → count = 0) ∧ (late = true → result = true)

namespace CountDownLatch

/-- No late `WaitFor` waits, and no `Wait` does when the count is zero and nobody is left to
notify it. A `WaitFor` that waits has its time-out ahead of it. -/
structure Kept (s : CountDownLatch) : Prop where
  returns : ∀ result ∈ s.returned, result.Right
  prompt : ∀ pc ∈ s.callers, pc.late = false
  released : ¬(s.count = 0 ∧ (∀ pc ∈ s.downs, pc = .returned) ∧ .waiting ∈ s.callers)

/-- `WaitFor` is called while the count is not zero, and a caller of it that was woken for no
reason goes on at a count of zero, or when its time is up. -/
def Heeds (s : CountDownLatch) : Action → Prop
  | .waitFor _ => s.count ≠ 0
  | .resumeFor c timeout => timeout = false →
      ∀ late, s.callers[c]? = some (.wokenFor late .spurious) → s.count = 0
  | _ => True

/-- The count is the number of calls that did not decrement it yet, whoever notifies or was
notified found it at zero, and whoever waits at zero will be notified. -/
structure Latched (s : CountDownLatch) : Prop where
  returns : ∀ result ∈ s.returned, result.Right
  prompt : ∀ pc ∈ s.callers, pc.late = false
  counted : s.count = s.downs.countP (· = .start)
  notifies : .notify ∈ s.downs → s.count = 0
  notified : ∀ late, .wokenFor late .notified ∈ s.callers → s.count = 0
  pending : s.count = 0 → .waiting ∈ s.callers → .decremented ∈ s.downs ∨ .notify ∈ s.downs

theorem start_latched (n numCallers : Nat) : Latched (start n numCallers) := by
  have hcallers : ∀ pc ∈ (start n numCallers).callers, pc = .idle :=
    fun pc hpc => List.eq_of_mem_replicate hpc
  refine ⟨?_, ?_, ?_, ?_, ?_, ?_⟩
  · intro result hresult
    cases hresult
  · intro pc hpc
    rw [hcallers pc hpc]
    rfl
  · simp [start, List.countP_replicate]
  · intro hnotify
    cases List.eq_of_mem_replicate hnotify
  · intro late hwoken
    cases hcallers _ hwoken
  · intro _ hwaiting
    cases hcallers _ hwaiting

section Step

variable {s : CountDownLatch} {c d : Nat}

theorem Latched.kept (h : Latched s) : Kept s := by
  refine ⟨h.returns, h.prompt, ?_⟩
  rintro ⟨hzero, hreturned, hwaiting⟩
  cases h.pending hzero hwaiting with
  | inl hpc => cases hreturned _ hpc
  | inr hpc => cases hreturned _ hpc

theorem Latched.setCaller (h : Latched s) {pc : LatchPc} (hlate : pc.late = false)
    (hnotified : ∀ late, pc = .wokenFor late .notified → s.count = 0)
    (hwaiting : pc = .waiting → s.count ≠ 0) : Latched (s.setCaller c pc) := by
  refine ⟨h.returns, ?_, h.counted, h.notifies, ?_, ?_⟩
  · intro pc' hpc'
    cases List.mem_or_eq_of_mem_set hpc' with
    | inl hold => exact h.prompt pc' hold
    | inr heq => exact heq ▸ hlate
  · intro late hwoken
    cases List.mem_or_eq_of_mem_set hwoken with
    | inl hold => exact h.notified late hold
    | inr heq => exact hnotified late heq.symm
  · intro hzero hmem
    cases List.mem_or_eq_of_mem_set hmem with
    | inl hold => exact h.pending hzero hold
    | inr heq => exact absurd hzero (hwaiting heq.symm)

theorem Latched.giveBack (h : Latched s) {result : LatchReturn} (hright : result.Right) :
    Latched (s.giveBack c result) := by
  have hidle : Latched (s.setCaller c .idle) :=
    h.setCaller rfl (fun _ heq => by cases heq) (fun heq => by cases heq)
  refine ⟨?_, hidle.prompt, hidle.counted, hidle.notifies, hidle.notified, hidle.pending⟩
  intro result' hresult'
  cases List.mem_append.mp hresult' with
  | inl hold => exact h.returns result' hold
  | inr hnew => exact List.mem_singleton.mp hnew ▸ hright

theorem Latched.waitSection (h : Latched s) : Latched (s.waitSection c) := by
  rw [CountDownLatch.waitSection]
  split
  · rename_i hzero
    exact h.giveBack hzero
  · rename_i hcount
    exact h.setCaller rfl (fun _ heq => by cases heq) (fun _ => hcount)

theorem Latched.counted_set (h : Latched s) {old pc : CountDownPc} (hd : s.downs[d]? = some old)
    (hold : old ≠ .start) (hpc : pc ≠ .start) :
    s.count = (s.downs.set d pc).countP (· = .start) := by
  rw [Census.countP_set_of_eq hd]
  · exact h.counted
  · simp [hold, hpc]

/-- While a call has its decrement ahead of it the count is not zero, and nobody has notified. -/
theorem Latched.decrement (h : Latched s) (hd : s.downs[d]? = some .start) :
    Latched ({ s with count := s.count - 1 }.setDown d .decremented) := by
  have hpos : 0 < s.count := by
    have hone := Census.one_le_countP (p := (· = CountDownPc.start)) hd rfl
    rw [h.counted]
    omega
  have hlt := (List.getElem?_eq_some_iff.mp hd).1
  refine ⟨h.returns, h.prompt, ?_, ?_, ?_, ?_⟩
  · have hset := Census.countP_set_add (p := (· = CountDownPc.start)) (b := .decremented) hd
    have hcounted := h.counted
    simp only [setDown]
    simp at hset
    omega
  · intro hnotify
    cases List.mem_or_eq_of_mem_set hnotify with
    | inl hold => exact absurd (h.notifies hold) hpos.ne'
    | inr heq => cases heq
  · exact fun late hwoken => absurd (h.notified late hwoken) hpos.ne'
  · exact fun _ _ => .inl (List.mem_set hlt _)

theorem Latched.test (h : Latched s) (hd : s.downs[d]? = some .decremented) :
    Latched (s.setDown d (if s.count = 0 then .notify else .returned)) := by
  have hlt := (List.getElem?_eq_some_iff.mp hd).1
  refine ⟨h.returns, h.prompt, ?_, ?_, h.notified, ?_⟩
  · refine h.counted_set hd (fun heq => by cases heq) ?_
    split
    · exact fun heq => by cases heq
    · exact fun heq => by cases heq
  · intro hnotify
    by_contra hcount
    have hcount' : ¬s.count = 0 := hcount
    rw [if_neg hcount'] at hnotify
    cases List.mem_or_eq_of_mem_set hnotify with
    | inl hold => exact hcount (h.notifies hold)
    | inr heq => cases heq
  · intro hzero _
    have hzero' : s.count = 0 := hzero
    rw [if_pos hzero']
    exact .inr (List.mem_set hlt _)

theorem Latched.notifyAll (h : Latched s) (hd : s.downs[d]? = some .notify) :
    Latched ({ s with callers := s.callers.map LatchPc.notified }.setDown d .returned) := by
  have hzero := h.notifies (List.mem_of_getElem? hd)
  refine ⟨h.returns, ?_, ?_, fun _ => hzero, fun _ _ => hzero, ?_⟩
  · intro pc hpc
    obtain ⟨old, hold, rfl⟩ := List.mem_map.mp hpc
    have hlate := h.prompt old hold
    cases old with
    | waitingFor late => exact hlate
    | idle => rfl
    | waiting => rfl
    | woken => rfl
    | wokenFor late reason => exact hlate
  · exact h.counted_set hd (fun heq => by cases heq) (fun heq => by cases heq)
  · intro _ hwaiting
    obtain ⟨old, -, heq⟩ := List.mem_map.mp hwaiting
    cases old with
    | _ => cases heq

/-- A caller of `WaitFor` was notified at zero, is heeded, or ran out of time. -/
theorem Latched.resumeFor (h : Latched s) {timeout late : Bool} {reason : WakeReason}
    (hc : s.callers[c]? = some (.wokenFor late reason))
    (hreason : ¬(reason = .expired ∧ timeout = false))
    (hheeds : Heeds s (.resumeFor c timeout)) :
    Latched (s.giveBack c (.waitFor (!timeout) s.count late)) := by
  have hmem := List.mem_of_getElem? hc
  have hlate : late = false := h.prompt _ hmem
  refine h.giveBack ⟨?_, fun htrue => absurd (hlate.symm.trans htrue) Bool.false_ne_true⟩
  intro htrue
  rw [Bool.not_eq_true'] at htrue
  cases reason with
  | notified => exact h.notified late hmem
  | spurious => exact hheeds htrue late hc
  | expired => exact absurd ⟨rfl, htrue⟩ hreason

theorem Latched.step (h : Latched s) {action : Action} {r : Except Fault CountDownLatch}
    (hheeds : Heeds s action) (hstep : CountDownLatch.step s action = some r) :
    ∃ s', r = .ok s' ∧ Latched s' := by
  cases action with
  | decrement d =>
      simp only [CountDownLatch.step] at hstep
      split at hstep
      · rename_i hd
        cases hstep
        exact ⟨_, rfl, h.decrement hd⟩
      · cases hstep
  | test d =>
      simp only [CountDownLatch.step] at hstep
      split at hstep
      · rename_i hd
        cases hstep
        exact ⟨_, rfl, h.test hd⟩
      · cases hstep
  | notifyAll d =>
      simp only [CountDownLatch.step] at hstep
      split at hstep
      · rename_i hd
        cases hstep
        exact ⟨_, rfl, h.notifyAll hd⟩
      · cases hstep
  | wait c =>
      simp only [CountDownLatch.step] at hstep
      split at hstep
      · cases hstep
        exact ⟨_, rfl, h.waitSection⟩
      · cases hstep
  | resumeWait c =>
      simp only [CountDownLatch.step] at hstep
      split at hstep
      · cases hstep
        exact ⟨_, rfl, h.waitSection⟩
      · cases hstep
  | waitFor c =>
      simp only [CountDownLatch.step] at hstep
      split at hstep
      · cases hstep
        refine ⟨_, rfl, h.setCaller ?_ (fun _ heq => by cases heq) (fun heq => by cases heq)⟩
        exact decide_eq_false hheeds
      · cases hstep
  | wake c =>
      simp only [CountDownLatch.step] at hstep
      split at hstep
      · cases hstep
        exact ⟨_, rfl, h.setCaller rfl (fun _ heq => by cases heq) (fun heq => by cases heq)⟩
      · rename_i late hc
        cases hstep
        have hlate : late = false := h.prompt _ (List.mem_of_getElem? hc)
        exact ⟨_, rfl, h.setCaller hlate (fun _ heq => by cases heq) (fun heq => by cases heq)⟩
      · cases hstep
  | expire c =>
      simp only [CountDownLatch.step] at hstep
      split at hstep
      · rename_i late hc
        cases hstep
        have hlate : late = false := h.prompt _ (List.mem_of_getElem? hc)
        exact ⟨_, rfl, h.setCaller hlate (fun _ heq => by cases heq) (fun heq => by cases heq)⟩
      · cases hstep
  | resumeFor c timeout =>
      simp only [CountDownLatch.step] at hstep
      split at hstep
      · rename_i late reason hc
        split at hstep
        · cases hstep
        · rename_i hreason
          cases hstep
          exact ⟨_, rfl, h.resumeFor hc hreason hheeds⟩
      · cases hstep

/-- A late `WaitFor` waits, and one that is woken for no reason returns true. -/
theorem step_not_kept {action : Action} {s' : CountDownLatch} (hheeds : ¬Heeds s action)
    (hstep : CountDownLatch.step s action = some (.ok s')) : ¬Kept s' := by
  intro hkept
  cases action with
  | waitFor c =>
      have hzero : s.count = 0 := not_not.mp hheeds
      simp only [CountDownLatch.step] at hstep
      split at hstep
      · rename_i hc
        cases hstep
        have hlate := hkept.prompt _ (List.mem_set (List.getElem?_eq_some_iff.mp hc).1 _)
        exact of_decide_eq_false hlate hzero
      · cases hstep
  | resumeFor c timeout =>
      simp only [Heeds, Classical.not_imp, not_forall] at hheeds
      obtain ⟨rfl, late, hc, hcount⟩ := hheeds
      simp only [CountDownLatch.step, hc] at hstep
      cases hstep
      exact hcount ((hkept.returns _ (List.mem_append_right _ List.mem_cons_self)).1 rfl)
  | _ => exact hheeds trivial

end Step

def KeptResult (r : Except Fault CountDownLatch) : Prop :=
  ∃ s, r = .ok s ∧ Kept s

/-- A latch keeps what it promises throughout a run just when `WaitFor` is called before the
count is zero, and is woken for no reason only when that does not matter. -/
theorem run_kept_iff (n numCallers : Nat) (actions : List Action)
    (r : Except Fault CountDownLatch)
    (hrun : Run.Path step (fun _ _ => True) (start n numCallers) actions r) :
    (∀ before after r', actions = before ++ after →
      Run.Path step (fun _ _ => True) (start n numCallers) before r' → KeptResult r') ↔
      ∀ before action after s, actions = before ++ action :: after →
        Run.Path step (fun _ _ => True) (start n numCallers) before (.ok s) →
          Heeds s action := by
  refine Run.Path.good_iff ?_ ?_ ?_ hrun (start_latched n numCallers)
  · exact fun s h => ⟨s, rfl, h.kept⟩
  · exact fun s action r h _ hheeds hstep => h.step hheeds hstep
  · rintro s action r _ _ hheeds hstep ⟨s', rfl, hkept⟩
    exact step_not_kept hheeds hstep hkept

/-- Two waits, one with a time-out, across two decrements. -/
theorem run_kept_two_callers :
    ∃ r, Run.Path step (fun _ _ => True) (start 2 2)
        [.wait 0, .waitFor 1, .decrement 0, .wake 0, .resumeWait 0, .decrement 1, .test 1, .test 0,
          .notifyAll 1, .resumeFor 1 false, .resumeWait 0] r ∧
      KeptResult r := by
  have hrun : ∃ r, Run.Path step (fun s a => Heeds s a) (start 2 2)
      [.wait 0, .waitFor 1, .decrement 0, .wake 0, .resumeWait 0, .decrement 1, .test 1, .test 0,
        .notifyAll 1, .resumeFor 1 false, .resumeWait 0] r := by
    refine ⟨_, .cons trivial rfl (.cons ?_ rfl (.cons trivial rfl (.cons trivial rfl
      (.cons trivial rfl (.cons trivial rfl (.cons trivial rfl (.cons trivial rfl
        (.cons trivial rfl (.cons ?_ rfl (.cons trivial rfl (.nil _)))))))))))⟩
    · exact show (2 : Int) ≠ 0 by decide
    · exact fun _ _ _ => rfl
  obtain ⟨r, hpath⟩ := hrun
  have hfree := hpath.mono (fun _ _ _ => trivial)
  refine ⟨r, hfree, ?_⟩
  exact Run.Path.good_of_meets (fun _ _ h => h) (run_kept_iff 2 2 _ r hfree) hpath hfree

/-- `WaitFor` on a latch at zero waits until its time is up, and on a latch at one it returns
true after a wake-up for no reason. -/
theorem waitFor_ignores_count :
    (∃ s, Run.Path step (fun _ _ => True) (start 0 1) [.waitFor 0, .expire 0, .resumeFor 0 true]
        (.ok s) ∧ s.returned = [.waitFor false 0 true] ∧ ¬Kept s) ∧
    ∃ s, Run.Path step (fun _ _ => True) (start 1 1) [.waitFor 0, .wake 0, .resumeFor 0 false]
        (.ok s) ∧ s.returned = [.waitFor true 1 false] ∧ ¬Kept s := by
  constructor
  · refine ⟨_, Run.Path.of_follow rfl, rfl, ?_⟩
    intro hkept
    cases (hkept.returns _ List.mem_cons_self).2 rfl
  · refine ⟨_, Run.Path.of_follow rfl, rfl, ?_⟩
    intro hkept
    exact absurd ((hkept.returns _ List.mem_cons_self).1 rfl) (by decide)

end CountDownLatch

end LibMsf
