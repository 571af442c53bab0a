import LibMsf.Event.EPollPoller
import LibMsf.Library.Path

/-!
The interest list of the kernel follows the registrations of an `EPollPoller`.

A session keeps, beside the poller, which events were passed to `UpdateEvent` and not to
`RemoveEvent` since, and the mask that each had at its last `UpdateEvent`. The three
copies of a registration (the index of the event, `events_` and the interest list) agree
with these throughout a run just when `RemoveEvent` is never called on a registered event
that has no interest: it leaves such an event where it is.
-/

namespace LibMsf

open Cxx

structure EPollSession extends EPollPoller where
  live : EventPtr → Bool := fun _ => false
  lastMask : EventPtr → UInt32 := fun _ => 0

namespace EPollSession

variable {s : EPollSession} {ev : EventPtr}

abbrev Op := PollerOp (List (Int × UInt32))

def step (s : EPollSession) : Op → Option (Except Fault EPollSession)
  | .setEvents ev mask => some (.ok { s with toPoller := s.setEvents ev mask })
  | .updateEvent ev => some do
      let p ← s.updateEvent ev
      return {
        toEPollPoller := p
        live := Function.update s.live ev true
        lastMask := Function.update s.lastMask ev (s.objects ev).events.toUInt32 }
  | .removeEvent ev => some do
      let p ← s.removeEvent ev
      return { s with toEPollPoller := p, live := Function.update s.live ev false }
  | .poll ready => some do
      let r ← s.poll ready
      return { s with toEPollPoller := r.1 }

/-- No other live event has the descriptor of `ev`. -/
def Alone (s : EPollSession) (ev : EventPtr) : Prop :=
  ∀ ev', ev' ≠ ev → s.live ev' = true → (s.objects ev').fd ≠ (s.objects ev).fd

/-- At most one event that was not removed exists for a descriptor. -/
def Allowed (s : EPollSession) : Op → Prop
  | .updateEvent ev => Alone s ev
  | _ => True

def Fresh (s : EPollSession) : Prop :=
  s.events = ∅ ∧ s.kernel = ∅ ∧ ∀ ev, s.live ev = false ∧ (s.objects ev).index = kNew

/-- The interest list is made of the registered events that are added, with the masks of
their last updates; an event that is not live is known to nobody. -/
structure Registered (s : EPollSession) : Prop where
  kernel : ∀ (fd : Int) mask ev, s.kernel[fd]? = some (mask, ev) ↔
    s.events[fd]? = some ev ∧ (s.objects ev).index = kAdded ∧ mask = s.lastMask ev
  removed : ∀ ev, s.live ev = false → (s.objects ev).index = kNew ∧
    ∀ fd : Int, s.events[fd]? ≠ some ev ∧ ∀ mask, s.kernel[fd]? ≠ some (mask, ev)

structure Tracked (s : EPollSession) : Prop where
  mapped : ∀ (fd : Int) ev, s.events[fd]? = some ev ↔ s.live ev = true ∧ (s.objects ev).fd = fd
  watched : ∀ (fd : Int) mask ev, s.kernel[fd]? = some (mask, ev) ↔
    s.live ev = true ∧ (s.objects ev).fd = fd ∧ (s.objects ev).index = kAdded ∧
      mask = s.lastMask ev
  known : ∀ ev, s.live ev = true →
    (s.objects ev).index = kAdded ∨ (s.objects ev).index = kDeleted
  unknown : ∀ ev, s.live ev = false → (s.objects ev).index = kNew

theorem Fresh.tracked (h : Fresh s) : Tracked s := by
  obtain ⟨hevents, hkernel, hdead⟩ := h
  refine ⟨?_, ?_, ?_, fun ev _ => (hdead ev).2⟩
  · intro fd ev
    simp [hevents, (hdead ev).1]
  · intro fd mask ev
    simp [hkernel, (hdead ev).1]
  · intro ev hlive
    rw [(hdead ev).1] at hlive
    cases hlive

theorem Tracked.registered (h : Tracked s) : Registered s := by
  constructor
  · intro fd mask ev
    rw [h.watched, h.mapped, and_assoc]
  · intro ev hdead
    refine ⟨h.unknown ev hdead, ?_⟩
    intro fd
    constructor
    · intro hmapped
      rw [((h.mapped fd ev).mp hmapped).1] at hdead
      cases hdead
    · intro mask hwatched
      rw [((h.watched fd mask ev).mp hwatched).1] at hdead
      cases hdead

/-- The session after a call that touched the registration of one event. -/
def place (s : EPollSession) (ev : EventPtr) (p : EPollPoller) (live : Bool) (mask : UInt32) :
    EPollSession where
  toEPollPoller := p
  live := Function.update s.live ev live
  lastMask := Function.update s.lastMask ev mask

section Place

variable {index : Int}
  {events : Std.ExtTreeMap Int EventPtr} {kernel : InterestList} {pollEvents : Nat}
  {live : Bool} {mask : UInt32}

/-- A change at one event keeps the copies in agreement if they agree at that event, and
nobody else has its descriptor. -/
theorem Tracked.place (h : Tracked s) (halone : Alone s ev)
    (hevents : ∀ fd : Int, events[fd]? =
      if (s.objects ev).fd = fd then (if live = true then some ev else none) else s.events[fd]?)
    (hkernel : ∀ fd : Int, kernel[fd]? =
      if (s.objects ev).fd = fd then
        (if live = true ∧ index = kAdded then some (mask, ev) else none)
      else s.kernel[fd]?)
    (hknown : live = true → index = kAdded ∨ index = kDeleted)
    (hunknown : live = false → index = kNew) :
    Tracked (s.place ev (s.toEPollPoller.place ev index events kernel pollEvents) live mask) := by
  have hself : (s.setIndex ev index).objects ev = { s.objects ev with index := index } :=
    Poller.setIndex_self _ _ _
  have hother : ∀ ev', ev' ≠ ev → (s.setIndex ev index).objects ev' = s.objects ev' :=
    fun ev' hev => Poller.setIndex_of_ne _ _ _ hev
  refine ⟨?_, ?_, ?_, ?_⟩
  · exact Poller.Maps.change h.mapped halone live hevents (fun ev' => s.setIndex_fd ev ev' index)
  · intro fd mask' ev'
    simp only [EPollSession.place, EPollPoller.place, hkernel]
    by_cases hev : ev' = ev
    · subst hev
      rw [hself, Function.update_self, Function.update_self]
      split
      · rename_i hfd
        split
        · rename_i hadded
          simp [hfd, hadded, eq_comm]
        · rename_i hadded
          simp only [hfd, true_and, reduceCtorEq, false_iff]
          exact fun hall => hadded ⟨hall.1, hall.2.1⟩
      · rename_i hfd
        simp [h.watched, hfd]
    · rw [hother ev' hev, Function.update_of_ne hev, Function.update_of_ne hev]
      split
      · rename_i hfd
        refine iff_of_false ?_ (fun hall => halone ev' hev hall.1 (hall.2.1.trans hfd.symm))
        split
        · simp [Ne.symm hev]
        · simp
      · exact h.watched fd mask' ev'
  · intro ev'
    simp only [EPollSession.place, EPollPoller.place]
    by_cases hev : ev' = ev
    · subst hev
      rw [hself, Function.update_self]
      exact hknown
    · rw [hother ev' hev, Function.update_of_ne hev]
      exact h.known ev'
  · intro ev'
    simp only [EPollSession.place, EPollPoller.place]
    by_cases hev : ev' = ev
    · subst hev
      rw [hself, Function.update_self]
      exact hunknown
    · rw [hother ev' hev, Function.update_of_ne hev]
      exact h.unknown ev'

end Place

theorem Tracked.alone (h : Tracked s) (hlive : s.live ev = true) : Alone s ev :=
  fun _ hev hlive' hfd => hev (Poller.Maps.unique h.mapped hlive hlive' hfd)

/-- The descriptor of an event that is not added and shares it with nobody is not watched. -/
theorem Tracked.not_mem_kernel (h : Tracked s) (halone : Alone s ev)
    (hindex : (s.objects ev).index ≠ kAdded) : (s.objects ev).fd ∉ s.kernel := by
  intro hmem
  obtain ⟨⟨mask, ev'⟩, hwatched⟩ := Poller.exists_lookup_of_mem hmem
  obtain ⟨hlive, hfd, hadded, -⟩ := (h.watched _ _ _).mp hwatched
  by_cases hev : ev' = ev
  · subst hev
    exact hindex hadded
  · exact halone ev' hev hlive hfd

theorem Tracked.mem_kernel (h : Tracked s) (hlive : s.live ev = true)
    (hindex : (s.objects ev).index = kAdded) : (s.objects ev).fd ∈ s.kernel :=
  Poller.mem_of_lookup ((h.watched _ _ _).mpr ⟨hlive, rfl, hindex, rfl⟩)

theorem Tracked.lookup_self (h : Tracked s) (hlive : s.live ev = true) (fd : Int) :
    s.events[fd]? = if (s.objects ev).fd = fd then some ev else s.events[fd]? := by
  split
  · rename_i hfd
    exact (h.mapped fd ev).mpr ⟨hlive, hfd⟩
  · rfl

theorem Tracked.updateEvent (h : Tracked s) (halone : Alone s ev) :
    ∃ s', step s (.updateEvent ev) = some (.ok s') ∧ Tracked s' := by
  have finish : ∀ {p : EPollPoller}, s.toEPollPoller.updateEvent ev = .ok p →
      step s (.updateEvent ev) =
        some (.ok (s.place ev p true (s.objects ev).events.toUInt32)) := by
    intro p hupdate
    simp only [step, hupdate, ok_bind, pure_eq_ok]
    rfl
  cases hlive : s.live ev with
  | false =>
      have hindex := h.unknown ev hlive
      have hkernel := h.not_mem_kernel halone (by rw [hindex]; decide)
      have hfree := Poller.Maps.not_mem_events h.mapped hlive halone
      refine ⟨_, finish (EPollPoller.updateEvent_new hindex hfree hkernel),
        h.place halone ?_ ?_ (fun _ => .inl rfl) (fun hfalse => by cases hfalse)⟩
      · intro fd
        rw [Poller.lookup_insert]
        rfl
      · intro fd
        rw [Poller.lookup_insert]
        rfl
  | true =>
      have hmapped := (h.mapped _ _).mpr ⟨hlive, rfl⟩
      cases h.known ev hlive with
      | inl hindex =>
          have hkernel := h.mem_kernel hlive hindex
          by_cases hnone : (s.objects ev).isNoneEvent
          · refine ⟨_, finish (EPollPoller.updateEvent_none hindex hmapped hkernel hnone),
              h.place halone (h.lookup_self hlive) ?_ (fun _ => .inr rfl)
                (fun hfalse => by cases hfalse)⟩
            intro fd
            rw [Poller.lookup_erase]
            rfl
          · refine ⟨_, finish (EPollPoller.updateEvent_some hindex hmapped hkernel hnone),
              h.place halone (h.lookup_self hlive) ?_ (fun _ => .inl rfl)
                (fun hfalse => by cases hfalse)⟩
            intro fd
            rw [Poller.lookup_insert]
            rfl
      | inr hindex =>
          have hkernel := h.not_mem_kernel halone (by rw [hindex]; decide)
          refine ⟨_, finish (EPollPoller.updateEvent_deleted hindex hmapped hkernel),
            h.place halone (h.lookup_self hlive) ?_ (fun _ => .inl rfl)
              (fun hfalse => by cases hfalse)⟩
          intro fd
          rw [Poller.lookup_insert]
          rfl

/-- The condition of the run theorem: a registered event has some interest when it is
removed. -/
def Removable (s : EPollSession) : Op → Prop
  | .removeEvent ev => s.live ev = true → ¬(s.objects ev).isNoneEvent
  | _ => True

theorem Tracked.removeEvent (h : Tracked s) (hsome : Removable s (.removeEvent ev)) :
    ∃ s', step s (.removeEvent ev) = some (.ok s') ∧ Tracked s' := by
  have finish : ∀ {p : EPollPoller}, s.toEPollPoller.removeEvent ev = .ok p →
      step s (.removeEvent ev) = some (.ok (s.place ev p false (s.lastMask ev))) := by
    intro p hremove
    simp only [step, hremove, ok_bind, pure_eq_ok, EPollSession.place, Function.update_eq_self]
  cases hlive : s.live ev with
  | false =>
      have hmapped : s.events[(s.objects ev).fd]? ≠ some ev :=
        ((h.registered.removed ev hlive).2 _).1
      refine ⟨_, finish (EPollPoller.removeEvent_absent hmapped), ?_⟩
      simp only [EPollSession.place, ← hlive, Function.update_eq_self]
      exact h
  | true =>
      have hmapped := (h.mapped _ _).mpr ⟨hlive, rfl⟩
      have herased : ∀ fd : Int, (s.events.erase (s.objects ev).fd)[fd]? =
          if (s.objects ev).fd = fd then (if false = true then some ev else none)
          else s.events[fd]? := by
        intro fd
        rw [Poller.lookup_erase]
        rfl
      cases h.known ev hlive with
      | inl hindex =>
          refine ⟨_, finish (EPollPoller.removeEvent_added hindex hmapped
            (h.mem_kernel hlive hindex) (hsome hlive)),
            h.place (h.alone hlive) herased ?_ (fun hfalse => by cases hfalse) (fun _ => rfl)⟩
          intro fd
          rw [Poller.lookup_erase]
          rfl
      | inr hindex =>
          refine ⟨_, finish (EPollPoller.removeEvent_deleted hindex hmapped (hsome hlive)),
            h.place (h.alone hlive) herased ?_ (fun hfalse => by cases hfalse) (fun _ => rfl)⟩
          intro fd
          split
          · rename_i hfd
            have hkernel := h.not_mem_kernel (h.alone hlive) (by rw [hindex]; decide)
            rw [hfd] at hkernel
            exact Std.ExtTreeMap.getElem?_eq_none hkernel
          · rfl

theorem Tracked.sameRegistrations {p : EPollPoller} (h : Tracked s)
    (hsame : EPollPoller.SameRegistrations s.toEPollPoller p) :
    Tracked { s with toEPollPoller := p } := by
  obtain ⟨hevents, hkernel, hfields⟩ := hsame
  refine ⟨?_, ?_, ?_, ?_⟩
  · intro fd ev
    rw [hevents, (hfields ev).1]
    exact h.mapped fd ev
  · intro fd mask ev
    rw [hkernel, (hfields ev).1, (hfields ev).2]
    exact h.watched fd mask ev
  · intro ev
    rw [(hfields ev).2]
    exact h.known ev
  · intro ev
    rw [(hfields ev).2]
    exact h.unknown ev

theorem Tracked.poll (h : Tracked s) (ready : List (Int × UInt32)) :
    ∃ s', step s (.poll ready) = some (.ok s') ∧ Tracked s' := by
  have hentries : ∀ entry ∈ s.epollWait ready,
      s.events[(s.objects entry.2).fd]? = some entry.2 := by
    intro entry hentry
    obtain ⟨r, -, hwatched⟩ := List.mem_filterMap.mp (List.mem_of_mem_take hentry)
    obtain ⟨⟨mask, ev⟩, hkernel, rfl⟩ := Option.map_eq_some_iff.mp hwatched
    exact (h.mapped _ _).mpr ⟨((h.watched _ _ _).mp hkernel).1, rfl⟩
  obtain ⟨p, active, hfill, hsame⟩ := EPollPoller.fillActiveEvents_of_mapped _ [] hentries
  have htracked := h.sameRegistrations hsame
  simp only [step, EPollPoller.poll, EPollPoller.fillActiveEvents, hfill]
  split
  · simp only [ok_bind]
    split
    · exact ⟨_, rfl, htracked.sameRegistrations ⟨rfl, rfl, fun ev => ⟨rfl, rfl⟩⟩⟩
    · exact ⟨_, rfl, htracked⟩
  · exact ⟨_, rfl, h⟩

theorem Tracked.step {op : Op} (h : Tracked s) (hallowed : Allowed s op)
    (hremovable : Removable s op) : ∃ s', EPollSession.step s op = some (.ok s') ∧ Tracked s' := by
  cases op with
  | setEvents ev mask =>
      exact ⟨_, rfl, h.sameRegistrations
        ⟨rfl, rfl, fun ev' => Poller.setEvents_fields s.toPoller ev ev' mask⟩⟩
  | updateEvent ev => exact h.updateEvent hallowed
  | removeEvent ev => exact h.removeEvent hremovable
  | poll ready => exact h.poll ready

/-- A registered event without interest stays where it is when it is removed. -/
theorem Tracked.step_broken {s s' : EPollSession} {op : Op} (h : Tracked s)
    (hbad : ¬Removable s op) (hstep : EPollSession.step s op = some (.ok s')) :
    ¬Registered s' := by
  cases op with
  | setEvents ev mask => exact absurd trivial hbad
  | updateEvent ev => exact absurd trivial hbad
  | poll ready => exact absurd trivial hbad
  | removeEvent ev =>
      simp only [Removable, Classical.not_imp, not_not] at hbad
      obtain ⟨hlive, hnone⟩ := hbad
      simp only [EPollSession.step, EPollPoller.removeEvent_none hnone, ok_bind,
        pure_eq_ok] at hstep
      cases hstep
      intro hregistered
      have hremoved := hregistered.removed ev (Function.update_self _ _ _)
      exact (hremoved.2 (s.objects ev).fd).1 ((h.mapped _ _).mpr ⟨hlive, rfl⟩)

def RegisteredResult (r : Except Fault EPollSession) : Prop :=
  ∃ s, r = .ok s ∧ Registered s

/-- The copies of the registrations agree throughout a run, and no assertion of the poller
fails in it, just when no registered event is removed while it has no interest. -/
theorem run_registered_iff {s : EPollSession} (hfresh : Fresh s) {ops : List Op}
    {r : Except Fault EPollSession} (hrun : Run.Path step Allowed s ops r) :
    (∀ before after r', ops = before ++ after → Run.Path step Allowed s before r' →
        RegisteredResult r') ↔
      ∀ before op after s', ops = before ++ op :: after →
        Run.Path step Allowed s before (.ok s') → Removable s' op := by
  refine Run.Path.good_iff (fun s h => ⟨s, rfl, h.registered⟩) ?_ ?_ hrun hfresh.tracked
  · intro s op r h hallowed hremovable hstep
    obtain ⟨s', hstep', h'⟩ := h.step hallowed hremovable
    cases hstep'.symm.trans hstep
    exact ⟨s', rfl, h'⟩
  · rintro s op r h - hbad hstep ⟨s', rfl, hregistered⟩
    exact h.step_broken hbad hstep hregistered

/-- Events of one descriptor, none of them registered yet. -/
def sharedFd : EPollSession where
  objects := fun _ => { fd := 5 }

theorem sharedFd_fresh : Fresh sharedFd :=
  ⟨rfl, rfl, fun _ => ⟨rfl, rfl⟩⟩

/-- A second event takes over the descriptor of the first. -/
theorem run_registered_reused_fd :
    ∃ r, Run.Path step Allowed sharedFd
        [.updateEvent 0, .poll [(5, 1)], .removeEvent 0, .updateEvent 1] r ∧
      RegisteredResult r := by
  have hrun : ∃ r, Run.Path step (fun s op => Allowed s op ∧ Removable s op) sharedFd
      [.updateEvent 0, .poll [(5, 1)], .removeEvent 0, .updateEvent 1] r := by
    refine ⟨_, .cons ⟨?_, trivial⟩ rfl (.cons ⟨trivial, trivial⟩ rfl
      (.cons ⟨trivial, ?_⟩ rfl (.cons ⟨?_, trivial⟩ rfl (.nil _))))⟩
    · intro ev' _ hlive
      cases hlive
    · intro _ hnone
      cases hnone
    · intro ev' _ hlive
      by_cases hev : ev' = 0
      · subst hev
        cases hlive
      · simp [hev, sharedFd] at hlive
  obtain ⟨r, hrun⟩ := hrun
  have hallowed := hrun.mono (fun _ _ hboth => hboth.1)
  refine ⟨r, hallowed, ?_⟩
  exact Run.Path.good_of_meets (fun _ _ hboth => hboth.2)
    (run_registered_iff sharedFd_fresh hallowed) hrun hallowed

/-- An event that lost its interest before it was removed keeps its entry: the next event
of the descriptor runs into an assertion. -/
theorem removed_without_interest_not_registered :
    (∃ s, Run.Path step Allowed sharedFd [.updateEvent 0, .setEvents 0 0, .removeEvent 0] (.ok s) ∧
      ¬Registered s) ∧
    Run.Path step Allowed sharedFd
      [.updateEvent 0, .setEvents 0 0, .removeEvent 0, .updateEvent 1] (.error .assertion) := by
  have hfirst : Allowed sharedFd (.updateEvent 0) := by
    intro ev' _ hlive
    cases hlive
  constructor
  · refine ⟨_, .cons hfirst rfl (.cons trivial rfl (.cons trivial rfl (.nil _))), ?_⟩
    intro hregistered
    exact (hregistered.removed 0 rfl).2 5 |>.1 rfl
  · refine .cons hfirst rfl (.cons trivial rfl (.cons trivial rfl (.fault ?_ rfl)))
    intro ev' _ hlive
    by_cases hev : ev' = 0
    · subst hev
      cases hlive
    · simp [hev, sharedFd] at hlive

end EPollSession

end LibMsf
