import LibMsf.Event.Poller

/-!
The epoll based poller: `network/event/epoll_poller.cc`.

The kernel's interest list is a map from descriptors to a mask and the pointer that the
poller handed over; `epoll_ctl` fails on it with `EEXIST` and `ENOENT` only. Of
`poll_events_` the size counts, the entries are written by `epoll_wait` before they are
read. Signal masks are left out.
-/

namespace LibMsf

open Cxx

inductive EpollErrno where
  | eexist
  | enoent
deriving DecidableEq

inductive EpollCtl where
  | add
  | mod
  | del
deriving DecidableEq

abbrev InterestList := Std.ExtTreeMap Int (UInt32 × EventPtr)

def epollCtl (kernel : InterestList) (op : EpollCtl) (fd : Int) (event : UInt32 × EventPtr) :
    Except EpollErrno InterestList :=
  match op with
  | .add => if fd ∈ kernel then .error .eexist else .ok (kernel.insert fd event)
  | .mod => if fd ∈ kernel then .ok (kernel.insert fd event) else .error .enoent
  | .del => if fd ∈ kernel then .ok (kernel.erase fd) else .error .enoent

structure EPollPoller extends Poller where
  kernel : InterestList := ∅
  pollEvents : Nat := 0

namespace EPollPoller

def epollEvent (p : EPollPoller) (ev : EventPtr) : UInt32 × EventPtr :=
  ((p.objects ev).events.toUInt32, ev)

def addEvent (p : EPollPoller) (ev : EventPtr) : EPollPoller × Bool :=
  match epollCtl p.kernel .add (p.objects ev).fd (p.epollEvent ev) with
  | .ok kernel => ({ p with kernel := kernel, pollEvents := p.pollEvents + 1 }, true)
  | .error .eexist =>
      match epollCtl p.kernel .mod (p.objects ev).fd (p.epollEvent ev) with
      | .error _ => (p, true)
      | .ok kernel => ({ p with kernel := kernel }, false)
  | .error .enoent => ({ p with pollEvents := p.pollEvents + 1 }, true)

def modifyEvent (p : EPollPoller) (ev : EventPtr) : EPollPoller × Bool :=
  match epollCtl p.kernel .mod (p.objects ev).fd (p.epollEvent ev) with
  | .ok kernel => ({ p with kernel := kernel }, true)
  | .error .enoent =>
      match epollCtl p.kernel .add (p.objects ev).fd (p.epollEvent ev) with
      | .error _ => (p, true)
      | .ok kernel => ({ p with kernel := kernel }, false)
  | .error .eexist => (p, true)

def deleteEvent (p : EPollPoller) (ev : EventPtr) : EPollPoller × Bool :=
  match epollCtl p.kernel .del (p.objects ev).fd (p.epollEvent ev) with
  | .ok kernel => ({ p with kernel := kernel }, true)
  | .error .enoent => (p, true)
  | .error .eexist => (p, false)

def updateEvent (p : EPollPoller) (ev : EventPtr) : Except Fault EPollPoller := do
  let index := (p.objects ev).index
  let fd := (p.objects ev).fd
  if index = kNew ∨ index = kDeleted then
    let p ← if index = kNew then do
        assertThat (fd ∉ p.events)
        pure { p with events := p.events.insert fd ev }
      else do
        assertThat (fd ∈ p.events)
        assertThat (p.events[fd]? = some ev)
        pure p
    let p := { p with toPoller := p.setIndex ev kAdded }
    return (p.addEvent ev).1
  else
    assertThat (fd ∈ p.events)
    assertThat (p.events[fd]? = some ev)
    assertThat (index = kAdded)
    if (p.objects ev).isNoneEvent then
      let p := (p.deleteEvent ev).1
      return { p with toPoller := p.setIndex ev kDeleted }
    else
      return (p.modifyEvent ev).1

def removeEvent (p : EPollPoller) (ev : EventPtr) : Except Fault EPollPoller := do
  let fd := (p.objects ev).fd
  if fd ∉ p.events then
    return p
  else if p.events[fd]? ≠ some ev then
    return p
  else if (p.objects ev).isNoneEvent then
    return p
  else
    let index := (p.objects ev).index
    assertThat (index = kAdded ∨ index = kDeleted)
    let p := { p with events := p.events.erase fd }
    let p := if index = kAdded then (p.deleteEvent ev).1 else p
    return { p with toPoller := p.setIndex ev kNew }

/-- One turn of `FillActiveEvents`, on an entry of `poll_events_`. -/
def fillActiveEvent (r : EPollPoller × List EventPtr) (entry : UInt32 × EventPtr) :
    Except Fault (EPollPoller × List EventPtr) := do
  let (p, active) := r
  let ev := entry.2
  let fd := (p.objects ev).fd
  assertThat (fd ∈ p.events)
  assertThat (p.events[fd]? = some ev)
  return ({ p with toPoller := p.setRevents ev entry.1.toUInt16 }, active ++ [ev])

def fillActiveEvents (p : EPollPoller) (entries : List (UInt32 × EventPtr)) :
    Except Fault (EPollPoller × List EventPtr) :=
  entries.foldlM fillActiveEvent (p, [])

/-- The descriptors in `ready` that are on the interest list are reported with the pointers
of the list, as many as fit into `poll_events_`. -/
def epollWait (p : EPollPoller) (ready : List (Int × UInt32)) : List (UInt32 × EventPtr) :=
  (ready.filterMap fun r => p.kernel[r.1]?.map fun event => (r.2, event.2)).take p.pollEvents

def poll (p : EPollPoller) (ready : List (Int × UInt32)) :
    Except Fault (EPollPoller × List EventPtr) := do
  let entries := p.epollWait ready
  if 0 < entries.length then
    let (p, active) ← p.fillActiveEvents entries
    if entries.length = p.pollEvents then
      return ({ p with pollEvents := p.pollEvents * 2 }, active)
    else
      return (p, active)
  else
    return (p, [])

section Spec

variable {p : EPollPoller} {ev : EventPtr}

theorem addEvent_of_absent (h : (p.objects ev).fd ∉ p.kernel) :
    (p.addEvent ev).1 = { p with
      kernel := p.kernel.insert (p.objects ev).fd (p.epollEvent ev)
      pollEvents := p.pollEvents + 1 } := by
  simp only [addEvent, epollCtl, if_neg h]

theorem modifyEvent_of_mem (h : (p.objects ev).fd ∈ p.kernel) :
    (p.modifyEvent ev).1 =
      { p with kernel := p.kernel.insert (p.objects ev).fd (p.epollEvent ev) } := by
  simp only [modifyEvent, epollCtl, if_pos h]

theorem deleteEvent_of_mem (h : (p.objects ev).fd ∈ p.kernel) :
    (p.deleteEvent ev).1 = { p with kernel := p.kernel.erase (p.objects ev).fd } := by
  simp only [deleteEvent, epollCtl, if_pos h]

/-- The poller after a call that touched the registration of one event. -/
def place (p : EPollPoller) (ev : EventPtr) (index : Int) (events : Std.ExtTreeMap Int EventPtr)
    (kernel : InterestList) (pollEvents : Nat) : EPollPoller where
  toPoller := { p.setIndex ev index with events := events }
  kernel := kernel
  pollEvents := pollEvents

/-- Neither the index of an event nor `events_` plays a part in what is passed to the
kernel. -/
theorem addEvent_place {index : Int} {events : Std.ExtTreeMap Int EventPtr}
    (h : (p.objects ev).fd ∉ p.kernel) :
    ((p.place ev index events p.kernel p.pollEvents).addEvent ev).1 =
      p.place ev index events (p.kernel.insert (p.objects ev).fd (p.epollEvent ev))
        (p.pollEvents + 1) := by
  have hobject : (p.place ev index events p.kernel p.pollEvents).objects ev =
      { p.objects ev with index := index } := Poller.setIndex_self _ _ _
  rw [addEvent_of_absent (by rw [hobject]; exact h)]
  simp only [epollEvent, hobject]
  rfl

theorem updateEvent_new (hindex : (p.objects ev).index = kNew)
    (hevents : (p.objects ev).fd ∉ p.events) (hkernel : (p.objects ev).fd ∉ p.kernel) :
    p.updateEvent ev = .ok (p.place ev kAdded (p.events.insert (p.objects ev).fd ev)
      (p.kernel.insert (p.objects ev).fd (p.epollEvent ev)) (p.pollEvents + 1)) := by
  rw [← addEvent_place hkernel]
  simp only [updateEvent, hindex, true_or, if_true, assertThat_of hevents, ok_bind, pure_eq_ok]
  rfl

theorem updateEvent_deleted (hindex : (p.objects ev).index = kDeleted)
    (hevents : p.events[(p.objects ev).fd]? = some ev) (hkernel : (p.objects ev).fd ∉ p.kernel) :
    p.updateEvent ev = .ok (p.place ev kAdded p.events
      (p.kernel.insert (p.objects ev).fd (p.epollEvent ev)) (p.pollEvents + 1)) := by
  have hmem : (p.objects ev).fd ∈ p.events := Poller.mem_of_lookup hevents
  have hnew : ¬kDeleted = kNew := by decide
  rw [← addEvent_place hkernel]
  simp only [updateEvent, hindex, or_true, if_true, hnew, if_false, assertThat_of hmem,
    assertThat_of hevents, ok_bind, pure_eq_ok]
  rfl

theorem updateEvent_none (hindex : (p.objects ev).index = kAdded)
    (hevents : p.events[(p.objects ev).fd]? = some ev) (hkernel : (p.objects ev).fd ∈ p.kernel)
    (hnone : (p.objects ev).isNoneEvent) :
    p.updateEvent ev = .ok (p.place ev kDeleted p.events
      (p.kernel.erase (p.objects ev).fd) p.pollEvents) := by
  have hmem : (p.objects ev).fd ∈ p.events := Poller.mem_of_lookup hevents
  have hadded : ¬(kAdded = kNew ∨ kAdded = kDeleted) := by decide
  simp only [updateEvent, hindex, hadded, if_false, assertThat_of hmem, assertThat_of hevents,
    assertThat_of trivial, if_pos hnone, deleteEvent_of_mem hkernel, ok_bind,
    pure_eq_ok]
  rfl

theorem updateEvent_some (hindex : (p.objects ev).index = kAdded)
    (hevents : p.events[(p.objects ev).fd]? = some ev) (hkernel : (p.objects ev).fd ∈ p.kernel)
    (hsome : ¬(p.objects ev).isNoneEvent) :
    p.updateEvent ev = .ok (p.place ev kAdded p.events
      (p.kernel.insert (p.objects ev).fd (p.epollEvent ev)) p.pollEvents) := by
  have hmem : (p.objects ev).fd ∈ p.events := Poller.mem_of_lookup hevents
  have hadded : ¬(kAdded = kNew ∨ kAdded = kDeleted) := by decide
  have hobjects : p.setIndex ev kAdded = p.toPoller := by
    rw [Poller.setIndex, ← hindex, Function.update_eq_self]
  simp only [updateEvent, hindex, hadded, if_false, assertThat_of hmem, assertThat_of hevents,
    assertThat_of trivial, if_neg hsome, modifyEvent_of_mem hkernel, ok_bind,
    pure_eq_ok, place, hobjects]

theorem removeEvent_absent (h : p.events[(p.objects ev).fd]? ≠ some ev) :
    p.removeEvent ev = .ok p := by
  simp only [removeEvent, if_pos h]
  split
  · rfl
  · rfl

theorem removeEvent_none (hnone : (p.objects ev).isNoneEvent) : p.removeEvent ev = .ok p := by
  simp only [removeEvent, if_pos hnone]
  split
  · rfl
  · split
    · rfl
    · rfl

theorem removeEvent_deleted (hindex : (p.objects ev).index = kDeleted)
    (hevents : p.events[(p.objects ev).fd]? = some ev) (hsome : ¬(p.objects ev).isNoneEvent) :
    p.removeEvent ev = .ok (p.place ev kNew (p.events.erase (p.objects ev).fd) p.kernel
      p.pollEvents) := by
  have hmem : ¬(p.objects ev).fd ∉ p.events := not_not.mpr (Poller.mem_of_lookup hevents)
  have hdeleted : ¬kDeleted = kAdded := by decide
  simp only [removeEvent, if_neg hmem, if_neg (not_not.mpr hevents), if_neg hsome, hindex,
    or_true, assertThat_of trivial, hdeleted, if_false, ok_bind, pure_eq_ok]
  rfl

theorem removeEvent_added (hindex : (p.objects ev).index = kAdded)
    (hevents : p.events[(p.objects ev).fd]? = some ev) (hkernel : (p.objects ev).fd ∈ p.kernel)
    (hsome : ¬(p.objects ev).isNoneEvent) :
    p.removeEvent ev = .ok (p.place ev kNew (p.events.erase (p.objects ev).fd)
      (p.kernel.erase (p.objects ev).fd) p.pollEvents) := by
  have hmem : ¬(p.objects ev).fd ∉ p.events := not_not.mpr (Poller.mem_of_lookup hevents)
  simp only [removeEvent, if_neg hmem, if_neg (not_not.mpr hevents), if_neg hsome, hindex,
    true_or, assertThat_of trivial, if_true, ok_bind, pure_eq_ok]
  rw [deleteEvent_of_mem (p := { p with events := p.events.erase (p.objects ev).fd }) hkernel]
  rfl

/-- Filling in the reported masks leaves the registrations alone. -/
structure SameRegistrations (p p' : EPollPoller) : Prop where
  events : p'.events = p.events
  kernel : p'.kernel = p.kernel
  fields : ∀ ev, (p'.objects ev).fd = (p.objects ev).fd ∧
    (p'.objects ev).index = (p.objects ev).index

theorem fillActiveEvents_of_mapped (entries : List (UInt32 × EventPtr)) (active : List EventPtr)
    (h : ∀ entry ∈ entries, p.events[(p.objects entry.2).fd]? = some entry.2) :
    ∃ p' active', entries.foldlM fillActiveEvent (p, active) = .ok (p', active') ∧
      SameRegistrations p p' := by
  induction entries generalizing p active with
  | nil => exact ⟨p, active, rfl, rfl, rfl, fun ev => ⟨rfl, rfl⟩⟩
  | cons entry entries ih =>
      have hhead := h entry List.mem_cons_self
      have hmem : (p.objects entry.2).fd ∈ p.events := Poller.mem_of_lookup hhead
      have hturn : fillActiveEvent (p, active) entry =
          .ok ({ p with toPoller := p.setRevents entry.2 entry.1.toUInt16 },
            active ++ [entry.2]) := by
        simp only [fillActiveEvent, assertThat_of hmem, assertThat_of hhead, ok_bind, pure_eq_ok]
      have hrest : ∀ other ∈ entries,
          (p.setRevents entry.2 entry.1.toUInt16).events[
            ((p.setRevents entry.2 entry.1.toUInt16).objects other.2).fd]? = some other.2 := by
        intro other hother
        rw [(Poller.setRevents_fields _ _ _ _).1]
        exact h other (List.mem_cons_of_mem entry hother)
      obtain ⟨p', active', hfold, hevents, hkernel, hfields⟩ :=
        ih (p := { p with toPoller := p.setRevents entry.2 entry.1.toUInt16 }) _ hrest
      refine ⟨p', active', ?_, hevents, hkernel, ?_⟩
      · rw [List.foldlM_cons, hturn, ok_bind, hfold]
      · intro ev
        have hsame := Poller.setRevents_fields p.toPoller entry.2 ev entry.1.toUInt16
        exact ⟨(hfields ev).1.trans hsame.1, (hfields ev).2.trans hsame.2⟩

end Spec

end EPollPoller

end LibMsf
