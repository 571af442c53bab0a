import LibMsf.Event.Poller

/-!
The poll based poller: `network/event/poll_poller.cc`.

Indices into `pollfds_` are kept in the events as `int`; descriptors and indices are
unbounded integers here, there being fewer descriptors than an `int` has values. The
kernel writes the `revents` of all entries and ignores entries with a negative descriptor.
-/

namespace LibMsf

open Cxx

structure PollFd where
  fd : Int
  events : Int16
  revents : Int16 := 0
deriving DecidableEq

structure PollPoller extends Poller where
  pollfds : List PollFd := []

namespace PollPoller

/-- `pollfds_[idx]`, for an index that is not negative. -/
def slot (p : PollPoller) (idx : Int) : Except Fault PollFd :=
  match p.pollfds[idx.toNat]? with
  | some pfd => .ok pfd
  | none => .error .outOfBounds

def updateEvent (p : PollPoller) (ev : EventPtr) : Except Fault PollPoller := do
  let fd := (p.objects ev).fd
  let events := (p.objects ev).events.toInt16
  if (p.objects ev).index < 0 then
    assertThat (fd ∉ p.events)
    let pfd : PollFd := { fd := fd, events := events }
    let p := { p with pollfds := p.pollfds ++ [pfd] }
    let p := { p with toPoller := p.setIndex ev (p.pollfds.length - 1) }
    return { p with events := p.events.insert fd ev }
  else
    assertThat (fd ∈ p.events)
    assertThat (p.events[fd]? = some ev)
    let idx := (p.objects ev).index
    assertThat (0 ≤ idx ∧ idx < p.pollfds.length)
    let pfd ← p.slot idx
    assertThat (pfd.fd = fd ∨ pfd.fd = -fd - 1)
    let pfd : PollFd :=
      { fd := if (p.objects ev).isNoneEvent then -fd - 1 else fd, events := events }
    return { p with pollfds := p.pollfds.set idx.toNat pfd }

/-- `events_[fd]->set_index(idx)`: an absent key would give a null pointer. -/
def setIndexAt (p : PollPoller) (fd idx : Int) : Except Fault PollPoller :=
  match p.events[fd]? with
  | some ev => .ok { p with toPoller := p.setIndex ev idx }
  | none => .error .outOfBounds

def removeEvent (p : PollPoller) (ev : EventPtr) : Except Fault PollPoller := do
  let fd := (p.objects ev).fd
  assertThat (fd ∈ p.events)
  assertThat (p.events[fd]? = some ev)
  assertThat (p.objects ev).isNoneEvent
  let idx := (p.objects ev).index
  assertThat (0 ≤ idx ∧ idx < p.pollfds.length)
  let pfd ← p.slot idx
  assertThat (pfd.fd = -fd - 1 ∧ pfd.events.toInt = ((p.objects ev).events.toNat : Int))
  let p := { p with events := p.events.erase fd }
  if idx = p.pollfds.length - 1 then
    return { p with pollfds := p.pollfds.dropLast }
  else
    let back ← p.slot (p.pollfds.length - 1)
    let channelAtEnd := if back.fd < 0 then -back.fd - 1 else back.fd
    let swapped := (p.pollfds.set idx.toNat back).set (p.pollfds.length - 1) pfd
    let p ← { p with pollfds := swapped }.setIndexAt channelAtEnd idx
    return { p with pollfds := p.pollfds.dropLast }

/-- The loop of `FillActiveEvents` over `pollfds_`, from one of its entries on. -/
def fillActiveEvents (p : PollPoller) : Nat → List PollFd → List EventPtr →
    Except Fault (PollPoller × List EventPtr)
  | _, [], active => .ok (p, active)
  | 0, _, active => .ok (p, active)
  | numEvents + 1, pfd :: pfds, active =>
      if 0 < pfd.revents then do
        assertThat (pfd.fd ∈ p.events)
        match p.events[pfd.fd]? with
        | none => .error .outOfBounds
        | some ev =>
            assertThat ((p.objects ev).fd = pfd.fd)
            fillActiveEvents { p with toPoller := p.setRevents ev pfd.revents.toUInt16 } numEvents
              pfds (active ++ [ev])
      else
        fillActiveEvents p (numEvents + 1) pfds active

/-- `poll` fails, or reports for each watched descriptor what is ready. -/
def poll (p : PollPoller) (ready : Option (Int → Int16)) :
    Except Fault (PollPoller × List EventPtr) :=
  match ready with
  | none => .ok (p, [])
  | some report =>
      let pollfds := p.pollfds.map fun pfd =>
        { pfd with revents := if pfd.fd < 0 then 0 else report pfd.fd }
      fillActiveEvents { p with pollfds := pollfds }
        (pollfds.countP fun pfd => pfd.revents ≠ 0) pollfds []

section Spec

variable {p : PollPoller} {ev : EventPtr} {i : Nat} {pfd : PollFd}

theorem slot_of_getElem (h : p.pollfds[i]? = some pfd) : p.slot i = .ok pfd := by
  simp only [slot, Int.toNat_natCast, h]

theorem inRange_of_getElem (h : p.pollfds[i]? = some pfd) :
    0 ≤ (i : Int) ∧ (i : Int) < p.pollfds.length := by
  have hlt := (List.getElem?_eq_some_iff.mp h).1
  omega

/-- The entry of an event, disabled when the event has no interest. -/
def entry (p : PollPoller) (ev : EventPtr) : PollFd where
  fd := if (p.objects ev).isNoneEvent then -(p.objects ev).fd - 1 else (p.objects ev).fd
  events := (p.objects ev).events.toInt16

theorem updateEvent_new (hindex : (p.objects ev).index < 0)
    (hevents : (p.objects ev).fd ∉ p.events) :
    p.updateEvent ev = .ok {
      toPoller := { p.setIndex ev p.pollfds.length with
        events := p.events.insert (p.objects ev).fd ev }
      pollfds := p.pollfds ++
        [{ fd := (p.objects ev).fd, events := (p.objects ev).events.toInt16 }] } := by
  have hlength : ((p.pollfds.length + 1 : Nat) : Int) - 1 = p.pollfds.length := by omega
  simp only [updateEvent, if_pos hindex, assertThat_of hevents, ok_bind, pure_eq_ok,
    List.length_append, List.length_singleton, hlength]
  rfl

theorem updateEvent_slot (hindex : (p.objects ev).index = i) (hslot : p.pollfds[i]? = some pfd)
    (hevents : p.events[(p.objects ev).fd]? = some ev)
    (howner : pfd.fd = (p.objects ev).fd ∨ pfd.fd = -(p.objects ev).fd - 1) :
    p.updateEvent ev = .ok { p with pollfds := p.pollfds.set i (p.entry ev) } := by
  have hnonneg : ¬(i : Int) < 0 := by omega
  simp only [updateEvent, hindex, if_neg hnonneg, assertThat_of (Poller.mem_of_lookup hevents),
    assertThat_of hevents, assertThat_of (inRange_of_getElem hslot), slot_of_getElem hslot,
    assertThat_of howner, ok_bind, pure_eq_ok, Int.toNat_natCast]
  rfl

/-- A disabled entry without interest, in the terms of the assertions of `RemoveEvent`. -/
theorem removeEvent_asserts (hnone : (p.objects ev).isNoneEvent)
    (hparked : pfd.fd = -(p.objects ev).fd - 1) (hevents : pfd.events = 0) :
    pfd.fd = -(p.objects ev).fd - 1 ∧
      pfd.events.toInt = ((p.objects ev).events.toNat : Int) := by
  refine ⟨hparked, ?_⟩
  rw [hevents, hnone]
  rfl

theorem removeEvent_last (hindex : (p.objects ev).index = i) (hslot : p.pollfds[i]? = some pfd)
    (hevents : p.events[(p.objects ev).fd]? = some ev) (hnone : (p.objects ev).isNoneEvent)
    (hparked : pfd.fd = -(p.objects ev).fd - 1) (hmask : pfd.events = 0)
    (hlast : i + 1 = p.pollfds.length) :
    p.removeEvent ev = .ok {
      toPoller := { p.toPoller with events := p.events.erase (p.objects ev).fd }
      pollfds := p.pollfds.dropLast } := by
  have hidx : (i : Int) = p.pollfds.length - 1 := by omega
  simp only [removeEvent, hindex, assertThat_of (Poller.mem_of_lookup hevents),
    assertThat_of hevents, assertThat_of hnone, assertThat_of (inRange_of_getElem hslot),
    slot_of_getElem hslot, assertThat_of (removeEvent_asserts hnone hparked hmask), if_pos hidx,
    ok_bind, pure_eq_ok]

theorem removeEvent_swap {back : PollFd} {ev' : EventPtr} (hindex : (p.objects ev).index = i)
    (hslot : p.pollfds[i]? = some pfd) (hevents : p.events[(p.objects ev).fd]? = some ev)
    (hnone : (p.objects ev).isNoneEvent) (hparked : pfd.fd = -(p.objects ev).fd - 1)
    (hmask : pfd.events = 0) (hlast : i + 1 < p.pollfds.length)
    (hback : p.pollfds[p.pollfds.length - 1]? = some back)
    (hat : (p.events.erase (p.objects ev).fd)[if back.fd < 0 then -back.fd - 1 else back.fd]? =
      some ev') :
    p.removeEvent ev = .ok {
      toPoller := { p.setIndex ev' i with events := p.events.erase (p.objects ev).fd }
      pollfds := ((p.pollfds.set i back).set (p.pollfds.length - 1) pfd).dropLast } := by
  have hidx : ¬(i : Int) = (p.pollfds.length - 1 : Nat) := by omega
  have hcast : (p.pollfds.length : Int) - 1 = ((p.pollfds.length - 1 : Nat) : Int) := by omega
  have hend : slot { p with events := p.events.erase (p.objects ev).fd }
      (p.pollfds.length - 1 : Nat) = .ok back := slot_of_getElem hback
  simp only [removeEvent, hindex, assertThat_of (Poller.mem_of_lookup hevents),
    assertThat_of hevents, assertThat_of hnone, assertThat_of (inRange_of_getElem hslot),
    slot_of_getElem hslot, assertThat_of (removeEvent_asserts hnone hparked hmask), if_neg hidx,
    hcast, hend, ok_bind, pure_eq_ok, setIndexAt, hat, Int.toNat_natCast]
  rfl

theorem fillActiveEvents_of_mapped (numEvents : Nat) (pfds : List PollFd) (active : List EventPtr)
    (h : ∀ pfd ∈ pfds, 0 < pfd.revents →
      ∃ ev, p.events[pfd.fd]? = some ev ∧ (p.objects ev).fd = pfd.fd) :
    ∃ p' active', fillActiveEvents p numEvents pfds active = .ok (p', active') ∧
      p'.events = p.events ∧ p'.pollfds = p.pollfds ∧
      ∀ ev, (p'.objects ev).fd = (p.objects ev).fd ∧
        (p'.objects ev).index = (p.objects ev).index := by
  induction pfds generalizing p numEvents active with
  | nil =>
      refine ⟨p, active, ?_, rfl, rfl, fun ev => ⟨rfl, rfl⟩⟩
      cases numEvents with
      | zero => rfl
      | succ numEvents => rfl
  | cons pfd pfds ih =>
      cases numEvents with
      | zero => exact ⟨p, active, rfl, rfl, rfl, fun ev => ⟨rfl, rfl⟩⟩
      | succ numEvents =>
          have hrest : ∀ other ∈ pfds, 0 < other.revents →
              ∃ ev, p.events[other.fd]? = some ev ∧ (p.objects ev).fd = other.fd :=
            fun other hother => h other (List.mem_cons_of_mem pfd hother)
          by_cases hready : 0 < pfd.revents
          · obtain ⟨ev, hmapped, hfd⟩ := h pfd List.mem_cons_self hready
            have hsame := Poller.setRevents_fields p.toPoller ev
            obtain ⟨p', active', hfill, hevents, hpollfds, hfields⟩ := ih
              (p := { p with toPoller := p.setRevents ev pfd.revents.toUInt16 }) numEvents
              (active ++ [ev]) (by
                intro other hother hrevents
                obtain ⟨ev', hmapped', hfd'⟩ := hrest other hother hrevents
                exact ⟨ev', hmapped', (hsame ev' _).1.trans hfd'⟩)
            refine ⟨p', active', ?_, hevents, hpollfds, ?_⟩
            · simp only [fillActiveEvents, if_pos hready, hmapped,
                assertThat_of (Poller.mem_of_lookup hmapped), assertThat_of hfd, ok_bind, hfill]
            · intro ev'
              exact ⟨(hfields ev').1.trans (hsame ev' _).1, (hfields ev').2.trans (hsame ev' _).2⟩
          · obtain ⟨p', active', hfill, hkept⟩ := ih (numEvents + 1) active hrest
            refine ⟨p', active', ?_, hkept⟩
            rw [fillActiveEvents, if_neg hready, hfill]

end Spec

end PollPoller

end LibMsf
