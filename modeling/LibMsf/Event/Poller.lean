import LibMsf.Cxx.Memory

/-!
Events and what the pollers share: `network/event/event.h` and `network/event/poller.h`.

Event objects live on a heap and are known by their addresses, so that a poller, the
kernel and the callers see the same object. The loop that owns an event and its callbacks
play no part here; `AssertInLoopThread` only writes to the log.
-/

namespace LibMsf

open Cxx

abbrev EventPtr := Nat

def kNew : Int := -1

def kAdded : Int := 1

def kDeleted : Int := 2

/-- An event is constructed with an interest in `EPOLLIN`, `EPOLLPRI`, `EPOLLRDHUP`,
`EPOLLHUP` and `EPOLLERR`. -/
structure Event where
  fd : Int
  events : UInt16 := 0x201b
  revents : UInt16 := 0
  index : Int := kNew
deriving DecidableEq

def Event.kNoneEvent : UInt16 := 0

def Event.isNoneEvent (ev : Event) : Prop := ev.events = Event.kNoneEvent

instance (ev : Event) : Decidable ev.isNoneEvent :=
  inferInstanceAs (Decidable (ev.events = Event.kNoneEvent))

/-- The objects, and the map `events_` from descriptors to them. -/
structure Poller where
  objects : EventPtr → Event
  events : Std.ExtTreeMap Int EventPtr := ∅

namespace Poller

def setEvents (p : Poller) (ev : EventPtr) (mask : UInt16) : Poller :=
  { p with objects := Function.update p.objects ev { p.objects ev with events := mask } }

def setRevents (p : Poller) (ev : EventPtr) (mask : UInt16) : Poller :=
  { p with objects := Function.update p.objects ev { p.objects ev with revents := mask } }

def setIndex (p : Poller) (ev : EventPtr) (index : Int) : Poller :=
  { p with objects := Function.update p.objects ev { p.objects ev with index := index } }

section Lookups

variable {β : Type} {m : Std.ExtTreeMap Int β} {fd : Int} {b : β}

theorem mem_of_lookup (h : m[fd]? = some b) : fd ∈ m := by
  rw [Std.ExtTreeMap.mem_iff_isSome_getElem?, h]
  rfl

theorem exists_lookup_of_mem (h : fd ∈ m) : ∃ b, m[fd]? = some b :=
  Option.isSome_iff_exists.mp (Std.ExtTreeMap.mem_iff_isSome_getElem?.mp h)

theorem lookup_insert (m : Std.ExtTreeMap Int β) (fd fd' : Int) (b : β) :
    (m.insert fd b)[fd']? = if fd = fd' then some b else m[fd']? := by
  simp only [Std.ExtTreeMap.getElem?_insert, Std.LawfulEqOrd.compare_eq_iff_eq]

theorem lookup_erase (m : Std.ExtTreeMap Int β) (fd fd' : Int) :
    (m.erase fd)[fd']? = if fd = fd' then none else m[fd']? := by
  simp only [Std.ExtTreeMap.getElem?_erase, Std.LawfulEqOrd.compare_eq_iff_eq]

end Lookups

section Updates

variable (p : Poller) (ev ev' : EventPtr)

theorem setEvents_fields (mask : UInt16) :
    ((p.setEvents ev mask).objects ev').fd = (p.objects ev').fd ∧
      ((p.setEvents ev mask).objects ev').index = (p.objects ev').index := by
  by_cases h : ev' = ev
  · subst h
    simp [setEvents]
  · simp [setEvents, h]

theorem setRevents_fields (mask : UInt16) :
    ((p.setRevents ev mask).objects ev').fd = (p.objects ev').fd ∧
      ((p.setRevents ev mask).objects ev').index = (p.objects ev').index := by
  by_cases h : ev' = ev
  · subst h
    simp [setRevents]
  · simp [setRevents, h]

theorem setIndex_self (index : Int) :
    (p.setIndex ev index).objects ev = { p.objects ev with index := index } := by
  simp [setIndex]

theorem setIndex_fd (index : Int) :
    ((p.setIndex ev index).objects ev').fd = (p.objects ev').fd := by
  by_cases h : ev' = ev
  · subst h
    simp [setIndex]
  · simp [setIndex, h]

theorem setIndex_of_ne (index : Int) {ev' : EventPtr} (h : ev' ≠ ev) :
    (p.setIndex ev index).objects ev' = p.objects ev' := by
  simp [setIndex, h]

end Updates

section Maps

variable {p p' : Poller} {live : EventPtr → Bool} {ev ev' : EventPtr}

/-- The map holds the events that `live` names, each under its descriptor. -/
def Maps (p : Poller) (live : EventPtr → Bool) : Prop :=
  ∀ (fd : Int) ev, p.events[fd]? = some ev ↔ live ev = true ∧ (p.objects ev).fd = fd

theorem Maps.unique (h : p.Maps live) (hlive : live ev = true) (hlive' : live ev' = true)
    (hfd : (p.objects ev').fd = (p.objects ev).fd) : ev' = ev := by
  have hmapped := (h _ _).mpr ⟨hlive, rfl⟩
  have hmapped' := (h _ _).mpr ⟨hlive', hfd⟩
  rw [hmapped] at hmapped'
  exact (Option.some.inj hmapped').symm

theorem Maps.not_mem_events (h : p.Maps live) (hdead : live ev = false)
    (halone : ∀ ev', ev' ≠ ev → live ev' = true → (p.objects ev').fd ≠ (p.objects ev).fd) :
    (p.objects ev).fd ∉ p.events := by
  intro hmem
  obtain ⟨ev', hmapped⟩ := exists_lookup_of_mem hmem
  obtain ⟨hlive, hfd⟩ := (h _ _).mp hmapped
  by_cases hev : ev' = ev
  · subst hev
    rw [hdead] at hlive
    cases hlive
  · exact halone ev' hev hlive hfd

/-- Entering or erasing an event that shares its descriptor with nobody. -/
theorem Maps.change (h : p.Maps live)
    (halone : ∀ ev', ev' ≠ ev → live ev' = true → (p.objects ev').fd ≠ (p.objects ev).fd)
    (entered : Bool)
    (hevents : ∀ fd : Int, p'.events[fd]? =
      if (p.objects ev).fd = fd then (if entered = true then some ev else none)
      else p.events[fd]?)
    (hfd : ∀ ev', (p'.objects ev').fd = (p.objects ev').fd) :
    p'.Maps (Function.update live ev entered) := by
  intro fd ev'
  rw [hevents, hfd]
  by_cases hev : ev' = ev
  · subst hev
    rw [Function.update_self]
    split
    · simp [*]
    · rename_i hdiff
      simp [h fd ev', hdiff]
  · rw [Function.update_of_ne hev]
    split
    · rename_i hsame
      refine iff_of_false ?_ (fun hall => halone ev' hev hall.1 (hall.2.trans hsame.symm))
      split
      · simpa using Ne.symm hev
      · simp
    · exact h fd ev'

end Maps

end Poller

/-- What a caller does with events; a poller's answer to `Poll` has a type of its own. -/
inductive PollerOp (ρ : Type) where
  | setEvents (ev : EventPtr) (mask : UInt16)
  | updateEvent (ev : EventPtr)
  | removeEvent (ev : EventPtr)
  | poll (ready : ρ)

end LibMsf
