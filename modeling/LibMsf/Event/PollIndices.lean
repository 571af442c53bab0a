import LibMsf.Event.PollPoller
import LibMsf.Library.Path

/-!
Every registered event of a `PollPoller` has an entry of its own.

A session keeps, beside the poller, which events were registered and not removed since,
and the mask of each at its last `UpdateEvent`. `RemoveEvent` moves the last entry into
the hole that it leaves and tells the event of that entry, but it leaves the index of the
removed event as it was, so that the event is taken for a registered one when it comes
back; and an event that is registered without interest gets an enabled entry, which
`RemoveEvent` does not expect. The indices are right throughout a run just when the run
keeps away from these two.
-/

namespace LibMsf

open Cxx

structure PollSession extends PollPoller where
  live : EventPtr → Bool := fun _ => false
  lastMask : EventPtr → UInt16 := fun _ => 0

/-- The descriptor that an entry stands for, also when it is disabled. -/
def PollFd.owner (pfd : PollFd) : Int := if pfd.fd < 0 then -pfd.fd - 1 else pfd.fd

theorem PollFd.owner_iff {pfd : PollFd} {fd : Int} (hfd : 0 ≤ fd) :
    pfd.owner = fd ↔ pfd.fd = fd ∨ pfd.fd = -fd - 1 := by
  rw [PollFd.owner]
  split
  · omega
  · omega

namespace PollSession

variable {s : PollSession} {ev : EventPtr}

abbrev Op := PollerOp (Option (Int → Int16))

def step (s : PollSession) : Op → Option (Except Fault PollSession)
  | .setEvents ev mask => some (.ok { s with toPoller := s.setEvents ev mask })
  | .updateEvent ev => some do
      let p ← s.updateEvent ev
      return {
        toPollPoller := p
        live := Function.update s.live ev true
        lastMask := Function.update s.lastMask ev (s.objects ev).events }
  | .removeEvent ev => some do
      let p ← s.removeEvent ev
      return { s with toPollPoller := p, live := Function.update s.live ev false }
  | .poll ready => some do
      let r ← s.poll ready
      return { s with toPollPoller := r.1 }

/-- Descriptors are not negative and distinct among the live events; an event is removed
when it is registered and its last update was without interest. -/
def Allowed (s : PollSession) : Op → Prop
  | .updateEvent ev => 0 ≤ (s.objects ev).fd ∧
      ∀ ev', ev' ≠ ev → s.live ev' = true → (s.objects ev').fd ≠ (s.objects ev).fd
  | .removeEvent ev => s.live ev = true ∧ s.lastMask ev = Event.kNoneEvent
  | _ => True

def Fresh (s : PollSession) : Prop :=
  s.events = ∅ ∧ s.pollfds = [] ∧ ∀ ev, s.live ev = false

structure Indexed (s : PollSession) : Prop where
  size : s.pollfds.length = s.events.size
  registered : ∀ ev, s.live ev = true ↔ s.events[(s.objects ev).fd]? = some ev
  slot : ∀ ev, s.live ev = true →
    0 ≤ (s.objects ev).index ∧ (s.objects ev).index < s.pollfds.length ∧
      ∃ pfd, s.pollfds[(s.objects ev).index.toNat]? = some pfd ∧
        (pfd.fd = (s.objects ev).fd ∨ pfd.fd = -(s.objects ev).fd - 1)
  distinct : ∀ ev ev', s.live ev = true → s.live ev' = true → ev ≠ ev' →
    (s.objects ev).index ≠ (s.objects ev').index

/-- An event comes to `UpdateEvent` registered or with the index of a new one, and to
`RemoveEvent` without interest and with a disabled entry. -/
def Proper (s : PollSession) : Op → Prop
  | .updateEvent ev => s.live ev = true ∨ (s.objects ev).index < 0
  | .removeEvent ev => (s.objects ev).isNoneEvent ∧
      ∃ pfd, s.pollfds[(s.objects ev).index.toNat]? = some pfd ∧
        pfd.fd = -(s.objects ev).fd - 1
  | _ => True

/-- Live events and entries belong together one to one. -/
structure Slotted (s : PollSession) : Prop where
  mapped : ∀ (fd : Int) ev, s.events[fd]? = some ev ↔ s.live ev = true ∧ (s.objects ev).fd = fd
  nonneg : ∀ ev, s.live ev = true → 0 ≤ (s.objects ev).fd
  slot : ∀ ev, s.live ev = true → ∃ (i : Nat) (pfd : PollFd), (s.objects ev).index = i ∧
    s.pollfds[i]? = some pfd ∧ pfd.owner = (s.objects ev).fd
  held : ∀ (i : Nat) pfd, s.pollfds[i]? = some pfd →
    ∃ ev, s.live ev = true ∧ (s.objects ev).index = i
  parked : ∀ (i : Nat) pfd, s.pollfds[i]? = some pfd → pfd.fd < 0 → pfd.events = 0
  size : s.pollfds.length = s.events.size

theorem Fresh.slotted (h : Fresh s) : Slotted s := by
  obtain ⟨hevents, hpollfds, hdead⟩ := h
  refine ⟨?_, ?_, ?_, ?_, ?_, ?_⟩
  · intro fd ev
    simp [hevents, hdead ev]
  · intro ev hlive
    simp [hdead ev] at hlive
  · intro ev hlive
    simp [hdead ev] at hlive
  · intro i pfd hslot
    simp [hpollfds] at hslot
  · intro i pfd hslot
    simp [hpollfds] at hslot
  · rw [hevents, hpollfds]
    rfl

theorem getElem?_concat_eq_some {β : Type} {l : List β} {a b : β} {i : Nat}
    (h : (l ++ [a])[i]? = some b) : l[i]? = some b ∨ i = l.length ∧ b = a := by
  rw [List.getElem?_append] at h
  split at h
  · exact .inl h
  · have hmem := List.mem_singleton.mp (List.mem_of_getElem? h)
    have hlt := (List.getElem?_eq_some_iff.mp h).1
    rw [List.length_singleton] at hlt
    exact .inr ⟨by omega, hmem⟩

section Slots

variable {ev' : EventPtr} {i : Nat} {pfd : PollFd}

theorem Slotted.owner_of_index (h : Slotted s) (hlive : s.live ev = true)
    (hindex : (s.objects ev).index = i) (hslot : s.pollfds[i]? = some pfd) :
    pfd.owner = (s.objects ev).fd := by
  obtain ⟨j, pfd', hindex', hslot', howner⟩ := h.slot ev hlive
  obtain rfl : j = i := by
    rw [hindex'] at hindex
    exact_mod_cast hindex
  rw [hslot] at hslot'
  rw [Option.some.inj hslot']
  exact howner

theorem Slotted.index_injective (h : Slotted s) (hlive : s.live ev = true)
    (hlive' : s.live ev' = true) (hindex : (s.objects ev).index = (s.objects ev').index) :
    ev' = ev := by
  obtain ⟨i, pfd, hi, hslot, howner⟩ := h.slot ev hlive
  have howner' := h.owner_of_index hlive' (hindex.symm.trans hi) hslot
  exact Poller.Maps.unique h.mapped hlive hlive' (howner'.symm.trans howner)

theorem Slotted.index_ne {j : Nat} (h : Slotted s) (hlive : s.live ev = true)
    (hlive' : s.live ev' = true) (hev : ev' ≠ ev) (hindex : (s.objects ev).index = i)
    (hindex' : (s.objects ev').index = j) : j ≠ i := by
  rintro rfl
  exact hev (h.index_injective hlive hlive' (hindex.trans hindex'.symm))

theorem Slotted.indexed (h : Slotted s) : Indexed s := by
  refine ⟨h.size, ?_, ?_, ?_⟩
  · intro ev
    rw [h.mapped]
    simp
  · intro ev hlive
    obtain ⟨i, pfd, hindex, hslot, howner⟩ := h.slot ev hlive
    have hlt := (List.getElem?_eq_some_iff.mp hslot).1
    rw [hindex]
    refine ⟨by omega, by omega, pfd, by simpa using hslot, ?_⟩
    exact (PollFd.owner_iff (h.nonneg ev hlive)).mp howner
  · intro ev ev' hlive hlive' hne hindex
    exact hne (h.index_injective hlive hlive' hindex).symm

theorem Slotted.registerNew {s' : PollSession} {mask : Int16} (h : Slotted s)
    (hdead : s.live ev = false) (hfd : 0 ≤ (s.objects ev).fd)
    (hfree : (s.objects ev).fd ∉ s.events)
    (hobjects : s'.objects = (s.setIndex ev s.pollfds.length).objects)
    (hevents : s'.events = s.events.insert (s.objects ev).fd ev)
    (hpollfds : s'.pollfds = s.pollfds ++ [{ fd := (s.objects ev).fd, events := mask }])
    (hlives : s'.live = Function.update s.live ev true) : Slotted s' := by
  have hself : s'.objects ev = { s.objects ev with index := s.pollfds.length } := by
    rw [hobjects]
    exact Poller.setIndex_self _ _ _
  have hother : ∀ ev', ev' ≠ ev → s'.objects ev' = s.objects ev' ∧ s'.live ev' = s.live ev' := by
    intro ev' hev
    rw [hobjects, hlives]
    exact ⟨Poller.setIndex_of_ne _ _ _ hev, Function.update_of_ne hev _ _⟩
  have hlive : s'.live ev = true := by
    rw [hlives]
    exact Function.update_self _ _ _
  have hne : ∀ {ev'}, s.live ev' = true → ev' ≠ ev := by
    intro ev' hlive hev
    rw [hev, hdead] at hlive
    cases hlive
  have hentries : ∀ (i : Nat) pfd, s'.pollfds[i]? = some pfd → s.pollfds[i]? = some pfd ∨
      i = s.pollfds.length ∧ pfd = { fd := (s.objects ev).fd, events := mask } := by
    intro i pfd hslot
    rw [hpollfds] at hslot
    exact getElem?_concat_eq_some hslot
  refine ⟨?_, ?_, ?_, ?_, ?_, ?_⟩
  · have halone : ∀ ev', ev' ≠ ev → s.live ev' = true →
        (s.objects ev').fd ≠ (s.objects ev).fd := by
      intro ev' _ hlive' hsame
      rw [← hsame] at hfree
      exact hfree (Poller.mem_of_lookup ((h.mapped _ _).mpr ⟨hlive', rfl⟩))
    rw [hlives]
    refine Poller.Maps.change h.mapped halone true ?_ ?_
    · intro fd
      rw [hevents, Poller.lookup_insert]
      rfl
    · intro ev'
      rw [hobjects]
      exact s.setIndex_fd ev ev' _
  · intro ev' hlive'
    by_cases hev : ev' = ev
    · subst hev
      rw [hself]
      exact hfd
    · rw [(hother ev' hev).2] at hlive'
      rw [(hother ev' hev).1]
      exact h.nonneg ev' hlive'
  · intro ev' hlive'
    by_cases hev : ev' = ev
    · subst hev
      rw [hself, hpollfds]
      refine ⟨s.pollfds.length, _, rfl, List.getElem?_concat_length, ?_⟩
      exact (PollFd.owner_iff hfd).mpr (.inl rfl)
    · rw [(hother ev' hev).2] at hlive'
      rw [(hother ev' hev).1, hpollfds]
      obtain ⟨i, pfd, hindex, hslot, howner⟩ := h.slot ev' hlive'
      have hlt := (List.getElem?_eq_some_iff.mp hslot).1
      exact ⟨i, pfd, hindex, by rw [List.getElem?_append_left hlt]; exact hslot, howner⟩
  · intro i pfd hslot
    cases hentries i pfd hslot with
    | inl hold =>
        obtain ⟨ev', hlive', hindex⟩ := h.held i pfd hold
        refine ⟨ev', ?_, ?_⟩
        · rw [(hother ev' (hne hlive')).2]
          exact hlive'
        · rw [(hother ev' (hne hlive')).1]
          exact hindex
    | inr hnew => exact ⟨ev, hlive, by rw [hself, hnew.1]⟩
  · intro i pfd hslot hneg
    cases hentries i pfd hslot with
    | inl hold => exact h.parked i pfd hold hneg
    | inr hnew =>
        rw [hnew.2] at hneg
        exact absurd hneg (by simpa using hfd)
  · rw [Std.ExtTreeMap.mem_iff_contains] at hfree
    rw [hpollfds, hevents, Std.ExtTreeMap.size_insert, if_neg hfree, ← h.size, List.length_append,
      List.length_singleton]

theorem Slotted.rewrite (h : Slotted s) (hlive : s.live ev = true)
    (hindex : (s.objects ev).index = i) (hslot : s.pollfds[i]? = some pfd) {pfd' : PollFd}
    (howner : pfd'.owner = (s.objects ev).fd) (hmask : pfd'.fd < 0 → pfd'.events = 0) :
    Slotted { s with pollfds := s.pollfds.set i pfd' } := by
  have hlt := (List.getElem?_eq_some_iff.mp hslot).1
  refine ⟨h.mapped, h.nonneg, ?_, ?_, ?_, ?_⟩
  · intro ev' hlive'
    by_cases hev : ev' = ev
    · subst hev
      exact ⟨i, pfd', hindex, List.getElem?_set_self hlt, howner⟩
    · obtain ⟨j, pfd'', hindex', hslot', howner'⟩ := h.slot ev' hlive'
      have hij := (h.index_ne hlive hlive' hev hindex hindex').symm
      exact ⟨j, pfd'', hindex', by rw [List.getElem?_set_ne hij]; exact hslot', howner'⟩
  · intro j pfd'' hslot'
    have hlt' := (List.getElem?_eq_some_iff.mp hslot').1
    rw [List.length_set] at hlt'
    exact h.held j _ (List.getElem?_eq_getElem hlt')
  · intro j pfd'' hslot' hneg
    by_cases hij : i = j
    · subst hij
      rw [List.getElem?_set_self hlt] at hslot'
      cases hslot'
      exact hmask hneg
    · rw [List.getElem?_set_ne hij] at hslot'
      exact h.parked j pfd'' hslot' hneg
  · rw [List.length_set]
    exact h.size

/-- The last entry moves into the hole that an event leaves behind. -/
theorem Slotted.remove {s' : PollSession} (h : Slotted s) (hlive : s.live ev = true)
    (hindex : (s.objects ev).index = i) (hlt : i < s.pollfds.length)
    (hevents : s'.events = s.events.erase (s.objects ev).fd)
    (hlives : s'.live = Function.update s.live ev false)
    (hlength : s'.pollfds.length = s.pollfds.length - 1)
    (hpollfds : ∀ j : Nat, j + 1 < s.pollfds.length →
      s'.pollfds[j]? = if j = i then s.pollfds[s.pollfds.length - 1]? else s.pollfds[j]?)
    (hfd : ∀ ev', (s'.objects ev').fd = (s.objects ev').fd)
    (hindices : ∀ ev' (j : Nat), s.live ev' = true → ev' ≠ ev → (s.objects ev').index = j →
      (s'.objects ev').index = if j + 1 = s.pollfds.length then i else j) : Slotted s' := by
  have hsurvives : ∀ {ev'}, s'.live ev' = true ↔ ev' ≠ ev ∧ s.live ev' = true := by
    intro ev'
    rw [hlives]
    by_cases hev : ev' = ev
    · simp [hev]
    · simp [hev]
  -- An entry that is left comes from one of the old entries, with the same event.
  have hkept : ∀ (j : Nat) pfd, s'.pollfds[j]? = some pfd → ∃ k : Nat,
      s.pollfds[k]? = some pfd ∧ k ≠ i ∧ (if k + 1 = s.pollfds.length then i else k) = j := by
    intro j pfd hslot
    have hjlt := (List.getElem?_eq_some_iff.mp hslot).1
    rw [hpollfds j (by omega)] at hslot
    by_cases hj : j = i
    · rw [if_pos hj] at hslot
      refine ⟨s.pollfds.length - 1, hslot, by omega, ?_⟩
      rw [if_pos (by omega)]
      exact hj.symm
    · rw [if_neg hj] at hslot
      exact ⟨j, hslot, hj, if_neg (by omega)⟩
  refine ⟨?_, ?_, ?_, ?_, ?_, ?_⟩
  · have halone : ∀ ev', ev' ≠ ev → s.live ev' = true →
        (s.objects ev').fd ≠ (s.objects ev).fd :=
      fun ev' hev hlive' hsame => hev (Poller.Maps.unique h.mapped hlive hlive' hsame)
    rw [hlives]
    refine Poller.Maps.change h.mapped halone false ?_ hfd
    intro fd
    rw [hevents, Poller.lookup_erase]
    rfl
  · intro ev' hlive'
    rw [hfd]
    exact h.nonneg ev' (hsurvives.mp hlive').2
  · intro ev' hlive'
    obtain ⟨hev, hlive'⟩ := hsurvives.mp hlive'
    obtain ⟨j, pfd, hindex', hslot, howner⟩ := h.slot ev' hlive'
    have hji := h.index_ne hlive hlive' hev hindex hindex'
    have hjlt := (List.getElem?_eq_some_iff.mp hslot).1
    rw [hfd, hindices ev' j hlive' hev hindex']
    by_cases hlast : j + 1 = s.pollfds.length
    · refine ⟨i, pfd, by rw [if_pos hlast], ?_, howner⟩
      rw [hpollfds i (by omega), if_pos rfl, ← hlast, Nat.add_sub_cancel]
      exact hslot
    · refine ⟨j, pfd, by rw [if_neg hlast], ?_, howner⟩
      rw [hpollfds j (by omega), if_neg hji]
      exact hslot
  · intro j pfd hslot
    obtain ⟨k, hslot', hki, hkj⟩ := hkept j pfd hslot
    obtain ⟨ev', hlive', hindex'⟩ := h.held k pfd hslot'
    have hev : ev' ≠ ev := by
      rintro rfl
      rw [hindex] at hindex'
      exact hki (by exact_mod_cast hindex'.symm)
    refine ⟨ev', hsurvives.mpr ⟨hev, hlive'⟩, ?_⟩
    rw [hindices ev' k hlive' hev hindex', ← hkj]
  · intro j pfd hslot hneg
    obtain ⟨k, hslot', -⟩ := hkept j pfd hslot
    exact h.parked k pfd hslot' hneg
  · have hmem := Poller.mem_of_lookup ((h.mapped _ _).mpr ⟨hlive, rfl⟩)
    rw [Std.ExtTreeMap.mem_iff_contains] at hmem
    rw [hlength, hevents, Std.ExtTreeMap.size_erase, if_pos hmem, h.size]

end Slots

theorem Slotted.sameRegistrations {s s' : PollSession} (h : Slotted s)
    (hevents : s'.events = s.events) (hlives : s'.live = s.live) {f : PollFd → PollFd}
    (hpollfds : s'.pollfds = s.pollfds.map f)
    (hf : ∀ pfd, (f pfd).fd = pfd.fd ∧ (f pfd).events = pfd.events)
    (hfields : ∀ ev, (s'.objects ev).fd = (s.objects ev).fd ∧
      (s'.objects ev).index = (s.objects ev).index) : Slotted s' := by
  have howner : ∀ pfd, (f pfd).owner = pfd.owner := by
    intro pfd
    rw [PollFd.owner, (hf pfd).1, PollFd.owner]
  have hback : ∀ (i : Nat) pfd, s'.pollfds[i]? = some pfd →
      ∃ pfd', s.pollfds[i]? = some pfd' ∧ f pfd' = pfd := by
    intro i pfd hslot
    rw [hpollfds, List.getElem?_map] at hslot
    exact Option.map_eq_some_iff.mp hslot
  refine ⟨?_, ?_, ?_, ?_, ?_, ?_⟩
  · intro fd ev
    rw [hevents, hlives, (hfields ev).1]
    exact h.mapped fd ev
  · intro ev hlive
    rw [hlives] at hlive
    rw [(hfields ev).1]
    exact h.nonneg ev hlive
  · intro ev hlive
    rw [hlives] at hlive
    obtain ⟨i, pfd, hindex, hslot, hpfd⟩ := h.slot ev hlive
    rw [(hfields ev).1, (hfields ev).2]
    refine ⟨i, f pfd, hindex, ?_, (howner pfd).trans hpfd⟩
    rw [hpollfds, List.getElem?_map, hslot]
    rfl
  · intro i pfd hslot
    obtain ⟨pfd', hslot', -⟩ := hback i pfd hslot
    obtain ⟨ev, hlive, hindex⟩ := h.held i pfd' hslot'
    refine ⟨ev, ?_, ?_⟩
    · rw [hlives]
      exact hlive
    · rw [(hfields ev).2]
      exact hindex
  · intro i pfd hslot hneg
    obtain ⟨pfd', hslot', rfl⟩ := hback i pfd hslot
    rw [(hf pfd').1] at hneg
    rw [(hf pfd').2]
    exact h.parked i pfd' hslot' hneg
  · rw [hpollfds, List.length_map, hevents]
    exact h.size

theorem entry_parked (hfd : 0 ≤ (s.objects ev).fd) (hneg : (s.entry ev).fd < 0) :
    (s.entry ev).events = 0 := by
  simp only [PollPoller.entry] at hneg ⊢
  split at hneg
  · rename_i hnone
    rw [hnone]
    rfl
  · omega

theorem Slotted.updateEvent (h : Slotted s) (hallowed : Allowed s (.updateEvent ev))
    (hproper : Proper s (.updateEvent ev)) :
    ∃ s', step s (.updateEvent ev) = some (.ok s') ∧ Slotted s' := by
  obtain ⟨hfd, halone⟩ := hallowed
  cases hlive : s.live ev with
  | false =>
      have hindex : (s.objects ev).index < 0 := by
        cases hproper with
        | inl hlive' =>
            rw [hlive] at hlive'
            cases hlive'
        | inr hindex => exact hindex
      have hfree := Poller.Maps.not_mem_events h.mapped hlive halone
      simp only [step, PollPoller.updateEvent_new hindex hfree, ok_bind, pure_eq_ok]
      exact ⟨_, rfl, h.registerNew hlive hfd hfree rfl rfl rfl rfl⟩
  | true =>
      obtain ⟨i, pfd, hindex, hslot, howner⟩ := h.slot ev hlive
      have hmapped := (h.mapped _ _).mpr ⟨hlive, rfl⟩
      have hsame : Function.update s.live ev true = s.live := by
        rw [← hlive, Function.update_eq_self]
      have hentry : (s.entry ev).owner = (s.objects ev).fd := by
        rw [PollFd.owner_iff hfd]
        simp only [PollPoller.entry]
        split
        · exact .inr rfl
        · exact .inl rfl
      simp only [step, PollPoller.updateEvent_slot hindex hslot hmapped
        ((PollFd.owner_iff hfd).mp howner), ok_bind, pure_eq_ok, hsame]
      have hrewritten := h.rewrite hlive hindex hslot hentry (entry_parked hfd)
      exact ⟨_, rfl, hrewritten.sameRegistrations rfl rfl (List.map_id _).symm
        (fun _ => ⟨rfl, rfl⟩) (fun _ => ⟨rfl, rfl⟩)⟩

theorem getElem?_swap_dropLast {β : Type} {l : List β} {i j : Nat} {back b : β}
    (hback : l[l.length - 1]? = some back) (hi : i + 1 < l.length) (hj : j + 1 < l.length) :
    (((l.set i back).set (l.length - 1) b).dropLast)[j]? =
      if j = i then l[l.length - 1]? else l[j]? := by
  rw [List.getElem?_dropLast, List.length_set, List.length_set, if_pos (by omega),
    List.getElem?_set_ne (by omega), hback]
  by_cases hij : i = j
  · subst hij
    rw [List.getElem?_set_self (by omega), if_pos rfl]
  · rw [List.getElem?_set_ne hij, if_neg (Ne.symm hij)]

theorem Slotted.removeEvent (h : Slotted s) (hallowed : Allowed s (.removeEvent ev))
    (hproper : Proper s (.removeEvent ev)) :
    ∃ s', step s (.removeEvent ev) = some (.ok s') ∧ Slotted s' := by
  have hlive := hallowed.1
  have hfd := h.nonneg ev hlive
  obtain ⟨hnone, pfd, hslot, hparked⟩ := hproper
  obtain ⟨i, -, hindex, -, -⟩ := h.slot ev hlive
  rw [hindex, Int.toNat_natCast] at hslot
  have hlt := (List.getElem?_eq_some_iff.mp hslot).1
  have hmask := h.parked i pfd hslot (by omega)
  have hmapped := (h.mapped _ _).mpr ⟨hlive, rfl⟩
  by_cases hlast : i + 1 = s.pollfds.length
  · simp only [step, PollPoller.removeEvent_last hindex hslot hmapped hnone hparked hmask hlast,
      ok_bind, pure_eq_ok]
    refine ⟨_, rfl, h.remove hlive hindex hlt rfl rfl List.length_dropLast ?_ (fun _ => rfl) ?_⟩
    · intro j hj
      simp only [List.getElem?_dropLast]
      rw [if_pos (by omega), if_neg (by omega)]
    · intro ev' j hlive' hev hindex'
      have hne := h.index_ne hlive hlive' hev hindex hindex'
      rw [if_neg (by omega)]
      exact hindex'
  · obtain ⟨back, hback⟩ : ∃ back, s.pollfds[s.pollfds.length - 1]? = some back :=
      ⟨_, List.getElem?_eq_getElem (by omega)⟩
    obtain ⟨evBack, hliveBack, hindexBack⟩ := h.held _ back hback
    have hne : evBack ≠ ev := by
      rintro rfl
      rw [hindex] at hindexBack
      omega
    have howner := h.owner_of_index hliveBack hindexBack hback
    have hat : (s.events.erase (s.objects ev).fd)[
        if back.fd < 0 then -back.fd - 1 else back.fd]? = some evBack := by
      have hapart : (s.objects ev).fd ≠ back.owner := by
        rw [howner]
        exact fun heq => hne (Poller.Maps.unique h.mapped hlive hliveBack heq.symm)
      rw [← PollFd.owner, Poller.lookup_erase, if_neg hapart, howner]
      exact (h.mapped _ _).mpr ⟨hliveBack, rfl⟩
    simp only [step, PollPoller.removeEvent_swap hindex hslot hmapped hnone hparked hmask
      (by omega) hback hat, ok_bind, pure_eq_ok]
    refine ⟨_, rfl, h.remove hlive hindex hlt rfl rfl ?_ ?_ ?_ ?_⟩
    · simp
    · intro j hj
      exact getElem?_swap_dropLast hback (by omega) hj
    · intro ev'
      by_cases hev : ev' = evBack
      · subst hev
        simp [Poller.setIndex_self]
      · simp [Poller.setIndex_of_ne _ _ _ hev]
    · intro ev' j hlive' hev' hindex'
      by_cases hev : ev' = evBack
      · subst hev
        rw [hindexBack] at hindex'
        rw [if_pos (by omega)]
        simp [Poller.setIndex_self]
      · rw [if_neg]
        · simp [Poller.setIndex_of_ne _ _ _ hev, hindex']
        · intro hj
          refine hev (h.index_injective hliveBack hlive' ?_)
          rw [hindexBack, hindex']
          omega

theorem Slotted.poll (h : Slotted s) (ready : Option (Int → Int16)) :
    ∃ s', step s (.poll ready) = some (.ok s') ∧ Slotted s' := by
  cases ready with
  | none => exact ⟨s, rfl, h⟩
  | some report =>
      let f : PollFd → PollFd := fun pfd =>
        { pfd with revents := if pfd.fd < 0 then 0 else report pfd.fd }
      have hentries : ∀ pfd ∈ s.pollfds.map f, 0 < pfd.revents →
          ∃ ev, s.events[pfd.fd]? = some ev ∧ (s.objects ev).fd = pfd.fd := by
        intro pfd hpfd hrevents
        obtain ⟨pfd', hmem, rfl⟩ := List.mem_map.mp hpfd
        have hwatched : ¬pfd'.fd < 0 := by
          intro hneg
          simp only [f, if_pos hneg] at hrevents
          exact absurd hrevents (by decide)
        obtain ⟨i, hslot⟩ := List.getElem?_of_mem hmem
        obtain ⟨ev, hlive, hindex⟩ := h.held i pfd' hslot
        have howner := h.owner_of_index hlive hindex hslot
        rw [PollFd.owner, if_neg hwatched] at howner
        exact ⟨ev, (h.mapped _ _).mpr ⟨hlive, howner.symm⟩, howner.symm⟩
      obtain ⟨p, active, hfill, hevents, hpollfds, hfields⟩ :=
        PollPoller.fillActiveEvents_of_mapped
          (p := { s.toPollPoller with pollfds := s.pollfds.map f })
          ((s.pollfds.map f).countP fun pfd => pfd.revents ≠ 0) (s.pollfds.map f) [] hentries
      have hpoll : s.toPollPoller.poll (some report) = .ok (p, active) := hfill
      simp only [step, hpoll, ok_bind, pure_eq_ok]
      exact ⟨_, rfl, h.sameRegistrations hevents rfl hpollfds (fun _ => ⟨rfl, rfl⟩) hfields⟩

theorem Slotted.step {op : Op} (h : Slotted s) (hallowed : Allowed s op) (hproper : Proper s op) :
    ∃ s', PollSession.step s op = some (.ok s') ∧ Slotted s' := by
  cases op with
  | setEvents ev mask =>
      exact ⟨_, rfl, h.sameRegistrations rfl rfl (List.map_id _).symm (fun _ => ⟨rfl, rfl⟩)
        (fun ev' => Poller.setEvents_fields s.toPoller ev ev' mask)⟩
  | updateEvent ev => exact h.updateEvent hallowed hproper
  | removeEvent ev => exact h.removeEvent hallowed hproper
  | poll ready => exact h.poll ready

theorem assertThat_of_not {p : Prop} [Decidable p] (h : ¬p) :
    assertThat p = .error .assertion :=
  if_neg h

/-- An event that was removed keeps an index and is not found in the map; the assertions of
`RemoveEvent` are about the interest and the entry of the event. -/
theorem Slotted.step_broken {op : Op} (h : Slotted s) (hallowed : Allowed s op)
    (hbad : ¬Proper s op) : PollSession.step s op = some (.error .assertion) := by
  cases op with
  | setEvents ev mask => exact absurd trivial hbad
  | poll ready => exact absurd trivial hbad
  | updateEvent ev =>
      simp only [Proper, not_or, Bool.not_eq_true] at hbad
      have hfree := Poller.Maps.not_mem_events h.mapped hbad.1 hallowed.2
      simp only [PollSession.step, PollPoller.updateEvent, if_neg hbad.2, assertThat_of_not hfree,
        error_bind]
  | removeEvent ev =>
      have hlive := hallowed.1
      obtain ⟨i, pfd, hindex, hslot, howner⟩ := h.slot ev hlive
      have hmapped := (h.mapped _ _).mpr ⟨hlive, rfl⟩
      simp only [PollSession.step, PollPoller.removeEvent, hindex,
        assertThat_of (Poller.mem_of_lookup hmapped), assertThat_of hmapped, ok_bind,
        assertThat_of (PollPoller.inRange_of_getElem hslot), PollPoller.slot_of_getElem hslot]
      by_cases hnone : (s.objects ev).isNoneEvent
      · have hfd : ¬(pfd.fd = -(s.objects ev).fd - 1 ∧
            pfd.events.toInt = ((s.objects ev).events.toNat : Int)) := by
          rintro ⟨hparked, -⟩
          refine hbad ⟨hnone, pfd, ?_, hparked⟩
          rw [hindex, Int.toNat_natCast]
          exact hslot
        simp only [assertThat_of hnone, assertThat_of_not hfd, ok_bind, error_bind]
      · simp only [assertThat_of_not hnone, error_bind]

def IndexedResult (r : Except Fault PollSession) : Prop :=
  ∃ s, r = .ok s ∧ Indexed s

/-- The indices are right throughout a run, and no assertion of the poller fails in it, just
when each event that comes to `UpdateEvent` is registered or has the index of a new one, and
each event that comes to `RemoveEvent` has no interest and a disabled entry. -/
theorem run_indexed_iff {s : PollSession} (hfresh : Fresh s) {ops : List Op}
    {r : Except Fault PollSession} (hrun : Run.Path step Allowed s ops r) :
    (∀ before after r', ops = before ++ after → Run.Path step Allowed s before r' →
        IndexedResult r') ↔
      ∀ before op after s', ops = before ++ op :: after →
        Run.Path step Allowed s before (.ok s') → Proper s' op := by
  refine Run.Path.good_iff (fun s h => ⟨s, rfl, h.indexed⟩) ?_ ?_ hrun hfresh.slotted
  · intro s op r h hallowed hproper hstep
    obtain ⟨s', hstep', h'⟩ := h.step hallowed hproper
    cases hstep'.symm.trans hstep
    exact ⟨s', rfl, h'⟩
  · rintro s op r h hallowed hbad hstep ⟨s', rfl, -⟩
    cases (h.step_broken hallowed hbad).symm.trans hstep

/-- The event at each address has the address as its descriptor. -/
def ownFds : PollSession where
  objects := fun ev => { fd := ev }

theorem ownFds_fresh : Fresh ownFds :=
  ⟨rfl, rfl, fun _ => rfl⟩

theorem ownFds_alone (objects : EventPtr → Event) (live : EventPtr → Bool)
    (h : ∀ ev, (objects ev).fd = ev) (ev : EventPtr) :
    0 ≤ (objects ev).fd ∧
      ∀ ev', ev' ≠ ev → live ev' = true → (objects ev').fd ≠ (objects ev).fd := by
  rw [h]
  refine ⟨by omega, ?_⟩
  intro ev' hev _ hfd
  rw [h] at hfd
  exact hev (by exact_mod_cast hfd)

/-- The entry of the last of three events moves to the place of the first. -/
theorem run_indexed_moved_entry :
    ∃ r, Run.Path step Allowed ownFds
        [.updateEvent 0, .updateEvent 1, .updateEvent 2, .setEvents 0 0, .updateEvent 0,
          .removeEvent 0] r ∧
      IndexedResult r := by
  have hrun : ∃ r, Run.Path step (fun s op => Allowed s op ∧ Proper s op) ownFds
      [.updateEvent 0, .updateEvent 1, .updateEvent 2, .setEvents 0 0, .updateEvent 0,
        .removeEvent 0] r := by
    refine ⟨_, .cons ⟨?_, .inr (by decide)⟩ rfl (.cons ⟨?_, .inr (by decide)⟩ rfl
      (.cons ⟨?_, .inr (by decide)⟩ rfl (.cons ⟨trivial, trivial⟩ rfl
        (.cons ⟨?_, .inl rfl⟩ rfl (.cons ⟨⟨rfl, rfl⟩, rfl, _, rfl, rfl⟩ rfl (.nil _))))))⟩
    all_goals
      refine ownFds_alone _ _ ?_ _
      intro ev
      match ev with
      | 0 => rfl
      | 1 => rfl
      | 2 => rfl
      | n + 3 => rfl
  obtain ⟨r, hrun⟩ := hrun
  have hallowed := hrun.mono (fun _ _ hboth => hboth.1)
  refine ⟨r, hallowed, ?_⟩
  exact Run.Path.good_of_meets (fun _ _ hboth => hboth.2) (run_indexed_iff ownFds_fresh hallowed)
    hrun hallowed

/-- A removed event that is registered again, and an event that was registered without
interest and is removed: both run into an assertion. -/
theorem reregistered_event_asserts :
    Run.Path step Allowed ownFds
      [.updateEvent 0, .setEvents 0 0, .updateEvent 0, .removeEvent 0, .updateEvent 0]
      (.error .assertion) ∧
    Run.Path step Allowed ownFds [.setEvents 0 0, .updateEvent 0, .removeEvent 0]
      (.error .assertion) := by
  constructor
  · refine .cons ?_ rfl (.cons trivial rfl (.cons ?_ rfl (.cons ⟨rfl, rfl⟩ rfl (.fault ?_ rfl))))
    all_goals
      refine ownFds_alone _ _ ?_ _
      intro ev
      match ev with
      | 0 => rfl
      | n + 1 => rfl
  · refine .cons trivial rfl (.cons ?_ rfl (.fault ⟨rfl, rfl⟩ rfl))
    refine ownFds_alone _ _ ?_ _
    intro ev
    match ev with
    | 0 => rfl
    | n + 1 => rfl

end PollSession

end LibMsf
