import LibMsf.Upnp.NatMap

/-!
What holds between the calls of `Pulse` while every enabled call passes port zero, and none that
is not enabled comes after two that are.

The stored port is zero while nothing is mapped, and a mapping that a call finds and keeps has the
port of this call. A request that has to wait is sent whatever the arguments of the later call
are; it can only come to that behind a second enabled call.
-/

namespace LibMsf

namespace Upnp

/-- A mapping is asked for in an enabled call and for the port of this call. -/
def Right (call : Call) (request : MapRequest) : Prop :=
  request.lifetime ≠ 0 → call.enabled = true ∧ request.privatePort = call.privatePort

/-- Every enabled call asks for port zero, and none that is not enabled comes after two that
are. -/
structure Harmless (calls : List Call) : Prop where
  ports : ∀ call ∈ calls, call.enabled = true → call.privatePort = 0
  order : ∀ before call after, calls = before ++ call :: after → call.enabled = false →
    before.countP (·.enabled) ≤ 1

namespace NatPMP

variable {call : Call} {a : Answers} {n m : NatPMP}

/-- What holds of the state `m` between two phases of a call that started in `n`, before a mapping
is considered. -/
structure Stage (call : Call) (a : Answers) (n m : NatPMP) : Prop where
  unmapped : m.mapped = false → m.privatePort = 0
  pending : m.state = .sendMap → n.state = .sendMap ∧ m.privatePort = n.privatePort
  fresh : n.state = .discover → n.mapped = false →
    m.mapped = false ∧ m.state ≠ .sendUnmap ∧ m.state ≠ .recvUnmap ∧
      (m.state = .idle → m.commandTime ≤ a.canReceivePub) ∧
      (call.enabled = false → m.state = .discover)

theorem Stage.start (h : n.mapped = false → n.privatePort = 0) : Stage call a n n := by
  refine ⟨h, fun hstate => ⟨hstate, rfl⟩, ?_⟩
  intro hstate hmapped
  simp [hstate, hmapped]

theorem Stage.discover (h : Stage call a n m) : Stage call a n (discover call a m) := by
  cases discover_cases call a m with
  | inl hsame => rwa [hsame]
  | inr hchange =>
      obtain ⟨henabled, -, state, hstate, heq⟩ := hchange
      rw [heq]
      refine ⟨h.unmapped, ?_, ?_⟩
      · rintro rfl
        simp at hstate
      · intro hn hmapped
        refine ⟨(h.fresh hn hmapped).1, ?_⟩
        cases hstate with
        | inl hstate => simp [setCommandTime, hstate, henabled]
        | inr hstate => simp [setCommandTime, hstate, henabled]

theorem Stage.receivePub (h : Stage call a n m) : Stage call a n (receivePub a m) := by
  cases receivePub_cases a m with
  | inl hsame => rwa [hsame]
  | inr hchange =>
      obtain ⟨hrecv, hcan, state, hstate, heq⟩ := hchange
      rw [heq]
      refine ⟨h.unmapped, ?_, ?_⟩
      · rintro rfl
        simp at hstate
      · intro hn hmapped
        obtain ⟨hm, -, -, -, hdisabled⟩ := h.fresh hn hmapped
        refine ⟨hm, ?_, ?_, fun _ => hcan, fun hoff => ?_⟩
        · rintro rfl
          simp at hstate
        · rintro rfl
          simp at hstate
        · rw [hdisabled hoff] at hrecv
          cases hrecv

theorem Stage.checkMapping (h : Stage call a n m) : Stage call a n (checkMapping call m) := by
  cases checkMapping_cases call m with
  | inl hsame => rwa [hsame.1]
  | inr hchange =>
      rw [hchange.2]
      refine ⟨h.unmapped, (fun hstate => nomatch hstate), ?_⟩
      intro hn hmapped
      rw [(h.fresh hn hmapped).1] at hchange
      cases hchange.1

theorem Stage.sendUnmap (h : Stage call a n m) : Stage call a n (sendUnmap a m).1 := by
  cases sendUnmap_cases a m with
  | inl hsame => rwa [hsame]
  | inr hchange =>
      obtain ⟨hsend, state, request, hstate, -, heq⟩ := hchange
      rw [heq]
      refine ⟨h.unmapped, ?_, ?_⟩
      · rintro rfl
        simp at hstate
      · intro hn hmapped
        exact absurd hsend (h.fresh hn hmapped).2.1

theorem Stage.receiveUnmap (h : Stage call a n m) : Stage call a n (receiveUnmap a m) := by
  cases receiveUnmap_cases a m with
  | inl hsame => rwa [hsame]
  | inr hchange =>
      obtain ⟨hrecv, heq⟩ := hchange
      have hfresh : ¬(n.state = .discover ∧ n.mapped = false) :=
        fun hn => (h.fresh hn.1 hn.2).2.2.1 hrecv
      cases heq with
      | inl heq =>
          rw [heq]
          exact ⟨h.unmapped, (fun hstate => nomatch hstate),
            fun hn hmapped => absurd ⟨hn, hmapped⟩ hfresh⟩
      | inr heq =>
          rw [heq]
          exact ⟨fun _ => rfl, (fun hstate => nomatch hstate),
            fun hn hmapped => absurd ⟨hn, hmapped⟩ hfresh⟩

/-- An idle machine with a mapping has one that this call wants to keep. -/
def Wanted (call : Call) (m : NatPMP) : Prop :=
  m.state = .idle → m.mapped = true → call.enabled = true ∧ m.privatePort = call.privatePort

theorem wanted_checkMapping (call : Call) (m : NatPMP) : Wanted call (checkMapping call m) := by
  cases checkMapping_cases call m with
  | inl hsame =>
      rw [hsame.1]
      exact hsame.2
  | inr hchange =>
      rw [hchange.2]
      intro hidle
      cases hidle

theorem Wanted.sendUnmap (h : Wanted call m) : Wanted call (sendUnmap a m).1 := by
  cases sendUnmap_cases a m with
  | inl hsame => rwa [hsame]
  | inr hchange =>
      obtain ⟨-, state, request, hstate, -, heq⟩ := hchange
      rw [heq]
      rintro rfl
      simp at hstate

theorem Wanted.receiveUnmap (h : Wanted call m) : Wanted call (receiveUnmap a m) := by
  cases receiveUnmap_cases a m with
  | inl hsame => rwa [hsame]
  | inr hchange =>
      cases hchange.2 with
      | inl heq =>
          rw [heq]
          intro hidle
          cases hidle
      | inr heq =>
          rw [heq]
          intro _ hmapped
          cases hmapped

theorem settle_requests {request : MapRequest} (h : request ∈ (settle call a n).2) :
    request.lifetime = 0 := by
  simp only [settle] at h
  cases sendUnmap_cases a (checkMapping call (receivePub a (discover call a n))) with
  | inl hsame =>
      rw [hsame] at h
      cases h
  | inr hchange =>
      obtain ⟨-, state, sent, -, hlifetime, heq⟩ := hchange
      rw [heq] at h
      rw [List.mem_singleton.mp h]
      exact hlifetime

theorem stage_settle (h : n.mapped = false → n.privatePort = 0) :
    Stage call a n (settle call a n).1 :=
  (Stage.start h).discover.receivePub.checkMapping.sendUnmap.receiveUnmap

theorem wanted_settle (call : Call) (a : Answers) (n : NatPMP) :
    Wanted call (settle call a n).1 :=
  (wanted_checkMapping call _).sendUnmap.receiveUnmap

/-- What holds between two calls, when `e` of the calls so far were enabled. -/
structure Tame (e : Nat) (n : NatPMP) : Prop where
  unmapped : n.mapped = false → n.privatePort = 0
  pending : n.state = .sendMap → n.privatePort = 0
  fresh : e = 0 → n.state = .discover ∧ n.mapped = false
  early : e ≤ 1 → n.state ≠ .sendMap

theorem tame_initial (renewTime : Int) : Tame 0 (initial renewTime) :=
  ⟨fun _ => rfl, (fun hstate => nomatch hstate), fun _ => ⟨rfl, rfl⟩,
    fun _ hstate => nomatch hstate⟩

section Pulse

variable {e : Nat}

theorem Tame.due (h : Tame e n) (hport : call.enabled = true → call.privatePort = 0)
    (horder : call.enabled = false → e ≤ 1) :
    (checkIdle call a (settle call a n).1).state = .sendMap →
      call.enabled = true ∧ (checkIdle call a (settle call a n).1).privatePort = 0 := by
  have hstage : Stage call a n (settle call a n).1 := stage_settle h.unmapped
  have hwanted := wanted_settle call a n
  generalize (settle call a n).1 = m at hstage hwanted
  cases checkIdle_cases call a m with
  | inl hsame =>
      rw [hsame]
      intro hstate
      obtain ⟨hn, hkept⟩ := hstage.pending hstate
      refine ⟨?_, hkept.trans (h.pending hn)⟩
      by_contra hoff
      exact h.early (horder (Bool.not_eq_true _ ▸ hoff)) hn
  | inr hchange =>
      obtain ⟨hidle, hmapped, heq⟩ := hchange
      rw [heq]
      intro _
      cases hmapped with
      | inl hfree => exact ⟨hfree.1, hstage.unmapped hfree.2⟩
      | inr hmapped =>
          obtain ⟨henabled, hkept⟩ := hwanted hidle hmapped
          exact ⟨henabled, hkept.trans (hport henabled)⟩

theorem receiveMap_pending (h : (receiveMap a m).state = .sendMap) : receiveMap a m = m := by
  cases receiveMap_cases a m with
  | inl hsame => exact hsame
  | inr hchange =>
      cases hchange.2 with
      | inl heq =>
          rw [heq] at h
          cases h
      | inr hmapped =>
          rw [hmapped.1] at h
          cases h

theorem sendMap_pending (h : (sendMap a m).1.state = .sendMap) :
    (sendMap a m).1 = m ∧ a.canMap < m.commandTime := by
  cases sendMap_cases a m with
  | inl hsame =>
      rw [hsame.1] at h ⊢
      exact ⟨rfl, hsame.2 h⟩
  | inr hsent =>
      obtain ⟨-, state, hstate, heq⟩ := hsent
      rw [heq] at h
      subst h
      simp at hstate

/-- A request that is still due at the end of a call has found the time not come. -/
theorem map_pending (h : (receiveMap a (sendMap a m).1).state = .sendMap) :
    receiveMap a (sendMap a m).1 = m ∧ a.canMap < m.commandTime := by
  have hreceived := receiveMap_pending h
  rw [hreceived] at h ⊢
  exact sendMap_pending h

theorem receiveMap_unmapped (h : m.mapped = false → m.privatePort = 0) :
    (receiveMap a m).mapped = false → (receiveMap a m).privatePort = 0 := by
  cases receiveMap_cases a m with
  | inl hsame => rwa [hsame]
  | inr hchange =>
      cases hchange.2 with
      | inl heq => rwa [heq]
      | inr hmapped =>
          rw [hmapped.2]
          intro hfalse
          cases hfalse

theorem sendMap_unmapped (h : m.mapped = false → m.privatePort = 0) :
    (sendMap a m).1.mapped = false → (sendMap a m).1.privatePort = 0 := by
  cases sendMap_cases a m with
  | inl hsame => rwa [hsame.1]
  | inr hsent =>
      obtain ⟨-, state, -, heq⟩ := hsent
      rwa [heq]

theorem checkIdle_unmapped (h : m.mapped = false → m.privatePort = 0) :
    (checkIdle call a m).mapped = false → (checkIdle call a m).privatePort = 0 := by
  cases checkIdle_cases call a m with
  | inl hsame => rwa [hsame]
  | inr hchange => rwa [hchange.2.2]

theorem pulse_state (call : Call) (a : Answers) (n : NatPMP) :
    (pulse call a n).1 =
      receiveMap a (sendMap a (checkIdle call a (settle call a n).1)).1 := by
  rw [pulse]

theorem pulse_requests (call : Call) (a : Answers) (n : NatPMP) :
    (pulse call a n).2 =
      (settle call a n).2 ++ (sendMap a (checkIdle call a (settle call a n).1)).2 := by
  rw [pulse]

theorem map_discover (h : m.state = .discover) :
    receiveMap a (sendMap a (checkIdle call a m)).1 = m := by
  simp [h]

theorem Tame.pulse (h : Tame e n) (hport : call.enabled = true → call.privatePort = 0)
    (horder : call.enabled = false → e ≤ 1) (hclock : a.canReceivePub ≤ a.canMap) :
    Tame (e + call.enabled.toNat) (NatPMP.pulse call a n).1 := by
  have hdue := h.due (a := a) hport horder
  have hstage : Stage call a n (settle call a n).1 := stage_settle h.unmapped
  rw [pulse_state]
  generalize (settle call a n).1 = m at hdue hstage
  refine ⟨receiveMap_unmapped (sendMap_unmapped (checkIdle_unmapped hstage.unmapped)), ?_, ?_, ?_⟩
  · intro hstate
    have hsame := (map_pending hstate).1
    rw [hsame] at hstate ⊢
    exact (hdue hstate).2
  · intro he
    obtain ⟨hstate, hmapped⟩ := h.fresh (by omega)
    obtain ⟨hm, -, -, -, hdisabled⟩ := hstage.fresh hstate hmapped
    have hoff : call.enabled = false := by
      cases henabled : call.enabled with
      | false => rfl
      | true =>
          rw [henabled] at he
          cases he
    rw [map_discover (hdisabled hoff)]
    exact ⟨hdisabled hoff, hm⟩
  · -- a request that is due in the first enabled call comes from an answer for which the time
    -- had already come
    intro he hstate
    obtain ⟨hsame, hearly⟩ := map_pending hstate
    rw [hsame] at hstate
    have henabled := (hdue hstate).1
    rw [henabled, Bool.toNat_true] at he
    obtain ⟨hdiscover, hmapped⟩ := h.fresh (by omega)
    cases checkIdle_cases call a m with
    | inl hkept =>
        rw [hkept] at hstate
        have hn := (hstage.pending hstate).1
        rw [hdiscover] at hn
        cases hn
    | inr hchange =>
        have hcan := (hstage.fresh hdiscover hmapped).2.2.2.1 hchange.1
        rw [hchange.2.2] at hearly
        simp only at hearly
        omega

theorem Tame.right (h : Tame e n) (hport : call.enabled = true → call.privatePort = 0)
    (horder : call.enabled = false → e ≤ 1) {request : MapRequest}
    (hrequest : request ∈ (NatPMP.pulse call a n).2) : Right call request := by
  have hdue := h.due (a := a) hport horder
  rw [pulse_requests] at hrequest
  cases List.mem_append.mp hrequest with
  | inl hunmap =>
      intro hlifetime
      exact absurd (settle_requests hunmap) hlifetime
  | inr hmap =>
      intro _
      generalize (settle call a n).1 = m at hdue hmap
      cases sendMap_cases a (checkIdle call a m) with
      | inl hsame =>
          rw [hsame.1] at hmap
          cases hmap
      | inr hsent =>
          obtain ⟨hstate, state, -, heq⟩ := hsent
          rw [heq] at hmap
          obtain ⟨henabled, hprivate⟩ := hdue hstate
          rw [List.mem_singleton.mp hmap]
          exact ⟨henabled, hprivate.trans (hport henabled).symm⟩

end Pulse

theorem canReceivePub_le (h : a.clock.Pairwise (· ≤ ·)) : a.canReceivePub ≤ a.canMap := by
  simp only [Answers.clock, List.pairwise_cons] at h
  exact h.2.1 _ (by simp)

/-- The requests of the calls that are left when `before` are done. -/
theorem Tame.run {steps : List (Call × Answers)} (before : List Call)
    (hharmless : Harmless (before ++ steps.map Prod.fst))
    (hclock : (steps.flatMap fun step => step.2.clock).Pairwise (· ≤ ·))
    (h : Tame (before.countP (·.enabled)) n) :
    ∀ sent ∈ requests n steps, Right sent.1 sent.2 := by
  induction steps generalizing before n with
  | nil => exact fun _ hsent => nomatch hsent
  | cons step steps ih =>
      obtain ⟨call, a⟩ := step
      rw [List.flatMap_cons, List.pairwise_append] at hclock
      rw [List.map_cons] at hharmless
      have hport : call.enabled = true → call.privatePort = 0 :=
        hharmless.ports call (List.mem_append_right _ List.mem_cons_self)
      have horder : call.enabled = false → before.countP (·.enabled) ≤ 1 :=
        hharmless.order before call _ rfl
      have hnext := h.pulse (a := a) hport horder (canReceivePub_le hclock.1)
      have hcount : before.countP (·.enabled) + call.enabled.toNat =
          (before ++ [call]).countP (·.enabled) := by
        rw [List.countP_append, List.countP_singleton]
        cases call.enabled with
        | false => rfl
        | true => rfl
      rw [hcount] at hnext
      intro sent hsent
      rw [requests] at hsent
      cases List.mem_append.mp hsent with
      | inl hnow =>
          obtain ⟨request, hrequest, rfl⟩ := List.mem_map.mp hnow
          exact h.right hport horder hrequest
      | inr hlater =>
          refine ih (before ++ [call]) ?_ hclock.2.1 hnext sent hlater
          rwa [List.append_assoc]

end NatPMP

end Upnp

end LibMsf
