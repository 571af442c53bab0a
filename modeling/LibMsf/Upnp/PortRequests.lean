import LibMsf.Upnp.PortInvariant

/-!
Which calls of `Pulse` lead to a request that is not right.

Where the calls are not harmless, a clock and answers of the library are given: all calls before
the first one that matters are made while the machine waits, so that nothing has to be known of
them.
-/

namespace LibMsf

namespace Upnp

/-- Every request of every run with these calls is right. -/
def AsksRight (calls : List Call) : Prop :=
  ∀ renewTime steps, steps.map Prod.fst = calls →
    (steps.flatMap fun step => step.2.clock).Pairwise (· ≤ ·) →
      ∀ sent ∈ NatPMP.requests (.initial renewTime) steps, Right sent.1 sent.2

namespace NatPMP

variable {call : Call} {a : Answers} {n : NatPMP}

/-- The clock says `first` once and then `rest`, the library does all it is asked for, and a
mapping has the port `port`. -/
def answers (first rest : Int) (port : UInt16) : Answers where
  setDiscover := first
  publicRequest := 0
  canReceivePub := rest
  publicReply := 0
  canUnmap := rest
  unmapRequest := 0
  setUnmap := rest
  unmapReply := ⟨0, port, port, 3600⟩
  renewal := rest
  canMap := rest
  mapRequest := 0
  setMap := rest
  mapReply := ⟨0, port, port, 3600⟩
  forwarded := rest

variable {port : UInt16}

/-- Nothing is mapped, and the address of the gateway has not come before second 8. -/
structure Quiet (n : NatPMP) : Prop where
  unmapped : n.mapped = false
  port : n.privatePort = 0
  waiting : n.state = .discover ∨
    n.state = .recvPub ∧ n.discovered = true ∧ n.commandTime = 8

theorem Quiet.pulse (h : Quiet n) (call : Call) (port : UInt16) :
    Quiet (NatPMP.pulse call (answers 0 0 port) n).1 := by
  obtain ⟨hmapped, hport, hwaiting⟩ := h
  cases hwaiting with
  | inl hstate =>
      cases henabled : call.enabled with
      | false =>
          have hsame : (NatPMP.pulse call (answers 0 0 port) n).1 = n := by
            simp [pulse_state, settle, discover, hstate, henabled]
          rw [hsame]
          exact ⟨hmapped, hport, .inl hstate⟩
      | true =>
          have hsent : (NatPMP.pulse call (answers 0 0 port) n).1 =
              { n with state := .recvPub, discovered := true, commandTime := 8 } := by
            simp [pulse_state, settle, discover, receivePub, answers, setCommandTime,
              CanSendCommand, COMMAND_WAIT_SECS, hstate, henabled]
          rw [hsent]
          exact ⟨hmapped, hport, .inr ⟨rfl, rfl, rfl⟩⟩
  | inr hrecv =>
      have hsame : (NatPMP.pulse call (answers 0 0 port) n).1 = n := by
        simp [pulse_state, settle, receivePub, answers, CanSendCommand, hrecv.1, hrecv.2.2]
      rw [hsame]
      exact ⟨hmapped, hport, .inr hrecv⟩

/-- A mapping that nothing has been sent about since it came. -/
structure Held (port : UInt16) (n : NatPMP) : Prop where
  mapped : n.mapped = true
  discovered : n.discovered = true
  port : n.privatePort = port
  time : n.commandTime = 16
  waiting : n.state = .sendUnmap ∨ n.state = .idle ∧ n.renewTime = 1808

theorem Quiet.map (h : Quiet n) (henabled : call.enabled = true) :
    ⟨0, 0, LIFETIME_SECS⟩ ∈ (NatPMP.pulse call (answers 0 8 port) n).2 ∧
      Held port (NatPMP.pulse call (answers 0 8 port) n).1 := by
  obtain ⟨hmapped, hport, hwaiting⟩ := h
  -- whether it is sent before or now, the question for the address is answered in this call
  have hfound : ∃ m, settle call (answers 0 8 port) n = (m, []) ∧ m.state = .idle ∧
      m.discovered = true ∧ m.mapped = false ∧ m.privatePort = 0 ∧ m.commandTime = 8 := by
    cases hwaiting with
    | inl hstate =>
        refine ⟨{ n with state := .idle, discovered := true, commandTime := 8 }, ?_, rfl, rfl,
          hmapped, hport, rfl⟩
        simp [settle, discover, receivePub, checkMapping, answers, setCommandTime, CanSendCommand,
          COMMAND_WAIT_SECS, hstate, henabled, hmapped]
    | inr hrecv =>
        refine ⟨{ n with state := .idle }, ?_, rfl, hrecv.2.1, hmapped, hport, hrecv.2.2⟩
        simp [settle, receivePub, checkMapping, answers, CanSendCommand, hrecv.1, hrecv.2.2,
          hmapped]
  obtain ⟨m, hsettle, hidle, hdiscovered, hfree, hzero, htime⟩ := hfound
  have hsend : sendMap (answers 0 8 port) (checkIdle call (answers 0 8 port) m) =
      ({ m with state := .recvMap, commandTime := 16 }, [⟨0, 0, LIFETIME_SECS⟩]) := by
    simp [checkIdle, sendMap, answers, setCommandTime, CanSendCommand, COMMAND_WAIT_SECS, hidle,
      henabled, hfree, hdiscovered, hzero, htime]
  rw [pulse_requests, pulse_state, hsettle, hsend]
  refine ⟨List.mem_singleton.mpr rfl, ?_⟩
  constructor <;> simp [receiveMap, answers, hdiscovered]

theorem Held.pulse (h : Held port n) (call : Call) :
    Held port (NatPMP.pulse call (answers 8 8 port) n).1 := by
  have hmapped := h.mapped
  have htime := h.time
  cases h.waiting with
  | inl hstate =>
      have hsame : (NatPMP.pulse call (answers 8 8 port) n).1 = n := by
        simp [pulse_state, settle, sendUnmap, answers, CanSendCommand, hstate, htime]
      rw [hsame]
      exact h
  | inr hidle =>
      by_cases hkeep : call.enabled = true ∧ n.privatePort = call.privatePort
      · have hsame : (NatPMP.pulse call (answers 8 8 port) n).1 = n := by
          simp [pulse_state, settle, checkMapping, checkIdle, answers, hidle.1, hidle.2, hmapped,
            hkeep.1, hkeep.2]
        rw [hsame]
        exact h
      · have hchange : checkMapping call n = { n with state := .sendUnmap } := by
          cases checkMapping_cases call n with
          | inl hsame => exact absurd (hsame.2 hidle.1 hmapped) hkeep
          | inr hchange => exact hchange.2
        have hwait : (NatPMP.pulse call (answers 8 8 port) n).1 =
            { n with state := .sendUnmap } := by
          simp [pulse_state, settle, hchange, sendUnmap, answers, CanSendCommand, hidle.1, htime]
        rw [hwait]
        exact ⟨hmapped, h.discovered, h.port, htime, .inl rfl⟩

/-- A request for a mapping that waits for second 24. -/
structure Due (n : NatPMP) : Prop where
  state : n.state = .sendMap
  time : n.commandTime = 24

theorem Held.unmap (h : Held port n) (henabled : call.enabled = true)
    (hport : port ≠ call.privatePort) : Due (NatPMP.pulse call (answers 16 16 port) n).1 := by
  obtain ⟨hmapped, hdiscovered, hprivate, htime, hwaiting⟩ := h
  have hchange : checkMapping call (receivePub (answers 16 16 port)
      (discover call (answers 16 16 port) n)) = { n with state := .sendUnmap } := by
    cases hwaiting with
    | inl hstate =>
        rw [discover_of_ne (by simp [hstate]), receivePub_of_ne (by simp [hstate]),
          checkMapping_of_ne (by simp [hstate]) (by simp [hstate]), ← hstate]
    | inr hidle => simp [checkMapping, hidle.1, hmapped, hprivate, hport]
  have hsettle : (settle call (answers 16 16 port) n).1 = { n with
      state := .idle, mapped := false, privatePort := 0, publicPort := 0, commandTime := 24 } := by
    simp only [settle, hchange]
    simp [sendUnmap, receiveUnmap, answers, setCommandTime, CanSendCommand, COMMAND_WAIT_SECS,
      htime, hprivate]
  have hwait : (NatPMP.pulse call (answers 16 16 port) n).1 = { n with
      state := .sendMap, mapped := false, privatePort := 0, publicPort := 0,
      commandTime := 24 } := by
    rw [pulse_state, hsettle]
    simp [checkIdle, sendMap, answers, CanSendCommand, henabled, hdiscovered]
  rw [hwait]
  exact ⟨rfl, rfl⟩

theorem Due.pulse (h : Due n) (call : Call) (port : UInt16) :
    Due (NatPMP.pulse call (answers 16 16 port) n).1 := by
  have hsame : (NatPMP.pulse call (answers 16 16 port) n).1 = n := by
    simp [pulse_state, settle, sendMap, answers, CanSendCommand, h.state, h.time]
  rw [hsame]
  exact h

theorem Due.ask (h : Due n) (call : Call) (port : UInt16) :
    ⟨n.privatePort, n.privatePort, LIFETIME_SECS⟩ ∈
      (NatPMP.pulse call (answers 24 24 port) n).2 := by
  simp [pulse_requests, settle, sendMap, answers, CanSendCommand, h.state, h.time]

/-- The clock of these steps goes from `lo` to `hi`. -/
structure Between (lo hi : Int) (steps : List (Call × Answers)) : Prop where
  ordered : (steps.flatMap fun step => step.2.clock).Pairwise (· ≤ ·)
  within : ∀ t ∈ steps.flatMap fun step => step.2.clock, lo ≤ t ∧ t ≤ hi

theorem Between.append {lo mid mid' hi : Int} {before after : List (Call × Answers)}
    (h : Between lo mid before) (h' : Between mid' hi after)
    (hle : lo ≤ mid' ∧ mid ≤ mid' ∧ mid ≤ hi) : Between lo hi (before ++ after) := by
  refine ⟨?_, ?_⟩
  · rw [List.flatMap_append, List.pairwise_append]
    exact ⟨h.ordered, h'.ordered,
      fun t ht t' ht' => (h.within t ht).2.trans (hle.2.1.trans (h'.within t' ht').1)⟩
  · intro t ht
    rw [List.flatMap_append] at ht
    cases List.mem_append.mp ht with
    | inl ht => exact ⟨(h.within t ht).1, (h.within t ht).2.trans hle.2.2⟩
    | inr ht => exact ⟨hle.1.trans (h'.within t ht).1, (h'.within t ht).2⟩

theorem between_one {first rest : Int} (hle : first ≤ rest) (call : Call) (port : UInt16) :
    Between first rest [(call, answers first rest port)] := by
  constructor
  · simp [Answers.clock, answers, hle]
  · simp [Answers.clock, answers, hle]

/-- Calls at one time. -/
def still (t : Int) (port : UInt16) (calls : List Call) : List (Call × Answers) :=
  calls.map fun call => (call, answers t t port)

theorem between_still (t : Int) (port : UInt16) (calls : List Call) :
    Between t t (still t port calls) := by
  induction calls with
  | nil => exact ⟨List.Pairwise.nil, fun _ ht => nomatch ht⟩
  | cons call calls ih =>
      exact (between_one (Int.le_refl t) call port).append ih (by simp)

theorem after_cons (n : NatPMP) (step : Call × Answers) (steps : List (Call × Answers)) :
    after n (step :: steps) = after (NatPMP.pulse step.1 step.2 n).1 steps := by
  rw [after, List.foldl_cons, after]

theorem after_append (n : NatPMP) (before rest : List (Call × Answers)) :
    after n (before ++ rest) = after (after n before) rest := by
  rw [after, List.foldl_append, after, after]

theorem after_still {P : NatPMP → Prop} {t : Int}
    (hstep : ∀ call n, P n → P (NatPMP.pulse call (answers t t port) n).1) (calls : List Call)
    (h : P n) : P (after n (still t port calls)) := by
  induction calls generalizing n with
  | nil => exact h
  | cons call calls ih =>
      rw [still, List.map_cons, after_cons]
      exact ih (hstep call n h)

theorem mem_requests {before rest : List (Call × Answers)} {request : MapRequest}
    (h : request ∈ (NatPMP.pulse call a (after n before)).2) :
    (call, request) ∈ requests n (before ++ (call, a) :: rest) := by
  induction before generalizing n with
  | nil =>
      rw [List.nil_append, requests]
      exact List.mem_append_left _ (List.mem_map.mpr ⟨request, h, rfl⟩)
  | cons step before ih =>
      rw [after_cons] at h
      rw [List.cons_append, requests]
      exact List.mem_append_right _ (ih h)

theorem quiet_still (port : UInt16) (calls : List Call) :
    Quiet (after (initial 0) (still 0 port calls)) :=
  after_still (fun call _ h => h.pulse call port) calls ⟨rfl, rfl, .inl rfl⟩

theorem map_fst_still (t : Int) (port : UInt16) (calls : List Call) :
    (still t port calls).map Prod.fst = calls := by
  simp [still, Function.comp_def]

/-- The first request asks for port zero, in whatever enabled call it is sent. -/
theorem not_asksRight_of_port {before rest : List Call} (henabled : call.enabled = true)
    (hport : call.privatePort ≠ 0) : ¬AsksRight (before ++ call :: rest) := by
  intro hright
  have hclock : Between 0 8 (still 0 0 before ++ (call, answers 0 8 0) :: still 8 0 rest) :=
    (between_still 0 0 before).append
      ((between_one (by decide) call 0).append (between_still 8 0 rest) (by decide)) (by decide)
  have hcalls : (still 0 0 before ++ (call, answers 0 8 0) :: still 8 0 rest).map Prod.fst =
      before ++ call :: rest := by
    rw [List.map_append, List.map_cons, map_fst_still, map_fst_still]
  have hrequest := hright 0 _ hcalls hclock.ordered _
    (mem_requests ((quiet_still 0 before).map henabled).1)
  exact hport (hrequest (show LIFETIME_SECS ≠ 0 by decide)).2.symm

theorem exists_other_port (port : UInt16) : ∃ other, other ≠ port := by
  by_cases h : port = 0
  · exact ⟨1, by rw [h]; decide⟩
  · exact ⟨0, Ne.symm h⟩

/-- A request that becomes due in the second of two enabled calls can be sent by a later one. -/
theorem not_asksRight_of_order {first second last : Call} {before between later rest : List Call}
    (hfirst : first.enabled = true) (hsecond : second.enabled = true)
    (hlast : last.enabled = false) :
    ¬AsksRight (before ++ first :: (between ++ second :: (later ++ last :: rest))) := by
  intro hright
  obtain ⟨port, hport⟩ := exists_other_port second.privatePort
  have hheld : Held port (after (initial 0)
      (still 0 port before ++ (first, answers 0 8 port) :: still 8 port between)) := by
    rw [after_append, after_cons]
    exact after_still (fun call _ h => h.pulse call) between
      ((quiet_still port before).map hfirst).2
  have hdue : Due (after (initial 0)
      ((still 0 port before ++ (first, answers 0 8 port) :: still 8 port between) ++
        (second, answers 16 16 port) :: still 16 port later)) := by
    rw [after_append, after_cons]
    exact after_still (fun call _ h => h.pulse call port) later (hheld.unmap hsecond hport)
  have hclock : Between 0 24
      (((still 0 port before ++ (first, answers 0 8 port) :: still 8 port between) ++
        (second, answers 16 16 port) :: still 16 port later) ++
          (last, answers 24 24 port) :: still 24 port rest) :=
    (((between_still 0 port before).append ((between_one (by decide) first port).append
      (between_still 8 port between) (by decide)) (by decide)).append
        ((between_one (by decide) second port).append (between_still 16 port later) (by decide))
          (by decide)).append
      ((between_one (by decide) last port).append (between_still 24 port rest) (by decide))
        (by decide)
  have hrequest := hright 0 _ (by simp [map_fst_still]) hclock.ordered _
    (mem_requests (hdue.ask last port))
  have henabled := (hrequest (show LIFETIME_SECS ≠ 0 by decide)).1
  rw [hlast] at henabled
  cases henabled

end NatPMP

theorem exists_two_enabled {calls : List Call} (h : 1 < calls.countP (·.enabled)) :
    ∃ before first between second later,
      calls = before ++ first :: (between ++ second :: later) ∧
        first.enabled = true ∧ second.enabled = true := by
  rw [List.countP_eq_length_filter] at h
  match hfilter : calls.filter (·.enabled) with
  | [] | [_] =>
      simp [hfilter] at h
  | first :: second :: enabled =>
      obtain ⟨before, later, rfl, -, hfirst, hrest⟩ := List.filter_eq_cons_iff.mp hfilter
      obtain ⟨between, later, rfl, -, hsecond, -⟩ := List.filter_eq_cons_iff.mp hrest
      exact ⟨before, first, between, second, later, rfl, hfirst, hsecond⟩

/-- Every request is right just when the calls are harmless. -/
theorem asksRight_iff (calls : List Call) : AsksRight calls ↔ Harmless calls := by
  constructor
  · intro hright
    refine ⟨?_, ?_⟩
    · intro call hmem henabled
      by_contra hport
      obtain ⟨before, rest, rfl⟩ := List.append_of_mem hmem
      exact NatPMP.not_asksRight_of_port henabled hport hright
    · rintro before last rest rfl hlast
      by_contra hmany
      obtain ⟨before, first, between, second, later, rfl, hfirst, hsecond⟩ :=
        exists_two_enabled (Nat.lt_of_not_le hmany)
      simp only [List.append_assoc, List.cons_append] at hright
      exact NatPMP.not_asksRight_of_order hfirst hsecond hlast hright
  · intro hharmless renewTime steps hcalls hclock
    apply NatPMP.Tame.run [] _ hclock (NatPMP.tame_initial renewTime)
    rw [List.nil_append, hcalls]
    exact hharmless

/-- One enabled call for port 6881, during which the clock goes on by the time to wait. -/
theorem asks_for_port_zero :
    (NatPMP.answers 0 8 6881).clock.Pairwise (· ≤ ·) ∧
      NatPMP.requests (.initial 0) [(⟨6881, true⟩, NatPMP.answers 0 8 6881)] =
        [(⟨6881, true⟩, ⟨0, 0, 3600⟩)] ∧
      ¬Right ⟨6881, true⟩ ⟨0, 0, 3600⟩ := by
  refine ⟨by decide, rfl, ?_⟩
  intro hright
  exact absurd (hright (by decide)).2 (by decide)

end Upnp

end LibMsf
