import LibMsf.Stun.PseudoTcpSafety

/-!
When the clock has to be notified.

`GetNextClock` tells its caller how long to wait before the next call of `NotifyClock`. In
every state that a session reaches a call before that time would change nothing, and a call when
no time is left sends a packet or closes the connection. Where no timer runs the answer is a
default time, and the call at its end may find nothing to do.
-/

namespace LibMsf

open Cxx Interleaving

/-- An instant that is still to come after a shorter wait. -/
theorem timeDiff32_wait {later now wait : UInt32}
    (h : (wait.toNat : Int) < timeDiff32 later now) : 0 < timeDiff32 later (now + wait) := by
  have hsub : later - (now + wait) = later - now - wait := by grind
  unfold timeDiff32 at h ⊢
  rw [hsub]
  generalize later - now = rest at h
  by_cases hhigh : rest.toNat < 2 ^ 31
  · rw [signedUInt32_of_lt hhigh] at h
    have hle : wait ≤ rest := UInt32.le_iff_toNat_le.mpr (by omega)
    have hnat : (rest - wait).toNat = rest.toNat - wait.toNat := UInt32.toNat_sub_of_le _ _ hle
    rw [signedUInt32_of_lt (by omega)]
    omega
  · have hneg := signedUInt32_neg (Nat.le_of_not_lt hhigh)
    omega

namespace Endpoint

/-- `clock_check`, and `GetNextClock`, which calls it. The answer is none where they return
false: nothing is left to do for the connection. -/
def clockCheck (e : Endpoint) (now : UInt32) : Option Int :=
  if e.shutdown = .forceful then none
  else if e.shutdown = .graceful ∧
      (e.state ≠ .established ∨ e.sbuf.getBuffered = 0 ∧ e.tAck = 0) then none
  else if e.state = .closed then some closedTimeout
  else
    let nTimeout := defaultTimeout
    let nTimeout := if e.tAck ≠ 0 then min nTimeout (timeDiff32 (e.tAck + e.ackDelay) now)
      else nTimeout
    let nTimeout := if e.rtoBase ≠ 0 then min nTimeout (timeDiff32 (e.rtoBase + e.rxRto) now)
      else nTimeout
    let nTimeout := if e.sndWnd = 0 then min nTimeout (timeDiff32 (e.lastsend + e.rxRto) now)
      else nTimeout
    some nTimeout

/-- The three timers that `NotifyClock` looks at. -/
inductive Timer (e : Endpoint) : UInt32 → Prop where
  | ack (h : e.tAck ≠ 0) : Timer e (e.tAck + e.ackDelay)
  | retransmission (h : e.rtoBase ≠ 0) : Timer e (e.rtoBase + e.rxRto)
  | probe (h : e.sndWnd = 0) : Timer e (e.lastsend + e.rxRto)

variable {e e' : Endpoint} {host : Host} {notify : Notify} {now : UInt32}

/-- The answer is the time to the first of the timers that run. -/
theorem clockCheck_spec {timeout : Int} (h : e.clockCheck now = some timeout)
    (hopen : e.state ≠ .closed) :
    (∀ due, e.Timer due → timeout ≤ timeDiff32 due now) ∧
      (timeout ≤ 0 → ∃ due, e.Timer due ∧ timeDiff32 due now ≤ 0) := by
  unfold clockCheck at h
  by_cases hforceful : e.shutdown = .forceful
  · rw [if_pos hforceful] at h
    cases h
  rw [if_neg hforceful] at h
  by_cases hdone : e.shutdown = .graceful ∧
      (e.state ≠ .established ∨ e.sbuf.getBuffered = 0 ∧ e.tAck = 0)
  · rw [if_pos hdone] at h
    cases h
  rw [if_neg hdone, if_neg hopen] at h
  have hanswer := Option.some.inj h
  dsimp only [defaultTimeout] at hanswer
  constructor
  · intro due hdue
    cases hdue with
    | ack hack =>
        rw [if_pos hack] at hanswer
        split_ifs at hanswer <;> omega
    | retransmission hbase =>
        rw [if_pos hbase] at hanswer
        split_ifs at hanswer <;> omega
    | probe hwnd =>
        rw [if_pos hwnd] at hanswer
        split_ifs at hanswer <;> omega
  · intro hle
    by_contra hnone
    have hlater : ∀ due, e.Timer due → 0 < timeDiff32 due now := by
      intro due hdue
      by_contra hnot
      exact hnone ⟨due, hdue, Int.not_lt.mp hnot⟩
    have hack : e.tAck ≠ 0 → 0 < timeDiff32 (e.tAck + e.ackDelay) now :=
      fun h => hlater _ (.ack h)
    have hbase : e.rtoBase ≠ 0 → 0 < timeDiff32 (e.rtoBase + e.rxRto) now :=
      fun h => hlater _ (.retransmission h)
    have hwnd : e.sndWnd = 0 → 0 < timeDiff32 (e.lastsend + e.rxRto) now :=
      fun h => hlater _ (.probe h)
    split_ifs at hanswer <;> grind

theorem packet_writes {seq : UInt32} {flags : UInt8} {offset len : UInt32}
    {r : Endpoint × WriteResult} (h : e.packet host seq flags offset len = .ok r) :
    r.1.writes = e.writes + 1 := by
  unfold packet at h
  obtain ⟨-, -, h⟩ := bind_eq_ok.mp h
  obtain ⟨data, -, h⟩ := bind_eq_ok.mp h
  by_cases hfail : host.tcpWritePacket e.writes ≠ .success ∧ len ≠ 0
  · rw [if_pos hfail] at h
    cases h
    rfl
  · rw [if_neg hfail] at h
    cases h
    rfl

theorem lowerMss_writes {turns : Nat} {nTransmit : UInt32} {r : Endpoint × Option UInt32}
    (h : lowerMss turns e nTransmit = .ok r) : r.1.writes = e.writes := by
  induction turns generalizing e with
  | zero => cases h
  | succ turns ih =>
      rw [lowerMss] at h
      obtain ⟨next, -, h⟩ := bind_eq_ok.mp h
      split at h
      · cases h
        rfl
      · dsimp only at h
        split at h
        · cases h
          rfl
        · have hrest := ih h
          exact hrest

/-- Every turn of the loop of `transmit` calls `TcpWritePacket`. -/
theorem sendPiece_writes {seg : SSegment} {turns : Nat} {nTransmit : UInt32}
    {r : Endpoint × Option UInt32} (h : sendPiece host seg turns e nTransmit = .ok r) :
    e.writes < r.1.writes := by
  induction turns generalizing e nTransmit with
  | zero => cases h
  | succ turns ih =>
      rw [sendPiece] at h
      obtain ⟨⟨e₁, wres⟩, hpacket, h⟩ := bind_eq_ok.mp h
      have hwrites : e.writes < e₁.writes := (packet_writes hpacket).ge
      cases wres with
      | success =>
          cases h
          exact hwrites
      | fail =>
          cases h
          exact hwrites
      | tooLarge =>
          obtain ⟨⟨e₂, shorter⟩, hlower, h⟩ := bind_eq_ok.mp h
          have hsame : e.writes < e₂.writes := hwrites.trans_le (lowerMss_writes hlower).ge
          cases shorter with
          | none =>
              cases h
              exact hsame
          | some shorter => exact hsame.trans (ih h)

/-- A segment that was transmitted too often is not sent again. -/
theorem transmit_writes {i : Nat} {r : Endpoint × Bool} (h : e.transmit host i now = .ok r) :
    r.2 = false ∨ e.writes < r.1.writes := by
  unfold transmit at h
  obtain ⟨seg, -, h⟩ := bind_eq_ok.mp h
  by_cases hoften : (if e.state = .established then 15 else 30) ≤ seg.xmit
  · rw [if_pos hoften] at h
    cases h
    exact .inl rfl
  · rw [if_neg hoften] at h
    obtain ⟨⟨e₁, sent⟩, hpiece, h⟩ := bind_eq_ok.mp h
    have hwrites := sendPiece_writes hpiece
    cases sent with
    | none =>
        cases h
        exact .inl rfl
    | some nTransmit =>
        cases h
        exact .inr hwrites

/-- The application cannot open a closed connection again. -/
theorem appCall_closed {call : AppCall} (hclosed : e.state = .closed)
    (h : e.appCall host call = .ok e') : e'.state = .closed := by
  have hnot : e.state ≠ .established := by
    rw [hclosed]
    decide
  cases call with
  | send data =>
      obtain ⟨r, hsend, h⟩ := bind_eq_ok.mp h
      rw [send, if_pos hnot] at hsend
      cases hsend
      cases h
      exact hclosed
  | recv len =>
      obtain ⟨r, hrecv, h⟩ := bind_eq_ok.mp h
      rw [recv, if_pos hnot] at hrecv
      cases hrecv
      cases h
      exact hclosed
  | close force =>
      cases h
      exact hclosed

theorem callback_closed {calls : List AppCall} (hclosed : e.state = .closed)
    (h : callback host e calls = .ok e') : e'.state = .closed := by
  induction calls generalizing e with
  | nil =>
      cases h
      exact hclosed
  | cons call calls ih =>
      obtain ⟨e₁, hcall, h⟩ := bind_eq_ok.mp h
      exact ih (appCall_closed hclosed hcall) h

theorem closedown_closed (h : e.closedown host notify = .ok e') : e'.state = .closed :=
  callback_closed rfl h

/-- A part of `NotifyClock` closed the connection and ends it, or it went on with at least `w`
calls of `TcpWritePacket` so far. -/
def Acted (w : Nat) (r : Endpoint × Bool) : Prop :=
  r.2 = false ∧ r.1.state = .closed ∨ r.2 = true ∧ w ≤ r.1.writes

theorem Acted.next {w : Nat} {r : Endpoint × Bool} {rest : Except Halt Endpoint} (hr : Acted w r)
    (h : (if r.2 = false then pure r.1 else rest) = .ok e')
    (hrest : w ≤ r.1.writes → rest = .ok e' → e'.state = .closed ∨ w ≤ e'.writes) :
    e'.state = .closed ∨ w ≤ e'.writes := by
  rcases hr with ⟨hstop, hclosed⟩ | ⟨hgo, hle⟩
  · rw [if_pos hstop] at h
    cases h
    exact .inl hclosed
  · rw [hgo, if_neg Bool.noConfusion] at h
    exact hrest hle h

theorem retransmit_due {r : Endpoint × Bool} (hbase : e.rtoBase ≠ 0)
    (hdue : timeDiff32 (e.rtoBase + e.rxRto) now ≤ 0) (hslist : e.slist ≠ [])
    (h : e.retransmit host notify now = .ok r) : Acted (e.writes + 1) r := by
  rw [retransmit, if_pos ⟨hbase, hdue, hslist⟩] at h
  obtain ⟨r₁, hresend, h⟩ := bind_eq_ok.mp h
  unfold resendFront at hresend
  obtain ⟨r₂, htransmit, hresend⟩ := bind_eq_ok.mp hresend
  have hwrites := transmit_writes htransmit
  split at hresend
  · obtain ⟨e₂, hclose, hresend⟩ := bind_eq_ok.mp hresend
    cases hresend
    cases h
    exact .inl ⟨rfl, closedown_closed hclose⟩
  · rename_i hgoes
    cases hresend
    cases h
    exact .inr ⟨rfl, hwrites.resolve_left hgoes⟩

theorem probe_due {r : Endpoint × Bool} (hwnd : e.sndWnd = 0)
    (hdue : timeDiff32 (e.lastsend + e.rxRto) now ≤ 0)
    (h : e.probe host notify now = .ok r) : Acted (e.writes + 1) r := by
  rw [probe, if_pos ⟨hwnd, hdue⟩] at h
  split at h
  · obtain ⟨e₁, hclose, h⟩ := bind_eq_ok.mp h
    cases h
    exact .inl ⟨rfl, closedown_closed hclose⟩
  · obtain ⟨r₁, hpacket, h⟩ := bind_eq_ok.mp h
    cases h
    exact .inr ⟨rfl, (packet_writes hpacket).ge⟩

theorem probe_acted {r : Endpoint × Bool} (h : e.probe host notify now = .ok r) :
    Acted e.writes r := by
  by_cases hdue : e.sndWnd = 0 ∧ timeDiff32 (e.lastsend + e.rxRto) now ≤ 0
  · refine (probe_due hdue.1 hdue.2 h).imp_right ?_
    exact fun hacted => ⟨hacted.1, Nat.le_of_succ_le hacted.2⟩
  · rw [probe, if_neg hdue] at h
    cases h
    exact .inr ⟨rfl, Nat.le_refl _⟩

theorem notifyClock_idle (h : ∀ due, e.Timer due → 0 < timeDiff32 due now) :
    e.notifyClock host notify now = .ok e := by
  have hretransmit : e.retransmit host notify now = .ok (e, true) := by
    refine if_neg ?_
    intro hdue
    exact Int.not_le.mpr (h _ (.retransmission hdue.1)) hdue.2.1
  have hprobe : e.probe host notify now = .ok (e, true) := by
    refine if_neg ?_
    intro hdue
    exact Int.not_le.mpr (h _ (.probe hdue.1)) hdue.2
  have hack : ¬(e.tAck ≠ 0 ∧ timeDiff32 (e.tAck + e.ackDelay) now ≤ 0) := by
    intro hdue
    exact Int.not_le.mpr (h _ (.ack hdue.1)) hdue.2
  unfold notifyClock
  split
  · rfl
  · rw [hretransmit, ok_bind, if_neg Bool.noConfusion, hprobe, ok_bind, if_neg Bool.noConfusion,
      if_neg hack, pure_eq_ok]

/-- What follows the probe in `NotifyClock` keeps what was done before. -/
theorem notifyClock_rest {w : Nat} {r : Endpoint × Bool} (hr : Acted w r)
    (h : (if r.2 = false then (pure r.1 : Except Halt Endpoint)
      else if r.1.tAck ≠ 0 ∧ timeDiff32 (r.1.tAck + r.1.ackDelay) now ≤ 0 then do
        let sent ← r.1.packet host r.1.sndNxt 0 0 0
        return sent.1
      else return r.1) = .ok e') : e'.state = .closed ∨ w ≤ e'.writes := by
  apply hr.next h
  intro hle hrest
  right
  split at hrest
  · obtain ⟨sent, hpacket, hrest⟩ := bind_eq_ok.mp hrest
    cases hrest
    have hwrites := packet_writes hpacket
    omega
  · cases hrest
    exact hle

/-- The retransmission timer runs only while something is in flight. -/
theorem Inv.slist_ne_nil {v : View} {n : Nat} (h : e.Inv v n) (hbase : e.rtoBase ≠ 0) :
    e.slist ≠ [] := by
  have hflight : e.sndUna.toNat < e.sndNxt.toNat := h.core.sender.congestion.timer hbase
  obtain ⟨sent, unsent, hsplit⟩ := h.core.sender.split
  intro hnil
  obtain ⟨rfl, -⟩ := List.append_eq_nil_iff.mp (hsplit.slist.symm.trans hnil)
  exact absurd hsplit.tiles_sent (Nat.ne_of_lt hflight)

theorem Inv.notifyClock_due {v : View} {n : Nat} (h : e.Inv v n) (hopen : e.state ≠ .closed)
    {due : UInt32} (htimer : e.Timer due) (hdue : timeDiff32 due now ≤ 0) :
    ∃ e', e.notifyClock host notify now = .ok e' ∧
      (e'.state = .closed ∨ e.writes < e'.writes) := by
  obtain ⟨e', hrun, -⟩ : Ends (e.notifyClock host notify now) _ := h.notifyClock now
  refine ⟨e', hrun, ?_⟩
  rw [Endpoint.notifyClock, if_neg hopen] at hrun
  obtain ⟨r₁, hretransmit, hrun⟩ := bind_eq_ok.mp hrun
  by_cases hrto : e.rtoBase ≠ 0 ∧ timeDiff32 (e.rtoBase + e.rxRto) now ≤ 0
  · -- The first segment goes out again; what follows can only add to that.
    have hacted := retransmit_due hrto.1 hrto.2 (h.slist_ne_nil hrto.1) hretransmit
    apply hacted.next hrun
    intro hle hrest
    obtain ⟨r₂, hprobe, hrest⟩ := bind_eq_ok.mp hrest
    refine (notifyClock_rest (probe_acted hprobe) hrest).imp_right ?_
    exact fun hle' => hle.trans hle'
  · have hskip : e.retransmit host notify now = .ok (e, true) :=
      if_neg fun hdue' => hrto ⟨hdue'.1, hdue'.2.1⟩
    cases hskip.symm.trans hretransmit
    rw [if_neg Bool.noConfusion] at hrun
    obtain ⟨r₂, hprobe, hrun⟩ := bind_eq_ok.mp hrun
    by_cases hwnd : e.sndWnd = 0 ∧ timeDiff32 (e.lastsend + e.rxRto) now ≤ 0
    · exact notifyClock_rest (probe_due hwnd.1 hwnd.2 hprobe) hrun
    · have hskip' : e.probe host notify now = .ok (e, true) := if_neg hwnd
      cases hskip'.symm.trans hprobe
      have hack : e.tAck ≠ 0 ∧ timeDiff32 (e.tAck + e.ackDelay) now ≤ 0 := by
        cases htimer with
        | ack hack => exact ⟨hack, hdue⟩
        | retransmission hbase => exact absurd ⟨hbase, hdue⟩ hrto
        | probe hzero => exact absurd ⟨hzero, hdue⟩ hwnd
      rw [if_neg Bool.noConfusion, if_pos hack] at hrun
      obtain ⟨sent, hpacket, hrun⟩ := bind_eq_ok.mp hrun
      cases hrun
      exact .inr (packet_writes hpacket).ge

end Endpoint

namespace TcpSession

/-- What the answer of `GetNextClock` is worth in every state that a session reaches: a call of
`NotifyClock` after a shorter wait changes nothing, and one without any wait, where none is
left, sends a packet or closes the connection. -/
theorem run_clock (s : TcpSession) (h : s.Allowed) {net : Side → Endpoint}
    {replies : List TcpReply} (hrun : s.run = .ok (net, replies)) (side : Side) {now : UInt32}
    {timeout : Int} (hcheck : (net side).clockCheck now = some timeout) (notify : Notify) :
    (∀ wait : UInt32, (wait.toNat : Int) < timeout →
      (net side).notifyClock (s.hosts side) notify (now + wait) = .ok (net side)) ∧
    (timeout ≤ 0 → ∃ e, (net side).notifyClock (s.hosts side) notify now = .ok e ∧
      (e.state = .closed ∨ (net side).writes < e.writes)) := by
  obtain ⟨net', replies', hrun', hinv⟩ := s.run_inv h
  cases hrun.symm.trans hrun'
  by_cases hclosed : (net side).state = .closed
  · have hnothing (time : UInt32) :
        (net side).notifyClock (s.hosts side) notify time = .ok (net side) := if_pos hclosed
    constructor
    · intro wait _
      exact hnothing (now + wait)
    · intro _
      exact ⟨net side, hnothing now, .inl hclosed⟩
  · obtain ⟨hfirst, hattained⟩ := Endpoint.clockCheck_spec hcheck hclosed
    constructor
    · intro wait hwait
      apply Endpoint.notifyClock_idle
      intro due hdue
      exact timeDiff32_wait (hwait.trans_le (hfirst due hdue))
    · intro hle
      obtain ⟨due, htimer, hdue⟩ := hattained hle
      exact (hinv side).notifyClock_due hclosed htimer hdue

/-- The two bytes are not acknowledged. Ten milliseconds into the session there is time left
before they are sent again; after five seconds there is none. -/
theorem twice_clock : ∃ net replies, twice.run = .ok (net, replies) ∧
    (net .left).clockCheck 10 = some 247 ∧
    (∀ wait : UInt32, (wait.toNat : Int) < 247 →
      (net .left).notifyClock (twice.hosts .left) {} (10 + wait) = .ok (net .left)) ∧
    (net .left).clockCheck 5000 = some (-4743) ∧
    ∃ e, (net .left).notifyClock (twice.hosts .left) {} 5000 = .ok e ∧
      (e.state = .closed ∨ (net .left).writes < e.writes) := by
  obtain ⟨net, replies, hrun, -⟩ := twice.run_inv twice_allowed
  have heval : (twice.run.toOption.map fun r =>
      ((r.1 .left).clockCheck 10, (r.1 .left).clockCheck 5000)) =
        some (some 247, some (-4743)) := by
    rw [twice_run]
    decide +kernel
  rw [hrun] at heval
  obtain ⟨hearly, hlate⟩ := Prod.mk.inj (Option.some.inj heval)
  exact ⟨net, replies, hrun, hearly, (run_clock twice twice_allowed hrun .left hearly {}).1, hlate,
    (run_clock twice twice_allowed hrun .left hlate {}).2 (by decide)⟩

end TcpSession

end LibMsf
