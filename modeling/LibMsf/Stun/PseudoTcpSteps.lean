import LibMsf.Stun.PseudoTcpInput

/-!
What reaches an endpoint from outside: packets of the peer, the clock and the MTU.

Every step ends, keeps the invariant against the view of the peer, and lets the view that the
peer has of this endpoint grow.
-/

namespace LibMsf

open Cxx

namespace Endpoint

variable {v : View} {n : Nat} {e e' : Endpoint} {host : Host} {notify : Notify} {seg : Segment}

theorem mssLevel_le (mtu : UInt32) : mssLevel mtu 0 packetMaximums ≤ 9 := by
  simp only [packetMaximums, mssLevel, true_or, if_true]
  split_ifs <;> decide

theorem Inv.adjustMTU (h : e.Inv v n) : e.adjustMTU.Inv v n ∧ e.view.Grows e.adjustMTU.view := by
  have hc := h.core.sender.congestion
  have hlow : 120 ≤ e.mtuAdvise.toNat := h.core.mtu_ge
  have hhigh : e.mtuAdvise.toNat ≤ 65535 := h.core.mtu_le
  have hmss : (e.mtuAdvise - packetOverhead).toNat = e.mtuAdvise.toNat - 116 :=
    toNat_sub32 (show packetOverhead.toNat ≤ e.mtuAdvise.toNat by change 116 ≤ _; omega)
  have hlevel := mssLevel_le e.mtuAdvise
  refine h.retuned rfl rfl ⟨?_, ?_, ?_, ?_, hc.recover_le, ?_, hc.timer⟩
  · change 4 ≤ (e.mtuAdvise - packetOverhead).toNat
    omega
  · change (e.mtuAdvise - packetOverhead).toNat ≤ 65419
    omega
  · change (UInt32.ofNat (mssLevel e.mtuAdvise 0 packetMaximums)).toNat ≤ 9
    rw [toNat_ofNat32 (by omega)]
    exact hlevel
  · intro hzero
    have hmax := UInt32.toNat_max e.ssthresh (2 * (e.mtuAdvise - packetOverhead))
    rw [show max e.ssthresh (2 * (e.mtuAdvise - packetOverhead)) = 0 from hzero] at hmax
    have hpos : e.ssthresh.toNat ≠ 0 := fun h => hc.ssthresh_pos (UInt32.toNat_inj.mp h)
    change 0 = max e.ssthresh.toNat _ at hmax
    omega
  · intro hzero
    refine ⟨(hc.fresh hzero).1, (hc.fresh hzero).2.trans ?_⟩
    change e.cwnd.toNat ≤ (max e.cwnd (e.mtuAdvise - packetOverhead)).toNat
    rw [UInt32.toNat_max]
    exact Nat.le_max_left _ _

theorem Inv.notifyMTU (h : e.Inv v n) {mtu : UInt16} (hmtu : 120 ≤ mtu.toNat) :
    (e.notifyMTU mtu).Inv v n ∧ e.view.Grows (e.notifyMTU mtu).view := by
  have hadvised : Inv v n { e with mtuAdvise := mtu.toUInt32 } := by
    refine ⟨{ h.core with mtu_ge := ?_, mtu_le := ?_ }, h.packets⟩
    · exact hmtu.trans (UInt16.toNat_toUInt32 mtu).ge
    · exact (UInt16.toNat_toUInt32 mtu).le.trans (Nat.le_of_lt_succ mtu.toNat_lt)
  unfold Endpoint.notifyMTU
  simp only
  split
  · exact hadvised.adjustMTU
  · exact ⟨hadvised, .refl _⟩

theorem Inv.establish (h : e.Inv v (n + offered notify.onTcpOpen)) (hqueued : e.queued ≠ []) :
    Ends (e.establish host notify) (fun e' => e'.Inv v n ∧ e.view.Grows e'.view) := by
  have hstate : Inv v (n + offered notify.onTcpOpen) { e with state := .established } :=
    h.with_state (by decide) (.inr hqueued)
  obtain ⟨hadjusted, hgrows⟩ := hstate.adjustMTU
  refine (hadjusted.callback notify.onTcpOpen).mono ?_
  rintro e₁ ⟨hinv, hgrows₁⟩
  exact ⟨hinv, hgrows.trans hgrows₁⟩

theorem parseOptions_opening (host : Host) (e : Endpoint) (scale : UInt8) :
    e.parseOptions host [tcpOptWndScale, 1, scale] = .ok { e with swndScale := scale } := by
  rfl

theorem Inv.receiveConnect (h : e.Inv v (n + offered notify.onTcpOpen)) :
    Ends (e.receiveConnect host notify) (fun e' => e'.Inv v n ∧ e.view.Grows e'.view) := by
  have hspent : e.Inv v n := h.spend (Nat.le_add_right n _)
  unfold Endpoint.receiveConnect
  cases hstate : e.state with
  | listen => exact hspent.queueConnectMessage hstate (.inr rfl)
  | synSent => exact h.establish (h.core.active (.inl hstate))
  | synReceived => exact .ok ⟨hspent, .refl _⟩
  | established => exact .ok ⟨hspent, .refl _⟩
  | closed => exact .ok ⟨hspent, .refl _⟩

/-- The opening message of the peer. -/
theorem Inv.control (h : e.Inv v (n + offered notify.onTcpOpen)) (hseg : SegmentOk v e.view seg)
    (hctl : seg.flags &&& flagCtl ≠ 0) :
    Ends (e.control host notify seg) (fun r => r.1.Inv v n ∧ e.view.Grows r.1.view) := by
  have hopening : ∃ scale : UInt8, seg.data = openingMessage scale ∧ scale.toNat = v.scale := by
    rcases hseg.data with ⟨-, hflags⟩ | hdata
    · rw [hflags] at hctl
      exact absurd rfl hctl
    · rcases hdata.kind with ⟨-, -, hscale⟩ | ⟨hflags, -⟩
      · exact hscale
      · rw [hflags] at hctl
        exact absurd rfl hctl
  obtain ⟨scale, hdata, hscale⟩ := hopening
  unfold Endpoint.control
  rw [hdata, openingMessage]
  simp only [if_true, parseOptions_opening, ok_bind]
  generalize he₁ : ({ e with swndScale := scale } : Endpoint) = e₁
  have hgrows : e.view.Grows e₁.view := by
    rw [← he₁]
    exact ⟨List.prefix_rfl, fun _ hc => hc, le_rfl, le_rfl, rfl⟩
  have h₁ : e₁.Inv v (n + offered notify.onTcpOpen) := by
    refine ⟨?_, h.packets_grow hgrows (by rw [← he₁])⟩
    subst he₁
    have hok := h.core.sender
    exact Core.Ok.with_sender h.core
      { hok with congestion := { hok.congestion with }, scale := .inr hscale } rfl rfl rfl
  refine h₁.receiveConnect.bind ?_
  rintro e₂ ⟨hinv, hgrows₂⟩
  exact .ok ⟨hinv, hgrows.trans hgrows₂⟩

theorem Inv.refill (h : e.Inv v (n + offered notify.onTcpWriteable)) :
    Ends (e.refill host notify) (fun e' => e'.Inv v n ∧ e.view.Grows e'.view) := by
  unfold Endpoint.refill
  split
  · have hinv : Inv v (n + offered notify.onTcpWriteable) { e with bWriteEnable := false } :=
      h.of_core rfl rfl
    exact hinv.callback notify.onTcpWriteable
  · exact .ok ⟨h.spend (Nat.le_add_right n _), .refl _⟩

theorem Inv.openOnAck (bConnect : Bool)
    (h : e.Inv v (n + if bConnect then 0 else offered notify.onTcpOpen)) :
    Ends (e.openOnAck host notify bConnect) (fun e' => e'.Inv v n ∧ e.view.Grows e'.view) := by
  unfold Endpoint.openOnAck
  split
  · rename_i hopen
    rw [hopen.2, if_neg Bool.noConfusion] at h
    exact h.establish (h.core.active (.inr (.inl hopen.1)))
  · exact .ok ⟨h.spend (Nat.le_add_right n _), .refl _⟩

theorem Inv.processAck (bConnect : Bool)
    (h : e.Inv v (n + offered notify.onTcpReadable + offered notify.onTcpWriteable +
      if bConnect then 0 else offered notify.onTcpOpen))
    (hsound : v.Sound) (hseg : SegmentOk v e.view seg) (now : UInt32) :
    Ends (e.processAck host notify seg now bConnect)
      (fun r => r.1.Inv v n ∧ e.view.Grows r.1.view) := by
  unfold Endpoint.processAck
  simp only
  generalize he₀ : (if seg.seq ≤ e.tsLastack ∧ e.tsLastack < seg.seq + seg.len
    then { e with tsRecent := seg.tsval } else e) = e₀
  have hcore : e₀.core = e.core ∧ e₀.packets = e.packets := by
    rw [← he₀]
    split
    · exact ⟨rfl, rfl⟩
    · exact ⟨rfl, rfl⟩
  have hview : e₀.view = e.view := by rw [view, view, hcore.1]
  have h₀ := h.of_core hcore.1 hcore.2
  rw [← hview] at hseg ⊢
  refine (h₀.acknowledge hsound hseg now).bind ?_
  rintro ⟨e₁, goOn⟩ ⟨h₁, hgrows₁⟩
  cases goOn with
  | false =>
      have hspent : e₁.Inv v n := h₁.spend (by omega)
      exact .ok ⟨hspent, hgrows₁⟩
  | true =>
      rw [if_neg Bool.noConfusion]
      refine (Inv.openOnAck bConnect h₁).bind ?_
      rintro e₂ ⟨h₂, hgrows₂⟩
      refine h₂.refill.bind ?_
      rintro e₃ ⟨h₃, hgrows₃⟩
      have hgrows := hgrows₁.trans (hgrows₂.trans hgrows₃)
      refine (h₃.accept hsound (hseg.grow (.refl v) hgrows)).mono ?_
      rintro r ⟨h₄, hgrows₄⟩
      exact ⟨h₄, hgrows.trans hgrows₄⟩

theorem Inv.process (h : e.Inv v (n + notify.offered)) (hsound : v.Sound)
    (hseg : SegmentOk v e.view seg) :
    Ends (e.process host notify seg) (fun r => r.1.Inv v n ∧ e.view.Grows r.1.view) := by
  have hbudget : notify.offered = offered notify.onTcpOpen + offered notify.onTcpWriteable +
      offered notify.onTcpReadable := rfl
  have hreset : seg.flags &&& flagRst = 0 := by
    rcases hseg.data with ⟨-, hflags⟩ | hdata
    · rw [hflags]
      rfl
    · rcases hdata.kind with ⟨hflags, -⟩ | ⟨hflags, -⟩
      · rw [hflags]
        rfl
      · rw [hflags]
        rfl
  unfold Endpoint.process
  split
  · exact .ok ⟨h.spend (Nat.le_add_right n _), .refl _⟩
  · simp only
    generalize he₀ : ({ e.tick with
      lasttraffic := host.clock e.ticks
      lastrecv := host.clock e.ticks
      bOutgoing := false } : Endpoint) = e₀
    have hcore : e₀.core = e.core := by
      rw [← he₀]
      rfl
    have h₀ : e₀.Inv v (n + notify.offered) := h.of_core hcore (by rw [← he₀]; rfl)
    have hview : e₀.view = e.view := by rw [view, view, hcore]
    rw [← hview] at hseg ⊢
    rw [hreset]
    split
    · exact .ok ⟨h₀.spend (Nat.le_add_right n _), .refl _⟩
    · rw [if_neg (not_not.mpr rfl)]
      split
      · rename_i hctl
        have hopen : e₀.Inv v (n + offered notify.onTcpReadable + offered notify.onTcpWriteable +
            offered notify.onTcpOpen) := h₀.spend (by omega)
        refine (hopen.control hseg hctl).bind ?_
        rintro ⟨e₁, goOn⟩ ⟨h₁, hgrows₁⟩
        cases goOn with
        | false => exact .ok ⟨h₁.spend (by omega), hgrows₁⟩
        | true =>
            refine (Inv.processAck true h₁ hsound (hseg.grow (.refl v) hgrows₁) _).mono ?_
            rintro r ⟨h₂, hgrows₂⟩
            exact ⟨h₂, hgrows₁.trans hgrows₂⟩
      · have hall : e₀.Inv v (n + offered notify.onTcpReadable + offered notify.onTcpWriteable +
            if false = true then 0 else offered notify.onTcpOpen) := by
          refine h₀.spend ?_
          rw [if_neg Bool.noConfusion]
          omega
        exact Inv.processAck false hall hsound hseg _

theorem Inv.notifyPacket (h : e.Inv v (n + notify.offered)) (hsound : v.Sound) {p : Bytes}
    (hp : PacketOk v e.view p) :
    Ends (e.notifyPacket host notify p) (fun r => r.1.Inv v n ∧ e.view.Grows r.1.view) := by
  obtain ⟨hlen, seg, hparse, hseg⟩ := hp
  rw [Endpoint.notifyPacket, if_neg (by omega), parse, hparse]
  exact h.process hsound hseg

theorem Inv.retransmit (h : e.Inv v n) (now : UInt32) :
    Ends (e.retransmit host notify now) (fun r => r.1.Inv v n ∧ e.view.Grows r.1.view) := by
  unfold Endpoint.retransmit
  split
  · rename_i htimer
    have hflight : e.sndUna.toNat < e.sndNxt.toNat := h.core.sender.congestion.timer htimer.1
    refine h.resendFront hflight (fun e => e.backOff now) ?_
    intro e₁ hinv htransmits
    have hc := hinv.core.sender.congestion
    have hflight₁ : e₁.sndUna.toNat < e₁.sndNxt.toNat := by
      rw [htransmits.una]
      exact lt_of_lt_of_le hflight htransmits.nxt
    refine hinv.retuned rfl rfl { hc with
      ssthresh_pos := hc.halved_ne_zero _, fresh := ?_, timer := fun _ => hflight₁ }
    intro hzero
    have hzero' : e₁.sndNxt.toNat = 0 := congrArg UInt32.toNat hzero
    omega
  · exact .ok ⟨h, .refl _⟩

theorem Inv.probe (h : e.Inv v n) (now : UInt32) :
    Ends (e.probe host notify now) (fun r => r.1.Inv v n ∧ e.view.Grows r.1.view) := by
  unfold Endpoint.probe
  split
  · split
    · refine (h.closedown notify).bind ?_
      exact fun e₁ he₁ => .ok he₁
    · refine (h.packet_empty host _).bind ?_
      rintro r ⟨hinv, hcore⟩
      have hview : r.1.view = e.view := by rw [view, view, hcore]
      refine .ok ⟨hinv.of_core rfl rfl, ?_⟩
      change e.view.Grows r.1.view
      rw [hview]
      exact .refl _
  · exact .ok ⟨h, .refl _⟩

theorem Inv.notifyClock (h : e.Inv v n) (now : UInt32) :
    Ends (e.notifyClock host notify now) (fun e' => e'.Inv v n ∧ e.view.Grows e'.view) := by
  unfold Endpoint.notifyClock
  split
  · exact .ok ⟨h, .refl _⟩
  · refine (h.retransmit now).bind ?_
    rintro ⟨e₁, goOn₁⟩ ⟨h₁, hgrows₁⟩
    cases goOn₁ with
    | false => exact .ok ⟨h₁, hgrows₁⟩
    | true =>
        rw [if_neg Bool.noConfusion]
        refine (h₁.probe now).bind ?_
        rintro ⟨e₂, goOn₂⟩ ⟨h₂, hgrows₂⟩
        have hgrows := hgrows₁.trans hgrows₂
        cases goOn₂ with
        | false => exact .ok ⟨h₂, hgrows⟩
        | true =>
            rw [if_neg Bool.noConfusion]
            split
            · refine (h₂.packet_empty host _).bind ?_
              rintro r ⟨hinv, hcore⟩
              have hview : r.1.view = e₂.view := by rw [view, view, hcore]
              refine .ok ⟨hinv, ?_⟩
              rw [hview]
              exact hgrows
            · exact .ok ⟨h₂, hgrows⟩

end Endpoint

end LibMsf
