import LibMsf.Stun.PseudoTcpCalls

/-!
Acknowledgements.

What the peer acknowledges is the end of a packet, so it takes whole segments off the front of
the send list. The window that comes with it does not reach beyond what the peer can take.
-/

namespace LibMsf

open Cxx Tiling

namespace Sender

variable {v : View} {s : Sender}

theorem freeAcked_front (front back : List SSegment) {a : Nat} {nFree : UInt32} (largest : UInt32)
    (htiles : Tiles SSegment.start SSegment.size a front (a + nFree.toNat))
    (hne : ∀ x ∈ front, x.len ≠ 0) :
    ∃ largest', Endpoint.freeAcked (front ++ back) nFree largest = .ok (back, largest') := by
  induction front generalizing a nFree largest with
  | nil =>
      have hzero : nFree = 0 := by
        have heq : a = a + nFree.toNat := htiles
        exact UInt32.toNat_inj.mp (show nFree.toNat = 0 by omega)
      refine ⟨largest, ?_⟩
      rw [List.nil_append]
      cases back with
      | nil => exact if_pos hzero
      | cons y ys => exact if_pos hzero
  | cons x xs ih =>
      have hle : x.len.toNat ≤ nFree.toNat := by
        have hle := htiles.2.le
        simp only [SSegment.size] at hle
        omega
      have hpos : nFree ≠ 0 := by
        rintro rfl
        exact hne x List.mem_cons_self (UInt32.toNat_inj.mp (Nat.le_zero.mp hle))
      have hrest : Tiles SSegment.start SSegment.size (a + x.size) xs
          (a + x.size + (nFree - x.len).toNat) := by
        have heq : a + x.size + (nFree - x.len).toNat = a + nFree.toNat := by
          rw [toNat_sub32 hle, SSegment.size]
          omega
        rw [heq]
        exact htiles.2
      obtain ⟨largest', hfree⟩ := ih (max largest x.len) hrest
        (fun y hy => hne y (List.mem_cons_of_mem x hy))
      refine ⟨largest', ?_⟩
      rw [List.cons_append, Endpoint.freeAcked, if_neg hpos,
        if_neg (by rw [UInt32.lt_iff_toNat_lt]; omega), hfree]

theorem Ok.acked (h : s.Ok v) {ack wnd rtoBase : UInt32} {sbuf : FifoBuffer}
    (hcut : s.Cut ack.toNat) (hnew : s.una.toNat < ack.toNat) (hle : ack.toNat ≤ v.rcvNxt)
    (hwnd : ack.toNat + wnd.toNat ≤ max 4 v.edge)
    (hbuffered : BufferedAt sbuf s.queued ack.toNat)
    (htimer : rtoBase ≠ 0 → ack.toNat < s.nxt.toNat) :
    ∃ front back, s.slist = front ++ back ∧
      Tiles SSegment.start SSegment.size s.una.toNat front ack.toNat ∧
      (∀ x ∈ front, x.len ≠ 0) ∧
      let s' : Sender := { s with
        una := ack, wnd := wnd, slist := back, sbuf := sbuf, rtoBase := rtoBase }
      s'.Ok v ∧ ∀ c, s.Cut c → s'.Cut c := by
  obtain ⟨sent, unsent, hsplit⟩ := h.split
  obtain ⟨hle_nxt, hboundary⟩ := hcut.resolve_left (by omega)
  rw [hsplit.slist] at hboundary
  obtain ⟨front, back, rfl, hfront, hback⟩ := hboundary.split hsplit.tiles_sent hle_nxt
  have hstarted : s.nxt ≠ 0 := by
    intro hzero
    have hzero' : s.nxt.toNat = 0 := congrArg UInt32.toNat hzero
    omega
  have hlist : s.slist = front ++ (back ++ unsent) := by
    rw [hsplit.slist, List.append_assoc]
  refine ⟨front, back ++ unsent, hlist, hfront,
    fun x hx => (hsplit.sent_ok x (List.mem_append_left back hx)).2, ?_, ?_⟩
  · have hc := h.congestion
    refine ⟨hbuffered, { hc with fresh := fun hzero => absurd hzero hstarted, timer := htimer },
      h.bounded, ⟨back, unsent, ?_⟩, ?_, hle, h.nxt_le, hwnd,
      fun hzero => absurd hzero hstarted, h.scale⟩
    · exact ⟨rfl, hback, hsplit.tiles_unsent,
        fun x hx => hsplit.sent_ok x (List.mem_append_right front hx), hsplit.unsent_ok,
        hsplit.nonempty⟩
    · intro x hx
      exact h.ctrl x (by rw [hlist]; exact List.mem_append_right front hx)
  · intro c hc
    by_cases hdone : c ≤ ack.toNat
    · exact .inl hdone
    · obtain ⟨hc, hboundary⟩ := hc.resolve_left (by omega)
      rw [hlist] at hboundary
      exact .inr ⟨hc, hboundary.drop hfront (Nat.le_of_not_le hdone)⟩

/-- The window that comes with a packet whose acknowledgement says nothing new. -/
theorem Ok.with_wnd (h : s.Ok v) {wnd : UInt32} (hwnd : s.una.toNat + wnd.toNat ≤ max 4 v.edge)
    (hfirst : s.nxt = 0 → 4 ≤ wnd.toNat) : ({ s with wnd := wnd } : Sender).Ok v := by
  exact { h with
    congestion := { h.congestion with }
    wnd_le := hwnd
    first := fun hzero _ => hfirst hzero }

theorem Congestion.halved_ne_zero (h : s.Congestion) (x : UInt32) : max x (2 * s.mss) ≠ 0 := by
  have hlow := h.mss_ge
  have hhigh := h.mss_le
  have hdouble : (2 * s.mss).toNat = 2 * s.mss.toNat := by
    rw [UInt32.toNat_mul]
    exact Nat.mod_eq_of_lt (by change 2 * s.mss.toNat < 2 ^ 32; omega)
  intro hzero
  have hmax := UInt32.toNat_max x (2 * s.mss)
  rw [hzero, hdouble] at hmax
  change 0 = max x.toNat (2 * s.mss.toNat) at hmax
  omega

end Sender

theorem shiftLeft32_eq {value : UInt32} {scale : UInt8} (h : scale.toNat ≤ 16)
    (hlt : value.toNat * 2 ^ scale.toNat < 2 ^ 32) :
    ∃ w, shiftLeft32 value scale = .ok w ∧ w.toNat = value.toNat * 2 ^ scale.toNat := by
  have hscale : scale < 32 := by
    rw [UInt8.lt_iff_toNat_lt]
    exact lt_of_le_of_lt h (by decide)
  have hshift : scale.toUInt32.toNat % 32 = scale.toNat := by
    rw [UInt8.toNat_toUInt32]
    exact Nat.mod_eq_of_lt (by omega)
  refine ⟨_, if_pos hscale, ?_⟩
  rw [UInt32.toNat_shiftLeft, hshift, Nat.shiftLeft_eq, Nat.mod_eq_of_lt hlt]

/-- A window that is scaled as the peer says. -/
theorem shiftLeft32_window (wnd : UInt16) {scale : UInt8} (h : scale.toNat ≤ 16) :
    ∃ w, shiftLeft32 wnd.toUInt32 scale = .ok w ∧ w.toNat = wnd.toNat * 2 ^ scale.toNat := by
  have hwnd : wnd.toUInt32.toNat = wnd.toNat := UInt16.toNat_toUInt32 wnd
  have hbound : wnd.toNat < 2 ^ 16 := wnd.toNat_lt
  have hpow : 2 ^ scale.toNat ≤ 2 ^ 16 := Nat.pow_le_pow_right (by decide) h
  have hprod : wnd.toNat * 2 ^ scale.toNat < 2 ^ 32 := calc
    wnd.toNat * 2 ^ scale.toNat ≤ wnd.toNat * 2 ^ 16 := Nat.mul_le_mul_left _ hpow
    _ < 2 ^ 16 * 2 ^ 16 := Nat.mul_lt_mul_of_pos_right hbound (by decide)
    _ = 2 ^ 32 := by decide
  rw [← hwnd] at hprod ⊢
  exact shiftLeft32_eq h hprod

namespace Endpoint

variable {v : View} {n : Nat} {e e' : Endpoint} {host : Host} {notify : Notify}

theorem measureRtt_core (e : Endpoint) (now tsecr : UInt32) :
    (e.measureRtt now tsecr).core = e.core ∧ (e.measureRtt now tsecr).packets = e.packets := by
  unfold measureRtt
  split
  · exact ⟨rfl, rfl⟩
  · exact ⟨rfl, rfl⟩

/-- The window of a packet that the peer sent, at the scale that is in use here. -/
theorem Sender.Ok.window {s : Sender} {wnd : UInt16} {ack : Nat} (h : s.Ok v) (hsound : v.Sound)
    (hwindow : ack + wnd.toNat * 2 ^ v.scale ≤ v.edge) :
    ∃ w, shiftLeft32 wnd.toUInt32 s.scale = .ok w ∧ ack + w.toNat ≤ v.edge ∧
      wnd.toNat ≤ w.toNat := by
  have hscale : s.scale.toNat ≤ v.scale := by
    rcases h.scale with hzero | heq
    · rw [hzero]
      exact Nat.zero_le _
    · exact heq.le
  obtain ⟨w, hshift, hw⟩ := shiftLeft32_window wnd (hscale.trans hsound.scale_le)
  refine ⟨w, hshift, ?_, ?_⟩
  · have hle : w.toNat ≤ wnd.toNat * 2 ^ v.scale := by
      rw [hw]
      exact Nat.mul_le_mul_left _ (Nat.pow_le_pow_right (by decide) hscale)
    omega
  · rw [hw]
    exact Nat.le_mul_of_pos_right _ (Nat.two_pow_pos _)

/-- A loop or a function that goes on only when the first segment could be sent again. -/
theorem Inv.resendFront (h : e.Inv v n)
    (hflight : e.sndUna.toNat < e.sndNxt.toNat) {now : UInt32} (next : Endpoint → Endpoint)
    (hnext : ∀ e₁, e₁.Inv v n → e.Transmits e₁ →
      (next e₁).Inv v n ∧ e₁.view.Grows (next e₁).view) :
    Ends (do
      let r ← e.resendFront host notify now
      if r.2 = false then return r
      else return (next r.1, true)) (fun r => r.1.Inv v n ∧ e.view.Grows r.1.view) := by
  unfold Endpoint.resendFront
  refine Ends.bind (P := fun r => r.1.Inv v n ∧ e.view.Grows r.1.view ∧
    (r.2 = true → e.Transmits r.1)) ?_ ?_
  · refine (h.retransmit_front hflight now).bind ?_
    rintro ⟨e₁, done⟩ ⟨hinv, htransmits⟩
    cases done with
    | false =>
        rw [if_pos rfl]
        refine (hinv.closedown notify).bind ?_
        rintro e₂ ⟨hinv₂, hgrows⟩
        exact .ok ⟨hinv₂, htransmits.grows.trans hgrows, Bool.noConfusion⟩
    | true =>
        rw [if_neg Bool.noConfusion]
        exact .ok ⟨hinv, htransmits.grows, fun _ => htransmits⟩
  · rintro ⟨e₁, done⟩ ⟨hinv, hgrows, htransmits⟩
    cases done with
    | false => exact .ok ⟨hinv, hgrows⟩
    | true =>
        obtain ⟨hinv₂, hgrows₂⟩ := hnext e₁ hinv (htransmits rfl)
        exact .ok ⟨hinv₂, hgrows.trans hgrows₂⟩

theorem Transmits.started (h : e.Transmits e') (hstarted : e.sndNxt ≠ 0) : e'.sndNxt ≠ 0 := by
  intro hzero
  have hle := h.nxt
  rw [hzero] at hle
  exact hstarted (UInt32.toNat_inj.mp (Nat.le_zero.mp hle))

/-- The congestion control is as it should be if the window was not the first. -/
theorem congestion_started (hc : e.sender.Congestion) (hstarted : e.sndNxt ≠ 0)
    (hsender : e'.sender = { e.sender with cwnd := e'.cwnd, dupAcks := e'.dupAcks }) :
    e'.sender.Congestion := by
  rw [hsender]
  exact { hc with fresh := fun hzero => absurd hzero hstarted }

theorem Inv.growWindow (h : e.Inv v n) (hstarted : e.sndNxt ≠ 0) :
    Ends e.growWindow (fun e' => e'.Inv v n ∧ e.view.Grows e'.view) := by
  have hc := h.core.sender.congestion
  unfold Endpoint.growWindow
  split
  · exact .ok (h.retuned rfl rfl (congestion_started hc hstarted rfl))
  · rename_i hlarge
    -- The window is not below the threshold, which is not zero.
    have hpos : e.cwnd ≠ 0 := by
      intro hzero
      have hne : e.ssthresh.toNat ≠ 0 := fun h => hc.ssthresh_pos (UInt32.toNat_inj.mp h)
      rw [UInt32.lt_iff_toNat_lt, hzero] at hlarge
      exact hlarge (Nat.pos_of_ne_zero hne)
    rw [quotient32, if_neg hpos, checked_ok, ok_bind]
    exact .ok (h.retuned rfl rfl (congestion_started hc hstarted rfl))

theorem Inv.afterAck (h : e.Inv v n) (hstarted : e.sndNxt ≠ 0)
    (nAcked now : UInt32) :
    Ends (e.afterAck host notify nAcked now)
      (fun r => r.1.Inv v n ∧ e.view.Grows r.1.view) := by
  unfold Endpoint.afterAck
  split
  · split
    · exact .ok (h.retuned rfl rfl
        (congestion_started h.core.sender.congestion hstarted rfl))
    · rename_i hrecover
      -- The point of recovery was sent, and it is not acknowledged.
      have hflight : e.sndUna.toNat < e.sndNxt.toNat := by
        rw [UInt32.le_iff_toNat_le, not_le] at hrecover
        exact lt_of_lt_of_le hrecover h.core.sender.congestion.recover_le
      refine h.resendFront hflight (fun e => e.deflate nAcked) ?_
      intro e₁ hinv htransmits
      exact hinv.retuned rfl rfl (congestion_started hinv.core.sender.congestion
        (htransmits.started hstarted) rfl)
  · refine (h.growWindow hstarted).bind ?_
    exact fun e₁ he₁ => .ok he₁

theorem Inv.valuableAck (h : e.Inv v n) (hsound : v.Sound)
    {seg : Segment} (hseg : SegmentOk v e.view seg) (hnew : e.sndUna.toNat < seg.ack.toNat)
    (now : UInt32) :
    Ends (e.valuableAck host notify seg now)
      (fun r => r.1.Inv v n ∧ e.view.Grows r.1.view) := by
  unfold Endpoint.valuableAck
  obtain ⟨hcore, hpackets⟩ := measureRtt_core e now seg.tsecr
  have h₀ := h.of_core hcore hpackets
  have hview : (e.measureRtt now seg.tsecr).view = e.view := by rw [view, view, hcore]
  have huna : (e.measureRtt now seg.tsecr).sndUna = e.sndUna :=
    congrArg (fun c => c.sender.una) hcore
  rw [← hview] at hseg ⊢
  rw [← huna] at hnew
  simp only
  generalize e.measureRtt now seg.tsecr = e₀ at h₀ hseg hnew ⊢
  have hok := h₀.core.sender
  obtain ⟨w, hshift, hedge, -⟩ := Sender.Ok.window hok hsound hseg.window
  have hcut : e₀.sender.Cut seg.ack.toNat := hseg.ack_cut
  have hack_nxt : seg.ack.toNat ≤ e₀.sndNxt.toNat := hcut.le hok.una_le_nxt
  have hacked : (seg.ack - e₀.sndUna).toNat = seg.ack.toNat - e₀.sndUna.toNat :=
    toNat_sub32 hnew.le
  -- The buffer without the bytes that are acknowledged.
  have hvalid : e₀.sbuf.Valid := hok.buffered.valid
  have hreadable : e₀.sbuf.tape.readable = e₀.queued.drop e₀.sndUna.toNat :=
    hok.buffered.readable
  have hnxt : e₀.sndNxt.toNat ≤ e₀.queued.length := hok.nxt_le_queued
  have hsize : (seg.ack - e₀.sndUna).toNat ≤ e₀.sbuf.tape.readable.length := by
    rw [hreadable, List.length_drop, hacked]
    omega
  obtain ⟨sbuf, hconsume, hvalid', hcapacity, htape⟩ := hvalid.consumeReadData_eq hsize
  have hbuffered : Sender.BufferedAt sbuf e₀.queued seg.ack.toNat := by
    refine ⟨hvalid', ?_, ?_, ?_, ?_⟩
    · rw [htape]
      exact hok.buffered.opened
    · rw [hcapacity]
      exact hok.buffered.capacity
    · rw [hcapacity]
      exact hok.buffered.capacity_lt
    · rw [htape, FifoBuffer.Tape.drop, hreadable, List.drop_drop, hacked,
        Nat.add_sub_cancel' hnew.le]
  have htimer : (if seg.ack = e₀.sndNxt then 0 else now) ≠ 0 →
      seg.ack.toNat < e₀.sndNxt.toNat := by
    intro hne
    refine lt_of_le_of_ne hack_nxt fun heq => hne (if_pos (UInt32.toNat_inj.mp heq))
  obtain ⟨front, back, hlist, htiles, hfront, hsender, hcuts⟩ := hok.acked hcut hnew hseg.ack_le
    (hedge.trans (Nat.le_max_right 4 _)) hbuffered htimer
  have htiles' : Tiles SSegment.start SSegment.size e₀.sndUna.toNat front
      (e₀.sndUna.toNat + (seg.ack - e₀.sndUna).toNat) := by
    rw [hacked, Nat.add_sub_cancel' hnew.le]
    exact htiles
  obtain ⟨largest, hfree⟩ := Sender.freeAcked_front front back e₀.largest htiles' hfront
  have hlist' : e₀.slist = front ++ back := hlist
  have hshift' : shiftLeft32 seg.wnd.toUInt32 e₀.swndScale = .ok w := hshift
  rw [hshift', checked_ok, ok_bind, hconsume, checked_ok, ok_bind, hlist', hfree, checked_ok,
    ok_bind]
  have hgrows : e₀.view.Grows (e₀.acked seg.ack w now sbuf (back, largest)).view :=
    ⟨List.prefix_rfl, hcuts, le_rfl, le_rfl, rfl⟩
  have hinv : (e₀.acked seg.ack w now sbuf (back, largest)).Inv v n :=
    ⟨Core.Ok.with_sender h₀.core hsender rfl rfl rfl, h₀.packets_grow hgrows rfl⟩
  have hstarted : (e₀.acked seg.ack w now sbuf (back, largest)).sndNxt ≠ 0 := by
    change e₀.sndNxt ≠ 0
    intro hzero
    rw [hzero] at hack_nxt
    exact absurd (lt_of_lt_of_le hnew hack_nxt) (Nat.not_lt_zero _)
  refine (hinv.afterAck hstarted _ now).mono ?_
  rintro r ⟨hinv₂, hgrows₂⟩
  exact ⟨hinv₂, hgrows.trans hgrows₂⟩

theorem Inv.enterRecovery (h : e.Inv v n) (hstarted : e.sndNxt ≠ 0) :
    e.enterRecovery.Inv v n ∧ e.view.Grows e.enterRecovery.view := by
  have hc := h.core.sender.congestion
  exact h.retuned rfl rfl { hc with
    ssthresh_pos := hc.halved_ne_zero _
    recover_le := le_rfl
    fresh := fun hzero => absurd hzero hstarted }

theorem Inv.countedAck (h : e.Inv v n)
    (hflight : e.sndUna.toNat < e.sndNxt.toNat) (hstarted : e.sndNxt ≠ 0) (now : UInt32) :
    Ends (e.countedAck host notify now) (fun r => r.1.Inv v n ∧ e.view.Grows r.1.view) := by
  unfold Endpoint.countedAck
  split
  · refine h.resendFront hflight Endpoint.enterRecovery ?_
    intro e₁ hinv htransmits
    exact hinv.enterRecovery (htransmits.started hstarted)
  · split
    · exact .ok (h.retuned rfl rfl
        (congestion_started h.core.sender.congestion hstarted rfl))
    · exact .ok ⟨h, .refl _⟩

theorem Inv.duplicateAck (h : e.Inv v n) (now : UInt32) :
    Ends (e.duplicateAck host notify now) (fun r => r.1.Inv v n ∧ e.view.Grows r.1.view) := by
  have hc := h.core.sender.congestion
  have hle : e.sndUna.toNat ≤ e.sndNxt.toNat := h.core.sender.una_le_nxt
  unfold Endpoint.duplicateAck
  split
  · rename_i hne
    have hflight : e.sndUna.toNat < e.sndNxt.toNat :=
      lt_of_le_of_ne hle fun heq => hne (UInt32.toNat_inj.mp heq)
    have hstarted : e.sndNxt ≠ 0 := by
      intro hzero
      rw [hzero] at hflight
      exact absurd hflight (Nat.not_lt_zero _)
    have hcounted : Inv v n { e with dupAcks := e.dupAcks + 1 } ∧
        e.view.Grows (view { e with dupAcks := e.dupAcks + 1 }) :=
      h.retuned rfl rfl (congestion_started hc hstarted rfl)
    refine (hcounted.1.countedAck hflight hstarted now).mono ?_
    rintro r ⟨hinv, hgrows⟩
    exact ⟨hinv, hcounted.2.trans hgrows⟩
  · exact .ok (h.retuned rfl rfl { hc with fresh := fun hzero => ⟨rfl, (hc.fresh hzero).2⟩ })

theorem Inv.repeatedAck (h : e.Inv v n) (hsound : v.Sound)
    {seg : Segment} (hseg : SegmentOk v e.view seg) (hsame : seg.ack = e.sndUna) (now : UInt32) :
    Ends (e.repeatedAck host notify seg now)
      (fun r => r.1.Inv v n ∧ e.view.Grows r.1.view) := by
  have hok := h.core.sender
  obtain ⟨w, hshift, hedge, hwnd⟩ := Sender.Ok.window hok hsound hseg.window
  have hshift' : shiftLeft32 seg.wnd.toUInt32 e.swndScale = .ok w := hshift
  rw [hsame] at hedge
  unfold Endpoint.repeatedAck
  rw [hshift', checked_ok, ok_bind]
  simp only
  generalize he₀ : ({ e with sndWnd := w } : Endpoint) = e₀
  have hgrows₀ : e.view.Grows e₀.view := by
    rw [← he₀]
    exact ⟨List.prefix_rfl, fun _ hc => hc, le_rfl, le_rfl, rfl⟩
  have h₀ : e₀.Inv v n := by
    refine ⟨?_, h.packets_grow hgrows₀ (by rw [← he₀])⟩
    subst he₀
    refine Core.Ok.with_sender h.core (hok.with_wnd (hedge.trans (Nat.le_max_right 4 _)) ?_)
      rfl rfl rfl
    intro hzero
    have huna : e.sndUna.toNat ≤ e.sndNxt.toNat := hok.una_le_nxt
    rw [show e.sndNxt = 0 from hzero] at huna
    have hack : seg.ack = 0 := hsame.trans (UInt32.toNat_inj.mp (Nat.le_zero.mp huna))
    exact (hseg.first hack).trans hwnd
  split
  · exact .ok ⟨h₀, hgrows₀⟩
  · refine (h₀.duplicateAck now).mono ?_
    rintro r ⟨hinv, hgrows⟩
    exact ⟨hinv, hgrows₀.trans hgrows⟩

theorem Inv.acknowledge (h : e.Inv v n) (hsound : v.Sound)
    {seg : Segment} (hseg : SegmentOk v e.view seg) (now : UInt32) :
    Ends (e.acknowledge host notify seg now)
      (fun r => r.1.Inv v n ∧ e.view.Grows r.1.view) := by
  unfold Endpoint.acknowledge
  split
  · rename_i hnew
    exact h.valuableAck hsound hseg (UInt32.lt_iff_toNat_lt.mp hnew.1) now
  · split
    · rename_i hsame
      exact h.repeatedAck hsound hseg hsame now
    · exact .ok ⟨h, .refl _⟩

end Endpoint

end LibMsf
