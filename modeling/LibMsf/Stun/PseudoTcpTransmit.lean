import LibMsf.Stun.PseudoTcpSending

/-!
Transmission keeps the invariant of an endpoint.

A packet that is too large lowers the segment size until a shorter one is taken; the levels of
the table bound both loops. `attemptSend` ends because every turn that goes on sends bytes that
were not sent before, and none of its packets reaches beyond the window of the peer.
-/

namespace LibMsf

open Cxx Tiling

namespace Endpoint

structure Lowers (e e' : Endpoint) : Prop where
  receiver : e'.receiver = e.receiver
  common : e'.common = e.common
  sender : e.sender.Lowered e'.sender

/-- What a transmission leaves as it is. -/
structure Transmits (e e' : Endpoint) : Prop where
  receiver : e'.receiver = e.receiver
  common : e'.common = e.common
  queued : e'.queued = e.queued
  una : e'.sndUna = e.sndUna
  nxt : e.sndNxt.toNat ≤ e'.sndNxt.toNat
  cut : ∀ c, e.sender.Cut c → e'.sender.Cut c

variable {v : View} {n : Nat} {e e' e'' : Endpoint} {host : Host}

theorem Lowers.refl (e : Endpoint) : e.Lowers e := ⟨rfl, rfl, .refl _⟩

theorem Lowers.trans (h : e.Lowers e') (h' : e'.Lowers e'') : e.Lowers e'' :=
  ⟨h'.receiver.trans h.receiver, h'.common.trans h.common, h.sender.trans h'.sender⟩

theorem Lowers.of_core (h : e'.core = e.core) : e.Lowers e' := by
  refine ⟨congrArg Core.receiver h, congrArg Core.common h, ?_⟩
  rw [show e'.sender = e.sender from congrArg Core.sender h]
  exact .refl _

theorem Transmits.refl (e : Endpoint) : e.Transmits e :=
  ⟨rfl, rfl, rfl, rfl, le_rfl, fun _ h => h⟩

theorem Transmits.trans (h : e.Transmits e') (h' : e'.Transmits e'') : e.Transmits e'' :=
  ⟨h'.receiver.trans h.receiver, h'.common.trans h.common, h'.queued.trans h.queued,
    h'.una.trans h.una, h.nxt.trans h'.nxt, fun c hc => h'.cut c (h.cut c hc)⟩

theorem Transmits.of_core (h : e'.core = e.core) : e.Transmits e' := by
  have hsender : e'.sender = e.sender := congrArg Core.sender h
  have hnxt : e'.sndNxt = e.sndNxt := congrArg Sender.nxt hsender
  refine ⟨congrArg Core.receiver h, congrArg Core.common h, congrArg Sender.queued hsender,
    congrArg Sender.una hsender, by rw [hnxt], ?_⟩
  rw [hsender]
  exact fun _ hc => hc

theorem Transmits.grows (h : e.Transmits e') : e.view.Grows e'.view := by
  refine ⟨?_, h.cut, ?_, ?_, ?_⟩
  · rw [show e'.view.queued = e.view.queued from h.queued]
  · exact (congrArg (fun r => r.nxt.toNat) h.receiver).ge
  · exact (congrArg Receiver.edge h.receiver).ge
  · exact congrArg (fun r => r.scale.toNat) h.receiver

theorem Lowers.transmits (h : e.Lowers e') : e.Transmits e' := by
  obtain ⟨mss, level, cwnd, hsender, -⟩ := h.sender
  have hnxt : e'.sndNxt = e.sndNxt := congrArg Sender.nxt hsender
  refine ⟨h.receiver, h.common, congrArg Sender.queued hsender, congrArg Sender.una hsender,
    by rw [hnxt], ?_⟩
  rw [hsender]
  exact fun _ hc => hc

theorem Core.Ok.lowers (h : e.core.Ok v n) (hl : e.Lowers e') : e'.core.Ok v n := by
  obtain ⟨hreceiver, hcommon, hsender⟩ := hl
  have hok := h.sender.lowered hsender
  obtain ⟨mss, level, cwnd, heq, -⟩ := hsender
  have hqueued : e'.sender.queued = e.sender.queued := by rw [heq]
  have hcore : e'.core = ⟨e'.sender, e.receiver, e.common⟩ := by
    rw [← hreceiver, ← hcommon]
    rfl
  rw [hcore]
  refine ⟨hok, h.receiver, ?_, ?_, ?_, ?_, h.support, h.mtu_ge, h.mtu_le⟩
  · rw [hqueued]
    exact h.room
  · rw [Core.Stream, hqueued]
    exact h.stream
  · rw [hqueued]
    exact h.idle
  · rw [hqueued]
    exact h.active

theorem packetMaximums_level {k : Nat} (hk : k ≤ 9) :
    ∃ next, packetMaximums[k + 1]? = some next ∧
      (next = 0 ∨ k < 9 ∧ 296 ≤ next.toNat ∧ next.toNat ≤ 32000) := by
  interval_cases k <;> exact ⟨_, rfl, by decide⟩

theorem lowerTo_ok {next : UInt32} (hc : e.sender.Congestion) (hlevel : e.msslevel.toNat < 9)
    (hlow : 296 ≤ next.toNat) (hhigh : next.toNat ≤ 32000) :
    (e.lowerTo next).sender.Congestion ∧ e.Lowers (e.lowerTo next) ∧
      (e.lowerTo next).msslevel.toNat = e.msslevel.toNat + 1 ∧
      (e.lowerTo next).mss.toNat = next.toNat - 116 := by
  have hmss : (next - packetOverhead).toNat = next.toNat - 116 :=
    toNat_sub32 (b := packetOverhead) (by change 116 ≤ next.toNat; omega)
  have hstep : (e.msslevel + 1).toNat = e.msslevel.toNat + 1 :=
    toNat_add32 (b := 1) (by change e.msslevel.toNat + 1 < 2 ^ 32; omega)
  have hdouble : (2 * (next - packetOverhead)).toNat = 2 * (next.toNat - 116) := by
    rw [UInt32.toNat_mul, hmss]
    exact Nat.mod_eq_of_lt (by change 2 * (next.toNat - 116) < 2 ^ 32; omega)
  have hc' : (e.lowerTo next).sender.Congestion := by
    refine ⟨?_, ?_, ?_, hc.ssthresh_pos, hc.recover_le, ?_, hc.timer⟩
    · change 4 ≤ (next - packetOverhead).toNat
      omega
    · change (next - packetOverhead).toNat ≤ 65419
      omega
    · change (e.msslevel + 1).toNat ≤ 9
      omega
    · intro hfresh
      refine ⟨(hc.fresh hfresh).1, ?_⟩
      change 4 ≤ (2 * (next - packetOverhead)).toNat
      omega
  exact ⟨hc', ⟨rfl, rfl, _, _, _, rfl, fun _ => hc'⟩, hstep, hmss⟩

theorem lowerMss_ends (turns : Nat) (nTransmit : UInt32) (hc : e.sender.Congestion)
    (hturns : 10 ≤ e.msslevel.toNat + turns) :
    Ends (lowerMss turns e nTransmit) (fun r => e.Lowers r.1 ∧ r.1.packets = e.packets ∧
      ∀ shorter, r.2 = some shorter → e.msslevel.toNat < r.1.msslevel.toNat ∧
        180 ≤ shorter.toNat ∧ shorter.toNat < nTransmit.toNat) := by
  induction turns generalizing e with
  | zero =>
      have hle : e.msslevel.toNat ≤ 9 := hc.msslevel_le
      omega
  | succ turns ih =>
      have hle : e.msslevel.toNat ≤ 9 := hc.msslevel_le
      obtain ⟨next, hnext, hcases⟩ := packetMaximums_level hle
      rw [lowerMss, cellAt_eq hnext, checked_ok, ok_bind]
      by_cases hend : next = 0
      · rw [if_pos hend]
        exact .ok ⟨.refl e, rfl, nofun⟩
      obtain ⟨hlevel, hlow, hhigh⟩ := hcases.resolve_left hend
      obtain ⟨hc', hlowers, hlevel', hmss⟩ := lowerTo_ok hc hlevel hlow hhigh
      rw [if_neg hend]
      by_cases hshort : (e.lowerTo next).mss < nTransmit
      · simp only [if_pos hshort]
        refine .ok ⟨hlowers, rfl, ?_⟩
        intro shorter hshorter
        cases hshorter
        rw [UInt32.lt_iff_toNat_lt] at hshort
        change _ < (e.lowerTo next).msslevel.toNat ∧ _
        exact ⟨by omega, by omega, hshort⟩
      · simp only [if_neg hshort]
        refine (ih hc' (by omega)).mono ?_
        rintro r ⟨hr, hsame, hsome⟩
        refine ⟨hlowers.trans hr, hsame, ?_⟩
        intro shorter hshorter
        obtain ⟨hl, h180, hlt⟩ := hsome shorter hshorter
        exact ⟨by omega, h180, hlt⟩

/-- The packet of a segment, as long as one was taken. -/
theorem sendPiece_ends (host : Host) (seg : SSegment) (turns : Nat) (nTransmit : UInt32)
    (hc : e.sender.Congestion) (hvalid : e.sbuf.Valid)
    (hturns : 10 ≤ e.msslevel.toNat + turns) (hpos : nTransmit ≠ 0)
    (hsize : nTransmit.toNat ≤ 65419)
    (hrange : (seg.seq - e.sndUna).toNat + nTransmit.toNat ≤ e.sbuf.tape.readable.length) :
    Ends (sendPiece host seg turns e nTransmit) (fun r => e.Lowers r.1 ∧
      (r.2 = none ∧ r.1.packets = e.packets ∨ ∃ k p, r.2 = some k ∧ k ≠ 0 ∧
        (k = nTransmit ∨ 180 ≤ k.toNat ∧ k.toNat < nTransmit.toNat) ∧
        r.1.packets = e.packets ++ [p] ∧
        Carries e.receiver seg.seq (if seg.bCtrl then flagCtl else 0)
          ((e.sbuf.tape.readable.drop (seg.seq - e.sndUna).toNat).take k.toNat) p)) := by
  induction turns generalizing e nTransmit with
  | zero =>
      have hle : e.msslevel.toNat ≤ 9 := hc.msslevel_le
      omega
  | succ turns ih =>
      obtain ⟨e₁, result, heq, hcore, hpackets, -⟩ := packet_eq host seg.seq
        (if seg.bCtrl then flagCtl else 0) (seg.seq - e.sndUna) hvalid hsize (.inr hrange)
      have hlowers : e.Lowers e₁ := .of_core hcore
      rw [sendPiece, heq, ok_bind]
      rcases hpackets with ⟨rfl, p, hp, hcarries⟩ | ⟨hfailed, hsame⟩
      · exact .ok ⟨hlowers, .inr ⟨nTransmit, p, rfl, hpos, .inl rfl, hp, hcarries⟩⟩
      cases result with
      | success => exact absurd (hfailed rfl) hpos
      | fail => exact .ok ⟨hlowers, .inl ⟨rfl, hsame⟩⟩
      | tooLarge =>
          have hsender : e₁.sender = e.sender := congrArg Core.sender hcore
          have hlevel : e₁.msslevel = e.msslevel := congrArg Sender.msslevel hsender
          refine (lowerMss_ends packetMaximums.length nTransmit (hsender ▸ hc) ?_).bind ?_
          · change 10 ≤ e₁.msslevel.toNat + 11
            omega
          rintro ⟨e₂, shorter⟩ ⟨hlowers₂, hsame₂, hshorter⟩
          have hall : e.Lowers e₂ := hlowers.trans hlowers₂
          cases shorter with
          | none => exact .ok ⟨hall, .inl ⟨rfl, hsame₂.trans hsame⟩⟩
          | some shorter =>
              obtain ⟨hlevel₂, h180, hlt⟩ := hshorter shorter rfl
              change e₁.msslevel.toNat < e₂.msslevel.toNat at hlevel₂
              obtain ⟨mss, level, cwnd, heq₂, hc₂⟩ := hall.sender
              have hsbuf : e₂.sbuf = e.sbuf := congrArg Sender.sbuf heq₂
              have huna : e₂.sndUna = e.sndUna := congrArg Sender.una heq₂
              have hreceiver : e₂.receiver = e.receiver := hall.receiver
              have hne : shorter ≠ 0 := by
                rintro rfl
                exact absurd h180 (by decide)
              rw [hlevel] at hlevel₂
              refine (ih shorter (hc₂ hc) (hsbuf ▸ hvalid) (by omega) hne (by omega) ?_).mono ?_
              · rw [hsbuf, huna]
                omega
              · rintro r ⟨hr, hcases⟩
                refine ⟨hall.trans hr, ?_⟩
                rcases hcases with ⟨hnone, hp⟩ | ⟨k, p, hk, hne, hlen, hp, hcarries⟩
                · exact .inl ⟨hnone, hp.trans (hsame₂.trans hsame)⟩
                · rw [hsbuf, huna, hreceiver] at hcarries
                  refine .inr ⟨k, p, hk, hne, .inr ?_, ?_, hcarries⟩
                  · rcases hlen with rfl | hlen
                    · exact ⟨h180, hlt⟩
                    · omega
                  · rw [hp, hsame₂, hsame]

/-- What the end of `transmit` has to give for the packet that was sent. -/
structure Advances (v : View) (seg : SSegment) (k : UInt32) (e e' : Endpoint) : Prop where
  receiver : e'.receiver = e.receiver
  common : e'.common = e.common
  queued : e'.queued = e.queued
  una : e'.sndUna = e.sndUna
  packets : e'.packets = e.packets
  sender : e'.sender.Ok v
  cut : ∀ c, e.sender.Cut c → e'.sender.Cut c
  ends : e'.sender.Cut (seg.seq.toNat + k.toNat)
  nxt : e.sndNxt.toNat ≤ e'.sndNxt.toNat

theorem Advances.transmits {seg : SSegment} {k : UInt32} (h : Advances v seg k e e') :
    e.Transmits e' :=
  ⟨h.receiver, h.common, h.queued, h.una, h.nxt, h.cut⟩

/-- The invariant with another sender over the same stream. -/
theorem Core.Ok.with_sender (h : e.core.Ok v n) (hsender : e'.sender.Ok v)
    (hreceiver : e'.receiver = e.receiver) (hcommon : e'.common = e.common)
    (hqueued : e'.queued = e.queued) : e'.core.Ok v n := by
  have hcore : e'.core = ⟨e'.sender, e.receiver, e.common⟩ := by
    rw [← hreceiver, ← hcommon]
    rfl
  have hqueued' : e'.sender.queued = e.sender.queued := hqueued
  rw [hcore]
  refine ⟨hsender, h.receiver, ?_, ?_, ?_, ?_, h.support, h.mtu_ge, h.mtu_le⟩
  · rw [hqueued']
    exact h.room
  · rw [Core.Stream, hqueued']
    exact h.stream
  · rw [hqueued']
    exact h.idle
  · rw [hqueued']
    exact h.active

theorem PacketOk.of_segment {seg : SSegment} {k : UInt32} {p : Bytes} (h : e.core.Ok v n)
    (hmem : seg ∈ e.slist) (hpos : k ≠ 0) (hle : k.toNat ≤ seg.len.toNat)
    (hsize : k.toNat ≤ 65419) (hwhole : seg.bCtrl → k = seg.len) (ha : Advances v seg k e e')
    (hp : Carries e.receiver seg.seq (if seg.bCtrl then flagCtl else 0)
      ((e.sbuf.tape.readable.drop (seg.seq - e.sndUna).toNat).take k.toNat) p) :
    PacketOk e'.view v p := by
  have hkind := h.sender.ctrl seg hmem
  obtain ⟨sent, unsent, hsplit⟩ := h.sender.split
  have htiles : Tiles SSegment.start SSegment.size e.sndUna.toNat e.slist e.queued.length := by
    rw [show e.slist = sent ++ unsent from hsplit.slist]
    exact tiles_append.mpr ⟨_, hsplit.tiles_sent, hsplit.tiles_unsent⟩
  obtain ⟨hstart, hend⟩ := htiles.start_le hmem
  simp only [SSegment.start, SSegment.size] at hstart hend
  have hpos' : 0 < k.toNat := Nat.pos_of_ne_zero fun hzero => hpos (UInt32.toNat_inj.mp hzero)
  have hdata : (e.sbuf.tape.readable.drop (seg.seq - e.sndUna).toNat).take k.toNat =
      (e.queued.drop seg.seq.toNat).take k.toNat := by
    rw [show e.sbuf.tape.readable = e.queued.drop e.sndUna.toNat from h.sender.buffered.readable,
      List.drop_drop, toNat_sub32 hstart, Nat.add_sub_cancel' hstart]
  rw [hdata] at hp
  generalize hbytes : (e.queued.drop seg.seq.toNat).take k.toNat = data at hp
  have hlength : data.length = k.toNat := by
    rw [← hbytes, List.length_take, List.length_drop]
    omega
  rw [← ha.receiver] at hp
  refine hp.ok (by rw [ha.receiver]; exact h.receiver) (by omega) ?_
  intro s hseq hflags hs
  right
  have hqueued : e'.view.queued = e.queued := ha.queued
  refine ⟨?_, ?_, ?_, ?_, ?_, ?_⟩
  · rw [hs]
    intro hnil
    rw [hnil, List.length_nil] at hlength
    omega
  · rw [hs]
    omega
  · rw [hs, hseq, hqueued, ← hbytes]
    exact List.take_prefix _ _
  · rw [hs, hseq, hlength]
    exact ha.ends
  · rw [hs, hseq, hlength]
    exact (Sender.Cut.le ha.ends ha.sender.una_le_nxt).trans ha.sender.nxt_le
  · by_cases hctrl : seg.bCtrl
    · rw [if_pos hctrl] at hkind
      rw [if_pos hctrl] at hflags
      refine .inl ⟨hflags, hseq.trans hkind.1, e.rwndScale, ?_, ?_⟩
      · -- The opening message comes first in the stream and is sent in one piece.
        have hfour : k.toNat = 4 := by rw [hwhole hctrl, hkind.2]; rfl
        have hstream : e.queued = openingMessage e.rwndScale ++ e.accepted := by
          refine h.stream.resolve_left ?_
          rintro ⟨hnil, -⟩
          have hnone : e.queued = [] := hnil
          rw [hnone, List.length_nil] at hend
          omega
        rw [hs, ← hbytes, hkind.1, hfour, hstream]
        rfl
      · exact (congrArg (fun r => r.scale.toNat) ha.receiver).symm
    · rw [if_neg hctrl] at hkind
      rw [if_neg hctrl] at hflags
      exact .inr ⟨hflags, by rw [hseq]; exact hkind⟩

theorem transmit_ends {i : Nat} {seg : SSegment} {now : UInt32} (h : e.Inv v n)
    (hseg : e.slist[i]? = some seg) (hne : seg.len ≠ 0)
    (hadvances : ∀ e₁ k, e.Lowers e₁ → k ≠ 0 → k.toNat ≤ seg.len.toNat →
      (seg.bCtrl → k = seg.len) → seg.xmit.toNat < 30 →
      Advances v seg k e₁ (e₁.transmitted i seg k now)) :
    Ends (e.transmit host i now) (fun r => r.1.Inv v n ∧ e.Transmits r.1 ∧
      (r.2 = true → ∃ e₁ k, e.Lowers e₁ ∧ k ≠ 0 ∧ k.toNat ≤ seg.len.toNat ∧
        r.1 = e₁.transmitted i seg k now)) := by
  have hmem : seg ∈ e.slist := List.mem_of_getElem? hseg
  obtain ⟨sent, unsent, hsplit⟩ := h.core.sender.split
  have htiles : Tiles SSegment.start SSegment.size e.sndUna.toNat e.slist e.queued.length := by
    rw [show e.slist = sent ++ unsent from hsplit.slist]
    exact tiles_append.mpr ⟨_, hsplit.tiles_sent, hsplit.tiles_unsent⟩
  obtain ⟨hstart, hend⟩ := htiles.start_le hmem
  simp only [SSegment.start, SSegment.size] at hstart hend
  have hmss_ge : 4 ≤ e.mss.toNat := h.core.sender.congestion.mss_ge
  have hmss_le : e.mss.toNat ≤ 65419 := h.core.sender.congestion.mss_le
  have hlen : seg.len.toNat ≠ 0 := fun hzero => hne (UInt32.toNat_inj.mp hzero)
  have hmin : (min seg.len e.mss).toNat = min seg.len.toNat e.mss.toNat := by
    rw [UInt32.toNat_min]
  have hpiece : min seg.len e.mss ≠ 0 := by
    intro hzero
    have hzero' : (min seg.len e.mss).toNat = 0 := congrArg UInt32.toNat hzero
    omega
  have hreadable : e.sbuf.tape.readable.length = e.queued.length - e.sndUna.toNat := by
    rw [show e.sbuf.tape.readable = e.queued.drop e.sndUna.toNat from
      h.core.sender.buffered.readable, List.length_drop]
  rw [transmit, cellAt_eq hseg, checked_ok, ok_bind]
  by_cases hxmit : (if e.state = .established then 15 else 30) ≤ seg.xmit
  · rw [if_pos hxmit]
    exact .ok ⟨h, .refl e, Bool.noConfusion⟩
  have hxmit' : seg.xmit.toNat < 30 := by
    rw [UInt8.le_iff_toNat_le, not_le] at hxmit
    split at hxmit
    · exact hxmit.trans (by decide)
    · exact hxmit
  rw [if_neg hxmit]
  refine (sendPiece_ends host seg (packetMaximums.length + 1) (min seg.len e.mss)
    h.core.sender.congestion h.core.sender.buffered.valid ?_ hpiece (by omega) ?_).bind ?_
  · change 10 ≤ e.msslevel.toNat + 12
    omega
  · rw [hreadable, toNat_sub32 hstart]
    omega
  rintro ⟨e₁, result⟩ ⟨hlowers, hresult⟩
  have hok₁ : e₁.core.Ok v n := Core.Ok.lowers h.core hlowers
  rcases hresult with ⟨hnone, hpackets⟩ | ⟨k, p, hsome, hk, hshorter, hpackets, hcarries⟩
  · cases hnone
    refine .ok ⟨⟨hok₁, ?_⟩, hlowers.transmits, Bool.noConfusion⟩
    exact h.packets_grow hlowers.transmits.grows hpackets
  · cases hsome
    have hle : k.toNat ≤ seg.len.toNat := by
      rcases hshorter with rfl | hshorter <;> omega
    have hwhole : seg.bCtrl → k = seg.len := by
      intro hctrl
      have hkind := h.core.sender.ctrl seg hmem
      rw [if_pos hctrl] at hkind
      have hfour : seg.len.toNat = 4 := by rw [hkind.2]; rfl
      apply UInt32.toNat_inj.mp
      rcases hshorter with rfl | hshorter <;> omega
    have ha := hadvances e₁ k hlowers hk hle hwhole hxmit'
    have hlists : e₁.slist = e.slist := by
      obtain ⟨_, _, _, heq, -⟩ := hlowers.sender
      exact congrArg Sender.slist heq
    have hsame : e₁.sbuf = e.sbuf ∧ e₁.sndUna = e.sndUna := by
      obtain ⟨_, _, _, heq, -⟩ := hlowers.sender
      exact ⟨congrArg Sender.sbuf heq, congrArg Sender.una heq⟩
    have hgrows : e.Transmits (e₁.transmitted i seg k now) :=
      hlowers.transmits.trans ha.transmits
    refine .ok ⟨⟨Core.Ok.with_sender hok₁ ha.sender ha.receiver ha.common ha.queued, ?_⟩,
      hgrows, fun _ => ⟨e₁, k, hlowers, hk, hle, rfl⟩⟩
    intro q hq
    have hq' : q ∈ e.packets ++ [p] := by
      rw [← hpackets]
      exact ha.packets ▸ hq
    rcases List.mem_append.mp hq' with hq | hq
    · exact (h.packets q hq).grow hgrows.grows (.refl v)
    · obtain rfl := List.mem_singleton.mp hq
      refine PacketOk.of_segment hok₁ (hlists ▸ hmem) hk hle ?_ hwhole ha ?_
      · rcases hshorter with rfl | hshorter <;> omega
      · rw [hlowers.receiver, hsame.1, hsame.2]
        exact hcarries

end Endpoint

end LibMsf
