import LibMsf.Stun.PseudoTcpPackets

/-!
The send list under transmission.

A segment that is transmitted may be cut in two because a shorter packet was taken; the first
transmission of a segment moves `m_snd_nxt` over it. Both keep the tiling of the send buffer,
and every place where a packet ended stays a boundary.
-/

namespace LibMsf

open Cxx Tiling Endpoint

namespace SSegment

variable {seg : SSegment} {k : UInt32} {xmit : UInt8}

theorem tiles_pieces (hle : k.toNat ≤ seg.len.toNat) (hlt : seg.start + seg.size < 2 ^ 32) :
    Tiles start size seg.start ({ seg with len := k, xmit := xmit } :: leftover seg k)
      (seg.start + seg.size) := by
  refine ⟨rfl, ?_⟩
  change Tiles start size (seg.start + k.toNat) (leftover seg k) (seg.start + seg.size)
  simp only [start, size] at hlt ⊢
  unfold leftover
  by_cases hk : k < seg.len
  · have hadd : (seg.seq + k).toNat = seg.seq.toNat + k.toNat := toNat_add32 (by omega)
    have hsub : (seg.len - k).toNat = seg.len.toNat - k.toNat := toNat_sub32 hle
    rw [if_pos hk, tiles_singleton]
    exact ⟨hadd, by simp only [size, hsub]; omega⟩
  · rw [UInt32.lt_iff_toNat_lt] at hk
    rw [if_neg (by rwa [UInt32.lt_iff_toNat_lt])]
    change seg.seq.toNat + k.toNat = seg.seq.toNat + seg.len.toNat
    omega

theorem mem_leftover {x : SSegment} (hx : x ∈ leftover seg k) :
    k.toNat < seg.len.toNat ∧ x.seq = seg.seq + k ∧ x.len = seg.len - k ∧ x.len ≠ 0 ∧
      x.xmit = seg.xmit ∧ x.bCtrl = seg.bCtrl := by
  unfold leftover at hx
  split at hx
  · rename_i hk
    rw [UInt32.lt_iff_toNat_lt] at hk
    obtain rfl := List.mem_singleton.mp hx
    refine ⟨hk, rfl, rfl, ?_, rfl, rfl⟩
    intro hzero
    have hsub : (seg.len - k).toNat = 0 := congrArg UInt32.toNat hzero
    rw [toNat_sub32 hk.le] at hsub
    omega
  · cases hx

end SSegment

namespace Sender

/-- The segment size and the congestion window may change when a packet is too large. -/
def Lowered (s s' : Sender) : Prop :=
  ∃ mss msslevel cwnd, s' = { s with mss := mss, msslevel := msslevel, cwnd := cwnd } ∧
    (s.Congestion → s'.Congestion)

variable {v : View} {s s' s'' : Sender} {sent rest unsent : List SSegment} {seg : SSegment}
  {k : UInt32} {xmit : UInt8}

theorem Lowered.refl (s : Sender) : s.Lowered s := ⟨_, _, _, rfl, id⟩

theorem Lowered.trans (h : s.Lowered s') (h' : s'.Lowered s'') : s.Lowered s'' := by
  obtain ⟨_, _, _, rfl, hc⟩ := h
  obtain ⟨_, _, _, rfl, hc'⟩ := h'
  exact ⟨_, _, _, rfl, fun hs => hc' (hc hs)⟩

theorem Ok.lowered (h : s.Ok v) (hl : s.Lowered s') : s'.Ok v := by
  obtain ⟨_, _, _, rfl, hc⟩ := hl
  exact { h with congestion := hc h.congestion }

/-- The kind of a segment is kept by its pieces; the opening message is not cut. -/
theorem ctrl_pieces (k : UInt32) (xmit : UInt8)
    (h : if seg.bCtrl then seg.seq = 0 ∧ seg.len = 4 else 4 ≤ seg.seq.toNat)
    (hlt : seg.seq.toNat + seg.len.toNat < 2 ^ 32)
    (hwhole : seg.bCtrl → k = seg.len) :
    ∀ x ∈ { seg with len := k, xmit := xmit } :: leftover seg k,
      if x.bCtrl then x.seq = 0 ∧ x.len = 4 else 4 ≤ x.seq.toNat := by
  intro x hx
  rcases List.mem_cons.mp hx with rfl | hx
  · by_cases hctrl : seg.bCtrl
    · simp only [hctrl, if_true] at h ⊢
      exact ⟨h.1, (hwhole hctrl).trans h.2⟩
    · rw [if_neg hctrl] at h ⊢
      exact h
  · obtain ⟨hk, hseq, -, -, -, hkind⟩ := SSegment.mem_leftover hx
    rw [hkind]
    by_cases hctrl : seg.bCtrl
    · rw [hwhole hctrl] at hk
      omega
    · rw [if_neg hctrl] at h ⊢
      rw [hseq, toNat_add32 (by omega)]
      omega

theorem Ok.pieces (h : s.Ok v) (s' : Sender) (before : List SSegment) {after : List SSegment}
    (hslist : s.slist = before ++ seg :: after) (hle : k.toNat ≤ seg.len.toNat)
    (hlt : seg.seq.toNat + seg.len.toNat < 2 ^ 32) (hwhole : seg.bCtrl → k = seg.len)
    (xmit : UInt8) (hslist' : s'.slist =
      before ++ ({ seg with len := k, xmit := xmit } :: leftover seg k) ++ after)
    (huna : s'.una = s.una) (hnxt : s.nxt.toNat ≤ s'.nxt.toNat) :
    (∀ x ∈ s'.slist, if x.bCtrl then x.seq = 0 ∧ x.len = 4 else 4 ≤ x.seq.toNat) ∧
      ∀ c, s.Cut c → s'.Cut c := by
  constructor
  · intro x hx
    have hmem := h.ctrl
    rw [hslist] at hmem
    rw [hslist', List.mem_append, List.mem_append] at hx
    rcases hx with (hx | hx) | hx
    · exact hmem x (List.mem_append_left _ hx)
    · exact ctrl_pieces k xmit (hmem seg (by simp)) hlt hwhole x hx
    · exact hmem x (by simp [hx])
  · intro c hc
    rcases hc with hdone | ⟨hc, hboundary⟩
    · exact .inl (huna ▸ hdone)
    · rw [hslist] at hboundary
      refine .inr ⟨hc.trans hnxt, ?_⟩
      rw [hslist', huna]
      exact hboundary.refine (SSegment.tiles_pieces hle hlt)

theorem Ok.transmitted (h : s.Ok v) (hsplit : s.Split sent (seg :: rest)) (hpos : k ≠ 0)
    (hle : k.toNat ≤ seg.len.toNat) (hedge : s.nxt.toNat + k.toNat ≤ max 4 v.edge)
    (hwhole : seg.bCtrl → k = seg.len) (hxmit : xmit ≠ 0) (rtoBase : UInt32) :
    let s' : Sender := { s with
      slist := sent ++ ({ seg with len := k, xmit := xmit } :: leftover seg k) ++ rest
      nxt := s.nxt + k
      rtoBase := rtoBase }
    s'.Ok v ∧ (∀ c, s.Cut c → s'.Cut c) ∧ s'.Cut (s.nxt.toNat + k.toNat) ∧
      s'.nxt.toNat = s.nxt.toNat + k.toNat := by
  intro s'
  have hpos' : 0 < k.toNat := Nat.pos_of_ne_zero fun hzero => hpos (UInt32.toNat_inj.mp hzero)
  have hseq : seg.start = s.nxt.toNat := hsplit.tiles_unsent.1
  have hend := (hsplit.tiles_unsent.start_le List.mem_cons_self).2
  have hbounded := h.bounded
  simp only [SSegment.start, SSegment.size] at hseq hend
  have hnxt : (s.nxt + k).toNat = s.nxt.toNat + k.toNat := toNat_add32 (by omega)
  have hpieces : Tiles SSegment.start SSegment.size seg.start
      ({ seg with len := k, xmit := xmit } :: leftover seg k) (seg.start + seg.size) :=
    SSegment.tiles_pieces hle (by simp only [SSegment.start, SSegment.size]; omega)
  have hslist : s'.slist = sent ++ [{ seg with len := k, xmit := xmit }] ++
      (leftover seg k ++ rest) := by
    simp only [s', List.append_assoc, List.cons_append, List.nil_append]
  have hsent : Tiles SSegment.start SSegment.size s.una.toNat
      (sent ++ [{ seg with len := k, xmit := xmit }]) (s.nxt.toNat + k.toNat) :=
    tiles_append.mpr ⟨_, hsplit.tiles_sent, hseq, rfl⟩
  obtain ⟨hctrl, hcut⟩ := h.pieces s' sent hsplit.slist hle (by omega) hwhole xmit rfl rfl
    (show s.nxt.toNat ≤ (s.nxt + k).toNat by omega)
  have hstarted : s.nxt + k ≠ 0 := by
    intro hzero
    have hzero' : (s.nxt + k).toNat = 0 := congrArg UInt32.toNat hzero
    omega
  refine ⟨⟨h.buffered, ?_, hbounded, ⟨sent ++ [{ seg with len := k, xmit := xmit }],
    leftover seg k ++ rest, ?_⟩, hctrl, h.una_le, ?_, h.wnd_le, fun hzero => absurd hzero hstarted,
    h.scale⟩, hcut, ?_, hnxt⟩
  · have hrecover := h.congestion.recover_le
    have hle_nxt := h.una_le_nxt
    exact { h.congestion with
      recover_le := show s.recover.toNat ≤ (s.nxt + k).toNat by omega
      fresh := fun hzero => absurd hzero hstarted
      timer := fun _ => show s.una.toNat < (s.nxt + k).toNat by omega }
  · refine ⟨hslist, ?_, ?_, ?_, ?_, ?_⟩
    · change Tiles _ _ s.una.toNat _ (s.nxt + k).toNat
      rw [hnxt]
      exact hsent
    · change Tiles _ _ (s.nxt + k).toNat _ s.queued.length
      rw [hnxt]
      have hrest := hsplit.tiles_unsent.2
      have hleftover := hpieces.2
      simp only [SSegment.start, hseq] at hleftover
      exact tiles_append.mpr ⟨_, hleftover, hrest⟩
    · intro x hx
      rcases List.mem_append.mp hx with hx | hx
      · exact hsplit.sent_ok x hx
      · obtain rfl := List.mem_singleton.mp hx
        exact ⟨hxmit, hpos⟩
    · intro x hx
      rcases List.mem_append.mp hx with hx | hx
      · rw [(SSegment.mem_leftover hx).2.2.2.2.1]
        exact hsplit.unsent_ok seg List.mem_cons_self
      · exact hsplit.unsent_ok x (List.mem_cons_of_mem seg hx)
    · intro x hx
      by_cases hrest : rest = []
      · rw [hrest, List.append_nil] at hx
        exact (SSegment.mem_leftover (List.mem_of_mem_dropLast hx)).2.2.2.1
      · rw [List.dropLast_append_of_ne_nil hrest] at hx
        rcases List.mem_append.mp hx with hx | hx
        · exact (SSegment.mem_leftover hx).2.2.2.1
        · refine hsplit.nonempty x ?_
          rw [List.dropLast_cons_of_ne_nil hrest]
          exact List.mem_cons_of_mem seg hx
  · change (s.nxt + k).toNat ≤ _
    omega
  · refine .inr ⟨?_, ?_⟩
    · change _ ≤ (s.nxt + k).toNat
      omega
    · rw [hslist]
      exact hsent.boundary_end _

theorem Ok.retransmitted (h : s.Ok v) (hsplit : s.Split (seg :: sent) unsent) (hpos : k ≠ 0)
    (hle : k.toNat ≤ seg.len.toNat) (hwhole : seg.bCtrl → k = seg.len) (hxmit : xmit ≠ 0)
    (rtoBase : UInt32) :
    let s' : Sender := { s with
      slist := { seg with len := k, xmit := xmit } :: leftover seg k ++ (sent ++ unsent)
      rtoBase := rtoBase }
    s'.Ok v ∧ (∀ c, s.Cut c → s'.Cut c) ∧ s'.Cut (seg.seq.toNat + k.toNat) := by
  intro s'
  obtain ⟨hseq, hsent⟩ := hsplit.tiles_sent
  have hend := (hsplit.tiles_sent.start_le List.mem_cons_self).2
  have hnxt := h.nxt_le_queued
  have hbounded := h.bounded
  simp only [SSegment.start, SSegment.size] at hseq hend
  have hpos' : 0 < k.toNat := Nat.pos_of_ne_zero fun hzero => hpos (UInt32.toNat_inj.mp hzero)
  have hpieces : Tiles SSegment.start SSegment.size seg.start
      ({ seg with len := k, xmit := xmit } :: leftover seg k) (seg.start + seg.size) :=
    SSegment.tiles_pieces hle (by simp only [SSegment.start, SSegment.size]; omega)
  obtain ⟨hctrl, hcut⟩ := h.pieces s' [] hsplit.slist hle (by omega) hwhole xmit rfl rfl le_rfl
  have htimer : s.una.toNat < s.nxt.toNat := by omega
  refine ⟨{ h with
    congestion := { h.congestion with timer := fun _ => htimer }
    split := ⟨{ seg with len := k, xmit := xmit } :: leftover seg k ++ sent, unsent, ?_⟩
    ctrl := hctrl }, hcut, ?_⟩
  · refine ⟨?_, ?_, hsplit.tiles_unsent, ?_, hsplit.unsent_ok, hsplit.nonempty⟩
    · simp only [s', List.append_assoc, List.cons_append]
    · rw [← hseq] at hsent ⊢
      exact tiles_append.mpr ⟨_, hpieces, hsent⟩
    · intro x hx
      rcases List.mem_append.mp hx with hx | hx
      · rcases List.mem_cons.mp hx with rfl | hx
        · exact ⟨hxmit, hpos⟩
        · obtain ⟨-, -, -, hlen, hkeeps, -⟩ := SSegment.mem_leftover hx
          rw [hkeeps]
          exact ⟨(hsplit.sent_ok seg List.mem_cons_self).1, hlen⟩
      · exact hsplit.sent_ok x (List.mem_cons_of_mem seg hx)
  · refine .inr ⟨?_, [{ seg with len := k, xmit := xmit }], leftover seg k ++ (sent ++ unsent), ?_,
      hseq, ?_⟩
    · change _ ≤ s.nxt.toNat
      omega
    · simp only [s', List.cons_append, List.nil_append]
    · change s.una.toNat + k.toNat = seg.seq.toNat + k.toNat
      omega

/-- An unsent segment is cut in two before its first part is transmitted. -/
theorem Ok.cutUnsent (h : s.Ok v) (hsplit : s.Split sent (seg :: rest)) (hpos : k ≠ 0)
    (hlt : k.toNat < seg.len.toNat) (hdata : seg.bCtrl = false) :
    let s' : Sender := { s with slist := sent ++ [{ seg with len := k },
      { seq := seg.seq + k, len := seg.len - k, xmit := 0, bCtrl := seg.bCtrl }] ++ rest }
    s'.Ok v ∧ s'.Split sent ({ seg with len := k } ::
      { seq := seg.seq + k, len := seg.len - k, xmit := 0, bCtrl := seg.bCtrl } :: rest) ∧
      ∀ c, s.Cut c → s'.Cut c := by
  intro s'
  have hxmit : seg.xmit = 0 := hsplit.unsent_ok seg List.mem_cons_self
  have hend := (hsplit.tiles_unsent.start_le List.mem_cons_self).2
  have hseq : seg.start = s.nxt.toNat := hsplit.tiles_unsent.1
  have hbounded := h.bounded
  simp only [SSegment.start, SSegment.size] at hend
  have hpieces : Tiles SSegment.start SSegment.size seg.start
      ({ seg with len := k, xmit := seg.xmit } :: leftover seg k) (seg.start + seg.size) :=
    SSegment.tiles_pieces hlt.le (by simp only [SSegment.start, SSegment.size]; omega)
  have hleftover : leftover seg k =
      [{ seq := seg.seq + k, len := seg.len - k, xmit := 0, bCtrl := seg.bCtrl }] := by
    rw [leftover, if_pos (UInt32.lt_iff_toNat_lt.mpr hlt), hxmit]
  rw [hleftover] at hpieces
  obtain ⟨hctrl, hcut⟩ := h.pieces s' sent hsplit.slist hlt.le (by omega)
    (fun hctrl => by rw [hdata] at hctrl; cases hctrl) seg.xmit (by rw [hleftover]) rfl le_rfl
  have hnext : s'.Split sent ({ seg with len := k } ::
      { seq := seg.seq + k, len := seg.len - k, xmit := 0, bCtrl := seg.bCtrl } :: rest) := by
    refine ⟨?_, hsplit.tiles_sent, ?_, hsplit.sent_ok, ?_, ?_⟩
    · simp only [s', List.append_assoc, List.cons_append, List.nil_append]
    · have hrest := hsplit.tiles_unsent.2
      rw [hseq] at hpieces
      exact tiles_append.mpr ⟨_, hpieces, hrest⟩
    · intro x hx
      rcases List.mem_cons.mp hx with rfl | hx
      · exact hxmit
      · rcases List.mem_cons.mp hx with rfl | hx
        · rfl
        · exact hsplit.unsent_ok x (List.mem_cons_of_mem seg hx)
    · have hleft : seg.len - k ≠ 0 := by
        intro hzero
        have hsub : (seg.len - k).toNat = 0 := congrArg UInt32.toNat hzero
        rw [toNat_sub32 hlt.le] at hsub
        omega
      intro x hx
      rw [List.dropLast_cons_of_ne_nil (List.cons_ne_nil _ _)] at hx
      rcases List.mem_cons.mp hx with rfl | hx
      · exact hpos
      · by_cases hrest : rest = []
        · rw [hrest] at hx
          cases hx
        · rw [List.dropLast_cons_of_ne_nil hrest] at hx
          rcases List.mem_cons.mp hx with rfl | hx
          · exact hleft
          · refine hsplit.nonempty x ?_
            rw [List.dropLast_cons_of_ne_nil hrest]
            exact List.mem_cons_of_mem seg hx
  exact ⟨{ h with congestion := { h.congestion with }, split := ⟨_, _, hnext⟩, ctrl := hctrl },
    hnext, hcut⟩

end Sender

end LibMsf
