import LibMsf.Stun.PseudoTcpTransmit

/-!
`attemptSend`, `queue` and `Send` keep the invariant of an endpoint.
-/

namespace LibMsf

open Cxx Tiling

namespace Endpoint

variable {v : View} {n : Nat} {e e' : Endpoint} {host : Host}

theorem splice_append {α : Type} (front back pieces : List α) (x : α) :
    splice (front ++ x :: back) front.length pieces = front ++ pieces ++ back := by
  simp [splice, List.drop_append]

theorem Lowers.split (h : e.Lowers e') {sent unsent : List SSegment}
    (hsplit : e.sender.Split sent unsent) : e'.sender.Split sent unsent := by
  obtain ⟨_, _, _, heq, -⟩ := h.sender
  rw [heq]
  exact hsplit

theorem succ_ne_zero {x : UInt8} (h : x.toNat < 30) : x + 1 ≠ 0 := by
  intro hzero
  have hsum : (x + 1).toNat = 0 := congrArg UInt8.toNat hzero
  rw [UInt8.toNat_add] at hsum
  change (x.toNat + 1) % 256 = 0 at hsum
  omega

theorem transmitted_len {k len : UInt32} (hle : k.toNat ≤ len.toNat) :
    (if k < len then k else len) = k := by
  split
  · rfl
  · rename_i hnot
    rw [UInt32.lt_iff_toNat_lt] at hnot
    apply UInt32.toNat_inj.mp
    omega

theorem advances_unsent {sent rest : List SSegment} {seg : SSegment} {k : UInt32} (now : UInt32)
    (h : e.sender.Ok v) (hsplit : e.sender.Split sent (seg :: rest)) (hk : k ≠ 0)
    (hle : k.toNat ≤ seg.len.toNat) (hedge : e.sndNxt.toNat + k.toNat ≤ max 4 v.edge)
    (hwhole : seg.bCtrl → k = seg.len) (hxmit : seg.xmit.toNat < 30) :
    Advances v seg k e (e.transmitted sent.length seg k now) ∧
      (e.transmitted sent.length seg k now).sndNxt.toNat = e.sndNxt.toNat + k.toNat := by
  have hunsent : seg.xmit = 0 := hsplit.unsent_ok seg List.mem_cons_self
  have hseq : seg.seq.toNat = e.sndNxt.toNat := hsplit.tiles_unsent.1
  obtain ⟨hok, hcut, hends, hnxt⟩ := h.transmitted hsplit hk hle hedge hwhole
    (succ_ne_zero hxmit) (if e.rtoBase = 0 then now else e.rtoBase)
  have hlist : splice e.slist sent.length
      ({ seg with len := k, xmit := seg.xmit + 1 } :: leftover seg k) =
      sent ++ ({ seg with len := k, xmit := seg.xmit + 1 } :: leftover seg k) ++ rest := by
    rw [show e.slist = sent ++ seg :: rest from hsplit.slist, splice_append]
  have hsender : (e.transmitted sent.length seg k now).sender = { e.sender with
      slist := sent ++ ({ seg with len := k, xmit := seg.xmit + 1 } :: leftover seg k) ++ rest
      nxt := e.sender.nxt + k
      rtoBase := if e.rtoBase = 0 then now else e.rtoBase } := by
    simp only [transmitted, transmitted_len hle, hlist, if_pos hunsent, sender]
  have hnxt' : (e.transmitted sent.length seg k now).sndNxt.toNat =
      e.sndNxt.toNat + k.toNat := by
    exact (congrArg (fun s => s.nxt.toNat) hsender).trans hnxt
  refine ⟨⟨rfl, rfl, rfl, rfl, rfl, ?_, ?_, ?_, ?_⟩, hnxt'⟩
  · rw [hsender]
    exact hok
  · rw [hsender]
    exact hcut
  · rw [hsender, hseq]
    exact hends
  · omega

theorem advances_sent {sent unsent : List SSegment} {seg : SSegment} {k now : UInt32}
    (h : e.sender.Ok v) (hsplit : e.sender.Split (seg :: sent) unsent) (hk : k ≠ 0)
    (hle : k.toNat ≤ seg.len.toNat) (hwhole : seg.bCtrl → k = seg.len)
    (hxmit : seg.xmit.toNat < 30) :
    Advances v seg k e (e.transmitted 0 seg k now) := by
  have hsent : seg.xmit ≠ 0 := (hsplit.sent_ok seg List.mem_cons_self).1
  obtain ⟨hok, hcut, hends⟩ := h.retransmitted hsplit hk hle hwhole (succ_ne_zero hxmit)
    (if e.rtoBase = 0 then now else e.rtoBase)
  have hlist : splice e.slist 0 ({ seg with len := k, xmit := seg.xmit + 1 } :: leftover seg k) =
      { seg with len := k, xmit := seg.xmit + 1 } :: leftover seg k ++ (sent ++ unsent) := by
    rw [show e.slist = seg :: (sent ++ unsent) from hsplit.slist]
    exact splice_append [] (sent ++ unsent) _ seg
  have hsender : (e.transmitted 0 seg k now).sender = { e.sender with
      slist := { seg with len := k, xmit := seg.xmit + 1 } :: leftover seg k ++ (sent ++ unsent)
      rtoBase := if e.rtoBase = 0 then now else e.rtoBase } := by
    simp only [transmitted, transmitted_len hle, hlist, if_neg hsent, sender]
  refine ⟨rfl, rfl, rfl, rfl, rfl, ?_, ?_, ?_, ?_⟩
  · rw [hsender]
    exact hok
  · rw [hsender]
    exact hcut
  · rw [hsender]
    exact hends
  · exact (congrArg (fun s => s.nxt.toNat) hsender).ge

theorem Inv.retransmit_front (h : e.Inv v n) (hflight : e.sndUna.toNat < e.sndNxt.toNat)
    (now : UInt32) :
    Ends (e.transmit host 0 now) (fun r => r.1.Inv v n ∧ e.Transmits r.1) := by
  obtain ⟨sent, unsent, hsplit⟩ := h.core.sender.split
  cases sent with
  | nil =>
      have heq : e.sndUna.toNat = e.sndNxt.toNat := hsplit.tiles_sent
      omega
  | cons seg sent =>
      have hseg : e.slist[0]? = some seg := by
        rw [show e.slist = seg :: sent ++ unsent from hsplit.slist]
        rfl
      refine (transmit_ends h hseg (hsplit.sent_ok seg List.mem_cons_self).2 ?_).mono ?_
      · intro e₁ k hlowers hk hle hwhole hxmit
        exact advances_sent (Core.Ok.lowers h.core hlowers).sender (hlowers.split hsplit) hk hle
          hwhole hxmit
      · rintro r ⟨hinv, htransmits, -⟩
        exact ⟨hinv, htransmits⟩

theorem Inv.transmit_unsent (h : e.Inv v n) {sent rest : List SSegment} {seg : SSegment}
    (hsplit : e.sender.Split sent (seg :: rest)) (hne : seg.len ≠ 0)
    (hedge : e.sndNxt.toNat + seg.len.toNat ≤ max 4 v.edge) (now : UInt32) :
    Ends (e.transmit host sent.length now) (fun r => r.1.Inv v n ∧ e.Transmits r.1 ∧
      (r.2 = true → e.sndNxt.toNat < r.1.sndNxt.toNat)) := by
  have hseg : e.slist[sent.length]? = some seg := by
    rw [show e.slist = sent ++ seg :: rest from hsplit.slist, List.getElem?_append_right le_rfl,
      Nat.sub_self]
    rfl
  have hadvances : ∀ e₁ k, e.Lowers e₁ → k ≠ 0 → k.toNat ≤ seg.len.toNat →
      (seg.bCtrl → k = seg.len) → seg.xmit.toNat < 30 →
      Advances v seg k e₁ (e₁.transmitted sent.length seg k now) ∧
        (e₁.transmitted sent.length seg k now).sndNxt.toNat = e.sndNxt.toNat + k.toNat := by
    intro e₁ k hlowers hk hle hwhole hxmit
    have hnxt : e₁.sndNxt = e.sndNxt := by
      obtain ⟨_, _, _, heq, -⟩ := hlowers.sender
      exact congrArg Sender.nxt heq
    have ha := advances_unsent now (Core.Ok.lowers h.core hlowers).sender
      (hlowers.split hsplit) hk hle (by rw [hnxt]; omega) hwhole hxmit
    rwa [hnxt] at ha
  have hunsent : seg.xmit = 0 := hsplit.unsent_ok seg List.mem_cons_self
  refine (transmit_ends h hseg hne ?_).mono ?_
  · intro e₁ k hlowers hk hle hwhole hxmit
    exact (hadvances e₁ k hlowers hk hle hwhole hxmit).1
  · rintro r ⟨hinv, htransmits, hdone⟩
    refine ⟨hinv, htransmits, ?_⟩
    intro htrue
    obtain ⟨e₁, k, hlowers, hk, hle, heq⟩ := hdone htrue
    have hpos : 0 < k.toNat := Nat.pos_of_ne_zero fun hzero => hk (UInt32.toNat_inj.mp hzero)
    have hnxt : e₁.sndNxt = e.sndNxt := by
      obtain ⟨_, _, _, hsender, -⟩ := hlowers.sender
      exact congrArg Sender.nxt hsender
    have hend := (hsplit.tiles_unsent.start_le List.mem_cons_self).2
    have hseq : seg.seq.toNat = e.sndNxt.toNat := hsplit.tiles_unsent.1
    have hbounded : e.queued.length < 2 ^ 32 := h.core.sender.bounded
    simp only [SSegment.start, SSegment.size] at hend
    have hsum : (e.sndNxt + k).toNat = e.sndNxt.toNat + k.toNat := by
      apply toNat_add32
      change seg.seq.toNat + seg.len.toNat ≤ e.queued.length at hend
      omega
    rw [heq, transmitted]
    simp only [transmitted_len hle, if_pos hunsent, hnxt, hsum]
    omega

theorem getBuffered_sender (h : e.sender.Buffered) :
    e.sbuf.getBuffered = e.queued.length - e.sndUna.toNat := by
  have hreadable : e.sbuf.tape.readable = e.queued.drop e.sndUna.toNat := h.readable
  rw [← List.length_drop, ← hreadable]
  exact h.valid.getBuffered_eq

theorem sndBuffered_toNat (h : e.sender.Ok v) :
    e.sndBuffered.toNat = e.queued.length - e.sndUna.toNat := by
  have hbounded : e.queued.length < 2 ^ 32 := h.bounded
  rw [sndBuffered, getBuffered_sender h.buffered, toNat_ofNat32 (by omega)]

theorem toNat_nUseable (w f : UInt32) : (nUseable w f).toNat = w.toNat - f.toNat := by
  unfold nUseable
  split
  · rename_i hlt
    exact toNat_sub32 (UInt32.lt_iff_toNat_lt.mp hlt).le
  · rename_i hnot
    rw [UInt32.lt_iff_toNat_lt] at hnot
    change 0 = _
    omega

theorem avoidSilly_cases (a u w : UInt32) :
    avoidSilly a u w = 0 ∨ avoidSilly a u w = u ∧ u.toNat ≤ a.toNat ∨
      avoidSilly a u w = a ∧ a.toNat ≤ u.toNat := by
  unfold avoidSilly
  split
  · rename_i hlt
    rw [UInt32.lt_iff_toNat_lt] at hlt
    split
    · exact .inl rfl
    · exact .inr (.inl ⟨rfl, hlt.le⟩)
  · rename_i hnot
    rw [UInt32.lt_iff_toNat_lt] at hnot
    exact .inr (.inr ⟨rfl, by omega⟩)

/-- The opening message fits into the first window. -/
theorem nWindow_first (h : e.sender.Ok v) (hzero : e.sndNxt = 0) (hqueued : e.queued ≠ []) :
    4 ≤ e.nWindow.toNat := by
  obtain ⟨hdup, hcwnd⟩ := h.congestion.fresh hzero
  have hwnd : 4 ≤ e.sndWnd.toNat := h.first hzero hqueued
  have hnot : ¬ (e.dupAcks = 1 ∨ e.dupAcks = 2) := by
    rw [show e.dupAcks = 0 from hdup]
    decide
  rw [nWindow, if_neg hnot, UInt32.toNat_min]
  exact le_min hwnd hcwnd

/-- A turn sends at most what is queued, and nothing beyond the window of the peer. The opening
message goes out in one piece. -/
theorem nAvailable_le (h : e.sender.Ok v) :
    e.nAvailable.toNat ≤ e.queued.length - e.sndNxt.toNat ∧
      (e.nAvailable ≠ 0 → e.sndNxt.toNat + e.nAvailable.toNat ≤
        e.sndUna.toNat + e.sndWnd.toNat) ∧
      (e.sndNxt = 0 → 4 ≤ e.queued.length → e.nAvailable = 0 ∨ 4 ≤ e.nAvailable.toNat) := by
  have hle : e.sndUna.toNat ≤ e.sndNxt.toNat := h.una_le_nxt
  have hnxt : e.sndNxt.toNat ≤ e.queued.length := h.nxt_le_queued
  have hflight : (e.sndNxt - e.sndUna).toNat = e.sndNxt.toNat - e.sndUna.toNat := toNat_sub32 hle
  have hbuffered := sndBuffered_toNat h
  have hpart : (min (e.sndBuffered - (e.sndNxt - e.sndUna)) e.mss).toNat =
      min (e.queued.length - e.sndNxt.toNat) e.mss.toNat := by
    rw [UInt32.toNat_min, toNat_sub32 (by omega), hbuffered, hflight]
    congr 1
    omega
  have hmss : 4 ≤ e.mss.toNat := h.congestion.mss_ge
  have hwindow : e.nWindow.toNat ≤ e.sndWnd.toNat := by
    rw [nWindow, UInt32.toNat_min]
    exact min_le_left _ _
  have huse := toNat_nUseable e.nWindow (e.sndNxt - e.sndUna)
  have hcases := avoidSilly_cases (min (e.sndBuffered - (e.sndNxt - e.sndUna)) e.mss)
    (nUseable e.nWindow (e.sndNxt - e.sndUna)) e.nWindow
  change e.nAvailable = 0 ∨ e.nAvailable = _ ∧ _ ∨ e.nAvailable = _ ∧ _ at hcases
  rcases hcases with hzero | ⟨heq, hless⟩ | ⟨heq, hless⟩
  · rw [hzero]
    exact ⟨Nat.zero_le _, fun hne => absurd rfl hne, fun _ _ => .inl rfl⟩
  · refine ⟨by rw [heq]; omega, ?_, ?_⟩
    · intro hne
      have hne' : e.nAvailable.toNat ≠ 0 := fun hzero => hne (UInt32.toNat_inj.mp hzero)
      rw [heq] at hne' ⊢
      omega
    · intro hzero hlen
      have hfirst := nWindow_first h hzero (List.ne_nil_of_length_pos (by omega))
      have hzero' : e.sndNxt.toNat = 0 := congrArg UInt32.toNat hzero
      rw [heq]
      omega
  · refine ⟨by rw [heq]; omega, ?_, ?_⟩
    · intro hne
      have hne' : e.nAvailable.toNat ≠ 0 := fun hzero => hne (UInt32.toNat_inj.mp hzero)
      rw [heq] at hne' ⊢
      omega
    · intro hzero hlen
      have hzero' : e.sndNxt.toNat = 0 := congrArg UInt32.toNat hzero
      rw [heq]
      omega

theorem findUnsent_eq {sent rest : List SSegment} {seg : SSegment}
    (hsent : ∀ x ∈ sent, x.xmit ≠ 0) (hseg : seg.xmit = 0) :
    findUnsent (sent ++ seg :: rest) = .ok sent.length := by
  induction sent with
  | nil => rw [List.nil_append, findUnsent, if_pos hseg, List.length_nil]
  | cons x sent ih =>
      have hne : sent ++ seg :: rest ≠ [] := by simp
      rw [List.cons_append, findUnsent, if_neg (hsent x List.mem_cons_self), if_neg hne,
        ih (fun y hy => hsent y (List.mem_cons_of_mem x hy))]
      rfl

theorem breakUp_sndNxt (e : Endpoint) (i : Nat) (seg : SSegment) (k : UInt32) :
    (e.breakUp i seg k).sndNxt = e.sndNxt := by
  unfold Endpoint.breakUp
  split <;> rfl

theorem Inv.breakUp (h : e.Inv v n) {sent rest : List SSegment} {seg : SSegment} {k : UInt32}
    (hsplit : e.sender.Split sent (seg :: rest)) (hk : k ≠ 0)
    (hwhole : seg.bCtrl → seg.len.toNat ≤ k.toNat) :
    (e.breakUp sent.length seg k).Inv v n ∧ e.Transmits (e.breakUp sent.length seg k) ∧
      ∃ seg' rest', (e.breakUp sent.length seg k).sender.Split sent (seg' :: rest') ∧
        seg'.len.toNat ≤ k.toNat ∧ (seg.len ≠ 0 → seg'.len ≠ 0) := by
  unfold Endpoint.breakUp
  by_cases hlt : k < seg.len
  · rw [if_pos hlt]
    rw [UInt32.lt_iff_toNat_lt] at hlt
    have hdata : seg.bCtrl = false := by
      rw [Bool.eq_false_iff]
      intro hctrl
      have hle := hwhole hctrl
      omega
    obtain ⟨hok, hnext, hcut⟩ := h.core.sender.cutUnsent hsplit hk hlt hdata
    have hlist := splice_append sent rest [{ seg with len := k },
      { seq := seg.seq + k, len := seg.len - k, xmit := 0, bCtrl := seg.bCtrl }] seg
    rw [← show e.slist = sent ++ seg :: rest from hsplit.slist] at hlist
    rw [hlist]
    have htransmits : e.Transmits { e with slist := sent ++ [{ seg with len := k },
        { seq := seg.seq + k, len := seg.len - k, xmit := 0, bCtrl := seg.bCtrl }] ++ rest } :=
      ⟨rfl, rfl, rfl, rfl, le_rfl, hcut⟩
    refine ⟨⟨Core.Ok.with_sender h.core hok rfl rfl rfl, ?_⟩, htransmits, _, _, hnext, le_rfl,
      fun _ => hk⟩
    exact h.packets_grow htransmits.grows rfl
  · rw [if_neg hlt]
    rw [UInt32.lt_iff_toNat_lt, not_lt] at hlt
    exact ⟨h, .refl e, seg, rest, hsplit, hlt, id⟩

/-- The bytes that are left to send start with a segment that is not empty. -/
theorem Inv.exists_unsent (h : e.Inv v n) (hleft : e.sndNxt.toNat < e.queued.length) :
    ∃ sent seg rest, e.sender.Split sent (seg :: rest) ∧ seg.len ≠ 0 := by
  obtain ⟨sent, unsent, hsplit⟩ := h.core.sender.split
  have htiles : Tiles SSegment.start SSegment.size e.sndNxt.toNat unsent e.queued.length :=
    hsplit.tiles_unsent
  cases unsent with
  | nil =>
      have heq : e.sndNxt.toNat = e.queued.length := htiles
      omega
  | cons seg rest =>
      refine ⟨sent, seg, rest, hsplit, ?_⟩
      cases rest with
      | nil =>
          have hsize : e.sndNxt.toNat + seg.len.toNat = e.queued.length := htiles.2
          intro hzero
          rw [hzero] at hsize
          change e.sndNxt.toNat + 0 = _ at hsize
          omega
      | cons next rest =>
          refine hsplit.nonempty seg ?_
          rw [List.dropLast_cons_of_ne_nil (List.cons_ne_nil _ _)]
          exact List.mem_cons_self

theorem Inv.four_le_queued (h : e.Inv v n) (hne : e.queued ≠ []) : 4 ≤ e.queued.length := by
  have hstream : e.queued = openingMessage e.rwndScale ++ e.accepted :=
    h.core.stream.resolve_left fun hnil => hne hnil.1
  rw [hstream, List.length_append]
  exact Nat.le_add_right 4 _

theorem sendLoop_ends (now : UInt32) (turns : Nat) (sflags : SendFlags) (h : e.Inv v n)
    (hturns : e.queued.length - e.sndNxt.toNat < turns) :
    Ends (sendLoop host now turns e sflags) (fun e' => e'.Inv v n ∧ e.Transmits e') := by
  induction turns generalizing e sflags with
  | zero => omega
  | succ turns ih =>
      obtain ⟨hqueued, hwindow, hfirst⟩ := nAvailable_le h.core.sender
      unfold sendLoop
      by_cases hzero : e.nAvailable = 0
      · simp only [if_pos hzero]
        by_cases hnone : sflags = .none
        · rw [if_pos hnone]
          exact .ok ⟨h, .refl e⟩
        rw [if_neg hnone]
        by_cases hack : sflags = .immediateAck ∨ e.tAck ≠ 0
        · rw [if_pos hack]
          refine (h.packet_empty host e.sndNxt).bind ?_
          rintro ⟨e₁, result⟩ ⟨hinv, hcore⟩
          exact .ok ⟨hinv, .of_core hcore⟩
        · rw [if_neg hack]
          exact .ok ⟨h.of_core rfl rfl, .of_core rfl⟩
      simp only [if_neg hzero]
      by_cases hnagle : e.useNagling = true ∧ e.sndUna < e.sndNxt ∧ e.nAvailable < e.mss
      · rw [if_pos hnagle]
        exact .ok ⟨h, .refl e⟩
      rw [if_neg hnagle]
      have hpos : e.nAvailable.toNat ≠ 0 := fun hz => hzero (UInt32.toNat_inj.mp hz)
      obtain ⟨sent, seg, rest, hsplit, hne⟩ := h.exists_unsent (by omega)
      have hslist : e.slist = sent ++ seg :: rest := hsplit.slist
      have hfind : findUnsent e.slist = .ok sent.length := by
        rw [hslist]
        exact findUnsent_eq (fun x hx => (hsplit.sent_ok x hx).1)
          (hsplit.unsent_ok seg List.mem_cons_self)
      have hcell : cellAt e.slist sent.length = .ok seg := by
        apply cellAt_eq
        rw [hslist, List.getElem?_append_right le_rfl, Nat.sub_self]
        rfl
      have hwhole : seg.bCtrl → seg.len.toNat ≤ e.nAvailable.toNat := by
        intro hctrl
        have hmem : seg ∈ e.slist := by
          rw [hslist]
          simp
        have hkind := h.core.sender.ctrl seg hmem
        rw [if_pos hctrl] at hkind
        have hseq : seg.seq.toNat = e.sndNxt.toNat := hsplit.tiles_unsent.1
        have hzero' : e.sndNxt = 0 := by
          apply UInt32.toNat_inj.mp
          rw [← hseq, hkind.1]
        have hfour := h.four_le_queued (List.ne_nil_of_length_pos (by omega))
        have hlen : seg.len.toNat = 4 := by rw [hkind.2]; rfl
        have hge := (hfirst hzero' hfour).resolve_left hzero
        omega
      obtain ⟨hinv₁, htransmits₁, seg', rest', hsplit', hle', hne'⟩ := h.breakUp hsplit hzero hwhole
      have hnxt₁ := e.breakUp_sndNxt sent.length seg e.nAvailable
      rw [hfind, checked_ok, ok_bind, hcell, checked_ok, ok_bind]
      generalize e.breakUp sent.length seg e.nAvailable = e₁ at *
      have hwnd := h.core.sender.wnd_le
      change e.sndUna.toNat + e.sndWnd.toNat ≤ max 4 v.edge at hwnd
      have hedge := hwindow hzero
      refine (hinv₁.transmit_unsent hsplit' (hne' hne) (by rw [hnxt₁]; omega) now).bind ?_
      rintro ⟨e₂, done⟩ ⟨hinv₂, htransmits₂, hprogress⟩
      have hall := htransmits₁.trans htransmits₂
      cases done with
      | false => exact .ok ⟨hinv₂, hall⟩
      | true =>
          have hlt := hprogress rfl
          change e₂.Inv v n at hinv₂
          change e₁.sndNxt.toNat < e₂.sndNxt.toNat at hlt
          rw [hnxt₁] at hlt
          have hsame : e₂.queued = e.queued := hall.queued
          have hbound : e₂.sndNxt.toNat ≤ e₂.queued.length := hinv₂.core.sender.nxt_le_queued
          refine (ih .none hinv₂ (by rw [hsame] at hbound ⊢; omega)).mono ?_
          rintro e₃ ⟨hinv₃, htransmits₃⟩
          exact ⟨hinv₃, hall.trans htransmits₃⟩

theorem Inv.attemptSend (h : e.Inv v n) (sflags : SendFlags) :
    Ends (e.attemptSend host sflags) (fun e' => e'.Inv v n ∧ e.Transmits e') := by
  have hinv : (e.tick.restart (host.clock e.ticks)).Inv v n ∧
      e.Transmits (e.tick.restart (host.clock e.ticks)) := by
    unfold restart
    split
    · have htransmits : e.Transmits { e.tick with cwnd := e.tick.mss } :=
        ⟨rfl, rfl, rfl, rfl, le_rfl, fun _ hc => hc⟩
      refine ⟨⟨Core.Ok.with_sender h.core (h.core.sender.lowered ?_) rfl rfl rfl,
        h.packets_grow htransmits.grows rfl⟩, htransmits⟩
      refine ⟨_, _, e.mss, rfl, ?_⟩
      intro hc
      exact { hc with fresh := fun hfresh => ⟨(hc.fresh hfresh).1, hc.mss_ge⟩ }
    · exact ⟨h.of_core rfl rfl, .of_core rfl⟩
  obtain ⟨hinv, htransmits⟩ := hinv
  have hbuffered := getBuffered_sender h.core.sender.buffered
  have hle : e.sndUna.toNat ≤ e.sndNxt.toNat := h.core.sender.una_le_nxt
  rw [Endpoint.attemptSend]
  generalize e.tick.restart (host.clock e.ticks) = e₁ at *
  refine (sendLoop_ends (host.clock e.ticks) _ sflags hinv ?_).mono ?_
  · have hsame : e₁.queued = e.queued := htransmits.queued
    have hnxt := htransmits.nxt
    rw [hsame]
    omega
  · rintro e₂ ⟨hinv₂, htransmits₂⟩
    exact ⟨hinv₂, htransmits.trans htransmits₂⟩

end Endpoint

end LibMsf
