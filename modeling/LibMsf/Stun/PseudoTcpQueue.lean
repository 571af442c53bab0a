import LibMsf.Stun.PseudoTcpSendLoop

/-!
New bytes in the send queue.

They are appended to the stream, to the send buffer and to the send list at once, so that the
list goes on tiling the buffer. Places where packets ended lie before the first byte that was
not sent and are not touched.
-/

namespace LibMsf

open Cxx Tiling Endpoint

namespace Sender

variable {v : View} {s : Sender} {sent unsent : List SSegment} {seq len : UInt32} {bCtrl : Bool}

theorem addSegment_eq (slist : List SSegment) (seq len : UInt32) (bCtrl : Bool) :
    (∃ front back, slist = front ++ [back] ∧ back.bCtrl = bCtrl ∧ back.xmit = 0 ∧
      addSegment slist seq len bCtrl = front ++ [{ back with len := back.len + len }]) ∨
    (∀ back, slist.getLast? = some back → ¬(back.bCtrl = bCtrl ∧ back.xmit = 0)) ∧
      addSegment slist seq len bCtrl =
        slist ++ [{ seq := seq, len := len, xmit := 0, bCtrl := bCtrl }] := by
  unfold addSegment
  cases hlast : slist.getLast? with
  | none => exact .inr ⟨nofun, rfl⟩
  | some back =>
      by_cases hsame : back.bCtrl = bCtrl ∧ back.xmit = 0
      · refine .inl ⟨slist.dropLast, back, ?_, hsame.1, hsame.2, if_pos hsame⟩
        exact (List.dropLast_append_getLast? back hlast).symm
      · refine .inr ⟨?_, if_neg hsame⟩
        rintro back' hback'
        cases hback'
        exact hsame

/-- The list goes on tiling the buffer. -/
theorem SplitAt.add {una nxt total : Nat} {slist : List SSegment} (bCtrl : Bool)
    (h : SplitAt una nxt total slist sent unsent) (hseq : seq.toNat = total)
    (hlt : total + len.toNat < 2 ^ 32)
    (hnonempty : ∀ x ∈ slist, x.bCtrl ≠ bCtrl → x.len ≠ 0) :
    ∃ unsent', SplitAt una nxt (total + len.toNat) (addSegment slist seq len bCtrl) sent
      unsent' := by
  rcases addSegment_eq slist seq len bCtrl with ⟨front, back, hlist, -, hxmit, hadd⟩ | ⟨hlast, hadd⟩
  · -- The last segment was not sent, so it is the last of the unsent ones.
    have hsplit : ∃ init, unsent = init ++ [back] ∧ front = sent ++ init := by
      have heq := h.slist.symm.trans hlist
      rcases List.eq_nil_or_concat unsent with rfl | ⟨init, last, rfl⟩
      · rw [List.append_nil] at heq
        exact absurd hxmit (h.sent_ok back (by rw [heq]; simp)).1
      · rw [List.concat_eq_append, ← List.append_assoc] at heq
        obtain ⟨hfront, hback⟩ := List.append_inj' heq rfl
        cases hback
        exact ⟨init, List.concat_eq_append, hfront.symm⟩
    obtain ⟨init, rfl, rfl⟩ := hsplit
    obtain ⟨m, hinit, hback, hend⟩ := tiles_append.mp h.tiles_unsent
    change m + back.len.toNat = total at hend
    have hsum : (back.len + len).toNat = back.len.toNat + len.toNat := toNat_add32 (by omega)
    refine ⟨init ++ [{ back with len := back.len + len }], ?_, h.tiles_sent, ?_, h.sent_ok, ?_, ?_⟩
    · rw [hadd, List.append_assoc]
    · refine tiles_append.mpr ⟨m, hinit, hback, ?_⟩
      change m + (back.len + len).toNat = total + len.toNat
      omega
    · intro x hx
      rcases List.mem_append.mp hx with hx | hx
      · exact h.unsent_ok x (List.mem_append_left _ hx)
      · obtain rfl := List.mem_singleton.mp hx
        exact hxmit
    · intro x hx
      rw [List.dropLast_concat] at hx
      exact h.nonempty x (by rwa [List.dropLast_concat])
  · refine ⟨unsent ++ [{ seq := seq, len := len, xmit := 0, bCtrl := bCtrl }], ?_, h.tiles_sent, ?_,
      h.sent_ok, ?_, ?_⟩
    · rw [hadd, h.slist, List.append_assoc]
    · exact tiles_append.mpr ⟨total, h.tiles_unsent, hseq, rfl⟩
    · intro x hx
      rcases List.mem_append.mp hx with hx | hx
      · exact h.unsent_ok x hx
      · obtain rfl := List.mem_singleton.mp hx
        rfl
    · intro x hx
      rw [List.dropLast_concat] at hx
      rcases List.eq_nil_or_concat unsent with rfl | ⟨init, last, rfl⟩
      · cases hx
      rw [List.concat_eq_append] at hx h
      rcases List.mem_append.mp hx with hx | hx
      · exact h.nonempty x (by rwa [List.dropLast_concat])
      · obtain rfl := List.mem_singleton.mp hx
        have hmem : x ∈ slist := by
          rw [h.slist]
          simp
        refine hnonempty x hmem ?_
        intro hsame
        refine hlast x ?_ ⟨hsame, h.unsent_ok x (by simp)⟩
        rw [h.slist, ← List.append_assoc, List.getLast?_concat]

theorem ctrl_addSegment {slist : List SSegment}
    (h : ∀ x ∈ slist, if x.bCtrl then x.seq = 0 ∧ x.len = 4 else 4 ≤ x.seq.toNat)
    (hnew : if bCtrl then seq = 0 ∧ len = 4 ∧ slist = [] else 4 ≤ seq.toNat) :
    ∀ x ∈ addSegment slist seq len bCtrl,
      if x.bCtrl then x.seq = 0 ∧ x.len = 4 else 4 ≤ x.seq.toNat := by
  intro x hx
  rcases addSegment_eq slist seq len bCtrl with ⟨front, back, hlist, hkind, -, hadd⟩ | ⟨-, hadd⟩
  · rw [hadd] at hx
    cases bCtrl with
    | true =>
        rw [if_pos rfl] at hnew
        rw [hnew.2.2] at hlist
        simp at hlist
    | false =>
        rcases List.mem_append.mp hx with hx | hx
        · exact h x (by rw [hlist]; exact List.mem_append_left _ hx)
        · obtain rfl := List.mem_singleton.mp hx
          have hback := h back (by rw [hlist]; simp)
          rw [hkind] at hback ⊢
          exact hback
  · rw [hadd] at hx
    rcases List.mem_append.mp hx with hx | hx
    · exact h x hx
    · obtain rfl := List.mem_singleton.mp hx
      cases bCtrl with
      | true =>
          rw [if_pos rfl] at hnew
          exact ⟨hnew.1, hnew.2.1⟩
      | false => exact hnew

theorem Ok.slist_nil (h : s.Ok v) (hqueued : s.queued = []) : s.slist = [] := by
  obtain ⟨sent, unsent, hsplit⟩ := h.split
  have htiles : Tiles SSegment.start SSegment.size s.una.toNat s.slist s.queued.length := by
    rw [hsplit.slist]
    exact tiles_append.mpr ⟨_, hsplit.tiles_sent, hsplit.tiles_unsent⟩
  rw [hqueued, List.length_nil] at htiles
  rw [List.eq_nil_iff_forall_not_mem]
  intro x hx
  obtain ⟨-, hend⟩ := htiles.start_le hx
  simp only [SSegment.start, SSegment.size] at hend
  have hkind := h.ctrl x hx
  by_cases hctrl : x.bCtrl
  · rw [if_pos hctrl] at hkind
    have hfour : x.len.toNat = 4 := by rw [hkind.2]; rfl
    omega
  · rw [if_neg hctrl] at hkind
    omega

theorem Ok.enqueued {data : Bytes} {sbuf : FifoBuffer} (bCtrl : Bool) (h : s.Ok v)
    (hseq : seq.toNat = s.queued.length) (hlen : len.toNat = data.length)
    (hlt : s.queued.length + data.length < 2 ^ 32)
    (hbuffered : BufferedAt sbuf (s.queued ++ data) s.una.toNat)
    (hkind : if bCtrl then s.queued = [] ∧ data.length = 4 else 4 ≤ s.queued.length)
    (hfirst : s.nxt = 0 → 4 ≤ s.wnd.toNat) :
    let s' : Sender := { s with
      slist := addSegment s.slist seq len bCtrl, sbuf := sbuf, queued := s.queued ++ data }
    s'.Ok v ∧ ∀ c, s.Cut c → s'.Cut c := by
  intro s'
  obtain ⟨sent, unsent, hsplit⟩ := h.split
  have hnonempty : ∀ x ∈ s.slist, x.bCtrl ≠ bCtrl → x.len ≠ 0 := by
    intro x hx hne
    have hx' := h.ctrl x hx
    cases bCtrl with
    | true =>
        rw [if_pos rfl] at hkind
        rw [h.slist_nil hkind.1] at hx
        cases hx
    | false =>
        have hctrl : x.bCtrl = true := by simpa using hne
        rw [if_pos hctrl] at hx'
        rw [hx'.2]
        decide
  obtain ⟨unsent', hsplit'⟩ := hsplit.add bCtrl hseq
    (show s.queued.length + len.toNat < 2 ^ 32 by omega) hnonempty
  rw [hlen, ← List.length_append] at hsplit'
  refine ⟨⟨hbuffered, ?_, ?_, ⟨sent, unsent', hsplit'⟩, ?_, h.una_le, h.nxt_le, h.wnd_le,
    fun hzero _ => hfirst hzero, h.scale⟩, ?_⟩
  · exact { h.congestion with }
  · change (s.queued ++ data).length < 2 ^ 32
    rw [List.length_append]
    omega
  · refine ctrl_addSegment h.ctrl ?_
    cases bCtrl with
    | true =>
        rw [if_pos rfl] at hkind ⊢
        refine ⟨?_, ?_, h.slist_nil hkind.1⟩
        · apply UInt32.toNat_inj.mp
          rw [hseq, hkind.1]
          rfl
        · apply UInt32.toNat_inj.mp
          rw [hlen, hkind.2]
          rfl
    | false =>
        change 4 ≤ seq.toNat
        rw [hseq]
        exact hkind
  · intro c hc
    rcases hc with hdone | ⟨hc, hboundary⟩
    · exact .inl hdone
    · rw [hsplit.slist] at hboundary
      obtain ⟨front, back, rfl, hfront, -⟩ := hboundary.split hsplit.tiles_sent hc
      refine .inr ⟨hc, front, back ++ unsent', ?_, hfront⟩
      change addSegment s.slist seq len bCtrl = _
      rw [hsplit'.slist, List.append_assoc]

end Sender

namespace Endpoint

variable {v : View} {n : Nat} {e e' : Endpoint} {host : Host} {data : Bytes} {bCtrl : Bool}

/-- As many bytes as there is room for go to the end of the buffer. -/
theorem queue_eq (data : Bytes) (bCtrl : Bool) (h : e.sender.Ok v) (hlen : data.length < 2 ^ 32)
    (hctrl : bCtrl = true → data.length ≤ e.sbuf.tape.ahead.length) :
    ∃ sbuf len, len.toNat = min data.length e.sbuf.tape.ahead.length ∧
      e.queue data bCtrl = .ok ({ e with
        slist := addSegment e.slist (e.sndUna + e.sndBuffered) len bCtrl
        sbuf := sbuf
        queued := e.queued ++ data.take len.toNat }, len) ∧
      Sender.BufferedAt sbuf (e.queued ++ data.take len.toNat) e.sndUna.toNat := by
  have hvalid : e.sbuf.Valid := h.buffered.valid
  have hopen : e.sbuf.tape.closed = false := h.buffered.opened
  have hcapacity : e.sbuf.bufferLength < 2 ^ 32 := h.buffered.capacity_lt
  have hroom : e.sbuf.tape.ahead.length < 2 ^ 32 := by
    rw [hvalid.length_ahead]
    omega
  have havailable : e.sndAvailable.toNat = e.sbuf.tape.ahead.length := by
    rw [sndAvailable, hvalid.getWriteRemaining_eq, toNat_ofNat32 hroom]
  have hwanted : (UInt32.ofNat data.length).toNat = data.length := toNat_ofNat32 hlen
  generalize hk : (if e.sndAvailable < UInt32.ofNat data.length then e.sndAvailable
    else UInt32.ofNat data.length) = len
  have hmin : len.toNat = min data.length e.sbuf.tape.ahead.length := by
    rw [← hk]
    split
    · rename_i hlt
      rw [UInt32.lt_iff_toNat_lt] at hlt
      omega
    · rename_i hnot
      rw [UInt32.lt_iff_toNat_lt] at hnot
      omega
  have hlength : (data.take len.toNat).length = len.toNat := by
    rw [List.length_take]
    omega
  have hfitting : e.sbuf.tape.fitting 0 (data.take len.toNat) = data.take len.toNat := by
    rw [FifoBuffer.Tape.fitting, List.take_of_length_le (by omega)]
  obtain ⟨sbuf, hwrite, hvalid', hcapacity', htape⟩ := hvalid.write_eq (data.take len.toNat)
  rw [FifoBuffer.Tape.written, hopen, hfitting, hlength] at hwrite
  rw [hopen, hfitting, FifoBuffer.Tape.advance_store] at htape
  simp only [Bool.false_eq_true, if_false] at hwrite htape
  refine ⟨sbuf, len, hmin, ?_, ?_⟩
  · have hassert : e.sndAvailable < UInt32.ofNat data.length → bCtrl = false := by
      intro hlt
      rw [UInt32.lt_iff_toNat_lt] at hlt
      rw [Bool.eq_false_iff]
      intro htrue
      have hle := hctrl htrue
      omega
    rw [queue, checked_assertThat hassert, ok_bind]
    simp only [hk, hwrite, checked_ok, ok_bind, pure_eq_ok, UInt32.ofNat_toNat, List.take_take,
      Nat.min_self]
  · refine ⟨hvalid', ?_, ?_, ?_, ?_⟩
    · rw [htape, hopen]
    · rw [hcapacity']
      exact h.buffered.capacity
    · rw [hcapacity']
      exact hcapacity
    · have hle : e.sndUna.toNat ≤ e.queued.length := h.una_le_nxt.trans h.nxt_le_queued
      rw [htape, List.drop_append_of_le_length hle]
      exact congrArg (· ++ data.take len.toNat) h.buffered.readable

theorem sndUna_add_sndBuffered (h : e.sender.Ok v) :
    (e.sndUna + e.sndBuffered).toNat = e.queued.length := by
  have hbuffered := sndBuffered_toNat h
  have hle : e.sndUna.toNat ≤ e.queued.length := h.una_le_nxt.trans h.nxt_le_queued
  have hbounded : e.queued.length < 2 ^ 32 := h.bounded
  rw [toNat_add32 (by omega), hbuffered]
  omega

theorem Inv.send (h : e.Inv v (n + data.length)) :
    Ends (e.send host data) (fun r => r.1.Inv v n ∧ e.view.Grows r.1.view) := by
  have hspent : e.Inv v n := h.spend (Nat.le_add_right _ _)
  unfold Endpoint.send
  by_cases hstate : e.state ≠ .established
  · rw [if_pos hstate]
    exact .ok ⟨hspent.of_core rfl rfl, .refl _⟩
  rw [if_neg hstate]
  by_cases hroom : e.sbuf.getWriteRemaining = 0
  · rw [if_pos hroom]
    exact .ok ⟨hspent.of_core rfl rfl, .refl _⟩
  rw [if_neg hroom]
  rw [not_not] at hstate
  have hqueued : e.queued ≠ [] := h.core.active (.inr (.inr hstate))
  have hbudget : max 4 e.queued.length + (n + data.length) < 2 ^ 32 := h.core.room
  have hstream : e.queued = openingMessage e.rwndScale ++ e.accepted :=
    h.core.stream.resolve_left fun hnil => hqueued hnil.1
  have hfour := h.four_le_queued hqueued
  obtain ⟨sbuf, len, hlen, hqueue, hbuffered⟩ := queue_eq data false
    h.core.sender (by omega) Bool.noConfusion
  have hlength : (data.take len.toNat).length = len.toNat := by
    rw [List.length_take]
    omega
  obtain ⟨hsender, hcut⟩ := h.core.sender.enqueued false
    (sndUna_add_sndBuffered h.core.sender) hlength.symm
    (by change e.queued.length + _ < _; omega) hbuffered hfour
    (fun hzero => h.core.sender.first hzero hqueued)
  rw [hqueue, ok_bind]
  simp only
  generalize he₁ : ({ e with
    slist := addSegment e.slist (e.sndUna + e.sndBuffered) len false
    sbuf := sbuf
    queued := e.queued ++ data.take len.toNat
    accepted := e.accepted ++ data.take len.toNat } : Endpoint) = e₁
  have hgrows : e.view.Grows e₁.view := by
    subst he₁
    exact ⟨List.prefix_append _ _, hcut, le_rfl, le_rfl, rfl⟩
  have hinv : e₁.Inv v n := by
    refine ⟨?_, h.packets_grow hgrows (by rw [← he₁])⟩
    subst he₁
    refine ⟨hsender, h.core.receiver, ?_, .inr ?_, ?_, ?_, h.core.support, h.core.mtu_ge,
      h.core.mtu_le⟩
    · change max 4 (e.queued ++ data.take len.toNat).length + n < 2 ^ 32
      rw [List.length_append]
      omega
    · change e.queued ++ data.take len.toNat =
        openingMessage e.rwndScale ++ (e.accepted ++ data.take len.toNat)
      rw [← List.append_assoc, ← hstream]
    · intro hlisten
      exact absurd (hstate.symm.trans hlisten) (by decide)
    · intro _ hnil
      exact hqueued (List.append_eq_nil_iff.mp hnil).1
  refine (hinv.attemptSend .none).bind ?_
  rintro e₂ ⟨hinv₂, htransmits⟩
  exact .ok ⟨hinv₂, hgrows.trans htransmits.grows⟩

theorem connectMessage_eq (h : e.supportWndScale = true) :
    e.connectMessage = openingMessage e.rwndScale := by
  rw [connectMessage, if_pos h]
  rfl

/-- The opening message is queued once, before anything else. -/
theorem Inv.queueConnectMessage (h : e.Inv v n) (hidle : e.state = .listen) {state : TcpState}
    (hstate : state = .synSent ∨ state = .synReceived) :
    Ends (Endpoint.queueConnectMessage { e with state := state })
      (fun e' => e'.Inv v n ∧ e.view.Grows e'.view) := by
  have hqueued : e.queued = [] := h.core.idle hidle
  have haccepted : e.accepted = [] := by
    rcases h.core.stream with ⟨-, hnil⟩ | hopening
    · exact hnil
    · have hnone : [] = openingMessage e.rwndScale ++ e.accepted := hqueued.symm.trans hopening
      cases hnone
  have hnxt : e.sndNxt.toNat = 0 := by
    have hle : e.sndNxt.toNat ≤ e.queued.length := h.core.sender.nxt_le_queued
    rw [hqueued, List.length_nil] at hle
    omega
  have huna : e.sndUna.toNat = 0 := by
    have hle : e.sndUna.toNat ≤ e.sndNxt.toNat := h.core.sender.una_le_nxt
    omega
  have hsupport : e.supportWndScale = true := h.core.support
  have hbudget : max 4 e.queued.length + n < 2 ^ 32 := h.core.room
  rw [Endpoint.queueConnectMessage]
  simp only [connectMessage_eq (e := { e with state := state }) hsupport]
  generalize he₀ : ({ e with
    state := state
    sndWnd := UInt32.ofNat (openingMessage e.rwndScale).length } : Endpoint) = e₀
  have hok : e₀.sender.Ok v := by
    subst he₀
    have hs := h.core.sender
    refine { hs with congestion := { hs.congestion with }, wnd_le := ?_, first := ?_ }
    · change e.sndUna.toNat + 4 ≤ max 4 v.edge
      omega
    · intro _ _
      exact le_rfl
  have hreadable : e₀.sbuf.tape.readable = [] := by
    rw [← he₀]
    change e.sbuf.tape.readable = []
    rw [show e.sbuf.tape.readable = e.queued.drop e.sndUna.toNat from
      h.core.sender.buffered.readable, hqueued, List.drop_nil]
  have hroom : 4 ≤ e₀.sbuf.tape.ahead.length := by
    have hvalid : e₀.sbuf.Valid := hok.buffered.valid
    have hcapacity : 4 ≤ e₀.sbuf.bufferLength := hok.buffered.capacity
    have hlength := hvalid.length_readable
    rw [hreadable, List.length_nil] at hlength
    rw [hvalid.length_ahead]
    omega
  obtain ⟨sbuf, len, hlen, hqueue, hbuffered⟩ := queue_eq
    (openingMessage e.rwndScale) true hok (by change 4 < _; decide) (fun _ => hroom)
  have hfour : len.toNat = 4 := by
    rw [hlen]
    exact Nat.min_eq_left hroom
  have htake : (openingMessage e.rwndScale).take len.toNat = openingMessage e.rwndScale := by
    rw [hfour]
    rfl
  have hsame : e₀.queued = [] := by
    rw [← he₀]
    exact hqueued
  rw [htake] at hqueue hbuffered
  obtain ⟨hsender, hcut⟩ := hok.enqueued true
    (sndUna_add_sndBuffered hok) (show len.toNat = (openingMessage e.rwndScale).length from hfour)
    (by change e₀.queued.length + 4 < _; rw [hsame]; decide) hbuffered ⟨hsame, rfl⟩
    (fun _ => by rw [← he₀]; exact le_rfl)
  rw [hqueue, ok_bind]
  refine .ok ?_
  simp only
  generalize he₁ : ({ e₀ with
    slist := addSegment e₀.slist (e₀.sndUna + e₀.sndBuffered) len true
    sbuf := sbuf
    queued := e₀.queued ++ openingMessage e.rwndScale } : Endpoint) = e₁
  have hgrows : e.view.Grows e₁.view := by
    subst he₁ he₀
    exact ⟨List.prefix_append _ _, hcut, le_rfl, le_rfl, rfl⟩
  refine ⟨⟨?_, h.packets_grow hgrows (by rw [← he₁, ← he₀])⟩, hgrows⟩
  subst he₁ he₀
  refine ⟨hsender, h.core.receiver, ?_, .inr ?_, ?_, ?_, h.core.support, h.core.mtu_ge,
    h.core.mtu_le⟩
  · change max 4 (e.queued ++ openingMessage e.rwndScale).length + n < 2 ^ 32
    rw [hqueued] at hbudget ⊢
    exact hbudget
  · change e.queued ++ openingMessage e.rwndScale = openingMessage e.rwndScale ++ e.accepted
    rw [hqueued, haccepted, List.nil_append, List.append_nil]
  · intro hlisten
    change state = .listen at hlisten
    rw [hlisten] at hstate
    rcases hstate with hne | hne <;> cases hne
  · intro _ hnil
    cases (List.append_eq_nil_iff.mp hnil).2

theorem Inv.connect (h : e.Inv v n) :
    Ends (e.connect host) (fun r => r.1.Inv v n ∧ e.view.Grows r.1.view) := by
  unfold Endpoint.connect
  by_cases hstate : e.state ≠ .listen
  · rw [if_pos hstate]
    exact .ok ⟨h.of_core rfl rfl, .refl _⟩
  rw [if_neg hstate]
  rw [not_not] at hstate
  refine (h.queueConnectMessage hstate (.inl rfl)).bind ?_
  rintro e₁ ⟨hinv₁, hgrows₁⟩
  refine (hinv₁.attemptSend .none).bind ?_
  rintro e₂ ⟨hinv₂, htransmits⟩
  exact .ok ⟨hinv₂, hgrows₁.trans htransmits.grows⟩

end Endpoint

end LibMsf
