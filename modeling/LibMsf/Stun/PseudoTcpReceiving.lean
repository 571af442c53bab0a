import LibMsf.Stun.PseudoTcpQueue

/-!
The receive buffer under the segments of the peer.

Data that comes in order is appended to what can be read; data that comes out of order is
written ahead, where it lies until the gap before it is closed. Either way what can be read
stays a first part of the peer's stream, and the far end of the window does not move back.
-/

namespace LibMsf

open Cxx Tiling

theorem drop_take_add {q : Bytes} {a b : Nat} (hfour : 4 ≤ a) (hle : a ≤ q.length) :
    (q.take (a + b)).drop 4 = (q.take a).drop 4 ++ (q.drop a).take b := by
  rw [List.take_add, List.drop_append_of_le_length]
  rw [List.length_take]
  omega

namespace Receiver

variable {v : View} {r : Receiver} {k : UInt32} {rbuf : FifoBuffer}

theorem Ok.nxt_add (hsound : v.Sound) (hcut : v.cut (r.nxt.toNat + k.toNat)) :
    (r.nxt + k).toNat = r.nxt.toNat + k.toNat := by
  have hle := hsound.cut_le _ hcut
  have hlt := hsound.bounded
  exact toNat_add32 (by omega)

/-- The next bytes become readable; they are in their cells already. -/
theorem Ok.advance (h : r.Ok v) (hsound : v.Sound) (hk : k.toNat ≤ r.wnd.toNat)
    (hcut : v.cut (r.nxt.toNat + k.toNat)) (hfour : 4 ≤ r.nxt.toNat)
    (hcells : r.shutdown = .none →
      r.rbuf.tape.ahead.take k.toNat = (v.queued.drop r.nxt.toNat).take k.toNat)
    (hvalid : rbuf.Valid) (hcapacity : rbuf.bufferLength = r.rbuf.bufferLength)
    (htape : rbuf.tape = r.rbuf.tape.advance k.toNat) :
    let r' : Receiver := { r with rbuf := rbuf, nxt := r.nxt + k, wnd := r.wnd - k }
    r'.Ok v ∧ r'.edge = r.edge := by
  intro r'
  have hnxt : r'.nxt.toNat = r.nxt.toNat + k.toNat := Ok.nxt_add hsound hcut
  have hwnd : r'.wnd.toNat = r.wnd.toNat - k.toNat := toNat_sub32 hk
  have hedge : r'.edge = r.edge := by
    rw [edge, edge, hnxt, hwnd]
    omega
  have hzero : r'.nxt ≠ 0 := by
    intro hzero
    have hzero' : r'.nxt.toNat = 0 := congrArg UInt32.toNat hzero
    omega
  refine ⟨⟨hvalid, ?_, ?_, h.scale_le, ?_, ?_, fun hz => absurd hz hzero, ?_,
    fun hz => absurd hz hzero, ?_, ?_⟩, hedge⟩
  · rw [show r'.rbuf.tape = _ from htape]
    exact h.opened
  · rw [show r'.rbuf.bufferLength = _ from hcapacity]
    exact h.capacity_lt
  · rw [hnxt]
    exact hcut
  · right
    omega
  · have hle := h.wnd_le
    rw [hwnd, show r'.rbuf.tape = _ from htape, FifoBuffer.Tape.advance, List.length_drop]
    omega
  · intro x hx
    rw [hedge]
    exact h.pending x hx
  · intro hopen
    have hcontent := h.content hopen
    have hle := hsound.cut_le _ h.cut
    refine ⟨?_, ?_⟩
    · rw [show r'.rbuf.tape = _ from htape, hnxt, drop_take_add hfour hle, ← hcells hopen,
        ← hcontent.readable, FifoBuffer.Tape.advance, List.append_assoc]
    · intro x hx j hj hlow hhigh
      rw [hnxt] at hj
      rw [show r'.rbuf.tape = _ from htape, FifoBuffer.Tape.advance, List.getElem?_drop, hnxt]
      have heq : k.toNat + (j - (r.nxt.toNat + k.toNat)) = j - r.nxt.toNat := by omega
      rw [heq]
      exact hcontent.pending x hx j (by omega) hlow hhigh

/-- A piece of the stream is written into its cells. -/
theorem Ok.store {data : Bytes} {offset : Nat} (h : r.Ok v)
    (hslice : data <+: v.queued.drop (r.nxt.toNat + offset))
    (hfits : offset + data.length ≤ r.rbuf.tape.ahead.length)
    (hvalid : rbuf.Valid) (hcapacity : rbuf.bufferLength = r.rbuf.bufferLength)
    (htape : rbuf.tape = r.rbuf.tape.store offset data) :
    ({ r with rbuf := rbuf } : Receiver).Ok v ∧
      ∀ j, r.nxt.toNat + offset ≤ j → j < r.nxt.toNat + offset + data.length →
        rbuf.tape.ahead[j - r.nxt.toNat]? = v.queued[j]? := by
  have hahead : rbuf.tape.ahead = overwrite r.rbuf.tape.ahead offset data := by
    rw [htape]
    rfl
  have hinside : ∀ j, r.nxt.toNat + offset ≤ j → j < r.nxt.toNat + offset + data.length →
      rbuf.tape.ahead[j - r.nxt.toNat]? = v.queued[j]? := by
    intro j hlow hhigh
    obtain ⟨rest, hrest⟩ := hslice
    have hcell : (v.queued.drop (r.nxt.toNat + offset))[j - (r.nxt.toNat + offset)]? =
        data[j - (r.nxt.toNat + offset)]? := by
      rw [← hrest, List.getElem?_append_left (by omega)]
    rw [List.getElem?_drop, Nat.add_sub_cancel' hlow] at hcell
    rw [hahead, getElem?_overwrite hfits, if_pos (by omega), hcell]
    congr 1
    omega
  refine ⟨⟨hvalid, ?_, ?_, h.scale_le, h.cut, h.started, ?_, ?_, h.first, h.pending, ?_⟩, hinside⟩
  · rw [htape]
    exact h.opened
  · rw [hcapacity]
    exact h.capacity_lt
  · rw [htape]
    exact h.unread
  · rw [hahead, length_overwrite hfits]
    exact h.wnd_le
  · intro hopen
    have hcontent := h.content hopen
    refine ⟨?_, ?_⟩
    · rw [htape]
      exact hcontent.readable
    · intro x hx j hj hlow hhigh
      by_cases hin : r.nxt.toNat + offset ≤ j ∧ j < r.nxt.toNat + offset + data.length
      · exact hinside j hin.1 hin.2
      · change rbuf.tape.ahead[j - r.nxt.toNat]? = _
        change r.nxt.toNat ≤ j at hj
        rw [hahead, getElem?_overwrite hfits, if_neg (by omega)]
        exact hcontent.pending x hx j hj hlow hhigh

/-- The cells of the next bytes are passed over. -/
theorem Ok.skip (h : r.Ok v) (hsound : v.Sound) (hk : k.toNat ≤ r.wnd.toNat)
    (hcut : v.cut (r.nxt.toNat + k.toNat)) (hfour : 4 ≤ r.nxt.toNat + k.toNat)
    (hopening : r.shutdown = .none → r.nxt = 0 ∧ k.toNat = 4)
    (hvalid : rbuf.Valid) (hcapacity : rbuf.bufferLength = r.rbuf.bufferLength)
    (htape : r.rbuf.tape.readable = [] ∧
        rbuf.tape = (r.rbuf.tape.advance k.toNat).drop k.toNat ∨
      r.shutdown ≠ .none ∧ rbuf = r.rbuf) :
    let r' : Receiver := { r with rbuf := rbuf, nxt := r.nxt + k }
    r'.Ok v ∧ r.edge ≤ r'.edge := by
  intro r'
  have hnxt : r'.nxt.toNat = r.nxt.toNat + k.toNat := Ok.nxt_add hsound hcut
  have hedge : r.edge ≤ r'.edge := by
    change r.nxt.toNat + r.wnd.toNat ≤ r'.nxt.toNat + r.wnd.toNat
    omega
  have hzero : r'.nxt ≠ 0 := by
    intro hzero
    have hzero' : r'.nxt.toNat = 0 := congrArg UInt32.toNat hzero
    omega
  have hwnd := h.wnd_le
  have hshape : rbuf.tape.closed = r.rbuf.tape.closed ∧
      rbuf.tape.ahead.length = r.rbuf.tape.ahead.length := by
    rcases htape with ⟨hnil, htape⟩ | ⟨-, rfl⟩
    · rw [htape]
      refine ⟨rfl, ?_⟩
      simp only [FifoBuffer.Tape.advance, FifoBuffer.Tape.drop, hnil, List.nil_append,
        List.length_append, List.length_drop, List.length_take]
      omega
    · exact ⟨rfl, rfl⟩
  refine ⟨⟨hvalid, ?_, ?_, h.scale_le, ?_, ?_, fun hz => absurd hz hzero, ?_,
    fun hz => absurd hz hzero, ?_, ?_⟩, hedge⟩
  · exact hshape.1.trans h.opened
  · rw [show r'.rbuf.bufferLength = _ from hcapacity]
    exact h.capacity_lt
  · rw [hnxt]
    exact hcut
  · right
    omega
  · change r.wnd.toNat ≤ rbuf.tape.ahead.length
    omega
  · intro x hx
    obtain ⟨hx, hseq, hle⟩ := h.pending x hx
    exact ⟨hx, hseq, hle.trans hedge⟩
  · intro hopen
    obtain ⟨hstart, hlen⟩ := hopening hopen
    have hstart' : r.nxt.toNat = 0 := congrArg UInt32.toNat hstart
    obtain ⟨hnil, htape⟩ := htape.resolve_right fun hclosed => hclosed.1 hopen
    have hcontent := h.content hopen
    have hdelivered : r.delivered = [] := by
      have hreadable := hcontent.readable
      rw [hstart', List.take_zero, List.drop_nil] at hreadable
      exact (List.append_eq_nil_iff.mp hreadable).1
    rw [hlen] at htape
    refine ⟨?_, ?_⟩
    · change r.delivered ++ rbuf.tape.readable = _
      rw [hnxt, hlen, hstart', hdelivered, htape]
      simp only [FifoBuffer.Tape.advance, FifoBuffer.Tape.drop, hnil, List.nil_append]
      rw [List.drop_eq_nil_of_le (List.length_take_le 4 _)]
      exact (List.drop_eq_nil_of_le (List.length_take_le 4 _)).symm
    · intro x hx j hj hlow hhigh
      have hcell := hcontent.pending x hx j (by omega) hlow hhigh
      obtain ⟨-, hseq, hle⟩ := h.pending x hx
      change x.seq.toNat + x.len.toNat ≤ r.nxt.toNat + r.wnd.toNat at hle
      change rbuf.tape.ahead[j - r'.nxt.toNat]? = _
      rw [← hcell, htape, hnxt, hlen, hstart']
      simp only [FifoBuffer.Tape.advance, FifoBuffer.Tape.drop, hnil, List.nil_append]
      rw [List.getElem?_append_left (by rw [List.length_drop]; omega), List.getElem?_drop]
      congr 1
      omega

theorem Ok.read (h : r.Ok v) (len : Nat) (hvalid : rbuf.Valid)
    (hcapacity : rbuf.bufferLength = r.rbuf.bufferLength)
    (htape : rbuf.tape = r.rbuf.tape.drop len) :
    ({ r with rbuf := rbuf, delivered := r.delivered ++ r.rbuf.tape.readable.take len } :
      Receiver).Ok v := by
  refine ⟨hvalid, ?_, ?_, h.scale_le, h.cut, h.started, ?_, ?_, h.first, h.pending, ?_⟩
  · rw [htape]
    exact h.opened
  · rw [hcapacity]
    exact h.capacity_lt
  · intro hzero
    rw [htape, FifoBuffer.Tape.drop, h.unread hzero, List.drop_nil]
  · have hle := h.wnd_le
    rw [htape, FifoBuffer.Tape.drop, List.length_append]
    exact hle.trans (Nat.le_add_right _ _)
  · intro hopen
    have hcontent := h.content hopen
    refine ⟨?_, ?_⟩
    · rw [htape, FifoBuffer.Tape.drop, List.append_assoc, List.take_append_drop]
      exact hcontent.readable
    · intro x hx k hk hlow hhigh
      have hwnd := h.wnd_le
      have hedge : x.seq.toNat + x.len.toNat ≤ r.nxt.toNat + r.wnd.toNat := (h.pending x hx).2.2
      have hinside : k - r.nxt.toNat < r.rbuf.tape.ahead.length := by
        change r.nxt.toNat ≤ k at hk
        omega
      rw [htape, FifoBuffer.Tape.drop, List.getElem?_append_left hinside]
      exact hcontent.pending x hx k hk hlow hhigh

/-- The window gets wider; it is not the window that the first packet of the peer finds. -/
theorem Ok.widen (h : r.Ok v) {wnd : UInt32} (hstart : r.nxt ≠ 0) (hle : r.wnd.toNat ≤ wnd.toNat)
    (hroom : wnd.toNat ≤ r.rbuf.tape.ahead.length) :
    ({ r with wnd := wnd } : Receiver).Ok v := by
  refine { h with
    wnd_le := hroom, first := fun hzero => absurd hzero hstart, pending := ?_, content := ?_ }
  · intro x hx
    obtain ⟨hcut, hseq, hedge⟩ := h.pending x hx
    exact ⟨hcut, hseq, hedge.trans (Nat.add_le_add_left hle _)⟩
  · intro hopen
    exact ⟨(h.content hopen).readable, (h.content hopen).pending⟩

theorem Ok.insert (h : r.Ok v) (rseg : RSegment)
    (hcut : v.cut (rseg.seq.toNat + rseg.len.toNat)) (hfour : 4 ≤ rseg.seq.toNat)
    (hedge : rseg.seq.toNat + rseg.len.toNat ≤ r.edge)
    (hcells : ∀ j, rseg.seq.toNat ≤ j → j < rseg.seq.toNat + rseg.len.toNat →
      r.rbuf.tape.ahead[j - r.nxt.toNat]? = v.queued[j]?) :
    ({ r with rlist := Endpoint.insertSegment rseg r.rlist } : Receiver).Ok v := by
  have hmem : ∀ x ∈ Endpoint.insertSegment rseg r.rlist, x = rseg ∨ x ∈ r.rlist := by
    intro x hx
    generalize r.rlist = rlist at hx
    induction rlist with
    | nil => exact .inl (List.mem_singleton.mp hx)
    | cons y ys ih =>
        rw [Endpoint.insertSegment] at hx
        split at hx
        · rcases List.mem_cons.mp hx with rfl | hx
          · exact .inr List.mem_cons_self
          · rcases ih hx with heq | hys
            · exact .inl heq
            · exact .inr (List.mem_cons_of_mem y hys)
        · exact List.mem_cons.mp hx
  refine { h with pending := ?_, content := ?_ }
  · intro x hx
    rcases hmem x hx with rfl | hx
    · exact ⟨hcut, hfour, hedge⟩
    · exact h.pending x hx
  · intro hopen
    have hcontent := h.content hopen
    refine ⟨hcontent.readable, ?_⟩
    intro x hx j hj hlow hhigh
    rcases hmem x hx with rfl | hx
    · exact hcells j hlow hhigh
    · exact hcontent.pending x hx j hj hlow hhigh

end Receiver

end LibMsf
