import LibMsf.Stun.PseudoTcpAcks

/-!
The data of a segment.

After its front is cut off a segment begins where something is missing; its end is never cut,
since it is within the window. So it goes into the cells that are its own.
-/

namespace LibMsf

open Cxx

/-- What is left of a segment of the peer when it was adjusted to the receive buffer. -/
structure Fits (v : View) (r : Receiver) (seg : Segment) : Prop where
  nonempty : seg.data ≠ []
  len : seg.len.toNat = seg.data.length
  new : r.nxt.toNat ≤ seg.seq.toNat
  slice : seg.data <+: v.queued.drop seg.seq.toNat
  cut : v.cut (seg.seq.toNat + seg.data.length)
  fits : seg.seq.toNat + seg.data.length ≤ r.edge
  kind : seg.flags = flagCtl ∧ r.nxt = 0 ∧ seg.seq = 0 ∧ seg.data.length = 4 ∨
    seg.flags = 0 ∧ 4 ≤ seg.seq.toNat

namespace Receiver

variable {v : View} {r : Receiver}

/-- The receiver with another list of segments that came out of order. -/
def listing (r : Receiver) (rlist : List RSegment) : Receiver := { r with rlist := rlist }

theorem Ok.listing {rs rs' : List RSegment} (h : (r.listing rs).Ok v) (hsub : ∀ x ∈ rs', x ∈ rs) :
    (r.listing rs').Ok v := by
  refine { h with pending := fun x hx => h.pending x (hsub x hx), content := ?_ }
  intro hopen
  exact ⟨(h.content hopen).readable, fun x hx => (h.content hopen).pending x (hsub x hx)⟩

/-- Cells that hold the stream, taken together. -/
theorem take_ahead {k : Nat}
    (hcells : ∀ j, r.nxt.toNat ≤ j → j < r.nxt.toNat + k →
      r.rbuf.tape.ahead[j - r.nxt.toNat]? = v.queued[j]?) :
    r.rbuf.tape.ahead.take k = (v.queued.drop r.nxt.toNat).take k := by
  apply List.ext_getElem?
  intro i
  by_cases hi : i < k
  · have hcell := hcells (r.nxt.toNat + i) (Nat.le_add_right _ _) (by omega)
    rw [Nat.add_sub_cancel_left] at hcell
    rw [List.getElem?_take_of_lt hi, List.getElem?_take_of_lt hi, List.getElem?_drop, hcell]
  · rw [List.getElem?_take_eq_none (by omega), List.getElem?_take_eq_none (by omega)]

end Receiver

namespace Endpoint

variable {v : View} {n : Nat} {e e' e'' : Endpoint} {host : Host} {notify : Notify}
  {seg : Segment}

theorem Receives.refl (e : Endpoint) : e.Receives e := ⟨rfl, rfl, rfl, rfl, le_rfl, le_rfl⟩

theorem Receives.trans (h : e.Receives e') (h' : e'.Receives e'') : e.Receives e'' :=
  ⟨h'.sender.trans h.sender, h'.common.trans h.common, h'.packets.trans h.packets,
    h'.scale.trans h.scale, h.nxt.trans h'.nxt, h.edge.trans h'.edge⟩

/-- Bytes that are in their cells become readable. -/
theorem makeReadable_ends {k : UInt32} {rs : List RSegment} (hok : (e.receiver.listing rs).Ok v)
    (hsound : v.Sound) (hk : k.toNat ≤ e.rcvWnd.toNat)
    (hcut : v.cut (e.rcvNxt.toNat + k.toNat)) (hfour : 4 ≤ e.rcvNxt.toNat)
    (hcells : e.shutdown = .none → ∀ j, e.rcvNxt.toNat ≤ j → j < e.rcvNxt.toNat + k.toNat →
      e.rbuf.tape.ahead[j - e.rcvNxt.toNat]? = v.queued[j]?) :
    Ends (e.makeReadable k) (fun e' => (e'.receiver.listing rs).Ok v ∧ e.Receives e' ∧
      e'.rlist = e.rlist) := by
  have hvalid : e.rbuf.Valid := hok.valid
  obtain ⟨rbuf, hconsume, hvalid', hcapacity, htape⟩ :=
    hvalid.consumeWriteBuffer_eq (hk.trans hok.wnd_le)
  obtain ⟨hok', hedge⟩ := hok.advance hsound hk hcut hfour
    (fun hopen => Receiver.take_ahead (hcells hopen)) hvalid' hcapacity htape
  rw [makeReadable, hconsume, checked_ok, ok_bind]
  refine .ok ⟨hok', ⟨rfl, rfl, rfl, rfl, ?_, hedge.ge⟩, rfl⟩
  have hnxt : (e.rcvNxt + k).toNat = e.rcvNxt.toNat + k.toNat :=
    Receiver.Ok.nxt_add (r := e.receiver) hsound hcut
  change e.rcvNxt.toNat ≤ (e.rcvNxt + k).toNat
  omega

theorem recoverLoop_ends (rs : List RSegment) (found : Bool) (hsound : v.Sound)
    (hok : (e.receiver.listing rs).Ok v) :
    Ends (recoverLoop e rs found) (fun r => r.1.receiver.Ok v ∧ e.Receives r.1) := by
  induction rs generalizing e found with
  | nil => exact .ok ⟨hok, ⟨rfl, rfl, rfl, rfl, le_rfl, le_rfl⟩⟩
  | cons x rs ih =>
      have hrest : (e.receiver.listing rs).Ok v :=
        hok.listing fun y hy => List.mem_cons_of_mem x hy
      obtain ⟨hcut, hfour, hedge⟩ := hok.pending x List.mem_cons_self
      change x.seq.toNat + x.len.toNat ≤ e.rcvNxt.toNat + e.rcvWnd.toNat at hedge
      have hend : (x.seq + x.len).toNat = x.seq.toNat + x.len.toNat := by
        have hle := hsound.cut_le _ hcut
        have hlt := hsound.bounded
        exact toNat_add32 (by omega)
      unfold recoverLoop
      by_cases hreached : x.seq ≤ e.rcvNxt
      · rw [if_pos hreached]
        by_cases hnew : e.rcvNxt < x.seq + x.len
        · rw [if_pos hnew]
          rw [UInt32.le_iff_toNat_le] at hreached
          rw [UInt32.lt_iff_toNat_lt, hend] at hnew
          have hsum : e.rcvNxt.toNat + (x.seq + x.len - e.rcvNxt).toNat =
              x.seq.toNat + x.len.toNat := by
            rw [toNat_sub32 (by omega), hend]
            omega
          refine (makeReadable_ends hok hsound (by omega) (by rw [hsum]; exact hcut)
            (hfour.trans hreached) ?_).bind ?_
          · intro hopen j hlow hhigh
            rw [hsum] at hhigh
            exact (hok.content hopen).pending x List.mem_cons_self j hlow (hreached.trans hlow)
              hhigh
          · rintro e₁ ⟨hok₁, hreceives, -⟩
            refine (ih true (hok₁.listing fun y hy => List.mem_cons_of_mem x hy)).mono ?_
            rintro r ⟨hdone, hreceives₂⟩
            exact ⟨hdone, hreceives.trans hreceives₂⟩
        · rw [if_neg hnew]
          exact ih found hrest
      · rw [if_neg hreached]
        exact .ok ⟨hok, ⟨rfl, rfl, rfl, rfl, le_rfl, le_rfl⟩⟩

theorem ignoreData_ends (hok : e.receiver.Ok v) (hsound : v.Sound)
    (hfits : Fits v e.receiver seg) (hignore : seg.flags &&& flagCtl ≠ 0 ∨ e.shutdown ≠ .none) :
    Ends (e.ignoreData seg) (fun r => r.1.receiver.Ok v ∧ e.Receives r.1) := by
  unfold ignoreData
  by_cases hseq : seg.seq = e.rcvNxt
  · have hlen := hfits.len
    have hin : seg.len.toNat ≤ e.rcvWnd.toNat := by
      have hle : seg.seq.toNat + seg.data.length ≤ e.rcvNxt.toNat + e.rcvWnd.toNat := hfits.fits
      rw [hseq] at hle
      omega
    have hcut : v.cut (e.rcvNxt.toNat + seg.len.toNat) := by
      have hcut := hfits.cut
      rwa [hseq, ← hlen] at hcut
    have hnxt : (e.rcvNxt + seg.len).toNat = e.rcvNxt.toNat + seg.len.toNat :=
      Receiver.Ok.nxt_add (r := e.receiver) hsound hcut
    have hfour : 4 ≤ e.rcvNxt.toNat + seg.len.toNat := by
      rcases hfits.kind with ⟨-, -, -, hfour⟩ | ⟨-, hfour⟩
      · omega
      · rw [hseq] at hfour
        omega
    have hopening : e.shutdown = .none → e.rcvNxt = 0 ∧ seg.len.toNat = 4 := by
      intro hopen
      rcases hfits.kind with ⟨-, hzero, -, hfour⟩ | ⟨hflags, -⟩
      · exact ⟨hzero, hlen.trans hfour⟩
      · rw [hflags] at hignore
        exact absurd rfl (hignore.resolve_right (not_not.mpr hopen))
    have hvalid : e.rbuf.Valid := hok.valid
    rw [if_pos hseq]
    by_cases hempty : e.rbuf.getBuffered = 0
    · have hnil : e.rbuf.tape.readable = [] := by
        rw [hvalid.getBuffered_eq] at hempty
        exact List.eq_nil_of_length_eq_zero hempty
      obtain ⟨rbuf₁, hadvance, hvalid₁, hcapacity₁, htape₁⟩ :=
        hvalid.consumeWriteBuffer_eq (hin.trans hok.wnd_le)
      have hready : seg.len.toNat ≤ rbuf₁.tape.readable.length := by
        have hroom := hin.trans hok.wnd_le
        rw [htape₁, FifoBuffer.Tape.advance, hnil, List.nil_append, List.length_take]
        exact le_min le_rfl hroom
      obtain ⟨rbuf₂, hdrop, hvalid₂, hcapacity₂, htape₂⟩ := hvalid₁.consumeReadData_eq hready
      rw [htape₁] at htape₂
      obtain ⟨hok', hedge⟩ := hok.skip hsound hin hcut hfour hopening hvalid₂
        (hcapacity₂.trans hcapacity₁) (.inl ⟨hnil, htape₂⟩)
      simp only [if_pos hempty, hadvance, hdrop, checked_ok, ok_bind]
      have hmoved : e.Receives { e with rbuf := rbuf₂, rcvNxt := e.rcvNxt + seg.len } := by
        refine ⟨rfl, rfl, rfl, rfl, ?_, hedge⟩
        exact hnxt ▸ Nat.le_add_right _ _
      refine (recoverLoop_ends (e := { e with rbuf := rbuf₂, rcvNxt := e.rcvNxt + seg.len })
        e.rlist false hsound hok').mono ?_
      rintro r ⟨hdone, hreceives⟩
      exact ⟨hdone, hmoved.trans hreceives⟩
    · have hclosed : e.shutdown ≠ .none := by
        intro hopen
        have hnil : e.rbuf.tape.readable = [] := hok.unread (hopening hopen).1
        rw [hvalid.getBuffered_eq, hnil] at hempty
        exact hempty rfl
      obtain ⟨hok', hedge⟩ := hok.skip hsound hin hcut hfour hopening hvalid rfl
        (.inr ⟨hclosed, rfl⟩)
      simp only [if_neg hempty]
      refine .ok ⟨hok', ⟨rfl, rfl, rfl, rfl, ?_, hedge⟩⟩
      exact hnxt ▸ Nat.le_add_right _ _
  · rw [if_neg hseq]
    exact .ok ⟨hok, .refl e⟩

theorem storeData_ends (hok : e.receiver.Ok v) (hsound : v.Sound)
    (hfits : Fits v e.receiver seg) (hflags : seg.flags = 0) :
    Ends (e.storeData seg)
      (fun r => ∃ e' b b', r = some (e', b, b') ∧ e'.receiver.Ok v ∧ e.Receives e') := by
  have hlen := hfits.len
  have hnew : e.rcvNxt.toNat ≤ seg.seq.toNat := hfits.new
  have hoffset : (seg.seq - e.rcvNxt).toNat = seg.seq.toNat - e.rcvNxt.toNat := toNat_sub32 hnew
  have hedge : seg.seq.toNat + seg.data.length ≤ e.rcvNxt.toNat + e.rcvWnd.toNat := hfits.fits
  have hwnd : e.rcvWnd.toNat ≤ e.rbuf.tape.ahead.length := hok.wnd_le
  have hpos : 0 < seg.data.length := List.length_pos_of_ne_nil hfits.nonempty
  have hfour : 4 ≤ seg.seq.toNat := by
    rcases hfits.kind with ⟨hctl, -⟩ | ⟨-, hfour⟩
    · rw [hflags] at hctl
      exact absurd hctl (by decide)
    · exact hfour
  have hroom : (seg.seq - e.rcvNxt).toNat + seg.data.length ≤ e.rbuf.tape.ahead.length := by
    omega
  have hopened : e.rbuf.tape.closed = false := hok.opened
  have hvalid : e.rbuf.Valid := hok.valid
  have hstored : e.rbuf.tape.fitting (seg.seq - e.rcvNxt).toNat seg.data = seg.data :=
    List.take_of_length_le (by omega)
  have hsuccess : e.rbuf.tape.writeResult (seg.seq - e.rcvNxt).toNat = .success := by
    rw [FifoBuffer.Tape.writeResult, hopened, if_neg (by decide), if_pos (by omega)]
  obtain ⟨rbuf, hwrite, hvalid', hcapacity, -, htape⟩ := hvalid.writeOffsetLocked_eq seg.data
    (show (seg.seq - e.rcvNxt).toNat < 2 ^ 63 from
      (UInt32.toNat_lt_size _).trans (by decide))
  rw [hopened, if_neg (by decide), hstored] at htape
  have hslice : seg.data <+: v.queued.drop (e.rcvNxt.toNat + (seg.seq - e.rcvNxt).toNat) := by
    rw [hoffset, Nat.add_sub_cancel' hnew]
    exact hfits.slice
  obtain ⟨hok₁, hcells⟩ := hok.store hslice hroom hvalid' hcapacity htape
  have hplace : e.receiver.nxt.toNat + (seg.seq - e.rcvNxt).toNat = seg.seq.toNat := by
    change e.rcvNxt.toNat + _ = _
    omega
  rw [hplace] at hcells
  have hready : e.rbuf.tape.writeResult (seg.seq - e.rcvNxt).toNat ≠ .block := by
    rw [hsuccess]
    decide
  unfold storeData
  rw [FifoBuffer.writeOffset, hwrite, checked_ok, ok_bind, if_neg hready,
    checked_assertThat hsuccess, ok_bind]
  simp only
  have hreceives₁ : e.Receives { e with rbuf := rbuf } := ⟨rfl, rfl, rfl, rfl, le_rfl, le_rfl⟩
  by_cases hseq : seg.seq = e.rcvNxt
  · rw [if_pos hseq]
    have hcut := hfits.cut
    rw [hseq] at hcells hfour hcut hedge
    rw [← hlen] at hcells hcut
    refine (makeReadable_ends (e := { e with rbuf := rbuf }) hok₁ hsound
      (show seg.len.toNat ≤ e.rcvWnd.toNat by omega) hcut hfour fun _ => hcells).bind ?_
    rintro e₁ ⟨hok₂, hreceives₂, hlist⟩
    have hlist' : e₁.rlist = e.receiver.rlist := hlist
    rw [← hlist'] at hok₂
    refine (recoverLoop_ends e₁.rlist false hsound hok₂).bind ?_
    rintro r ⟨hok₃, hreceives₃⟩
    exact .ok ⟨_, _, _, rfl, hok₃, hreceives₁.trans (hreceives₂.trans hreceives₃)⟩
  · rw [if_neg hseq]
    have hinsert := hok₁.insert { seq := seg.seq, len := seg.len }
      (by rw [hlen]; exact hfits.cut) hfour (by rw [hlen]; exact hfits.fits)
      (by rw [hlen]; exact hcells)
    exact .ok ⟨_, _, _, rfl, hinsert, ⟨rfl, rfl, rfl, rfl, le_rfl, le_rfl⟩⟩

theorem receiveData_ends (hok : e.receiver.Ok v) (hsound : v.Sound)
    (hfits : seg.data = [] ∨ Fits v e.receiver seg) :
    Ends (e.receiveData seg)
      (fun r => ∃ e' b b', r = some (e', b, b') ∧ e'.receiver.Ok v ∧ e.Receives e') := by
  unfold receiveData
  by_cases hlen : seg.len = 0
  · rw [if_pos hlen]
    exact .ok ⟨_, _, _, rfl, hok, .refl e⟩
  · have hdata : Fits v e.receiver seg := by
      refine hfits.resolve_left fun hnil => hlen ?_
      rw [Segment.len, hnil]
      rfl
    rw [if_neg hlen]
    by_cases hignore : seg.flags &&& flagCtl ≠ 0 ∨ e.shutdown ≠ .none
    · rw [if_pos hignore]
      refine (ignoreData_ends hok hsound hdata hignore).bind ?_
      rintro r ⟨hok', hreceives⟩
      exact .ok ⟨_, _, _, rfl, hok', hreceives⟩
    · rw [if_neg hignore]
      refine storeData_ends hok hsound hdata ?_
      rcases hdata.kind with ⟨hctl, -⟩ | ⟨hflags, -⟩
      · refine absurd (.inl ?_) hignore
        rw [hctl]
        decide
      · exact hflags

theorem trimFront_nil (h : seg.data = []) : (e.trimFront seg).data = [] := by
  unfold trimFront
  simp only
  split
  · split
    · rw [h, List.drop_nil]
    · rfl
  · exact h

theorem trimBack_nil (h : seg.data = []) : e.trimBack seg = seg := by
  have hsame : { seg with data := [] } = seg := by rw [← h]
  unfold trimBack
  simp only
  split
  · split
    · rw [h, List.take_nil]
      exact hsame
    · exact hsame
  · rfl

theorem toNat_len (h : seg.data.length < 2 ^ 16) : seg.len.toNat = seg.data.length :=
  toNat_ofNat32 (h.trans (by decide))

/-- A segment with something new does not reach beyond the window; the first one finds room for
the opening message. -/
theorem DataOk.edge (hok : e.receiver.Ok v) (hdata : DataOk v e.view seg)
    (hnew : e.rcvNxt.toNat < seg.seq.toNat + seg.data.length) :
    seg.seq.toNat + seg.data.length ≤ e.rcvNxt.toNat + e.rcvWnd.toNat := by
  have hin : seg.seq.toNat + seg.data.length ≤ max 4 (e.rcvNxt.toNat + e.rcvWnd.toNat) :=
    hdata.fits
  rcases hok.started with hzero | hfour
  · have hfirst : 4 ≤ e.rcvWnd.toNat := (hok.first hzero).2
    omega
  · change 4 ≤ e.rcvNxt.toNat at hfour
    omega

/-- The opening message is new only at the beginning. -/
theorem DataOk.opening (hok : e.receiver.Ok v) (hdata : DataOk v e.view seg)
    (hctl : seg.flags = flagCtl) (hnew : e.rcvNxt.toNat < seg.seq.toNat + seg.data.length) :
    e.rcvNxt = 0 ∧ seg.seq = 0 ∧ seg.data.length = 4 := by
  rcases hdata.kind with ⟨-, hzero, scale, hmessage, -⟩ | ⟨hflag, -⟩
  · have hfour : seg.data.length = 4 := by
      rw [hmessage]
      rfl
    have hzero' : seg.seq.toNat = 0 := congrArg UInt32.toNat hzero
    refine ⟨hok.started.resolve_right ?_, hzero, hfour⟩
    intro hstarted
    change 4 ≤ e.rcvNxt.toNat at hstarted
    omega
  · rw [hflag] at hctl
    exact absurd hctl (by decide)

/-- The front of a segment of the peer is cut off up to where something is missing. -/
theorem trimFront_fits (hok : e.receiver.Ok v) (hdata : DataOk v e.view seg) :
    (e.trimFront seg).data = [] ∨ Fits v e.receiver (e.trimFront seg) := by
  have hlen := toNat_len hdata.short
  have hcut := hdata.cut
  unfold trimFront
  by_cases hold : seg.seq < e.rcvNxt
  · rw [if_pos hold]
    rw [UInt32.lt_iff_toNat_lt] at hold
    have hadjust : (e.rcvNxt - seg.seq).toNat = e.rcvNxt.toNat - seg.seq.toNat :=
      toNat_sub32 hold.le
    simp only
    by_cases hpart : e.rcvNxt - seg.seq < seg.len
    · rw [if_pos hpart]
      rw [UInt32.lt_iff_toNat_lt, hadjust, hlen] at hpart
      have hnew : e.rcvNxt.toNat < seg.seq.toNat + seg.data.length := by omega
      have hseq : seg.seq + (e.rcvNxt - seg.seq) = e.rcvNxt := by
        apply UInt32.toNat_inj.mp
        rw [toNat_add32 (by have hlt := e.rcvNxt.toNat_lt; omega), hadjust]
        omega
      have hlength : (seg.data.drop (e.rcvNxt - seg.seq).toNat).length =
          seg.data.length - (e.rcvNxt.toNat - seg.seq.toNat) := by
        rw [List.length_drop, hadjust]
      have hsum : e.rcvNxt.toNat + (seg.data.drop (e.rcvNxt - seg.seq).toNat).length =
          seg.seq.toNat + seg.data.length := by omega
      refine .inr ⟨?_, ?_, ?_, ?_, ?_, ?_, ?_⟩
      · exact List.ne_nil_of_length_pos (by rw [hlength]; omega)
      · refine toNat_len (lt_of_le_of_lt ?_ hdata.short)
        rw [hlength]
        exact Nat.sub_le _ _
      · rw [hseq]
        exact le_rfl
      · rw [hseq, hadjust]
        have hslice := hdata.slice.drop (e.rcvNxt.toNat - seg.seq.toNat)
        rwa [List.drop_drop, Nat.add_sub_cancel' hold.le] at hslice
      · rw [hseq, hsum]
        exact hcut
      · rw [hseq, hsum]
        exact DataOk.edge hok hdata hnew
      · refine .inr ?_
        rcases hdata.kind with ⟨hctl, -⟩ | ⟨hflag, hfour⟩
        · have hzero : e.rcvNxt.toNat = 0 :=
            congrArg UInt32.toNat (DataOk.opening hok hdata hctl hnew).1
          omega
        · rw [hseq]
          exact ⟨hflag, hfour.trans hold.le⟩
    · rw [if_neg hpart]
      exact .inl rfl
  · rw [if_neg hold]
    rw [UInt32.lt_iff_toNat_lt, not_lt] at hold
    have hpos : 0 < seg.data.length := List.length_pos_of_ne_nil hdata.nonempty
    have hnew : e.rcvNxt.toNat < seg.seq.toNat + seg.data.length := by omega
    refine .inr ⟨hdata.nonempty, hlen, hold, hdata.slice, hcut, DataOk.edge hok hdata hnew, ?_⟩
    rcases hdata.kind with ⟨hctl, -⟩ | hflag
    · exact .inl ⟨hctl, DataOk.opening hok hdata hctl hnew⟩
    · exact .inr hflag

/-- A segment within the window is not cut at its end. -/
theorem trimBack_eq (hok : e.receiver.Ok v) (hsound : v.Sound) (hfits : Fits v e.receiver seg) :
    e.trimBack seg = seg := by
  have hlt := hsound.bounded
  have hle := hsound.cut_le _ hfits.cut
  have hend : (seg.seq + seg.len).toNat = seg.seq.toNat + seg.data.length := by
    rw [toNat_add32 (by rw [hfits.len]; omega), hfits.len]
  have hnew : e.rcvNxt.toNat ≤ seg.seq.toNat := hfits.new
  have hedge : seg.seq.toNat + seg.data.length ≤ e.rcvNxt.toNat + e.rcvWnd.toNat := hfits.fits
  have hwnd : e.rcvWnd.toNat ≤ e.rbuf.tape.ahead.length := hok.wnd_le
  refine if_neg ?_
  rw [UInt32.lt_iff_toNat_lt, rcvAvailable_toNat hok, toNat_sub32 (by omega), hend]
  omega

theorem trimmed_fits (hok : e.receiver.Ok v) (hsound : v.Sound) (hseg : SegmentOk v e.view seg) :
    e.trimBack (e.trimFront seg) = e.trimFront seg ∧
      ((e.trimFront seg).data = [] ∨ Fits v e.receiver (e.trimFront seg)) := by
  have hfits : (e.trimFront seg).data = [] ∨ Fits v e.receiver (e.trimFront seg) := by
    rcases hseg.data with ⟨hnil, -⟩ | hdata
    · exact .inl (trimFront_nil hnil)
    · exact trimFront_fits hok hdata
  exact ⟨hfits.elim trimBack_nil (trimBack_eq hok hsound), hfits⟩

/-- A segment of the peer loses nothing at its end, and the receive buffer does not refuse it. -/
theorem SegmentOk.kept (hok : e.receiver.Ok v) (hsound : v.Sound) (hseg : SegmentOk v e.view seg) :
    e.trimBack (e.trimFront seg) = e.trimFront seg ∧
      ∃ r, e.receiveData (e.trimFront seg) = .ok (some r) := by
  obtain ⟨hwhole, hfits⟩ := trimmed_fits hok hsound hseg
  obtain ⟨_, hrun, e', b, b', rfl, -⟩ := receiveData_ends hok hsound hfits
  exact ⟨hwhole, _, hrun⟩

theorem Inv.accept (h : e.Inv v (n + offered notify.onTcpReadable)) (hsound : v.Sound)
    (hseg : SegmentOk v e.view seg) :
    Ends (e.accept host notify seg) (fun r => r.1.Inv v n ∧ e.view.Grows r.1.view) := by
  have hok := h.core.receiver
  unfold Endpoint.accept
  obtain ⟨hwhole, hfits⟩ := trimmed_fits hok hsound hseg
  rw [hwhole]
  refine (receiveData_ends hok hsound hfits).bind ?_
  rintro _ ⟨e₁, bNewData, recovered, rfl, hok₁, hreceives⟩
  have hinv₁ := h.receives hreceives hok₁
  refine (hinv₁.attemptSend _).bind ?_
  rintro e₂ ⟨hinv₂, htransmits⟩
  have hgrows := hreceives.grows.trans htransmits.grows
  split
  · have hinv₃ : Inv v (n + offered notify.onTcpReadable) { e₂ with bReadEnable := false } :=
      hinv₂.of_core rfl rfl
    refine (hinv₃.callback notify.onTcpReadable).bind ?_
    rintro e₄ ⟨hinv₄, hgrows₄⟩
    exact .ok ⟨hinv₄, hgrows.trans hgrows₄⟩
  · exact .ok ⟨hinv₂.spend (Nat.le_add_right n _), hgrows⟩

end Endpoint

end LibMsf
