import LibMsf.Stun.PseudoTcpInvariant

/-!
Packets of the stream: what they carry and that sending one keeps the invariant.
-/

namespace LibMsf

open Cxx Tiling

namespace Endpoint

theorem exists_word (v : Nat) : ∃ a b c d, toNetwork 4 v = [a, b, c, d] :=
  List.length_eq_four.mp (length_toNetwork 4 v)

theorem exists_half (v : Nat) : ∃ a b, toNetwork 2 v = [a, b] :=
  List.length_eq_two.mp (length_toNetwork 2 v)

theorem ofNat_word (u : UInt32) : UInt32.ofNat (ofNetwork (toNetwork 4 u.toNat)) = u := by
  rw [ofNetwork_of_lt u.toNat_lt, UInt32.ofNat_toNat]

theorem ofNat_half (u : UInt16) : UInt16.ofNat (ofNetwork (toNetwork 2 u.toNat)) = u := by
  rw [ofNetwork_of_lt u.toNat_lt, UInt16.ofNat_toNat]

/-- The segment that a packet is parsed to. -/
def segmentOf (e : Endpoint) (seq : UInt32) (flags : UInt8) (now : UInt32) (data : Bytes) :
    Segment where
  conv := e.conv
  seq := seq
  ack := e.rcvNxt
  flags := flags
  wnd := e.receiver.advertised
  data := data
  tsval := now
  tsecr := e.tsRecent

theorem parseSegment_header (e : Endpoint) (seq : UInt32) (flags : UInt8) (now : UInt32)
    (data : Bytes) :
    parseSegment (e.header seq flags now ++ data) = some (e.segmentOf seq flags now data) := by
  have hconv := ofNat_word e.conv
  have hseq := ofNat_word seq
  have hack := ofNat_word e.rcvNxt
  have hwnd := ofNat_half e.receiver.advertised
  have hnow := ofNat_word now
  have hecr := ofNat_word e.tsRecent
  obtain ⟨c₀, c₁, c₂, c₃, hc⟩ := exists_word e.conv.toNat
  obtain ⟨s₀, s₁, s₂, s₃, hs⟩ := exists_word seq.toNat
  obtain ⟨a₀, a₁, a₂, a₃, ha⟩ := exists_word e.rcvNxt.toNat
  obtain ⟨w₀, w₁, hw⟩ := exists_half e.receiver.advertised.toNat
  obtain ⟨n₀, n₁, n₂, n₃, hn⟩ := exists_word now.toNat
  obtain ⟨r₀, r₁, r₂, r₃, hr⟩ := exists_word e.tsRecent.toNat
  have hheader : e.header seq flags now = [c₀, c₁, c₂, c₃, s₀, s₁, s₂, s₃, a₀, a₁, a₂, a₃, 0, flags,
      w₀, w₁, n₀, n₁, n₂, n₃, r₀, r₁, r₂, r₃] := by
    have hw' : toNetwork 2 (e.rcvWnd >>> e.rwndScale.toUInt32).toUInt16.toNat = [w₀, w₁] := hw
    rw [header, hc, hs, ha, hw', hn, hr]
    rfl
  rw [hc] at hconv
  rw [hs] at hseq
  rw [ha] at hack
  rw [hw] at hwnd
  rw [hn] at hnow
  rw [hr] at hecr
  have hlen : ¬ (e.header seq flags now ++ data).length < headerSize.toNat := by
    rw [hheader, List.length_append]
    simp [headerSize]
  rw [parseSegment, if_neg hlen, hheader, segmentOf, ← hconv, ← hseq, ← hack, ← hwnd, ← hnow,
    ← hecr]
  rfl

/-- A packet with the acknowledgement and the window of the receiving half. -/
def Carries (r : Receiver) (seq : UInt32) (flags : UInt8) (data : Bytes) (p : Bytes) : Prop :=
  p.length = 24 + data.length ∧ ∃ seg, parseSegment p = some seg ∧ seg.seq = seq ∧
    seg.flags = flags ∧ seg.data = data ∧ seg.ack = r.nxt ∧ seg.wnd = r.advertised

theorem carries_header (e : Endpoint) (seq : UInt32) (flags : UInt8) (now : UInt32)
    (data : Bytes) : Carries e.receiver seq flags data (e.header seq flags now ++ data) := by
  refine ⟨?_, e.segmentOf seq flags now data, e.parseSegment_header seq flags now data, rfl, rfl,
    rfl, rfl, rfl⟩
  simp only [header, List.length_append, List.length_cons, length_toNetwork]

/-- The window is told rounded down. -/
theorem advertised_le (r : Receiver) (h : r.scale.toNat ≤ 16) :
    r.advertised.toNat * 2 ^ r.scale.toNat ≤ r.wnd.toNat := by
  have hscale : r.scale.toUInt32.toNat % 32 = r.scale.toNat := by
    rw [UInt8.toNat_toUInt32, Nat.mod_eq_of_lt (by omega)]
  have hle : r.advertised.toNat ≤ r.wnd.toNat / 2 ^ r.scale.toNat := by
    rw [Receiver.advertised, UInt32.toNat_toUInt16, UInt32.toNat_shiftRight, hscale,
      Nat.shiftRight_eq_div_pow]
    exact Nat.mod_le _ _
  exact (Nat.mul_le_mul_right _ hle).trans (Nat.div_mul_le_self _ _)

section

variable {v : View} {n : Nat} {e : Endpoint} {seq : UInt32} {flags : UInt8} {data p : Bytes}

theorem Carries.ok (hp : Carries e.receiver seq flags data p) (hr : e.receiver.Ok v)
    (hshort : data.length ≤ 65419)
    (hdata : ∀ seg : Segment, seg.seq = seq → seg.flags = flags → seg.data = data →
      seg.data = [] ∧ seg.flags = 0 ∨ DataOk e.view v seg) : PacketOk e.view v p := by
  obtain ⟨hlen, seg, hparse, hseq, hflags, hseg, hack, hwnd⟩ := hp
  refine ⟨?_, seg, hparse, hdata seg hseq hflags hseg, ?_, ?_, ?_, ?_⟩
  · have hmax : maxPacket.toNat = 65535 := rfl
    omega
  · rw [hack]
    exact hr.cut
  · rw [hack]
    exact le_rfl
  · rw [hack, hwnd]
    exact Nat.add_le_add_left (advertised_le e.receiver hr.scale_le) _
  · intro hzero
    rw [hwnd]
    exact (hr.first (hack ▸ hzero)).1

theorem payload_eq (hvalid : e.sbuf.Valid) {offset len : UInt32}
    (hrange : len = 0 ∨ offset.toNat + len.toNat ≤ e.sbuf.tape.readable.length) :
    e.payload offset len = .ok ((e.sbuf.tape.readable.drop offset.toNat).take len.toNat) := by
  unfold payload
  by_cases hzero : len = 0
  · rw [if_neg (not_not.mpr hzero), hzero]
    rfl
  have hpos : len.toNat ≠ 0 := fun h => hzero (UInt32.toNat_inj.mp h)
  have hfits := hrange.resolve_left hzero
  have hlength : ((e.sbuf.tape.readable.drop offset.toNat).take len.toNat).length = len.toNat := by
    rw [List.length_take, List.length_drop]
    omega
  have hresult : e.sbuf.tape.readResult offset.toNat = .success := if_pos (by omega)
  rw [if_pos hzero, FifoBuffer.readOffset, hvalid.readOffsetLocked_eq, checked_ok, ok_bind]
  simp only [hresult, hlength, UInt32.ofNat_toNat]
  rw [checked_assertThat trivial, ok_bind, ok_bind, pure_eq_ok]

/-- A packet without data is taken for sent whatever becomes of it. -/
theorem packet_eq (host : Host) (seq : UInt32) (flags : UInt8) (offset : UInt32) {len : UInt32}
    (hvalid : e.sbuf.Valid)
    (hsize : len.toNat ≤ 65419)
    (hrange : len = 0 ∨ offset.toNat + len.toNat ≤ e.sbuf.tape.readable.length) :
    ∃ e' result, e.packet host seq flags offset len = .ok (e', result) ∧ e'.core = e.core ∧
      (result = .success ∧ (∃ p, e'.packets = e.packets ++ [p] ∧ Carries e.receiver seq flags
          ((e.sbuf.tape.readable.drop offset.toNat).take len.toNat) p) ∨
        (result = .success → len = 0) ∧ e'.packets = e.packets) ∧
      (len = 0 → result = .success) := by
  have hfits : headerSize + len ≤ maxPacket := by
    rw [UInt32.le_iff_toNat_le, toNat_add32]
    · change 24 + len.toNat ≤ 65535
      omega
    · change 24 + len.toNat < 2 ^ 32
      omega
  rw [packet, checked_assertThat hfits, ok_bind]
  simp only [payload_eq hvalid hrange, ok_bind]
  by_cases hsuccess : host.tcpWritePacket e.writes = .success
  · simp only [hsuccess, ne_eq, not_true_eq_false, false_and, if_false, if_true, pure_eq_ok]
    exact ⟨_, _, rfl, rfl, .inl ⟨rfl, _, rfl, carries_header e seq flags _ _⟩, fun _ => rfl⟩
  · by_cases hzero : len = 0
    · simp only [hsuccess, hzero, ne_eq, not_true_eq_false, and_false, if_false, pure_eq_ok]
      exact ⟨_, _, rfl, rfl, .inr ⟨fun _ => trivial, rfl⟩, fun _ => rfl⟩
    · simp only [hsuccess, hzero, ne_eq, not_false_eq_true, and_true, if_true, if_false,
        pure_eq_ok]
      exact ⟨_, _, rfl, rfl, .inr ⟨fun h => absurd h hsuccess, rfl⟩, fun h => h.elim⟩

theorem Inv.packet_empty (h : e.Inv v n) (host : Host) (seq : UInt32) :
    Ends (e.packet host seq 0 0 0) (fun r => r.1.Inv v n ∧ r.1.core = e.core) := by
  obtain ⟨e', result, heq, hcore, hpackets, -⟩ := packet_eq host seq 0 0
    h.core.sender.buffered.valid (show (0 : UInt32).toNat ≤ 65419 from Nat.zero_le _) (.inl rfl)
  have hview : e'.view = e.view := by rw [view, view, hcore]
  refine ⟨_, heq, ⟨by rw [hcore]; exact h.core, ?_⟩, hcore⟩
  rcases hpackets with ⟨-, p, hpackets, hp⟩ | ⟨-, hpackets⟩
  · intro q hq
    rw [hpackets, List.mem_append, List.mem_singleton] at hq
    rw [hview]
    rcases hq with hq | rfl
    · exact h.packets q hq
    · refine hp.ok h.core.receiver (Nat.zero_le _) ?_
      intro seg _ hflags hdata
      exact .inl ⟨hdata, hflags⟩
  · exact (h.of_core hcore hpackets).packets

end

end Endpoint

end LibMsf
