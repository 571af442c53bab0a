import LibMsf.Stun.PseudoTcpNetwork

/-!
What two endpoints of the stream achieve over any network.

Whatever the network, the clock and the applications do, no call faults or runs for ever, and
the bytes that one side reads are those that the other side sent, from the first on and without
a gap. What was accepted and has not been read is in the receive buffer of the one side or in
the send buffer of the other.
-/

namespace LibMsf

open Cxx Interleaving

namespace Endpoint

/-- The bytes that the actions of a side still offer. -/
def budget (actions : List TcpAction) : Nat := (actions.map TcpAction.offered).sum

/-- The invariant of one side, for the actions that are still to come. -/
def SideInv (v : View) (e : Endpoint) (rest : List TcpAction) : Prop :=
  e.Inv v (budget rest) ∧ ∀ action ∈ rest, action.Allowed

theorem Inv.act {v : View} {n : Nat} {e peer : Endpoint} (host : Host) {action : TcpAction}
    (h : e.Inv v (n + action.offered)) (hsound : v.Sound)
    (hpackets : ∀ p ∈ peer.packets, PacketOk v e.view p) (hallowed : action.Allowed) :
    Ends (Endpoint.act host peer e action) (fun r => r.1.Inv v n ∧ e.view.Grows r.1.view) := by
  cases action with
  | connect =>
      refine Ends.bind (Inv.connect h) ?_
      exact fun r hr => .ok hr
  | send data =>
      refine Ends.bind (Inv.send h) ?_
      exact fun r hr => .ok hr
  | recv len =>
      refine Ends.bind (Inv.recv h len) ?_
      exact fun r hr => .ok hr
  | close force => exact .ok (Inv.close h force)
  | setNodelay value => exact .ok ⟨h.of_core rfl rfl, .refl _⟩
  | setAckdelay value => exact .ok ⟨h.of_core rfl rfl, .refl _⟩
  | notifyMTU mtu => exact .ok (Inv.notifyMTU h hallowed)
  | notifyClock now notify =>
      refine Ends.bind (Inv.notifyClock h now) ?_
      exact fun r hr => .ok hr
  | arrive number notify =>
      cases hp : peer.packets[number]? with
      | none =>
          simp only [Endpoint.act, hp]
          exact .ok ⟨h.spend (Nat.le_add_right n _), .refl _⟩
      | some p =>
          simp only [Endpoint.act, hp]
          refine Ends.bind (Inv.notifyPacket h hsound (hpackets p (List.mem_of_getElem? hp))) ?_
          exact fun r hr => .ok hr

theorem relies (hosts : Side → Host) :
    Relies (fun side => act (hosts side)) view View.Grows SideInv := by
  refine ⟨?_, ?_⟩
  · rintro side e peer action rest rest' ⟨hinv, hallowed⟩ ⟨hpeer, -⟩
    have hmine : e.Inv peer.view (budget rest + action.offered) := by
      refine hinv.spend (le_of_eq ?_)
      rw [budget, budget, List.map_cons, List.sum_cons, Nat.add_comm]
    obtain ⟨⟨e', reply⟩, hact, hinv', hgrows⟩ := Inv.act (hosts side) hmine
      (Core.Ok.sound hpeer.core) hpeer.packets (hallowed action List.mem_cons_self)
    exact ⟨e', reply, hact, ⟨hinv', fun a ha => hallowed a (List.mem_cons_of_mem _ ha)⟩, hgrows⟩
  · rintro e e' peer rest rest' ⟨hinv, -⟩ ⟨hpeer, hallowed⟩ hgrows
    exact ⟨hpeer.grow (Core.Ok.sound hinv.core) hgrows, hallowed⟩

theorem cut_zero (e : Endpoint) : e.view.cut 0 := .inl (Nat.zero_le _)

theorem Inv.accepted_eq {e : Endpoint} {v : View} {n : Nat} (h : e.Inv v n) :
    e.accepted = e.queued.drop 4 := by
  have hstream : e.queued = [] ∧ e.accepted = [] ∨
      e.queued = openingMessage e.rwndScale ++ e.accepted := h.core.stream
  rcases hstream with ⟨hqueued, haccepted⟩ | hqueued
  · rw [hqueued, haccepted, List.drop_nil]
  · rw [hqueued]
    rfl

/-- What can be read and what was read are the stream of the peer up to `rcvNxt`. -/
theorem Inv.received {e peer : Endpoint} {n m : Nat} (h : e.Inv peer.view n)
    (hpeer : peer.Inv e.view m) (hopen : e.shutdown = .none) :
    ∃ rest, peer.accepted = e.delivered ++ e.rbuf.tape.readable ++ rest ∧
      rest <:+ peer.sbuf.tape.readable := by
  have hcontent : e.delivered ++ e.rbuf.tape.readable =
      (peer.queued.take e.rcvNxt.toNat).drop 4 := (h.core.receiver.content hopen).readable
  have hbuffered : peer.sbuf.tape.readable = peer.queued.drop peer.sndUna.toNat :=
    hpeer.core.sender.buffered.readable
  have huna : peer.sndUna.toNat ≤ e.rcvNxt.toNat := hpeer.core.sender.una_le
  have haccepted := hpeer.accepted_eq
  refine ⟨peer.queued.drop (max 4 e.rcvNxt.toNat), ?_, ?_⟩
  · rw [hcontent, haccepted, List.drop_take]
    rcases Nat.le_total 4 e.rcvNxt.toNat with hfour | hfour
    · rw [Nat.max_eq_right hfour]
      have hsplit := List.take_append_drop (e.rcvNxt.toNat - 4) (peer.queued.drop 4)
      rwa [List.drop_drop, Nat.add_sub_cancel' hfour, eq_comm] at hsplit
    · rw [Nat.max_eq_left hfour, Nat.sub_eq_zero_of_le hfour, List.take_zero, List.nil_append]
  · rw [hbuffered]
    have hle : peer.sndUna.toNat ≤ max 4 e.rcvNxt.toNat := huna.trans (Nat.le_max_right _ _)
    have hdrop := List.drop_drop (i := max 4 e.rcvNxt.toNat - peer.sndUna.toNat)
      (j := peer.sndUna.toNat) (l := peer.queued)
    rw [Nat.add_sub_cancel' hle] at hdrop
    rw [← hdrop]
    exact List.drop_suffix _ _

end Endpoint

namespace TcpSession

open Endpoint

/-- Every session that is allowed comes to its end, with both invariants. -/
theorem run_inv (s : TcpSession) (h : s.Allowed) :
    ∃ net replies, s.run = .ok (net, replies) ∧
      ∀ side, Endpoint.Inv (net side.other).view 0 (net side) := by
  obtain ⟨left, hleft, hfresh_left⟩ :=
    (fresh_create (s.hosts .left) (s.conv .left)).configure _ _ (h.options .left)
  obtain ⟨right, hright, hfresh_right⟩ :=
    (fresh_create (s.hosts .right) (s.conv .right)).configure _ _ (h.options .right)
  let net : Side → Endpoint := fun side => if side = .left then left else right
  have hfresh : ∀ side, (net side).Fresh := by
    intro side
    cases side with
    | left => exact hfresh_left
    | right => exact hfresh_right
  obtain ⟨net', replies, hrun, hinv⟩ := execute_keeps (relies s.hosts) s.actions net (by
    intro side
    refine ⟨(hfresh side).inv (cut_zero _) (h.room side), ?_⟩
    exact fun action haction => h.actions _ (mem_inputs haction))
  refine ⟨net', replies, ?_, fun side => (hinv side).1⟩
  rw [run, start, start, hleft, hright, ok_bind, ok_bind]
  exact hrun

/-- Nothing faults and every loop ends; each side reads a first part of what the other sent. -/
theorem run_delivers (s : TcpSession) (h : s.Allowed) :
    ∃ net replies, s.run = .ok (net, replies) ∧ ∀ side, (net side).shutdown = .none →
      (net side).delivered <+: (net side.other).accepted := by
  obtain ⟨net, replies, hrun, hinv⟩ := s.run_inv h
  refine ⟨net, replies, hrun, ?_⟩
  intro side hopen
  have hpeer := hinv side.other
  rw [Side.other_other] at hpeer
  obtain ⟨rest, haccepted, -⟩ := (hinv side).received hpeer hopen
  rw [haccepted, List.append_assoc]
  exact List.prefix_append _ _

/-- One side opens the connection and sends two bytes; the network hands its first packet over
twice. -/
def twice : TcpSession where
  hosts _ := {
    clock := fun k => .ofNat (k + 1), tcpWritePacket := fun _ => .success, fresh := .ofNat }
  conv _ := 7
  options _ := [(.rcvbuf, 64), (.sndbuf, 64), (.nodelay, 1)]
  actions := [(.left, .connect), (.right, .arrive 0 {}), (.left, .arrive 0 {}),
    (.right, .arrive 0 {}), (.left, .send [1, 2]), (.right, .arrive 1 {}), (.right, .recv 10)]

theorem twice_allowed : twice.Allowed := by
  refine ⟨?_, ?_, ?_⟩
  · intro side option hoption hsized
    rcases List.mem_cons.mp hoption with rfl | hoption
    · decide
    rcases List.mem_cons.mp hoption with rfl | hoption
    · decide
    · cases List.mem_singleton.mp hoption
      rcases hsized with hsized | hsized <;> cases hsized
  · simp [twice, TcpAction.Allowed]
  · intro side
    cases side <;> decide

/-- Both sides when they are configured. -/
def twiceSide : Endpoint :=
  let fresh : Nat → UInt8 := .ofNat
  { Endpoint.create (twice.hosts .left) 7 with
    rbuf := .create fresh 64, rbufLen := 64, rcvWnd := 64, ssthresh := 64
    sbuf := .create fresh 64, sbufLen := 64, useNagling := false }

/-- The default buffers are not looked at, only their sizes. -/
theorem twice_run :
    twice.run = Endpoint.converse twice.hosts (fun _ => twiceSide) twice.actions := by
  have hstart (side : Side) : twice.start side = .ok twiceSide := by
    have hscale : Endpoint.scaleFor 32 0 64 = .ok (0, 64) := rfl
    have hshift : shiftLeft32 64 0 = .ok 64 := rfl
    have hsize : UInt32.toNat 64 = 64 := rfl
    have hrcv := FifoBuffer.setCapacity_create .ofNat defaultRcvBufSize.toNat 64 (by decide)
    have hsnd := FifoBuffer.setCapacity_create .ofNat defaultSndBufSize.toNat 64 (by decide)
    simp only [start, twice, Endpoint.configure, Endpoint.setOption, Endpoint.create,
      Endpoint.resizeReceiveBuffer, Endpoint.resizeSendBuffer, hscale, hshift, hsize, hrcv, hsnd,
      checked_assertThat, checked_ok, ok_bind, pure_eq_ok]
    rfl
  rw [run, hstart, hstart, ok_bind, ok_bind]
  simp only [ite_self]

theorem twice_delivers : ∃ net replies, twice.run = .ok (net, replies) ∧
    ∀ side, (net side).shutdown = .none → (net side).delivered <+: (net side.other).accepted :=
  run_delivers twice twice_allowed

/-- What a side has accepted was read by the other side, can be read there, or is still in the
send buffer. -/
theorem run_conserves (s : TcpSession) (h : s.Allowed) {net : Side → Endpoint}
    {replies : List TcpReply} (hrun : s.run = .ok (net, replies)) (side : Side)
    (hopen : (net side).shutdown = .none) :
    ∃ rest, (net side.other).accepted =
        (net side).delivered ++ (net side).rbuf.tape.readable ++ rest ∧
      rest <:+ (net side.other).sbuf.tape.readable := by
  obtain ⟨net', replies', hrun', hinv⟩ := s.run_inv h
  cases hrun.symm.trans hrun'
  have hpeer := hinv side.other
  rw [Side.other_other] at hpeer
  exact (hinv side).received hpeer hopen

theorem twice_conserves : ∃ net replies, twice.run = .ok (net, replies) ∧
    ∀ side, (net side).shutdown = .none →
      ∃ rest, (net side.other).accepted =
          (net side).delivered ++ (net side).rbuf.tape.readable ++ rest ∧
        rest <:+ (net side.other).sbuf.tape.readable := by
  obtain ⟨net, replies, hrun, -⟩ := twice.run_inv twice_allowed
  exact ⟨net, replies, hrun, run_conserves twice twice_allowed hrun⟩

/-- Every packet that a side ever sent acknowledges what that side received. Its data is the
stream of the side, behind the opening message, and does not reach beyond the window of the
receiver, as wide as it is by now. The window is no wider than the room in the receive buffer:
should the packet arrive now, nothing would be cut off its end and nothing refused. -/
theorem run_packets (s : TcpSession) (h : s.Allowed) {net : Side → Endpoint}
    {replies : List TcpReply} (hrun : s.run = .ok (net, replies)) (side : Side) {p : Bytes}
    (hp : p ∈ (net side).packets) :
    ∃ seg, parseSegment p = some seg ∧ seg.ack ≤ (net side).rcvNxt ∧
      (seg.flags = 0 → seg.data ≠ [] → ∃ k, seg.seq.toNat = 4 + k ∧
        seg.data <+: (net side).accepted.drop k ∧
        4 + k + seg.data.length ≤
          (net side.other).rcvNxt.toNat + (net side.other).rcvWnd.toNat) ∧
      (net side.other).rcvWnd.toNat ≤ (net side.other).rbuf.getWriteRemaining ∧
      (net side.other).trimBack ((net side.other).trimFront seg) =
        (net side.other).trimFront seg ∧
      ∃ r, (net side.other).receiveData ((net side.other).trimFront seg) = .ok (some r) := by
  obtain ⟨net', replies', hrun', hinv⟩ := s.run_inv h
  cases hrun.symm.trans hrun'
  obtain ⟨-, seg, hparse, hseg⟩ := (hinv side).packets p hp
  have hpeer := (hinv side.other).core.receiver
  rw [Side.other_other] at hpeer
  have hroom : (net side.other).rcvWnd.toNat ≤ (net side.other).rbuf.getWriteRemaining := by
    have hvalid : (net side.other).rbuf.Valid := hpeer.valid
    rw [hvalid.getWriteRemaining_eq]
    exact hpeer.wnd_le
  refine ⟨seg, hparse, UInt32.le_iff_toNat_le.mpr hseg.ack_le, ?_, hroom,
    SegmentOk.kept hpeer (Core.Ok.sound (hinv side).core) hseg⟩
  intro hflags hne
  have hdata := hseg.data.resolve_left fun hempty => hne hempty.1
  have hfour : 4 ≤ seg.seq.toNat := by
    rcases hdata.kind with ⟨hctl, -⟩ | ⟨-, hfour⟩
    · rw [hflags] at hctl
      exact absurd hctl (by decide)
    · exact hfour
  have haccepted := (hinv side).accepted_eq
  have hpos : 0 < seg.data.length := List.length_pos_of_ne_nil hne
  have hfits : seg.seq.toNat + seg.data.length ≤
      max 4 ((net side.other).rcvNxt.toNat + (net side.other).rcvWnd.toNat) := hdata.fits
  refine ⟨seg.seq.toNat - 4, by omega, ?_, by omega⟩
  rw [haccepted, List.drop_drop, Nat.add_sub_cancel' hfour]
  exact hdata.slice

/-- The two bytes go out behind the opening message. -/
theorem twice_packets : ∃ net replies, twice.run = .ok (net, replies) ∧
    ∃ p ∈ (net .left).packets, ∃ seg, parseSegment p = some seg ∧ seg.seq = 4 ∧
      seg.data = [1, 2] ∧ seg.ack ≤ (net .left).rcvNxt ∧ [1, 2] <+: (net .left).accepted ∧
      6 ≤ (net .right).rcvNxt.toNat + (net .right).rcvWnd.toNat ∧
      (net .right).rcvWnd.toNat ≤ (net .right).rbuf.getWriteRemaining ∧
      (net .right).trimBack ((net .right).trimFront seg) = (net .right).trimFront seg ∧
      ∃ r, (net .right).receiveData ((net .right).trimFront seg) = .ok (some r) := by
  obtain ⟨net, replies, hrun, -⟩ := twice.run_inv twice_allowed
  have hsent : ∃ p, (net .left).packets[1]? = some p ∧
      (parseSegment p).map (fun seg => (seg.seq, seg.flags, seg.data)) = some (4, 0, [1, 2]) := by
    have heval : (twice.run.toOption.bind fun r => (r.1 .left).packets[1]?.bind fun p =>
        (parseSegment p).map fun seg => (seg.seq, seg.flags, seg.data)) =
          some (4, 0, [1, 2]) := by
      rw [twice_run]
      decide +kernel
    rw [hrun] at heval
    exact Option.bind_eq_some_iff.mp heval
  obtain ⟨p, hp, hseg⟩ := hsent
  have hmem := List.mem_of_getElem? hp
  obtain ⟨seg, hparse, hack, hdata, hkept⟩ := run_packets twice twice_allowed hrun .left hmem
  rw [hparse, Option.map_some] at hseg
  obtain ⟨hseq, hflags, hbytes⟩ : seg.seq = 4 ∧ seg.flags = 0 ∧ seg.data = [1, 2] := by
    simpa using hseg
  obtain ⟨k, hk, hslice, hedge⟩ := hdata hflags (by rw [hbytes]; decide)
  obtain rfl : k = 0 := by
    rw [hseq] at hk
    exact Nat.add_left_cancel hk.symm
  rw [hbytes] at hslice hedge
  exact ⟨net, replies, hrun, p, hmem, seg, hparse, hseq, hbytes, hack, hslice, hedge, hkept⟩

end TcpSession

end LibMsf
