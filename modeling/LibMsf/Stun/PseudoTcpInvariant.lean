import LibMsf.Library.Tiling
import LibMsf.Stun.FifoTape
import LibMsf.Stun.PseudoTcpProcess

/-!
What an endpoint of the stream relies on and what it guarantees.

A `View` is what one endpoint knows of the other: the bytes that it queued, the places where
its packets can end, how far it has received and how far its window reaches. All of it only
grows. The invariant of an endpoint is stated against the view of its peer and holds for every
later view as well, so that the two endpoints can be treated one at a time.

The window never reaches beyond the free cells of the receive buffer, and no packet reaches
beyond the window. So a packet is never cut at its end, what is acknowledged is always the end
of a packet, and an acknowledgement always falls between two segments of the send list.
-/

namespace LibMsf

open Cxx Tiling

theorem toNat_add32 {a b : UInt32} (h : a.toNat + b.toNat < 2 ^ 32) :
    (a + b).toNat = a.toNat + b.toNat := by
  rw [UInt32.toNat_add, Nat.mod_eq_of_lt h]

theorem toNat_sub32 {a b : UInt32} (h : b.toNat ≤ a.toNat) :
    (a - b).toNat = a.toNat - b.toNat :=
  UInt32.toNat_sub_of_le a b (UInt32.le_iff_toNat_le.mpr h)

theorem toNat_ofNat32 {n : Nat} (h : n < 2 ^ 32) : (UInt32.ofNat n).toNat = n :=
  UInt32.toNat_ofNat_of_lt' h

namespace SSegment

def start (s : SSegment) : Nat := s.seq.toNat

def size (s : SSegment) : Nat := s.len.toNat

end SSegment

structure View where
  queued : Bytes
  cut : Nat → Prop
  rcvNxt : Nat
  edge : Nat
  scale : Nat

namespace View

structure Grows (v v' : View) : Prop where
  queued : v.queued <+: v'.queued
  cut : ∀ c, v.cut c → v'.cut c
  rcvNxt : v.rcvNxt ≤ v'.rcvNxt
  edge : v.edge ≤ v'.edge
  scale : v'.scale = v.scale

theorem Grows.refl (v : View) : v.Grows v :=
  ⟨List.prefix_rfl, fun _ h => h, le_rfl, le_rfl, rfl⟩

theorem Grows.trans {v v' v'' : View} (h : v.Grows v') (h' : v'.Grows v'') : v.Grows v'' :=
  ⟨h.queued.trans h'.queued, fun c hc => h'.cut c (h.cut c hc), h.rcvNxt.trans h'.rcvNxt,
    h.edge.trans h'.edge, h'.scale.trans h.scale⟩

structure Sound (v : View) : Prop where
  cut_le : ∀ c, v.cut c → c ≤ v.queued.length
  bounded : v.queued.length < 2 ^ 32
  scale_le : v.scale ≤ 16

end View

/-- The message that opens the connection, for a window scale. -/
def openingMessage (scale : UInt8) : Bytes := [ctlConnect, tcpOptWndScale, 1, scale]

section Packets

variable (sent received : View)

/-- A segment with data is a piece of the stream, within the window of the peer. -/
structure DataOk (seg : Segment) : Prop where
  nonempty : seg.data ≠ []
  short : seg.data.length < 2 ^ 16
  slice : seg.data <+: sent.queued.drop seg.seq.toNat
  cut : sent.cut (seg.seq.toNat + seg.data.length)
  fits : seg.seq.toNat + seg.data.length ≤ max 4 received.edge
  kind : seg.flags = flagCtl ∧ seg.seq = 0 ∧
      (∃ scale : UInt8, seg.data = openingMessage scale ∧ scale.toNat = sent.scale) ∨
    seg.flags = 0 ∧ 4 ≤ seg.seq.toNat

structure SegmentOk (seg : Segment) : Prop where
  data : seg.data = [] ∧ seg.flags = 0 ∨ DataOk sent received seg
  ack_cut : received.cut seg.ack.toNat
  ack_le : seg.ack.toNat ≤ sent.rcvNxt
  window : seg.ack.toNat + seg.wnd.toNat * 2 ^ sent.scale ≤ sent.edge
  first : seg.ack = 0 → 4 ≤ seg.wnd.toNat

def PacketOk (p : Bytes) : Prop :=
  p.length ≤ maxPacket.toNat ∧
    ∃ seg, Endpoint.parseSegment p = some seg ∧ SegmentOk sent received seg

end Packets

theorem DataOk.grow {sent sent' received received' : View} {seg : Segment}
    (h : DataOk sent received seg) (hs : sent.Grows sent') (hr : received.Grows received') :
    DataOk sent' received' seg := by
  refine ⟨h.nonempty, h.short, h.slice.trans (hs.queued.drop _), hs.cut _ h.cut, ?_, ?_⟩
  · have hfits := h.fits
    have hedge := hr.edge
    omega
  · rw [hs.scale]
    exact h.kind

theorem SegmentOk.grow {sent sent' received received' : View} {seg : Segment}
    (h : SegmentOk sent received seg) (hs : sent.Grows sent') (hr : received.Grows received') :
    SegmentOk sent' received' seg := by
  refine ⟨?_, hr.cut _ h.ack_cut, h.ack_le.trans hs.rcvNxt, ?_, h.first⟩
  · rcases h.data with hempty | hdata
    · exact .inl hempty
    · exact .inr (hdata.grow hs hr)
  · rw [hs.scale]
    exact h.window.trans hs.edge

theorem PacketOk.grow {sent sent' received received' : View} {p : Bytes}
    (h : PacketOk sent received p) (hs : sent.Grows sent') (hr : received.Grows received') :
    PacketOk sent' received' p := by
  obtain ⟨hlen, seg, hparse, hseg⟩ := h
  exact ⟨hlen, seg, hparse, hseg.grow hs hr⟩

/-- The part of an endpoint that sending depends on. -/
structure Sender where
  una : UInt32
  nxt : UInt32
  wnd : UInt32
  slist : List SSegment
  sbuf : FifoBuffer
  queued : Bytes
  mss : UInt32
  msslevel : UInt32
  ssthresh : UInt32
  cwnd : UInt32
  recover : UInt32
  dupAcks : UInt8
  rtoBase : UInt32
  scale : UInt8

namespace Sender

/-- A place where a packet ended, or that is acknowledged already. -/
def Cut (s : Sender) (c : Nat) : Prop :=
  c ≤ s.una.toNat ∨
    c ≤ s.nxt.toNat ∧ Boundary SSegment.start SSegment.size s.una.toNat s.slist c

/-- The bytes from `una` on are buffered. -/
structure BufferedAt (sbuf : FifoBuffer) (queued : Bytes) (una : Nat) : Prop where
  valid : sbuf.Valid
  opened : sbuf.tape.closed = false
  capacity : 4 ≤ sbuf.bufferLength
  capacity_lt : sbuf.bufferLength < 2 ^ 32
  readable : sbuf.tape.readable = queued.drop una

/-- The segments that were transmitted and those that were not. Only the last of all can be
empty; it is where an empty `Send` has been. -/
structure SplitAt (una nxt total : Nat) (slist sent unsent : List SSegment) : Prop where
  slist : slist = sent ++ unsent
  tiles_sent : Tiles SSegment.start SSegment.size una sent nxt
  tiles_unsent : Tiles SSegment.start SSegment.size nxt unsent total
  sent_ok : ∀ x ∈ sent, x.xmit ≠ 0 ∧ x.len ≠ 0
  unsent_ok : ∀ x ∈ unsent, x.xmit = 0
  nonempty : ∀ x ∈ unsent.dropLast, x.len ≠ 0

abbrev Buffered (s : Sender) : Prop := BufferedAt s.sbuf s.queued s.una.toNat

abbrev Split (s : Sender) (sent unsent : List SSegment) : Prop :=
  SplitAt s.una.toNat s.nxt.toNat s.queued.length s.slist sent unsent

/-- The values that the segment size and the congestion window can take. -/
structure Congestion (s : Sender) : Prop where
  mss_ge : 4 ≤ s.mss.toNat
  mss_le : s.mss.toNat ≤ 65419
  msslevel_le : s.msslevel.toNat ≤ 9
  ssthresh_pos : s.ssthresh ≠ 0
  recover_le : s.recover.toNat ≤ s.nxt.toNat
  fresh : s.nxt = 0 → s.dupAcks = 0 ∧ 4 ≤ s.cwnd.toNat
  timer : s.rtoBase ≠ 0 → s.una.toNat < s.nxt.toNat

structure Ok (v : View) (s : Sender) : Prop where
  buffered : s.Buffered
  congestion : s.Congestion
  bounded : s.queued.length < 2 ^ 32
  split : ∃ sent unsent, s.Split sent unsent
  ctrl : ∀ x ∈ s.slist, if x.bCtrl then x.seq = 0 ∧ x.len = 4 else 4 ≤ x.seq.toNat
  una_le : s.una.toNat ≤ v.rcvNxt
  nxt_le : s.nxt.toNat ≤ max 4 v.edge
  wnd_le : s.una.toNat + s.wnd.toNat ≤ max 4 v.edge
  first : s.nxt = 0 → s.queued ≠ [] → 4 ≤ s.wnd.toNat
  scale : s.scale = 0 ∨ s.scale.toNat = v.scale

variable {v v' : View} {s : Sender}

theorem Ok.una_le_nxt (h : s.Ok v) : s.una.toNat ≤ s.nxt.toNat := by
  obtain ⟨sent, unsent, hsplit⟩ := h.split
  exact hsplit.tiles_sent.le

theorem Ok.nxt_le_queued (h : s.Ok v) : s.nxt.toNat ≤ s.queued.length := by
  obtain ⟨sent, unsent, hsplit⟩ := h.split
  exact hsplit.tiles_unsent.le

theorem Cut.le {c : Nat} (h : s.Cut c) (hle : s.una.toNat ≤ s.nxt.toNat) : c ≤ s.nxt.toNat := by
  rcases h with hdone | ⟨hnxt, -⟩
  · exact hdone.trans hle
  · exact hnxt

theorem Ok.grow (h : s.Ok v) (hv : v.Grows v') : s.Ok v' := by
  have hedge := hv.edge
  refine { h with una_le := h.una_le.trans hv.rcvNxt, nxt_le := ?_, wnd_le := ?_, scale := ?_ }
  · have hle := h.nxt_le
    omega
  · have hle := h.wnd_le
    omega
  · rw [hv.scale]
    exact h.scale

end Sender

/-- The part of an endpoint that receiving depends on. -/
structure Receiver where
  nxt : UInt32
  wnd : UInt32
  rlist : List RSegment
  rbuf : FifoBuffer
  delivered : Bytes
  scale : UInt8
  shutdown : Shutdown

namespace Receiver

def edge (r : Receiver) : Nat := r.nxt.toNat + r.wnd.toNat

/-- The window as a packet tells it. -/
def advertised (r : Receiver) : UInt16 := (r.wnd >>> r.scale.toUInt32).toUInt16

/-- What can be read is the stream up to `nxt`, without the opening message, and what came out
of order lies where it will be read. -/
structure Content (v : View) (r : Receiver) : Prop where
  readable : r.delivered ++ r.rbuf.tape.readable = (v.queued.take r.nxt.toNat).drop 4
  pending : ∀ x ∈ r.rlist, ∀ k, r.nxt.toNat ≤ k → x.seq.toNat ≤ k →
    k < x.seq.toNat + x.len.toNat → r.rbuf.tape.ahead[k - r.nxt.toNat]? = v.queued[k]?

structure Ok (v : View) (r : Receiver) : Prop where
  valid : r.rbuf.Valid
  opened : r.rbuf.tape.closed = false
  capacity_lt : r.rbuf.bufferLength < 2 ^ 32
  scale_le : r.scale.toNat ≤ 16
  cut : v.cut r.nxt.toNat
  started : r.nxt = 0 ∨ 4 ≤ r.nxt.toNat
  unread : r.nxt = 0 → r.rbuf.tape.readable = []
  wnd_le : r.wnd.toNat ≤ r.rbuf.tape.ahead.length
  first : r.nxt = 0 → 4 ≤ r.advertised.toNat ∧ 4 ≤ r.wnd.toNat
  pending : ∀ x ∈ r.rlist, v.cut (x.seq.toNat + x.len.toNat) ∧ 4 ≤ x.seq.toNat ∧
    x.seq.toNat + x.len.toNat ≤ r.edge
  content : r.shutdown = .none → r.Content v

variable {v v' : View} {r : Receiver}

theorem Ok.grow (h : r.Ok v) (hsound : v.Sound) (hv : v.Grows v') : r.Ok v' := by
  refine { h with cut := hv.cut _ h.cut, pending := ?_, content := ?_ }
  · intro x hx
    obtain ⟨hcut, hseq, hedge⟩ := h.pending x hx
    exact ⟨hv.cut _ hcut, hseq, hedge⟩
  · intro hopen
    obtain ⟨hreadable, hpending⟩ := h.content hopen
    obtain ⟨more, hmore⟩ := hv.queued
    have hnxt := hsound.cut_le _ h.cut
    refine ⟨?_, ?_⟩
    · rw [hreadable, ← hmore, List.take_append_of_le_length hnxt]
    · intro x hx k hk hlow hhigh
      have hend := hsound.cut_le _ (h.pending x hx).1
      rw [hpending x hx k hk hlow hhigh, ← hmore, List.getElem?_append_left (by omega)]

end Receiver

/-- The rest of what the invariant speaks of. -/
structure Common where
  state : TcpState
  accepted : Bytes
  mtuAdvise : UInt32
  supportWndScale : Bool

structure Core where
  sender : Sender
  receiver : Receiver
  common : Common

namespace Core

def view (c : Core) : View where
  queued := c.sender.queued
  cut := c.sender.Cut
  rcvNxt := c.receiver.nxt.toNat
  edge := c.receiver.edge
  scale := c.receiver.scale.toNat

/-- The bytes that were queued are the opening message and what `Send` took. -/
def Stream (c : Core) : Prop :=
  c.sender.queued = [] ∧ c.common.accepted = [] ∨
    c.sender.queued = openingMessage c.receiver.scale ++ c.common.accepted

/-- The invariant of an endpoint whose application will offer at most `n` more bytes. -/
structure Ok (v : View) (n : Nat) (c : Core) : Prop where
  sender : c.sender.Ok v
  receiver : c.receiver.Ok v
  room : max 4 c.sender.queued.length + n < 2 ^ 32
  stream : c.Stream
  idle : c.common.state = .listen → c.sender.queued = []
  active : c.common.state = .synSent ∨ c.common.state = .synReceived ∨
    c.common.state = .established → c.sender.queued ≠ []
  support : c.common.supportWndScale = true
  mtu_ge : 120 ≤ c.common.mtuAdvise.toNat
  mtu_le : c.common.mtuAdvise.toNat ≤ 65535

variable {v v' : View} {n m : Nat} {c : Core}

theorem Ok.sound (h : c.Ok v n) : c.view.Sound := by
  refine ⟨?_, h.sender.bounded, h.receiver.scale_le⟩
  intro k hk
  exact (Sender.Cut.le hk h.sender.una_le_nxt).trans h.sender.nxt_le_queued

theorem Ok.grow (h : c.Ok v n) (hsound : v.Sound) (hv : v.Grows v') : c.Ok v' n :=
  { h with sender := h.sender.grow hv, receiver := h.receiver.grow hsound hv }

theorem Ok.spend (h : c.Ok v n) (hle : m ≤ n) : c.Ok v m := by
  have hroom := h.room
  exact { h with room := by omega }

end Core

namespace Endpoint

def sender (e : Endpoint) : Sender where
  una := e.sndUna
  nxt := e.sndNxt
  wnd := e.sndWnd
  slist := e.slist
  sbuf := e.sbuf
  queued := e.queued
  mss := e.mss
  msslevel := e.msslevel
  ssthresh := e.ssthresh
  cwnd := e.cwnd
  recover := e.recover
  dupAcks := e.dupAcks
  rtoBase := e.rtoBase
  scale := e.swndScale

def receiver (e : Endpoint) : Receiver where
  nxt := e.rcvNxt
  wnd := e.rcvWnd
  rlist := e.rlist
  rbuf := e.rbuf
  delivered := e.delivered
  scale := e.rwndScale
  shutdown := e.shutdown

def common (e : Endpoint) : Common where
  state := e.state
  accepted := e.accepted
  mtuAdvise := e.mtuAdvise
  supportWndScale := e.supportWndScale

def core (e : Endpoint) : Core where
  sender := e.sender
  receiver := e.receiver
  common := e.common

def view (e : Endpoint) : View := e.core.view

structure Inv (v : View) (n : Nat) (e : Endpoint) : Prop where
  core : e.core.Ok v n
  packets : ∀ p ∈ e.packets, PacketOk e.view v p

variable {v v' : View} {n m : Nat} {e e' : Endpoint}

/-- Everything else may change. -/
theorem Inv.of_core (h : e.Inv v n) (hcore : e'.core = e.core) (hpackets : e'.packets = e.packets) :
    e'.Inv v n := by
  refine ⟨hcore ▸ h.core, ?_⟩
  intro p hp
  rw [view, hcore]
  exact h.packets p (hpackets ▸ hp)

theorem Inv.grow (h : e.Inv v n) (hsound : v.Sound) (hv : v.Grows v') : e.Inv v' n :=
  ⟨h.core.grow hsound hv, fun p hp => (h.packets p hp).grow (.refl _) hv⟩

theorem Inv.spend (h : e.Inv v n) (hle : m ≤ n) : e.Inv v m := ⟨h.core.spend hle, h.packets⟩

theorem Inv.packets_grow (h : e.Inv v n) (hgrows : e.view.Grows e'.view)
    (hpackets : e'.packets = e.packets) : ∀ p ∈ e'.packets, PacketOk e'.view v p := by
  intro p hp
  exact (h.packets p (hpackets ▸ hp)).grow hgrows (.refl v)

end Endpoint

end LibMsf
