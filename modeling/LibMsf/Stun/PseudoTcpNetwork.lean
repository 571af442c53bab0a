import LibMsf.Library.Interleaving
import LibMsf.Stun.PseudoTcpSteps

/-!
Two endpoints and the network between them.

An endpoint is created and configured, and then things happen to the two in any order: the
application makes its calls, the clock and the MTU are notified, and packets arrive. A packet
that arrives is any of those that the peer ever sent. So the network can lose packets, keep them
for any time, hand them over in any order and as often as it likes, but it does not make them up.
-/

namespace LibMsf

open Cxx Interleaving

inductive TcpAction where
  | connect
  | send (data : Bytes)
  | recv (len : Nat)
  | close (force : Bool)
  | setNodelay (value : UInt32)
  | setAckdelay (value : UInt32)
  | notifyMTU (mtu : UInt16)
  | notifyClock (now : UInt32) (notify : Notify)
  /-- The packet with this number, of those that the peer has sent so far. -/
  | arrive (number : Nat) (notify : Notify)
  deriving DecidableEq, Repr

inductive TcpReply where
  | status (value : Int)
  | bytes (data : Option Bytes)
  | handled (done : Bool)
  | done
  deriving DecidableEq, Repr

namespace TcpAction

/-- An MTU leaves room for the opening message behind the headers. -/
def Allowed : TcpAction → Prop
  | .notifyMTU mtu => 120 ≤ mtu.toNat
  | _ => True

/-- The number of bytes that an application offers to `Send`. -/
def offered : TcpAction → Nat
  | .send data => data.length
  | .arrive _ notify => notify.offered
  | _ => 0

end TcpAction

/-- The options of a new endpoint. Each buffer has room for the opening message. -/
def ConfigAllowed (option : TcpOption × UInt32) : Prop :=
  option.1 = .rcvbuf ∨ option.1 = .sndbuf → 4 ≤ option.2.toNat

namespace Endpoint

def act (host : Host) (peer e : Endpoint) : TcpAction → Except Halt (Endpoint × TcpReply)
  | .connect => do
      let r ← e.connect host
      return (r.1, .status r.2)
  | .send data => do
      let r ← e.send host data
      return (r.1, .status r.2)
  | .recv len => do
      let r ← e.recv host len
      return (r.1, .bytes r.2)
  | .close force => .ok (e.close force, .done)
  | .setNodelay value => do
      let e ← e.setOption host .nodelay value
      return (e, .done)
  | .setAckdelay value => do
      let e ← e.setOption host .ackdelay value
      return (e, .done)
  | .notifyMTU mtu => .ok (e.notifyMTU mtu, .done)
  | .notifyClock now notify => do
      let e ← e.notifyClock host notify now
      return (e, .done)
  | .arrive number notify =>
      match peer.packets[number]? with
      | none => .ok (e, .done)
      | some p => do
          let r ← e.notifyPacket host notify p
          return (r.1, .handled r.2)

def configure (host : Host) : Endpoint → List (TcpOption × UInt32) → Except Halt Endpoint
  | e, [] => .ok e
  | e, option :: options => do
      let e ← e.setOption host option.1 option.2
      configure host e options

/-- The two endpoints at work. -/
def converse (hosts : Side → Host) (net : Side → Endpoint) (actions : List (Side × TcpAction)) :
    Except Halt ((Side → Endpoint) × List TcpReply) :=
  Run.execute (step fun side => act (hosts side)) net actions

end Endpoint

/-- Two endpoints with their hosts, what they are configured with, and what happens to them. -/
structure TcpSession where
  hosts : Side → Host
  conv : Side → UInt32
  options : Side → List (TcpOption × UInt32)
  actions : List (Side × TcpAction)

namespace TcpSession

def start (s : TcpSession) (side : Side) : Except Halt Endpoint :=
  (Endpoint.create (s.hosts side) (s.conv side)).configure (s.hosts side) (s.options side)

def run (s : TcpSession) : Except Halt ((Side → Endpoint) × List TcpReply) := do
  let left ← s.start .left
  let right ← s.start .right
  Endpoint.converse s.hosts (fun side => if side = .left then left else right) s.actions

/-- The bytes that the application of a side offers in the whole session. -/
def offered (s : TcpSession) (side : Side) : Nat :=
  ((inputs side s.actions).map TcpAction.offered).sum

/-- The stream does not run out of sequence numbers. -/
structure Allowed (s : TcpSession) : Prop where
  options : ∀ side, ∀ option ∈ s.options side, ConfigAllowed option
  actions : ∀ x ∈ s.actions, x.2.Allowed
  room : ∀ side, 4 + s.offered side < 2 ^ 32

end TcpSession

namespace Endpoint

/-- A buffer in which nothing is. -/
structure Blank (b : FifoBuffer) : Prop where
  valid : b.Valid
  opened : b.tape.closed = false
  readable : b.tape.readable = []
  capacity : 4 ≤ b.bufferLength
  capacity_lt : b.bufferLength < 2 ^ 32

theorem Blank.length_ahead {b : FifoBuffer} (h : Blank b) :
    b.tape.ahead.length = b.bufferLength := by
  have hreadable := h.valid.length_readable
  rw [h.readable, List.length_nil] at hreadable
  rw [h.valid.length_ahead]
  omega

theorem Blank.setCapacity {b : FifoBuffer} (h : Blank b) (fresh : Nat → UInt8) {size : UInt32}
    (hsize : 4 ≤ size.toNat) : ∃ b', b.setCapacity fresh size.toNat = .ok (b', true) ∧
      Blank b' ∧ b'.bufferLength = size.toNat := by
  have hlt : size.toNat < 2 ^ 32 := size.toNat_lt
  obtain ⟨b', hset, hvalid, hcapacity, -, hreadable, hclosed⟩ :=
    h.valid.setCapacity_eq fresh (show 0 < size.toNat by omega) (by omega)
  have hfits : b.tape.readable.length ≤ size.toNat := by
    rw [h.readable]
    exact Nat.zero_le _
  rw [if_pos hfits] at hcapacity
  rw [decide_eq_true hfits] at hset
  exact ⟨b', hset, ⟨hvalid, hclosed.trans h.opened, hreadable.trans h.readable,
    by omega, by omega⟩, hcapacity⟩

theorem blank_create (fresh : Nat → UInt8) {size : UInt32} (h : 4 ≤ size.toNat) :
    Blank (.create fresh size.toNat) := by
  have hlt : size.toNat < 2 ^ 32 := size.toNat_lt
  have htape := FifoBuffer.tape_create fresh size.toNat
  exact ⟨FifoBuffer.valid_create fresh (by omega) (by omega), by rw [htape], by rw [htape], h, hlt⟩

/-- An endpoint that was configured and to which nothing has happened yet. -/
structure Fresh (e : Endpoint) : Prop where
  sent : e.sndUna = 0 ∧ e.sndNxt = 0 ∧ e.sndWnd = 1 ∧ e.swndScale = 0
  nothing : e.slist = [] ∧ e.rlist = [] ∧ e.packets = []
  streams : e.queued = [] ∧ e.accepted = [] ∧ e.delivered = []
  sbuf : Blank e.sbuf
  rbuf : Blank e.rbuf
  congestion : e.sender.Congestion
  rcvNxt : e.rcvNxt = 0
  window : e.rcvWnd.toNat = e.rbuf.bufferLength
  advertised : 4 ≤ e.receiver.advertised.toNat
  scale : e.rwndScale.toNat ≤ 16
  state : e.state = .listen
  mtuAdvise : e.mtuAdvise = maxPacket
  supportWndScale : e.supportWndScale = true

theorem fresh_create (host : Host) (conv : UInt32) : (create host conv).Fresh := by
  refine ⟨⟨rfl, rfl, rfl, rfl⟩, ⟨rfl, rfl, rfl⟩, ⟨rfl, rfl, rfl⟩,
    blank_create host.fresh (by decide), blank_create host.fresh (by decide), ?_, rfl, rfl, ?_,
    Nat.zero_le _, rfl, rfl, rfl⟩
  · refine ⟨?_, ?_, Nat.zero_le _, ?_, le_rfl, fun _ => ⟨rfl, ?_⟩, fun h => absurd rfl h⟩
    · change 4 ≤ (minPacket - packetOverhead).toNat
      decide
    · change (minPacket - packetOverhead).toNat ≤ 65419
      decide
    · change defaultRcvBufSize ≠ 0
      decide
    · change 4 ≤ (2 * (minPacket - packetOverhead)).toNat
      decide
  · change 4 ≤ (defaultRcvBufSize >>> (0 : UInt8).toUInt32).toUInt16.toNat
    decide

theorem scaleFor_ends (k : Nat) {turns : Nat} {scale : UInt8} {size : UInt32} (hturns : k < turns)
    (hscale : scale.toNat + k ≤ 16) (hsize : size.toNat < 2 ^ (16 + k)) (hfour : 4 ≤ size.toNat) :
    Ends (scaleFor turns scale size) (fun r => ∃ j, j ≤ k ∧ r.1.toNat = scale.toNat + j ∧
      r.2.toNat * 2 ^ j ≤ size.toNat ∧ 4 ≤ r.2.toNat ∧ r.2.toNat < 2 ^ 16) := by
  induction k generalizing turns scale size with
  | zero =>
      obtain ⟨turns, rfl⟩ : ∃ t, turns = t + 1 := ⟨turns - 1, by omega⟩
      have hsmall : ¬ 0xFFFF < size := by
        rw [UInt32.lt_iff_toNat_lt, not_lt]
        exact Nat.le_of_lt_succ hsize
      rw [scaleFor, if_neg hsmall]
      exact .ok ⟨0, le_rfl, rfl, (Nat.mul_one _).le, hfour, hsize⟩
  | succ k ih =>
      obtain ⟨turns, rfl⟩ : ∃ t, turns = t + 1 := ⟨turns - 1, by omega⟩
      rw [scaleFor]
      by_cases hlarge : 0xFFFF < size
      · have hlow : 0xFFFF < size.toNat := UInt32.lt_iff_toNat_lt.mp hlarge
        have hhalf : (size >>> 1).toNat = size.toNat / 2 := by
          rw [UInt32.toNat_shiftRight]
          exact Nat.shiftRight_one size.toNat
        have hnext : (scale + 1).toNat = scale.toNat + 1 := by
          rw [UInt8.toNat_add]
          exact Nat.mod_eq_of_lt (by change scale.toNat + 1 < 256; omega)
        rw [if_pos hlarge]
        refine (ih (show k < turns by omega) (by omega) ?_ (by omega)).mono ?_
        · rw [hhalf]
          rw [show 16 + (k + 1) = 16 + k + 1 from rfl, Nat.pow_succ] at hsize
          omega
        · rintro r ⟨j, hj, hscale', hle, hr⟩
          refine ⟨j + 1, by omega, by omega, ?_, hr⟩
          rw [hhalf] at hle
          rw [Nat.pow_succ, ← Nat.mul_assoc]
          omega
      · rw [if_neg hlarge]
        rw [UInt32.lt_iff_toNat_lt, not_lt] at hlarge
        exact .ok ⟨0, Nat.zero_le _, rfl, (Nat.mul_one _).le, hfour, Nat.lt_succ_of_le hlarge⟩

theorem Fresh.resizeReceiveBuffer {e : Endpoint} (h : e.Fresh) (host : Host) {size : UInt32}
    (hsize : 4 ≤ size.toNat) : Ends (e.resizeReceiveBuffer host size) Fresh := by
  have hlt : size.toNat < 2 ^ 32 := size.toNat_lt
  unfold Endpoint.resizeReceiveBuffer
  refine (scaleFor_ends 16 (by decide) le_rfl hlt hsize).bind ?_
  rintro ⟨scale, unit⟩ ⟨j, hj, hscale, hle, hfour, hshort⟩
  have hscale' : scale.toNat = j := hscale.trans (Nat.zero_add j)
  rw [← hscale'] at hj hle
  obtain ⟨whole, hshift, hwhole⟩ := shiftLeft32_eq hj (lt_of_le_of_lt hle hlt)
  simp only at hfour hshort hle hwhole
  have hpow : 1 ≤ 2 ^ scale.toNat := Nat.one_le_two_pow
  have hcapacity : 4 ≤ whole.toNat := by
    rw [hwhole]
    exact hfour.trans (Nat.le_mul_of_pos_right _ hpow)
  obtain ⟨rbuf, hset, hblank, hlength⟩ := h.rbuf.setCapacity host.fresh hcapacity
  rw [hshift, checked_ok, ok_bind, hset, checked_ok, ok_bind, checked_assertThat rfl, ok_bind]
  have havailable : rbuf.getWriteRemaining = whole.toNat := by
    rw [hblank.valid.getWriteRemaining_eq, hblank.length_ahead, hlength]
  have hwindow : UInt32.ofNat rbuf.getWriteRemaining = whole := by
    rw [havailable, UInt32.ofNat_toNat]
  refine .ok ?_
  simp only [rcvAvailable, hwindow]
  have hc := h.congestion
  refine { h with
    rbuf := hblank
    congestion := { hc with ssthresh_pos := ?_ }
    window := hlength.symm
    advertised := ?_
    scale := hj }
  · change whole ≠ 0
    rintro rfl
    exact absurd hcapacity (by decide)
  · change 4 ≤ (whole >>> scale.toUInt32).toUInt16.toNat
    have hunit : (whole >>> scale.toUInt32).toNat = unit.toNat := by
      rw [UInt32.toNat_shiftRight, UInt8.toNat_toUInt32, Nat.mod_eq_of_lt (by omega), hwhole,
        Nat.shiftRight_eq_div_pow, Nat.mul_div_cancel _ hpow]
    rw [UInt32.toNat_toUInt16, hunit, Nat.mod_eq_of_lt hshort]
    exact hfour

theorem Fresh.setOption {e : Endpoint} (h : e.Fresh) (host : Host)
    {option : TcpOption × UInt32} (hoption : ConfigAllowed option) :
    Ends (e.setOption host option.1 option.2) Fresh := by
  obtain ⟨kind, value⟩ := option
  have hc := h.congestion
  cases kind with
  | nodelay =>
      exact .ok { h with }
  | ackdelay =>
      exact .ok { h with }
  | rcvbuf =>
      simp only [Endpoint.setOption, checked_assertThat h.state, ok_bind]
      exact h.resizeReceiveBuffer host (hoption (.inl rfl))
  | sndbuf =>
      obtain ⟨sbuf, hset, hblank, -⟩ := h.sbuf.setCapacity host.fresh (hoption (.inr rfl))
      simp only at hset
      simp only [Endpoint.setOption, checked_assertThat h.state, ok_bind, resizeSendBuffer, hset,
        checked_ok]
      exact .ok { h with sbuf := hblank, congestion := { h.congestion with } }

theorem Fresh.configure {e : Endpoint} (h : e.Fresh) (host : Host)
    (options : List (TcpOption × UInt32)) (hoptions : ∀ option ∈ options, ConfigAllowed option) :
    Ends (e.configure host options) Fresh := by
  induction options generalizing e with
  | nil => exact .ok h
  | cons option options ih =>
      refine (h.setOption host (hoptions option List.mem_cons_self)).bind ?_
      intro e₁ h₁
      exact ih h₁ fun o ho => hoptions o (List.mem_cons_of_mem _ ho)

theorem Fresh.sender_ok {e : Endpoint} (h : e.Fresh) (v : View) : e.sender.Ok v := by
  obtain ⟨huna, hnxt, hwnd, hswnd⟩ := h.sent
  have huna' : e.sender.una.toNat = 0 := congrArg UInt32.toNat huna
  have hnxt' : e.sender.nxt.toNat = 0 := congrArg UInt32.toNat hnxt
  have hwnd' : e.sender.wnd.toNat = 1 := congrArg UInt32.toNat hwnd
  have hqueued : e.sender.queued = [] := h.streams.1
  have hslist : e.sender.slist = [] := h.nothing.1
  refine ⟨⟨h.sbuf.valid, h.sbuf.opened, h.sbuf.capacity, h.sbuf.capacity_lt, ?_⟩, h.congestion,
    ?_, ⟨[], [], hslist, ?_, ?_, nofun, nofun, nofun⟩, ?_, ?_, ?_, ?_, ?_, .inl hswnd⟩
  · rw [hqueued, List.drop_nil]
    exact h.sbuf.readable
  · rw [hqueued]
    decide
  · exact huna'.trans hnxt'.symm
  · rw [hqueued]
    exact hnxt'
  · rw [hslist]
    nofun
  · omega
  · omega
  · omega
  · exact fun _ hne => absurd hqueued hne

theorem Fresh.receiver_ok {e : Endpoint} (h : e.Fresh) {v : View} (hcut : v.cut 0) :
    e.receiver.Ok v := by
  have hnxt : e.receiver.nxt.toNat = 0 := congrArg UInt32.toNat h.rcvNxt
  have hrlist : e.receiver.rlist = [] := h.nothing.2.1
  have hdelivered : e.receiver.delivered = [] := h.streams.2.2
  have hwindow : e.receiver.wnd.toNat = e.rbuf.bufferLength := h.window
  refine ⟨h.rbuf.valid, h.rbuf.opened, h.rbuf.capacity_lt, h.scale, ?_, .inl h.rcvNxt,
    fun _ => h.rbuf.readable, ?_, fun _ => ⟨h.advertised, ?_⟩, ?_, fun _ => ⟨?_, ?_⟩⟩
  · rw [hnxt]
    exact hcut
  · exact (hwindow.trans h.rbuf.length_ahead.symm).le
  · rw [hwindow]
    exact h.rbuf.capacity
  · rw [hrlist]
    nofun
  · rw [hnxt, List.take_zero, List.drop_nil, hdelivered]
    exact h.rbuf.readable
  · rw [hrlist]
    nofun

theorem Fresh.inv {e : Endpoint} (h : e.Fresh) {v : View} {n : Nat} (hcut : v.cut 0)
    (hroom : 4 + n < 2 ^ 32) : e.Inv v n := by
  have hqueued : e.queued = [] := h.streams.1
  refine ⟨⟨h.sender_ok v, h.receiver_ok hcut, ?_, .inl ⟨hqueued, h.streams.2.1⟩,
    fun _ => hqueued, ?_, h.supportWndScale, ?_, ?_⟩, ?_⟩
  · change max 4 e.queued.length + n < 2 ^ 32
    rw [hqueued]
    exact hroom
  · intro hstate
    rw [show e.core.common.state = .listen from h.state] at hstate
    rcases hstate with hstate | hstate | hstate <;> cases hstate
  · change 120 ≤ e.mtuAdvise.toNat
    rw [h.mtuAdvise]
    decide
  · change e.mtuAdvise.toNat ≤ 65535
    rw [h.mtuAdvise]
    decide
  · rw [h.nothing.2.2]
    nofun

end Endpoint

end LibMsf
