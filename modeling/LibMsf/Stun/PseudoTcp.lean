import LibMsf.Cxx.Halt
import LibMsf.Cxx.Integers
import LibMsf.Cxx.NetworkOrder
import LibMsf.Stun.FifoBuffer

/-!
The sending half of the pseudo-TCP stream: its state, its packets and the send queue.

An `Endpoint` is the object together with what it has told the outside: the packets that
`TcpWritePacket` took, the bytes that were queued, and the bytes that the application gave to
`Send` and got from `Recv`. The clock and the answers of `TcpWritePacket` come from a `Host`,
which can be anything. Sequence numbers are `uint32_t` and are compared as such, without regard
to wrapping. The send list tiles the send buffer; a position in it is the index of a segment.
-/

namespace LibMsf

open Cxx

inductive TcpState where
  | listen
  | synSent
  | synReceived
  | established
  | closed
  deriving DecidableEq, Repr

inductive Shutdown where
  | none
  | graceful
  | forceful
  deriving DecidableEq, Repr

inductive WriteResult where
  | success
  | tooLarge
  | fail
  deriving DecidableEq, Repr

inductive SendFlags where
  | none
  | delayedAck
  | immediateAck
  deriving DecidableEq, Repr

/-- A parsed packet; `len` is the length of the data. -/
structure Segment where
  conv : UInt32
  seq : UInt32
  ack : UInt32
  flags : UInt8
  wnd : UInt16
  data : Bytes
  tsval : UInt32
  tsecr : UInt32
  deriving DecidableEq, Repr

def Segment.len (seg : Segment) : UInt32 := .ofNat seg.data.length

structure SSegment where
  seq : UInt32
  len : UInt32
  xmit : UInt8
  bCtrl : Bool
  deriving DecidableEq, Repr

structure RSegment where
  seq : UInt32
  len : UInt32
  deriving DecidableEq, Repr

def packetMaximums : List UInt32 :=
  [65535, 32000, 17914, 8166, 4352, 2002, 1492, 1006, 508, 296, 0]

def maxPacket : UInt32 := 65535
def minPacket : UInt32 := 296
def defaultRcvBufSize : UInt32 := 60 * 1024
def defaultSndBufSize : UInt32 := 90 * 1024
def headerSize : UInt32 := 24
/-- The header, and those of UDP, IP and the relay framing. -/
def packetOverhead : UInt32 := headerSize + 8 + 20 + 64
def minRto : UInt32 := 250
def defRto : UInt32 := 3000
def maxRto : UInt32 := 60000
def defAckDelay : UInt32 := 100
def flagCtl : UInt8 := 0x02
def flagRst : UInt8 := 0x04
def ctlConnect : UInt8 := 0
def tcpOptEol : UInt8 := 0
def tcpOptNoop : UInt8 := 1
def tcpOptWndScale : UInt8 := 3
def closedTimeout : Int := 60 * 1000
def defaultTimeout : Int := 4000

def timeDiff32 (later earlier : UInt32) : Int := signedUInt32 (later - earlier)

structure PseudoTcp where
  shutdown : Shutdown
  error : Int
  state : TcpState
  conv : UInt32
  bReadEnable : Bool
  bWriteEnable : Bool
  bOutgoing : Bool
  lasttraffic : UInt32
  rlist : List RSegment
  rbufLen : UInt32
  rcvNxt : UInt32
  rcvWnd : UInt32
  lastrecv : UInt32
  rwndScale : UInt8
  rbuf : FifoBuffer
  slist : List SSegment
  sbufLen : UInt32
  sndNxt : UInt32
  sndWnd : UInt32
  lastsend : UInt32
  sndUna : UInt32
  swndScale : UInt8
  sbuf : FifoBuffer
  mss : UInt32
  msslevel : UInt32
  largest : UInt32
  mtuAdvise : UInt32
  rtoBase : UInt32
  tsRecent : UInt32
  tsLastack : UInt32
  rxRttvar : UInt32
  rxSrtt : UInt32
  rxRto : UInt32
  ssthresh : UInt32
  cwnd : UInt32
  dupAcks : UInt8
  recover : UInt32
  tAck : UInt32
  useNagling : Bool
  ackDelay : UInt32
  supportWndScale : Bool

structure Endpoint extends PseudoTcp where
  /-- How often the clock was read. -/
  ticks : Nat
  /-- How often `TcpWritePacket` was called. -/
  writes : Nat
  packets : List Bytes
  queued : Bytes
  accepted : Bytes
  delivered : Bytes

structure Host where
  clock : Nat → UInt32
  tcpWritePacket : Nat → WriteResult
  /-- What the cells of a new block of memory hold. -/
  fresh : Nat → UInt8

namespace Endpoint

/-- `m_sbuf.GetWriteRemaining`, and the like, where the code keeps them in 32 bits. -/
def sndBuffered (e : Endpoint) : UInt32 := .ofNat e.sbuf.getBuffered
def sndAvailable (e : Endpoint) : UInt32 := .ofNat e.sbuf.getWriteRemaining
def rcvAvailable (e : Endpoint) : UInt32 := .ofNat e.rbuf.getWriteRemaining

def create (host : Host) (conv : UInt32) : Endpoint where
  shutdown := .none
  error := 0
  state := .listen
  conv := conv
  bReadEnable := true
  bWriteEnable := false
  bOutgoing := false
  lasttraffic := host.clock 0
  rlist := []
  rbufLen := defaultRcvBufSize
  rcvNxt := 0
  rcvWnd := defaultRcvBufSize
  lastrecv := host.clock 0
  rwndScale := 0
  rbuf := .create host.fresh defaultRcvBufSize.toNat
  slist := []
  sbufLen := defaultSndBufSize
  sndNxt := 0
  sndWnd := 1
  lastsend := host.clock 0
  sndUna := 0
  swndScale := 0
  sbuf := .create host.fresh defaultSndBufSize.toNat
  mss := minPacket - packetOverhead
  msslevel := 0
  largest := 0
  mtuAdvise := maxPacket
  rtoBase := 0
  tsRecent := 0
  tsLastack := 0
  rxRttvar := 0
  rxSrtt := 0
  rxRto := defRto
  ssthresh := defaultRcvBufSize
  cwnd := 2 * (minPacket - packetOverhead)
  dupAcks := 0
  recover := 0
  tAck := 0
  useNagling := true
  ackDelay := defAckDelay
  supportWndScale := true
  ticks := 1
  writes := 0
  packets := []
  queued := []
  accepted := []
  delivered := []

def tick (e : Endpoint) : Endpoint := { e with ticks := e.ticks + 1 }

/-- New bytes go to the last segment of the send list if it is of the same kind and was not
transmitted yet, and to a segment of their own otherwise. -/
def addSegment (slist : List SSegment) (seq len : UInt32) (bCtrl : Bool) : List SSegment :=
  match slist.getLast? with
  | some back =>
      if back.bCtrl = bCtrl ∧ back.xmit = 0 then
        slist.dropLast ++ [{ back with len := back.len + len }]
      else slist ++ [{ seq := seq, len := len, xmit := 0, bCtrl := bCtrl }]
  | none => slist ++ [{ seq := seq, len := len, xmit := 0, bCtrl := bCtrl }]

/-- `queue`: as many of the bytes as there is room for. -/
def queue (e : Endpoint) (data : Bytes) (bCtrl : Bool) : Except Halt (Endpoint × UInt32) := do
  let available := e.sndAvailable
  let wanted : UInt32 := .ofNat data.length
  checked (assertThat (available < wanted → bCtrl = false))
  let len := if available < wanted then available else wanted
  let r ← checked (e.sbuf.write (data.take len.toNat))
  return ({ e with
      slist := addSegment e.slist (e.sndUna + e.sndBuffered) len bCtrl
      sbuf := r.1
      queued := e.queued ++ (data.take len.toNat).take r.2.2 }, .ofNat r.2.2)

def header (e : Endpoint) (seq : UInt32) (flags : UInt8) (now : UInt32) : Bytes :=
  toNetwork 4 e.conv.toNat ++ (toNetwork 4 seq.toNat ++ (toNetwork 4 e.rcvNxt.toNat ++
    (0 :: flags :: (toNetwork 2 (e.rcvWnd >>> e.rwndScale.toUInt32).toUInt16.toNat ++
      (toNetwork 4 now.toNat ++ toNetwork 4 e.tsRecent.toNat)))))

/-- The payload of a packet, out of the send buffer. -/
def payload (e : Endpoint) (offset len : UInt32) : Except Halt Bytes :=
  if len ≠ 0 then do
    let r ← checked (e.sbuf.readOffset len.toNat offset.toNat)
    checked (assertThat (r.1 = .success))
    checked (assertThat (UInt32.ofNat r.2.length = len))
    return r.2
  else .ok []

/-- `packet`. A packet that `TcpWritePacket` does not take is not on the network; for one
without data its answer is not looked at. -/
def packet (host : Host) (e : Endpoint) (seq : UInt32) (flags : UInt8) (offset len : UInt32) :
    Except Halt (Endpoint × WriteResult) := do
  checked (assertThat (headerSize + len ≤ maxPacket))
  let now := host.clock e.ticks
  let data ← e.payload offset len
  let wres := host.tcpWritePacket e.writes
  let e := { e with
    ticks := e.ticks + 1
    tsLastack := e.rcvNxt
    writes := e.writes + 1
    packets := if wres = .success then e.packets ++ [e.header seq flags now ++ data]
      else e.packets }
  if wres ≠ .success ∧ len ≠ 0 then return (e, wres)
  else return ({ e with
      tAck := 0
      lastsend := if 0 < len then now else e.lastsend
      lasttraffic := now
      bOutgoing := true }, .success)

/-- The next level of the table, whose size is `next`. -/
def lowerTo (e : Endpoint) (next : UInt32) : Endpoint :=
  { e with
    msslevel := e.msslevel + 1
    mss := next - packetOverhead
    cwnd := 2 * (next - packetOverhead) }

/-- The inner loop of `transmit`: the next lower level at which the segment gets shorter. -/
def lowerMss : Nat → Endpoint → UInt32 → Except Halt (Endpoint × Option UInt32)
  | 0, _, _ => .error .unfinished
  | turns + 1, e, nTransmit => do
      let next ← checked (cellAt packetMaximums (e.msslevel.toNat + 1))
      if next = 0 then return (e, none)
      else
        let e := e.lowerTo next
        if e.mss < nTransmit then return (e, some e.mss)
        else lowerMss turns e nTransmit

/-- The outer loop of `transmit`, which gives the length of the packet that was taken. -/
def sendPiece (host : Host) (seg : SSegment) :
    Nat → Endpoint → UInt32 → Except Halt (Endpoint × Option UInt32)
  | 0, _, _ => .error .unfinished
  | turns + 1, e, nTransmit => do
      let r ← e.packet host seg.seq (if seg.bCtrl then flagCtl else 0) (seg.seq - e.sndUna)
        nTransmit
      match r.2 with
      | .success => return (r.1, some nTransmit)
      | .fail => return (r.1, none)
      | .tooLarge =>
          let lower ← lowerMss packetMaximums.length r.1 nTransmit
          match lower.2 with
          | none => return (lower.1, none)
          | some shorter => sendPiece host seg turns lower.1 shorter

/-- Replacing the element at an index of a list by others. -/
def splice {α : Type} (xs : List α) (i : Nat) (ys : List α) : List α :=
  xs.take i ++ ys ++ xs.drop (i + 1)

/-- What is left of a segment behind its first `nTransmit` bytes. -/
def leftover (seg : SSegment) (nTransmit : UInt32) : List SSegment :=
  if nTransmit < seg.len then
    [{ seg with seq := seg.seq + nTransmit, len := seg.len - nTransmit }]
  else []

/-- The end of `transmit`, when the first `nTransmit` bytes of a segment were sent. -/
def transmitted (e : Endpoint) (i : Nat) (seg : SSegment) (nTransmit now : UInt32) : Endpoint :=
  let len := if nTransmit < seg.len then nTransmit else seg.len
  { e with
    slist := splice e.slist i
      ({ seg with len := len, xmit := seg.xmit + 1 } :: leftover seg nTransmit)
    sndNxt := if seg.xmit = 0 then e.sndNxt + len else e.sndNxt
    rtoBase := if e.rtoBase = 0 then now else e.rtoBase }

/-- `transmit`; `i` is the index of the segment in the send list. -/
def transmit (host : Host) (e : Endpoint) (i : Nat) (now : UInt32) :
    Except Halt (Endpoint × Bool) := do
  let seg ← checked (cellAt e.slist i)
  if (if e.state = .established then 15 else 30) ≤ seg.xmit then return (e, false)
  else
    let sent ← sendPiece host seg (packetMaximums.length + 1) e (min seg.len e.mss)
    match sent.2 with
    | none => return (sent.1, false)
    | some nTransmit =>
        return (sent.1.transmitted i seg nTransmit now, true)

/-- The window of `attemptSend`; the first two repeated acknowledgements widen it. -/
def nWindow (e : Endpoint) : UInt32 :=
  min e.sndWnd
    (if e.dupAcks = 1 ∨ e.dupAcks = 2 then e.cwnd + e.dupAcks.toUInt32 * e.mss else e.cwnd)

def nUseable (nWindow nInFlight : UInt32) : UInt32 :=
  if nInFlight < nWindow then nWindow - nInFlight else 0

/-- Less than a quarter of the window is not used. -/
def avoidSilly (nAvailable nUseable nWindow : UInt32) : UInt32 :=
  if nUseable < nAvailable then if nUseable * 4 < nWindow then 0 else nUseable else nAvailable

/-- The bytes that a turn of `attemptSend` may send. -/
def nAvailable (e : Endpoint) : UInt32 :=
  avoidSilly (min (e.sndBuffered - (e.sndNxt - e.sndUna)) e.mss)
    (nUseable e.nWindow (e.sndNxt - e.sndUna)) e.nWindow

/-- The index of the first segment that was not transmitted; running off the list fails the
assertion. -/
def findUnsent : List SSegment → Except Fault Nat
  | [] => .error .outOfBounds
  | seg :: rest =>
      if seg.xmit = 0 then .ok 0
      else if rest = [] then .error .assertion
      else (findUnsent rest).map (· + 1)

/-- A segment that is too large is broken into two. -/
def breakUp (e : Endpoint) (i : Nat) (seg : SSegment) (nAvailable : UInt32) : Endpoint :=
  if nAvailable < seg.len then
    { e with
      slist := splice e.slist i [{ seg with len := nAvailable },
        { seq := seg.seq + nAvailable, len := seg.len - nAvailable, xmit := 0,
          bCtrl := seg.bCtrl }] }
  else e

/-- The loop of `attemptSend`. -/
def sendLoop (host : Host) (now : UInt32) : Nat → Endpoint → SendFlags → Except Halt Endpoint
  | 0, _, _ => .error .unfinished
  | turns + 1, e, sflags =>
      let nAvailable := e.nAvailable
      if nAvailable = 0 then
        if sflags = .none then .ok e
        else if sflags = .immediateAck ∨ e.tAck ≠ 0 then do
          let r ← e.packet host e.sndNxt 0 0 0
          return r.1
        else .ok { e.tick with tAck := host.clock e.ticks }
      else if e.useNagling = true ∧ e.sndUna < e.sndNxt ∧ nAvailable < e.mss then .ok e
      else do
        let i ← checked (findUnsent e.slist)
        let seg ← checked (cellAt e.slist i)
        let r ← (e.breakUp i seg nAvailable).transmit host i now
        if r.2 = false then return r.1
        else sendLoop host now turns r.1 .none

/-- The congestion window after a pause. -/
def restart (e : Endpoint) (now : UInt32) : Endpoint :=
  if (e.rxRto.toNat : Int) < timeDiff32 now e.lastsend then { e with cwnd := e.mss } else e

/-- `attemptSend`. A turn that goes on sends at least one byte that was not sent. -/
def attemptSend (host : Host) (e : Endpoint) (sflags : SendFlags) : Except Halt Endpoint :=
  sendLoop host (host.clock e.ticks) (e.sbuf.getBuffered + 1)
    (e.tick.restart (host.clock e.ticks)) sflags

end Endpoint

end LibMsf
