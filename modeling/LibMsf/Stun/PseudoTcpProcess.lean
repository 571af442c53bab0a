import LibMsf.Stun.PseudoTcp

/-!
The receiving half of the pseudo-TCP stream, its clock and its interface.

`process` is written in the parts that the source has: control data, the acknowledgement, the
adjustment of the segment to the receive window, its data, and the answer. The callbacks of
`IPseudoTcpNotify` may call `Send`, `Recv` and `Close`; what an application does in them is a list
of such calls, given with the packet or the clock that leads to the callback.
-/

namespace LibMsf

open Cxx

def einval : Int := 22
def ewouldblock : Int := 11
def enotconn : Int := 107

/-- `value << scale`; a shift by the width of the type or more is not defined. -/
def shiftLeft32 (value : UInt32) (scale : UInt8) : Except Fault UInt32 :=
  if scale < 32 then .ok (value <<< scale.toUInt32) else .error .overflow

def quotient32 (a b : UInt32) : Except Fault UInt32 :=
  if b = 0 then .error .aborted else .ok (a / b)

inductive AppCall where
  | send (data : Bytes)
  | recv (len : Nat)
  | close (force : Bool)
  deriving DecidableEq, Repr

/-- What the application does in each callback. -/
structure Notify where
  onTcpOpen : List AppCall := []
  onTcpReadable : List AppCall := []
  onTcpWriteable : List AppCall := []
  onTcpClosed : List AppCall := []
  deriving DecidableEq, Repr

inductive TcpOption where
  | nodelay
  | ackdelay
  | rcvbuf
  | sndbuf
  deriving DecidableEq, Repr

namespace Endpoint

def connectMessage (e : Endpoint) : Bytes :=
  if e.supportWndScale then [ctlConnect, tcpOptWndScale, 1, e.rwndScale] else [ctlConnect]

def queueConnectMessage (e : Endpoint) : Except Halt Endpoint := do
  let buf := e.connectMessage
  let r ← queue { e with sndWnd := .ofNat buf.length } buf true
  return r.1

/-- The scale with which a size fits into 16 bits, and the size at that scale. -/
def scaleFor : Nat → UInt8 → UInt32 → Except Halt (UInt8 × UInt32)
  | 0, _, _ => .error .unfinished
  | turns + 1, scale, size =>
      if 0xFFFF < size then scaleFor turns (scale + 1) (size >>> 1) else .ok (scale, size)

def resizeReceiveBuffer (host : Host) (e : Endpoint) (newSize : UInt32) :
    Except Halt Endpoint := do
  let scaled ← scaleFor 32 0 newSize
  let size ← checked (shiftLeft32 scaled.2 scaled.1)
  let r ← checked (e.rbuf.setCapacity host.fresh size.toNat)
  checked (assertThat (r.2 = true))
  let e := { e with rbuf := r.1, rbufLen := size, rwndScale := scaled.1, ssthresh := size }
  return { e with rcvWnd := e.rcvAvailable }

def resizeSendBuffer (host : Host) (e : Endpoint) (newSize : UInt32) : Except Halt Endpoint := do
  let r ← checked (e.sbuf.setCapacity host.fresh newSize.toNat)
  return { e with sbuf := r.1, sbufLen := newSize }

def applyOption (e : Endpoint) (kind : UInt8) (data : Bytes) : Endpoint :=
  if kind = tcpOptWndScale ∧ data.length = 1 then { e with swndScale := data.headD 0 } else e

/-- The loop of `parseOptions`, which gives the kinds that were specified; none for an option
that is longer than what is left. A length that cannot be read is zero. -/
def optionLoop (len : Nat) :
    Nat → Endpoint → Bytes → List UInt8 → Except Halt (Endpoint × Option (List UInt8))
  | _, e, [], specified => .ok (e, some specified)
  | 0, _, _ :: _, _ => .error .unfinished
  | turns + 1, e, kind :: rest, specified =>
      if kind = tcpOptEol then .ok (e, some specified)
      else if kind = tcpOptNoop then optionLoop len turns e rest specified
      else do
        checked (assertThat (len ≠ 0))
        let optLen := (rest.headD 0).toNat
        let content := rest.tail
        if optLen ≤ content.length then
          optionLoop len turns (e.applyOption kind (content.take optLen)) (content.drop optLen)
            (kind :: specified)
        else return (e, none)

def parseOptions (host : Host) (e : Endpoint) (data : Bytes) : Except Halt Endpoint := do
  let r ← optionLoop data.length data.length e data []
  match r.2 with
  | none => return r.1
  | some specified =>
      if tcpOptWndScale ∉ specified ∧ 0 < r.1.rwndScale then do
        let e ← r.1.resizeReceiveBuffer host defaultRcvBufSize
        return { e with swndScale := 0 }
      else return r.1

def connect (host : Host) (e : Endpoint) : Except Halt (Endpoint × Int) :=
  if e.state ≠ .listen then .ok ({ e with error := einval }, -1)
  else do
    let e ← queueConnectMessage { e with state := .synSent }
    let e ← attemptSend host e .none
    return (e, 0)

/-- `Send`; the count is -1 where nothing is taken. -/
def send (host : Host) (e : Endpoint) (data : Bytes) : Except Halt (Endpoint × Int) :=
  if e.state ≠ .established then .ok ({ e with error := enotconn }, -1)
  else if e.sbuf.getWriteRemaining = 0 then
    .ok ({ e with bWriteEnable := true, error := ewouldblock }, -1)
  else do
    let r ← e.queue data false
    let e := { r.1 with accepted := r.1.accepted ++ data.take r.2.toNat }
    let e ← attemptSend host e .none
    return (e, r.2.toNat)

/-- The end of `Recv`: the window is opened again when there is room for a whole segment. -/
def openWindow (host : Host) (e : Endpoint) : Except Halt Endpoint :=
  if min (e.rbufLen / 2) e.mss ≤ e.rcvAvailable - e.rcvWnd then
    if e.rcvWnd = 0 then attemptSend host { e with rcvWnd := e.rcvAvailable } .immediateAck
    else .ok { e with rcvWnd := e.rcvAvailable }
  else .ok e

/-- `Recv`; the bytes are none where the source returns -1. -/
def recv (host : Host) (e : Endpoint) (len : Nat) : Except Halt (Endpoint × Option Bytes) :=
  if e.state ≠ .established then .ok ({ e with error := enotconn }, none)
  else do
    let r ← checked (e.rbuf.read len)
    if r.2.1 = .block then
      return ({ e with rbuf := r.1, bReadEnable := true, error := ewouldblock }, none)
    else do
      checked (assertThat (r.2.1 = .success))
      let e ← openWindow host { e with rbuf := r.1, delivered := e.delivered ++ r.2.2 }
      return (e, some r.2.2)

def close (e : Endpoint) (force : Bool) : Endpoint :=
  { e with shutdown := if force then .forceful else .graceful }

def appCall (host : Host) (e : Endpoint) : AppCall → Except Halt Endpoint
  | .send data => do
      let r ← e.send host data
      return r.1
  | .recv len => do
      let r ← e.recv host len
      return r.1
  | .close force => .ok (e.close force)

def callback (host : Host) : Endpoint → List AppCall → Except Halt Endpoint
  | e, [] => .ok e
  | e, call :: calls => do
      let e ← e.appCall host call
      callback host e calls

def closedown (host : Host) (notify : Notify) (e : Endpoint) : Except Halt Endpoint :=
  callback host { e with state := .closed } notify.onTcpClosed

/-- The level of the first standard size that is not above the advised one. -/
def mssLevel (mtu : UInt32) : Nat → List UInt32 → Nat
  | level, size :: next :: rest =>
      if next = 0 ∨ size ≤ mtu then level else mssLevel mtu (level + 1) (next :: rest)
  | level, _ => level

def adjustMTU (e : Endpoint) : Endpoint :=
  let mss := e.mtuAdvise - packetOverhead
  { e with
    msslevel := .ofNat (mssLevel e.mtuAdvise 0 packetMaximums)
    mss := mss
    ssthresh := max e.ssthresh (2 * mss)
    cwnd := max e.cwnd mss }

def notifyMTU (e : Endpoint) (mtu : UInt16) : Endpoint :=
  let e := { e with mtuAdvise := mtu.toUInt32 }
  if e.state = .established then e.adjustMTU else e

def setOption (host : Host) (e : Endpoint) (option : TcpOption) (value : UInt32) :
    Except Halt Endpoint :=
  match option with
  | .nodelay => .ok { e with useNagling := decide (value = 0) }
  | .ackdelay => .ok { e with ackDelay := value }
  | .sndbuf => do
      checked (assertThat (e.state = .listen))
      e.resizeSendBuffer host value
  | .rcvbuf => do
      checked (assertThat (e.state = .listen))
      e.resizeReceiveBuffer host value

/-- The connection is open: `TCP_ESTABLISHED` and what follows from it. -/
def establish (host : Host) (notify : Notify) (e : Endpoint) : Except Halt Endpoint :=
  callback host (adjustMTU { e with state := .established }) notify.onTcpOpen

/-- The peer opens the connection, or answers. -/
def receiveConnect (host : Host) (notify : Notify) (e : Endpoint) : Except Halt Endpoint :=
  match e.state with
  | .listen => queueConnectMessage { e with state := .synReceived }
  | .synSent => e.establish host notify
  | _ => .ok e

/-- Control data. The answer is false where `process` returns. -/
def control (host : Host) (notify : Notify) (e : Endpoint) (seg : Segment) :
    Except Halt (Endpoint × Bool) :=
  match seg.data with
  | [] => .ok (e, false)
  | code :: options =>
      if code = ctlConnect then do
        let e ← e.parseOptions host options
        let e ← e.receiveConnect host notify
        return (e, true)
      else .ok (e, false)

/-- The estimate of the round trip. -/
def measureRtt (e : Endpoint) (now tsecr : UInt32) : Endpoint :=
  if tsecr ≠ 0 ∧ 0 ≤ timeDiff32 now tsecr then
    let rtt := now - tsecr
    let rttvar :=
      if e.rxSrtt = 0 then rtt / 2
      else (3 * e.rxRttvar + (if e.rxSrtt < rtt then rtt - e.rxSrtt else e.rxSrtt - rtt)) / 4
    let srtt := if e.rxSrtt = 0 then rtt else (7 * e.rxSrtt + rtt) / 8
    let rto := max 1 (4 * rttvar)
    { e with
      rxRttvar := rttvar
      rxSrtt := srtt
      rxRto := if rto < minRto then minRto else if maxRto ≤ rto then maxRto else rto }
  else e

/-- The loop that takes acknowledged bytes from the send list. A segment of which only a part
is acknowledged gets shorter and keeps its sequence number. -/
def freeAcked : List SSegment → UInt32 → UInt32 → Except Fault (List SSegment × UInt32)
  | [], nFree, largest => if nFree = 0 then .ok ([], largest) else .error .assertion
  | front :: rest, nFree, largest =>
      if nFree = 0 then .ok (front :: rest, largest)
      else if nFree < front.len then
        .ok ({ front with len := front.len - nFree } :: rest, largest)
      else freeAcked rest (nFree - front.len) (max largest front.len)

/-- The congestion window after an acknowledgement outside of recovery. -/
def growWindow (e : Endpoint) : Except Halt Endpoint :=
  if e.cwnd < e.ssthresh then .ok { e with dupAcks := 0, cwnd := e.cwnd + e.mss }
  else do
    let step ← checked (quotient32 (e.mss * e.mss) e.cwnd)
    return { e with dupAcks := 0, cwnd := e.cwnd + max 1 step }

/-- What an acknowledgement of new bytes does to the send queue. -/
def acked (e : Endpoint) (ack wnd now : UInt32) (sbuf : FifoBuffer)
    (freed : List SSegment × UInt32) : Endpoint :=
  { e with
    sndWnd := wnd
    sndUna := ack
    rtoBase := if ack = e.sndNxt then 0 else now
    sbuf := sbuf
    slist := freed.1
    largest := freed.2 }

/-- The first segment is sent again. Where that fails the connection is closed, and the caller
returns. -/
def resendFront (host : Host) (notify : Notify) (e : Endpoint) (now : UInt32) :
    Except Halt (Endpoint × Bool) := do
  let r ← e.transmit host 0 now
  if r.2 = false then do
    let e ← r.1.closedown host notify
    return (e, false)
  else return (r.1, true)

/-- The congestion window after an acknowledgement of a part of what recovery waits for. -/
def deflate (e : Endpoint) (nAcked : UInt32) : Endpoint :=
  { e with cwnd := e.cwnd + (e.mss - min nAcked e.cwnd) }

/-- The congestion control behind an acknowledgement of new bytes; in recovery the next segment
is sent again. -/
def afterAck (host : Host) (notify : Notify) (e : Endpoint) (nAcked now : UInt32) :
    Except Halt (Endpoint × Bool) :=
  if 3 ≤ e.dupAcks then
    if e.recover ≤ e.sndUna then
      .ok ({ e with cwnd := min e.ssthresh (e.sndNxt - e.sndUna + e.mss), dupAcks := 0 }, true)
    else do
      let r ← e.resendFront host notify now
      if r.2 = false then return r
      else return (r.1.deflate nAcked, true)
  else do
    let e ← e.growWindow
    return (e, true)

/-- An acknowledgement of new bytes. -/
def valuableAck (host : Host) (notify : Notify) (e : Endpoint) (seg : Segment) (now : UInt32) :
    Except Halt (Endpoint × Bool) := do
  let e := e.measureRtt now seg.tsecr
  let wnd ← checked (shiftLeft32 seg.wnd.toUInt32 e.swndScale)
  let nAcked := seg.ack - e.sndUna
  let sbuf ← checked (e.sbuf.consumeReadData nAcked.toNat)
  let freed ← checked (freeAcked e.slist nAcked e.largest)
  (e.acked seg.ack wnd now sbuf freed).afterAck host notify nAcked now

/-- The beginning of recovery. -/
def enterRecovery (e : Endpoint) : Endpoint :=
  let ssthresh := max ((e.sndNxt - e.sndUna) / 2) (2 * e.mss)
  { e with recover := e.sndNxt, ssthresh := ssthresh, cwnd := ssthresh + 3 * e.mss }

/-- A repeated acknowledgement while bytes are in flight, when it has been counted. -/
def countedAck (host : Host) (notify : Notify) (e : Endpoint) (now : UInt32) :
    Except Halt (Endpoint × Bool) :=
  if e.dupAcks = 3 then do
    let r ← e.resendFront host notify now
    if r.2 = false then return r
    else return (r.1.enterRecovery, true)
  else if 3 < e.dupAcks then .ok ({ e with cwnd := e.cwnd + e.mss }, true)
  else .ok (e, true)

/-- A repeated acknowledgement without data. -/
def duplicateAck (host : Host) (notify : Notify) (e : Endpoint) (now : UInt32) :
    Except Halt (Endpoint × Bool) :=
  if e.sndUna ≠ e.sndNxt then countedAck host notify { e with dupAcks := e.dupAcks + 1 } now
  else .ok ({ e with dupAcks := 0 }, true)

/-- An acknowledgement that says nothing new. -/
def repeatedAck (host : Host) (notify : Notify) (e : Endpoint) (seg : Segment) (now : UInt32) :
    Except Halt (Endpoint × Bool) := do
  let wnd ← checked (shiftLeft32 seg.wnd.toUInt32 e.swndScale)
  let e := { e with sndWnd := wnd }
  if 0 < seg.len then return (e, true)
  else e.duplicateAck host notify now

def acknowledge (host : Host) (notify : Notify) (e : Endpoint) (seg : Segment) (now : UInt32) :
    Except Halt (Endpoint × Bool) :=
  if e.sndUna < seg.ack ∧ seg.ack ≤ e.sndNxt then e.valuableAck host notify seg now
  else if seg.ack = e.sndUna then e.repeatedAck host notify seg now
  else .ok (e, true)

/-- The connection is open when the peer sends anything behind its opening message. -/
def openOnAck (host : Host) (notify : Notify) (e : Endpoint) (bConnect : Bool) :
    Except Halt Endpoint :=
  if e.state = .synReceived ∧ bConnect = false then e.establish host notify else .ok e

/-- Room in the send queue. -/
def refill (host : Host) (notify : Notify) (e : Endpoint) : Except Halt Endpoint :=
  if e.bWriteEnable = true ∧ e.sndBuffered < (e.sbufLen + e.rbufLen) / 2 then
    callback host { e with bWriteEnable := false } notify.onTcpWriteable
  else .ok e

def answerFlags (e : Endpoint) (seg : Segment) : SendFlags :=
  if seg.seq ≠ e.rcvNxt then .immediateAck
  else if seg.len ≠ 0 then if e.ackDelay = 0 then .immediateAck else .delayedAck
  else .none

/-- What was received before is cut off the front. -/
def trimFront (e : Endpoint) (seg : Segment) : Segment :=
  if seg.seq < e.rcvNxt then
    let nAdjust := e.rcvNxt - seg.seq
    if nAdjust < seg.len then
      { seg with seq := seg.seq + nAdjust, data := seg.data.drop nAdjust.toNat }
    else { seg with data := [] }
  else seg

/-- What does not fit into the receive buffer is cut off the end. -/
def trimBack (e : Endpoint) (seg : Segment) : Segment :=
  let available := e.rcvAvailable
  if available < seg.seq + seg.len - e.rcvNxt then
    let nAdjust := seg.seq + seg.len - e.rcvNxt - available
    if nAdjust < seg.len then { seg with data := seg.data.take (seg.len - nAdjust).toNat }
    else { seg with data := [] }
  else seg

def insertSegment (rseg : RSegment) : List RSegment → List RSegment
  | [] => [rseg]
  | r :: rs => if r.seq < rseg.seq then r :: insertSegment rseg rs else rseg :: r :: rs

/-- The next bytes, which are in the buffer, can be read. -/
def makeReadable (e : Endpoint) (len : UInt32) : Except Halt Endpoint := do
  let rbuf ← checked (e.rbuf.consumeWriteBuffer len.toNat)
  return { e with rbuf := rbuf, rcvNxt := e.rcvNxt + len, rcvWnd := e.rcvWnd - len }

/-- Segments that came out of order and can be read now. The answer is whether there were any. -/
def recoverLoop : Endpoint → List RSegment → Bool → Except Halt (Endpoint × Bool)
  | e, [], found => .ok ({ e with rlist := [] }, found)
  | e, r :: rs, found =>
      if r.seq ≤ e.rcvNxt then
        if e.rcvNxt < r.seq + r.len then do
          let e ← e.makeReadable (r.seq + r.len - e.rcvNxt)
          recoverLoop e rs true
        else recoverLoop e rs found
      else .ok ({ e with rlist := r :: rs }, found)

/-- Data that is not kept: that of a control segment, or any after `Close`. -/
def ignoreData (e : Endpoint) (seg : Segment) : Except Halt (Endpoint × Bool) :=
  if seg.seq = e.rcvNxt then
    let moved := { e with rcvNxt := e.rcvNxt + seg.len }
    if e.rbuf.getBuffered = 0 then do
      let rbuf ← checked (e.rbuf.consumeWriteBuffer seg.len.toNat)
      let rbuf ← checked (rbuf.consumeReadData seg.len.toNat)
      recoverLoop { moved with rbuf := rbuf } e.rlist false
    else .ok (moved, false)
  else .ok (e, false)

/-- Data that is kept. The answer is whether there is something new to read and whether some of
it had come out of order; none where `process` returns. -/
def storeData (e : Endpoint) (seg : Segment) : Except Halt (Option (Endpoint × Bool × Bool)) := do
  let r ← checked (e.rbuf.writeOffset seg.data (seg.seq - e.rcvNxt).toNat)
  if r.2.1 = .block then return none
  else do
    checked (assertThat (r.2.1 = .success))
    let e := { e with rbuf := r.1 }
    if seg.seq = e.rcvNxt then do
      let e ← e.makeReadable seg.len
      let found ← recoverLoop e e.rlist false
      return some (found.1, true, found.2)
    else return some ({ e with
        rlist := insertSegment { seq := seg.seq, len := seg.len } e.rlist }, false, false)

/-- The data of a segment. The answer is whether there is something new to read and whether some
of it had come out of order. -/
def receiveData (e : Endpoint) (seg : Segment) : Except Halt (Option (Endpoint × Bool × Bool)) :=
  if seg.len = 0 then .ok (some (e, false, false))
  else if seg.flags &&& flagCtl ≠ 0 ∨ e.shutdown ≠ .none then do
    let r ← e.ignoreData seg
    return some (r.1, r.2, r.2)
  else e.storeData seg

/-- From the acknowledgement flags on. -/
def accept (host : Host) (notify : Notify) (e : Endpoint) (seg : Segment) :
    Except Halt (Endpoint × Bool) := do
  let sflags := e.answerFlags seg
  let seg := e.trimBack (e.trimFront seg)
  let r ← e.receiveData seg
  match r with
  | none => return (e, false)
  | some (received, bNewData, recovered) => do
      let e ← received.attemptSend host (if recovered then .immediateAck else sflags)
      if bNewData = true ∧ e.bReadEnable = true then do
        let e ← callback host { e with bReadEnable := false } notify.onTcpReadable
        return (e, true)
      else return (e, true)

/-- From the acknowledgement on. -/
def processAck (host : Host) (notify : Notify) (e : Endpoint) (seg : Segment) (now : UInt32)
    (bConnect : Bool) : Except Halt (Endpoint × Bool) := do
  let e := if seg.seq ≤ e.tsLastack ∧ e.tsLastack < seg.seq + seg.len
    then { e with tsRecent := seg.tsval } else e
  let r ← e.acknowledge host notify seg now
  if r.2 = false then return (r.1, false)
  else do
    let e ← r.1.openOnAck host notify bConnect
    let e ← e.refill host notify
    e.accept host notify seg

def process (host : Host) (notify : Notify) (e : Endpoint) (seg : Segment) :
    Except Halt (Endpoint × Bool) :=
  if seg.conv ≠ e.conv then .ok (e, false)
  else
    let now := host.clock e.ticks
    let e : Endpoint := { e.tick with lasttraffic := now, lastrecv := now, bOutgoing := false }
    if e.state = .closed then .ok (e, false)
    else if seg.flags &&& flagRst ≠ 0 then do
      let e ← e.closedown host notify
      return (e, false)
    else if seg.flags &&& flagCtl ≠ 0 then do
      let r ← e.control host notify seg
      if r.2 = false then return (r.1, false)
      else r.1.processAck host notify seg now true
    else e.processAck host notify seg now false

/-- The fields of a packet. -/
def parseSegment (buffer : Bytes) : Option Segment :=
  if buffer.length < headerSize.toNat then none
  else some {
    conv := .ofNat (ofNetwork (buffer.take 4))
    seq := .ofNat (ofNetwork ((buffer.drop 4).take 4))
    ack := .ofNat (ofNetwork ((buffer.drop 8).take 4))
    flags := (buffer.drop 13).headD 0
    wnd := .ofNat (ofNetwork ((buffer.drop 14).take 2))
    tsval := .ofNat (ofNetwork ((buffer.drop 16).take 4))
    tsecr := .ofNat (ofNetwork ((buffer.drop 20).take 4))
    data := buffer.drop headerSize.toNat }

def parse (host : Host) (notify : Notify) (e : Endpoint) (buffer : Bytes) :
    Except Halt (Endpoint × Bool) :=
  match parseSegment buffer with
  | none => .ok (e, false)
  | some seg => e.process host notify seg

def notifyPacket (host : Host) (notify : Notify) (e : Endpoint) (buffer : Bytes) :
    Except Halt (Endpoint × Bool) :=
  if maxPacket.toNat < buffer.length then .ok (e, false) else e.parse host notify buffer

/-- After the retransmission timer ran out. The limit is lower when connecting. -/
def backOff (e : Endpoint) (now : UInt32) : Endpoint :=
  let limit := if e.state = .established ∨ e.state = .closed then maxRto else defRto
  { e with
    ssthresh := max ((e.sndNxt - e.sndUna) / 2) (2 * e.mss)
    cwnd := e.mss
    rxRto := min limit (e.rxRto * 2)
    rtoBase := now }

/-- The retransmission timer. The answer is false where `NotifyClock` returns. -/
def retransmit (host : Host) (notify : Notify) (e : Endpoint) (now : UInt32) :
    Except Halt (Endpoint × Bool) :=
  if e.rtoBase ≠ 0 ∧ timeDiff32 (e.rtoBase + e.rxRto) now ≤ 0 ∧ e.slist ≠ [] then do
    let r ← e.resendFront host notify now
    if r.2 = false then return r
    else return (r.1.backOff now, true)
  else .ok (e, true)

/-- The probe of a closed window. -/
def probe (host : Host) (notify : Notify) (e : Endpoint) (now : UInt32) :
    Except Halt (Endpoint × Bool) :=
  if e.sndWnd = 0 ∧ timeDiff32 (e.lastsend + e.rxRto) now ≤ 0 then
    if 15000 ≤ timeDiff32 now e.lastrecv then do
      let e ← e.closedown host notify
      return (e, false)
    else do
      let r ← e.packet host (e.sndNxt - 1) 0 0 0
      return ({ r.1 with lastsend := now, rxRto := min maxRto (r.1.rxRto * 2) }, true)
  else .ok (e, true)

def notifyClock (host : Host) (notify : Notify) (e : Endpoint) (now : UInt32) :
    Except Halt Endpoint :=
  if e.state = .closed then .ok e
  else do
    let r ← e.retransmit host notify now
    if r.2 = false then return r.1
    else do
      let r ← r.1.probe host notify now
      if r.2 = false then return r.1
      else if r.1.tAck ≠ 0 ∧ timeDiff32 (r.1.tAck + r.1.ackDelay) now ≤ 0 then do
        let sent ← r.1.packet host r.1.sndNxt 0 0 0
        return sent.1
      else return r.1

end Endpoint

end LibMsf
