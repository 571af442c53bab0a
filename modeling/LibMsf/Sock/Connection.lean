import LibMsf.Base.BufferRefinement

/-!
The connection of `network/sock/connection.cc` and `tcp_connection.cc`.

An iovec carries the bytes its memory holds, which nobody changes between its
submission and its release. System calls are arguments: a read brings the bytes that
are waiting or fails, a send has room for some bytes or fails, and `sendmsg` never
transfers more than Linux allows in one call, so its result fits the `int` of
`SendMsg`. Watermarks, addresses and callbacks are left out.
-/

namespace LibMsf

open Cxx

inductive ConnState where
  | none
  | connecting
  | connected
  | closeWaitWrite
  | passiveClose
  | activeClose
  | error
  | closed
deriving DecidableEq, Repr

inductive Errno where
  | eintr
  | eagain
  | ewouldblock
  | other (code : Nat)
deriving DecidableEq, Repr

structure Iovec where
  base : Nat
  data : Bytes
deriving DecidableEq, Repr

def bytesOf (iovs : List Iovec) : Bytes :=
  (iovs.map Iovec.data).flatten

inductive SendResult where
  | room (bytes : Nat)
  | failed (errno : Errno)
deriving DecidableEq, Repr

/-- The most that one call of `sendmsg` transfers. -/
def maxRwCount : Nat := 0x7ffff000

/-- The bytes the kernel takes from the iovecs. -/
def SendResult.taken (iovs : List Iovec) : SendResult → Bytes
  | .room n => (bytesOf iovs).take (min n maxRwCount)
  | .failed _ => []

/-- The value `SendMsg` returns. -/
def SendResult.ret (iovs : List Iovec) : SendResult → Int
  | .room n => ((bytesOf iovs).take (min n maxRwCount)).length
  | .failed _ => -1

/-- The value of `errno` after the call; a call that succeeds leaves it alone. -/
def SendResult.errno : SendResult → Errno
  | .room _ => .other 0
  | .failed e => e

structure TCPConnection where
  fdOpen : Bool
  state : ConnState
  writeEvent : Bool
  readBuf : Buffer
  writeBuf : Buffer
  writePendingQueue : List Iovec
  writeBusyQueue : List Iovec

namespace TCPConnection

def isConnError (ret : Int) (errno : Errno) : Bool :=
  ret == 0 ||
    (decide (ret < 0) && errno != .eintr && errno != .eagain && errno != .ewouldblock)

theorem isConnError_ofNat (n : Nat) (errno : Errno) :
    isConnError (n : Int) errno = decide (n = 0) := by
  cases n with
  | zero => rfl
  | succ n =>
      have hne : (((n + 1 : Nat) : Int) == 0) = false := beq_eq_false_iff_ne.mpr (by omega)
      have hpos : decide (((n + 1 : Nat) : Int) < 0) = false := decide_eq_false (by omega)
      simp only [isConnError, hne, hpos, Bool.false_and, Bool.or_self]
      exact (decide_eq_false (Nat.succ_ne_zero n)).symm

def submitWriteBuffer (conn : TCPConnection) (iov : Iovec) : TCPConnection :=
  { conn with writePendingQueue := conn.writePendingQueue ++ [iov] }

/-- The connection and the caller's queue after the call. -/
def submitWriteIovec (conn : TCPConnection) (queue : List Iovec) : TCPConnection × List Iovec :=
  if queue.isEmpty then (conn, queue)
  else if conn.writePendingQueue.isEmpty then
    ({ conn with writePendingQueue := queue }, conn.writePendingQueue)
  else
    ({ conn with writePendingQueue := conn.writePendingQueue ++ queue }, queue)

def updateWriteBusyIovec (conn : TCPConnection) : TCPConnection × Bool :=
  if conn.writePendingQueue.isEmpty then (conn, false)
  else
    let busy := conn.writeBusyQueue ++ conn.writePendingQueue
    ({ conn with writeBusyQueue := busy, writePendingQueue := [] }, busy.isEmpty)

structure WriteOutcome where
  conn : TCPConnection
  accepted : Bytes
  freed : List Iovec

/-- `UpdateWriteBusyOffset` does nothing with the count it is given. -/
def handleWriteEvent (conn : TCPConnection) (r : SendResult) : WriteOutcome :=
  if conn.state ≠ .connected ∧ conn.state ≠ .closeWaitWrite then ⟨conn, [], []⟩
  else
    let updated := conn.updateWriteBusyIovec
    if updated.2 then ⟨updated.1, [], []⟩
    else
      let conn := updated.1
      let accepted := r.taken conn.writeBusyQueue
      if isConnError (r.ret conn.writeBusyQueue) r.errno then ⟨conn, accepted, []⟩
      else ⟨{ conn with writeBusyQueue := [], writeEvent := false }, accepted, conn.writeBusyQueue⟩

def readableLength (conn : TCPConnection) : Nat :=
  conn.readBuf.readableBytes

def receiveData (conn : TCPConnection) (len : Nat) : Except Fault (Option Bytes) :=
  conn.readBuf.receive len

def removeData (conn : TCPConnection) (len : Nat) :
    Except Fault (TCPConnection × Option Bytes) := do
  let r ← conn.readBuf.remove len
  return ({ conn with readBuf := r.1 }, r.2)

/-- Run in the loop's own thread; `Shutdown` is compiled out. -/
def closeConn (conn : TCPConnection) : TCPConnection :=
  if conn.fdOpen then
    let state := if conn.writeBuf.writeableBytes = 0 then .activeClose else .closeWaitWrite
    { conn with fdOpen := false, state, writeEvent := false }
  else conn

/-- `arrived` is what waits on the socket, `none` when `readv` fails with `errno`. The
connection and the bytes that were taken off the socket. -/
def handleReadEvent (conn : TCPConnection) (arrived : Option Bytes) (errno : Errno) :
    Except Fault (TCPConnection × Bytes) := do
  if conn.state ≠ .connected then return (conn, [])
  let r ← conn.readBuf.readFd arrived
  let ret : Int := r.2.elim (-1) (fun data => (data.length : Int))
  let conn := { conn with readBuf := r.1 }
  if isConnError ret errno then return (closeConn { conn with state := .error }, r.2.getD [])
  return (conn, r.2.getD [])

section ReadBuffer

variable {conn : TCPConnection} {q : Bytes} (h : conn.readBuf.Represents q) {len : Nat}

include h

theorem readableLength_eq : conn.readableLength = q.length :=
  h.readableBytes_eq

theorem receiveData_of_le (hlen : len ≤ q.length) :
    conn.receiveData len = .ok (some (q.take len)) :=
  Buffer.receive_of_le h hlen

theorem removeData_of_le (hlen : len ≤ q.length) :
    ∃ b, conn.removeData len = .ok ({ conn with readBuf := b }, some (q.take len)) ∧
      b.Represents (q.drop len) := by
  refine ⟨_, ?_, h.advanceReader hlen⟩
  rw [removeData, Buffer.remove_of_le h hlen]
  rfl

end ReadBuffer

/-- A read takes some of the waiting bytes into the buffer and leaves the connection alone. -/
theorem handleReadEvent_waiting {conn : TCPConnection} {q waiting : Bytes}
    (hstate : conn.state = .connected) (hrep : conn.readBuf.Represents q)
    (hfits : q.length + waiting.length + 1 < 2 ^ 63) :
    ∃ b n, conn.handleReadEvent (if waiting.isEmpty then none else some waiting) .eagain =
        .ok ({ conn with readBuf := b }, waiting.take n) ∧
      n ≤ waiting.length ∧ min waiting.length Buffer.extraSize ≤ n ∧
      b.Represents (q ++ waiting.take n) := by
  have hopen : ¬conn.state ≠ .connected := fun h => h hstate
  cases hwaiting : waiting with
  | nil =>
      refine ⟨conn.readBuf, 0, ?_, Nat.zero_le _, Nat.zero_le _, by simpa using hrep⟩
      simp only [handleReadEvent, if_neg hopen, List.isEmpty_nil, if_true,
        Buffer.readFd_none hrep, ok_bind]
      rfl
  | cons c bytes =>
      rw [hwaiting] at hfits
      obtain ⟨b, n, hread, hn, hrep'⟩ := Buffer.readFd_represents hrep hfits
      have hpos : 0 < ((c :: bytes).take n).length := by
        rw [List.length_take, List.length_cons] at *
        have : 0 < Buffer.extraSize := by decide
        omega
      have hok : isConnError (((c :: bytes).take n).length : Int) .eagain = false := by
        rw [isConnError_ofNat]
        exact decide_eq_false (by omega)
      refine ⟨b, n, ?_, hn.1, hn.2, hrep'⟩
      simp only [handleReadEvent, if_neg hopen, List.isEmpty_cons, Bool.false_eq_true, if_false,
        hread, ok_bind, Option.elim_some, hok, Option.getD_some]
      rfl

end TCPConnection

end LibMsf
