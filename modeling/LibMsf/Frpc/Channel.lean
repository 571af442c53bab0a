import LibMsf.Frpc.Framing
import LibMsf.Library.Loop

/-!
The client side of the RPC layer: `network/frpc/frpc_channel.cc`.

What the channel does to the objects of its callers (responses, controllers, completed
flags and closures) is recorded in a log, under the identifier of the call. Frames are
received into an array on the stack. Sending is kept up to the buffer that is submitted;
its memory is named by the block that `conn->Malloc` gives, if any.
-/

namespace LibMsf

open Cxx

inductive ChannelEvent (M : Type) where
  | responseParsed (callId : UInt32) (response : M)
  | setFailed (callId : UInt32) (reason : Bytes)
  | completedSet (callId : UInt32)
  | doneRun (callId : UInt32)
  | cancelCallbacksRun (callId : UInt32)
deriving DecidableEq

/-- `controller` tells whether there is a `FastRpcController`, `done` whether there is a
closure; without one the call has a completed flag. -/
structure WaitingResponse (M : Type) where
  controller : Bool
  response : Codec M
  done : Bool

structure FastRpcChannel (M : Type) where
  conn : TCPConnection
  timeout : Int
  waitingResponses : Std.ExtTreeMap UInt32 (WaitingResponse M) := ∅
  timers : List UInt32 := []
  log : List (ChannelEvent M) := []

namespace FastRpcChannel

variable {M : Type}

/-- `block` is what `conn->Malloc` returns. Without memory nothing is sent and no timer is
started, but the call stays in the table. -/
def callMethod (codec : Codec FastMessage) (hash : Bytes → UInt64) (block : Option Nat)
    (ch : FastRpcChannel M) (call : MethodCall M) (controller done : Bool) :
    FastRpcChannel M :=
  let param : WaitingResponse M := ⟨controller, call.method.response, done⟩
  let ch := { ch with waitingResponses := ch.waitingResponses.insert call.callId param }
  match block with
  | none => ch
  | some base =>
      let conn := ch.conn.submitWriteBuffer ⟨base, (call.frame hash).bytes codec⟩
      { ch with
        conn := { conn with writeEvent := true }
        timers := if 0 < ch.timeout then ch.timers ++ [call.callId] else ch.timers }

def isCallCompleted (ch : FastRpcChannel M) (callId : UInt32) : Bool :=
  ch.waitingResponses[callId]?.isNone

/-- What `HandleRequestTimeout` does to the objects of a waiting call, in order. -/
def timeoutEvents (callId : UInt32) (param : WaitingResponse M) : List (ChannelEvent M) :=
  (if param.controller then [.setFailed callId (ascii "request timeout".toList)] else []) ++
    (if param.done then [.doneRun callId] else [.completedSet callId]) ++
    (if param.controller then [.cancelCallbacksRun callId] else [])

def handleRequestTimeout (ch : FastRpcChannel M) (callId : UInt32) : FastRpcChannel M :=
  match ch.waitingResponses[callId]? with
  | none => ch
  | some param =>
      { ch with
        log := ch.log ++ timeoutEvents callId param
        waitingResponses := ch.waitingResponses.erase callId }

/-- The size of the array that `ParseFrpcMessage` receives into. -/
def arraySize : Nat := 2048

/-- A copy into the array; a copy that is refused leaves it unwritten. -/
def intoArray : Option Bytes → Except Fault Bytes
  | none => .error .outOfBounds
  | some bytes => if bytes.length ≤ arraySize then .ok bytes else .error .outOfBounds

/-- The `switch` on the message type. The entry of an answered call stays in the table, and
a body that does not parse closes the connection. -/
def handleMessage (ch : FastRpcChannel M) (frpc : FastMessage) (body : Bytes) :
    FastRpcChannel M :=
  if frpc.type = MessageType.response.number then
    match ch.waitingResponses[frpc.callId]? with
    | none => ch
    | some param =>
        let parsed := param.response.parse body
        if parsed.1 then { ch with log := ch.log ++ [.responseParsed frpc.callId parsed.2] }
        else { ch with conn := ch.conn.closeConn }
  else ch

/-- One turn of the loop of `ParseFrpcMessage`. Whether the message parses is not looked at,
and `length` keeps its value from turn to turn. -/
def parseBody (codec : Codec FastMessage) (t : FastRpcChannel M × UInt32) :
    Except Fault ((FastRpcChannel M × UInt32) ⊕ FastRpcChannel M) := do
  let ch := t.1
  let available := ch.conn.readableLength
  if available ≤ 4 then return .inr ch
  let length := Frame.peekedLength t.2 (← ch.conn.receiveData 4)
  if available < 4 + length.toNat then return .inr ch
  let buffer ← intoArray (← ch.conn.receiveData (4 + length.toNat))
  let frpc := (codec.parse (buffer.drop 4)).2
  let size := 4 + length.toNat + frpc.length.toNat
  if available < size then return .inr ch
  let removed ← ch.conn.removeData size
  let buffer ← intoArray removed.2
  return .inl (handleMessage { ch with conn := removed.1 } frpc
    (buffer.drop (4 + length.toNat)), length)

/-- A turn that goes on takes bytes off the buffer, so there are no more turns than bytes and
one. -/
def parseFrpcMessage (codec : Codec FastMessage) (ch : FastRpcChannel M) :
    Option (Except Fault (FastRpcChannel M)) :=
  Run.loop (parseBody codec) (ch.conn.readableLength + 1) (ch, 0)

/-- Bytes arrive on the socket, are read, and are parsed. -/
def readCallback (codec : Codec FastMessage) (ch : FastRpcChannel M) (arrived : Bytes) :
    Option (Except Fault (FastRpcChannel M)) :=
  match ch.conn.handleReadEvent (if arrived.isEmpty then none else some arrived) .eagain with
  | .error e => some (.error e)
  | .ok (conn, _) => parseFrpcMessage codec { ch with conn := conn }

/-- The timer of a call fires, once. -/
def fireTimer (ch : FastRpcChannel M) (callId : UInt32) : FastRpcChannel M :=
  if callId ∈ ch.timers then
    { ch with timers := ch.timers.erase callId }.handleRequestTimeout callId
  else ch

end FastRpcChannel

end LibMsf
