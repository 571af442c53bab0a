import LibMsf.Frpc.Framing
import LibMsf.Library.Loop

/-!
The server side of the RPC layer: `FastRpcServer::HandleFrpcMessage`.

Each turn of its loop looks at the length word, at the message and at the body, and
takes a frame off the connection only when all of it is there. Memory comes from
`conn->Malloc`, which is given as an oracle on the number of the call; blocks are named
by that number. A dispatched request is recorded where the service's method is called.
-/

namespace LibMsf

open Cxx

structure FastRpcServer (M : Type) where
  hookServices : Std.ExtTreeMap UInt32 (FastRpcMethod M)

structure Dispatch (M : Type) where
  frpc : FastMessage
  method : FastRpcMethod M
  request : M

inductive BlockEvent where
  | malloc (block : Nat)
  | free (block : Nat)
deriving DecidableEq, Repr

structure FrpcState (M : Type) where
  conn : TCPConnection
  mallocs : Nat := 0
  events : List BlockEvent := []
  dispatched : List (Dispatch M) := []

variable {M : Type}

namespace FastRpcServer

/-- The methods of the services that are hooked, in this order. -/
def hookService (hash : Bytes → UInt64) (methods : List (FastRpcMethod M)) : FastRpcServer M where
  hookServices := methods.foldl (fun map method => map.insert (opcodeOf hash method) method) ∅

def getFastMethod (server : FastRpcServer M) (opcode : UInt32) : Option (FastRpcMethod M) :=
  server.hookServices[opcode]?

end FastRpcServer

namespace FrpcState

def malloc (grants : Nat → Bool) (s : FrpcState M) : FrpcState M × Option Nat :=
  if grants s.mallocs then
    ({ s with mallocs := s.mallocs + 1, events := s.events ++ [.malloc s.mallocs] },
      some s.mallocs)
  else ({ s with mallocs := s.mallocs + 1 }, none)

def free (s : FrpcState M) (block : Nat) : FrpcState M :=
  { s with events := s.events ++ [.free block] }

def closeConn (s : FrpcState M) : FrpcState M :=
  { s with conn := s.conn.closeConn }

end FrpcState

namespace FastRpcServer

/-- A copy that is refused leaves the fresh block unwritten. -/
def copied : Option Bytes → Except Fault Bytes
  | some bytes => .ok bytes
  | none => .error .outOfBounds

/-- The `switch` on the message type. Only a request frees its block. -/
def handleMessage (server : FastRpcServer M) (s : FrpcState M) (block : Nat)
    (frpc : FastMessage) (body : Bytes) : FrpcState M ⊕ FrpcState M :=
  if frpc.type = MessageType.request.number then
    match server.getFastMethod frpc.opcode with
    | none => .inr (s.free block).closeConn
    | some method =>
        let parsed := method.request.parse body
        if parsed.1 then
          let s := s.free block
          .inl { s with dispatched := s.dispatched ++ [⟨frpc, method, parsed.2⟩] }
        else .inr (s.free block).closeConn
  else .inl s

/-- The second half of a turn, once the message is known. -/
def takeFrame (grants : Nat → Bool) (server : FastRpcServer M) (s : FrpcState M)
    (available : Nat) (length : UInt32) (frpc : FastMessage) :
    Except Fault (FrpcState M ⊕ FrpcState M) := do
  let size := 4 + length.toNat + frpc.length.toNat
  if available < size then return .inr s
  match s.malloc grants with
  | (s, none) => return .inr s
  | (s, some block) =>
      let removed ← s.conn.removeData size
      let buffer ← copied removed.2
      return handleMessage server { s with conn := removed.1 } block frpc
        (buffer.drop (4 + length.toNat))

/-- One turn of the loop; `length` keeps its value from turn to turn. -/
def handleBody (codec : Codec FastMessage) (grants : Nat → Bool) (server : FastRpcServer M)
    (t : FrpcState M × UInt32) : Except Fault ((FrpcState M × UInt32) ⊕ FrpcState M) := do
  let s := t.1
  let available := s.conn.readableLength
  if available ≤ 4 then return .inr s
  let length := Frame.peekedLength t.2 (← s.conn.receiveData 4)
  if available < 4 + length.toNat then return .inr s
  match s.malloc grants with
  | (s, none) => return .inr s
  | (s, some block) =>
      let buffer ← copied (← s.conn.receiveData (4 + length.toNat))
      let parsed := codec.parse (buffer.drop 4)
      let s := s.free block
      if parsed.1 = false then return .inr s.closeConn
      let turn ← takeFrame grants server s available length parsed.2
      return turn.map (fun s => (s, length)) id

def handleFrpcMessage (codec : Codec FastMessage) (grants : Nat → Bool)
    (server : FastRpcServer M) (fuel : Nat) (s : FrpcState M) :
    Option (Except Fault (FrpcState M)) :=
  Run.loop (handleBody codec grants server) fuel (s, 0)

end FastRpcServer

/-- The server's side of a connection and the bytes that wait on its socket. -/
structure ServerSession (M : Type) where
  state : FrpcState M
  waiting : Bytes := []

namespace ServerSession

/-- More bytes arrive, and the event loop reads the socket and handles what it has. The
socket does not block: a read with nothing waiting fails with `EAGAIN`. -/
def step (codec : Codec FastMessage) (grants : Nat → Bool) (server : FastRpcServer M)
    (fuel : Nat) (session : ServerSession M) (chunk : Bytes) :
    Option (Except Fault (ServerSession M)) :=
  let waiting := session.waiting ++ chunk
  let arrived := if waiting.isEmpty then none else some waiting
  match session.state.conn.handleReadEvent arrived .eagain with
  | .error e => some (.error e)
  | .ok (conn, taken) =>
      (server.handleFrpcMessage codec grants fuel { session.state with conn := conn }).map
        fun r => r.map fun s => { state := s, waiting := waiting.drop taken.length }

def run (codec : Codec FastMessage) (grants : Nat → Bool) (server : FastRpcServer M)
    (fuel : Nat) : ServerSession M → List Bytes → Option (Except Fault (ServerSession M))
  | session, [] => some (.ok session)
  | session, chunk :: chunks =>
      match step codec grants server fuel session chunk with
      | some (.ok session) => run codec grants server fuel session chunks
      | other => other

end ServerSession

end LibMsf
