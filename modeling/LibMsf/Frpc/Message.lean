import LibMsf.Cxx.Strings
import LibMsf.Library.Codec

/-!
Messages and frames of the RPC layer: `network/frpc/frpc.proto` and the encoding in
`FastRpcChannel::CallMethod`.

A frame is the length of a `FastMessage` as a 32-bit number, that message, and a body
whose length the message tells. Method descriptors are reduced to their full names and
the codecs of their messages; all message types of a program are values of one type.
-/

namespace LibMsf

open Cxx

inductive MessageType where
  | unknown
  | request
  | response
  | cancel
deriving DecidableEq, Repr

def MessageType.number : MessageType → UInt32
  | .unknown => 0
  | .request => 1
  | .response => 2
  | .cancel => 3

structure FastMessage where
  version : UInt32 := 0
  magic : UInt32 := 0
  type : UInt32 := 0
  length : UInt32 := 0
  callId : UInt32 := 0
  opcode : UInt32 := 0
  compress : UInt32 := 0
  retcode : UInt32 := 0
deriving DecidableEq, Repr, Inhabited

structure FastRpcMethod (M : Type) where
  fullName : Bytes
  request : Codec M
  response : Codec M

/-- `std::hash` of the full name, cut to `uint32_t`. -/
def opcodeOf {M : Type} (hash : Bytes → UInt64) (method : FastRpcMethod M) : UInt32 :=
  (hash method.fullName).toUInt32

/-- A message and the body behind it. -/
structure Frame where
  message : FastMessage
  body : Bytes
deriving DecidableEq, Repr

namespace Frame

def bytes (codec : Codec FastMessage) (f : Frame) : Bytes :=
  serializeValue 4 (codec.serialize f.message).length ++ codec.serialize f.message ++ f.body

/-- The message survives its codec, is not empty, and tells the length of the body. -/
structure Carried (codec : Codec FastMessage) (f : Frame) : Prop where
  message : codec.RoundTrips f.message
  message_nonempty : 0 < (codec.serialize f.message).length
  message_short : (codec.serialize f.message).length < 2 ^ 32
  body_length : f.message.length.toNat = f.body.length

theorem length_bytes (codec : Codec FastMessage) (f : Frame) :
    (f.bytes codec).length = 4 + (codec.serialize f.message).length + f.body.length := by
  rw [bytes, List.length_append, List.length_append, length_serializeValue]

end Frame

/-- A call of `CallMethod` and the identifier that it draws. -/
structure MethodCall (M : Type) where
  method : FastRpcMethod M
  callId : UInt32
  request : M

namespace MethodCall

variable {M : Type}

def body (call : MethodCall M) : Bytes :=
  call.method.request.serialize call.request

def innerMessage (hash : Bytes → UInt64) (call : MethodCall M) : FastMessage :=
  { version := 123
    magic := 456
    type := MessageType.request.number
    length := .ofNat call.body.length
    callId := call.callId
    opcode := opcodeOf hash call.method }

/-- What `CallMethod` writes. -/
def frame (hash : Bytes → UInt64) (call : MethodCall M) : Frame :=
  ⟨call.innerMessage hash, call.body⟩

end MethodCall

/-- `Echo`, the wire format of the text `hi` in both directions, and the hash of the name. -/
def echoMethod : FastRpcMethod Bytes where
  fullName := ascii "echo.EchoService.Echo".toList
  request := .table [(ascii ['h', 'i'], [0x0a, 0x02, 0x68, 0x69])]
  response := .table [(ascii ['h', 'i'], [0x0a, 0x02, 0x68, 0x69])]

def echoHash (name : Bytes) : UInt64 :=
  if name = echoMethod.fullName then 0xffee9b2cea6e2d87 else 0

def echoCall : MethodCall Bytes where
  method := echoMethod
  callId := 7
  request := ascii ['h', 'i']

end LibMsf
