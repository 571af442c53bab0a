import LibMsf.Frpc.Channel
import LibMsf.Frpc.Server

/-!
One turn of the two receiving loops, with arbitrary bytes in the read buffer.

The lemmas follow the exits of the loop bodies. What the bytes are taken for is told by
`lengthIn`, `messageIn` and `sizeIn`; nothing is assumed about who wrote them.
-/

namespace LibMsf

open Cxx

variable {M : Type}

namespace FastRpcServer

/-- The state after a block was allocated and freed. -/
def visited (s : FrpcState M) : FrpcState M :=
  { s with
    mallocs := s.mallocs + 1
    events := s.events ++ [.malloc s.mallocs] ++ [.free s.mallocs] }

/-- The state after a block was allocated and a frame taken off the buffer. -/
def taken (s : FrpcState M) (b : Buffer) : FrpcState M :=
  { s with
    mallocs := s.mallocs + 1
    events := s.events ++ [.malloc s.mallocs]
    conn := { s.conn with readBuf := b } }

section Turn

variable {codec : Codec FastMessage} {grants : Nat → Bool} {server : FastRpcServer M}
  {s : FrpcState M} {q : Bytes} (hrep : s.conn.readBuf.Represents q)

include hrep

theorem handleBody_short (hshort : q.length ≤ 4) (codec : Codec FastMessage)
    (grants : Nat → Bool) (old : UInt32) :
    handleBody codec grants server (s, old) = .ok (.inr s) := by
  have havailable := TCPConnection.readableLength_eq hrep
  simp only [handleBody, havailable, if_pos hshort, pure_eq_ok]

theorem handleBody_unready (hword : 4 < q.length) (hlong : q.length < 4 + Frame.lengthIn q)
    (codec : Codec FastMessage) (grants : Nat → Bool) (old : UInt32) :
    handleBody codec grants server (s, old) = .ok (.inr s) := by
  have havailable := TCPConnection.readableLength_eq hrep
  simp only [handleBody, havailable, if_neg (Nat.not_le.mpr hword),
    TCPConnection.receiveData_of_le hrep hword.le, ok_bind, Frame.toNat_peekedLength,
    if_pos hlong, pure_eq_ok]

theorem handleBody_denied (hword : 4 < q.length) (hlong : 4 + Frame.lengthIn q ≤ q.length)
    (hdenied : grants s.mallocs = false) (codec : Codec FastMessage) (old : UInt32) :
    handleBody codec grants server (s, old) =
      .ok (.inr { s with mallocs := s.mallocs + 1 }) := by
  have havailable := TCPConnection.readableLength_eq hrep
  simp only [handleBody, havailable, if_neg (Nat.not_le.mpr hword),
    TCPConnection.receiveData_of_le hrep hword.le, ok_bind, Frame.toNat_peekedLength,
    if_neg (Nat.not_lt.mpr hlong), FrpcState.malloc, hdenied, Bool.false_eq_true, if_false,
    pure_eq_ok]

/-- With a block for the message, the turn comes to its second half if the message parses. -/
theorem handleBody_peeked (hword : 4 < q.length) (hlong : 4 + Frame.lengthIn q ≤ q.length)
    (hgranted : grants s.mallocs = true) (old : UInt32) :
    handleBody codec grants server (s, old) =
      if (Frame.messageIn codec q).1 = false then .ok (.inr (visited s).closeConn)
      else takeFrame grants server (visited s) q.length
          (Frame.peekedLength old (some (q.take 4))) (Frame.messageIn codec q).2 >>= fun turn =>
        .ok (turn.map (fun s => (s, Frame.peekedLength old (some (q.take 4)))) id) := by
  have havailable := TCPConnection.readableLength_eq hrep
  simp only [handleBody, havailable, if_neg (Nat.not_le.mpr hword),
    TCPConnection.receiveData_of_le hrep hword.le, ok_bind, Frame.toNat_peekedLength,
    if_neg (Nat.not_lt.mpr hlong), FrpcState.malloc, hgranted, if_true,
    TCPConnection.receiveData_of_le hrep hlong, copied, Frame.drop_message, pure_eq_ok]
  rfl

theorem takeFrame_taken (grants : Nat → Bool) (hgranted : grants s.mallocs = true)
    (server : FastRpcServer M) (length : UInt32) (frpc : FastMessage)
    (hsize : 4 + length.toNat + frpc.length.toNat ≤ q.length) :
    ∃ b, b.Represents (q.drop (4 + length.toNat + frpc.length.toNat)) ∧
      takeFrame grants server s q.length length frpc =
        .ok (handleMessage server (taken s b) s.mallocs frpc
          ((q.take (4 + length.toNat + frpc.length.toNat)).drop (4 + length.toNat))) := by
  obtain ⟨b, hremove, hafter⟩ := TCPConnection.removeData_of_le hrep hsize
  refine ⟨b, hafter, ?_⟩
  simp only [takeFrame, if_neg (Nat.not_lt.mpr hsize), FrpcState.malloc, hgranted, if_true,
    hremove, ok_bind, copied, pure_eq_ok]
  rfl

end Turn

section Refused

variable {grants : Nat → Bool} {server : FastRpcServer M} {s : FrpcState M} {available : Nat}
  {length : UInt32} {frpc : FastMessage}

theorem takeFrame_waits (hsize : available < 4 + length.toNat + frpc.length.toNat) :
    takeFrame grants server s available length frpc = .ok (.inr s) := by
  simp only [takeFrame, if_pos hsize, pure_eq_ok]

theorem takeFrame_denied (hsize : 4 + length.toNat + frpc.length.toNat ≤ available)
    (hdenied : grants s.mallocs = false) :
    takeFrame grants server s available length frpc =
      .ok (.inr { s with mallocs := s.mallocs + 1 }) := by
  simp only [takeFrame, if_neg (Nat.not_lt.mpr hsize), FrpcState.malloc, hdenied,
    Bool.false_eq_true, if_false, pure_eq_ok]

end Refused

end FastRpcServer

namespace FastRpcChannel

theorem closeConn_readBuf (conn : TCPConnection) : conn.closeConn.readBuf = conn.readBuf := by
  rw [TCPConnection.closeConn]
  split
  · rfl
  · rfl

theorem handleMessage_readBuf (ch : FastRpcChannel M) (frpc : FastMessage) (body : Bytes) :
    (ch.handleMessage frpc body).conn.readBuf = ch.conn.readBuf := by
  rw [handleMessage]
  split
  · split
    · rfl
    · dsimp only
      split
      · rfl
      · exact closeConn_readBuf ch.conn
  · rfl

def withBuffer (ch : FastRpcChannel M) (b : Buffer) : FastRpcChannel M :=
  { ch with conn := { ch.conn with readBuf := b } }

theorem withBuffer_withBuffer (ch : FastRpcChannel M) (b b' : Buffer) :
    (ch.withBuffer b).withBuffer b' = ch.withBuffer b' := rfl

section Turn

variable {codec : Codec FastMessage} {ch : FastRpcChannel M} {q : Bytes}
  (hrep : ch.conn.readBuf.Represents q)

include hrep

theorem parseBody_short (hshort : q.length ≤ 4) (codec : Codec FastMessage) (old : UInt32) :
    parseBody codec (ch, old) = .ok (.inr ch) := by
  have havailable := TCPConnection.readableLength_eq hrep
  simp only [parseBody, havailable, if_pos hshort, pure_eq_ok]

theorem parseBody_unready (hword : 4 < q.length) (hlong : q.length < 4 + Frame.lengthIn q)
    (codec : Codec FastMessage) (old : UInt32) :
    parseBody codec (ch, old) = .ok (.inr ch) := by
  have havailable := TCPConnection.readableLength_eq hrep
  simp only [parseBody, havailable, if_neg (Nat.not_le.mpr hword),
    TCPConnection.receiveData_of_le hrep hword.le, ok_bind, Frame.toNat_peekedLength,
    if_pos hlong, pure_eq_ok]

/-- A complete message is copied into the array, which may be too small for it. -/
theorem parseBody_message (hword : 4 < q.length) (hlong : 4 + Frame.lengthIn q ≤ q.length)
    (old : UInt32) :
    parseBody codec (ch, old) =
      if 4 + Frame.lengthIn q ≤ arraySize then
        if q.length < Frame.sizeIn codec q then .ok (.inr ch)
        else do
          let removed ← ch.conn.removeData (Frame.sizeIn codec q)
          let buffer ← intoArray removed.2
          .ok (.inl (handleMessage { ch with conn := removed.1 } (Frame.messageIn codec q).2
            (buffer.drop (4 + Frame.lengthIn q)), Frame.peekedLength old (some (q.take 4))))
      else .error .outOfBounds := by
  have havailable := TCPConnection.readableLength_eq hrep
  have hcopied : (q.take (4 + Frame.lengthIn q)).length = 4 + Frame.lengthIn q := by
    rw [List.length_take]
    omega
  by_cases hfits : 4 + Frame.lengthIn q ≤ arraySize
  · simp only [parseBody, havailable, if_neg (Nat.not_le.mpr hword),
      TCPConnection.receiveData_of_le hrep hword.le, ok_bind, Frame.toNat_peekedLength,
      if_neg (Nat.not_lt.mpr hlong), TCPConnection.receiveData_of_le hrep hlong, intoArray,
      hcopied, if_pos hfits, Frame.drop_message, pure_eq_ok]
    rfl
  · simp only [parseBody, havailable, if_neg (Nat.not_le.mpr hword),
      TCPConnection.receiveData_of_le hrep hword.le, ok_bind, Frame.toNat_peekedLength,
      if_neg (Nat.not_lt.mpr hlong), TCPConnection.receiveData_of_le hrep hlong, intoArray,
      hcopied, if_neg hfits, error_bind]

variable (hword : 4 < q.length) (hlong : 4 + Frame.lengthIn q ≤ q.length)

include hword hlong

theorem parseBody_overlong (hover : arraySize < 4 + Frame.lengthIn q) (old : UInt32) :
    parseBody codec (ch, old) = .error .outOfBounds := by
  rw [parseBody_message hrep hword hlong, if_neg (Nat.not_le.mpr hover)]

theorem parseBody_waits (hfits : 4 + Frame.lengthIn q ≤ arraySize)
    (hsize : q.length < Frame.sizeIn codec q) (old : UInt32) :
    parseBody codec (ch, old) = .ok (.inr ch) := by
  rw [parseBody_message hrep hword hlong, if_pos hfits, if_pos hsize]

theorem parseBody_overlong_frame (hfits : 4 + Frame.lengthIn q ≤ arraySize)
    (hsize : Frame.sizeIn codec q ≤ q.length) (hover : arraySize < Frame.sizeIn codec q)
    (old : UInt32) : parseBody codec (ch, old) = .error .outOfBounds := by
  obtain ⟨b, hremove, -⟩ := TCPConnection.removeData_of_le hrep hsize
  have hcopied : ¬(q.take (Frame.sizeIn codec q)).length ≤ arraySize := by
    rw [List.length_take]
    omega
  rw [parseBody_message hrep hword hlong, if_pos hfits, if_neg (Nat.not_lt.mpr hsize), hremove]
  simp only [ok_bind, intoArray, if_neg hcopied, error_bind]

/-- A frame that is complete and fits the array is taken off the buffer and handled. -/
theorem parseBody_taken (hsize : Frame.sizeIn codec q ≤ q.length)
    (hfits : Frame.sizeIn codec q ≤ arraySize) (old : UInt32) :
    ∃ b, b.Represents (q.drop (Frame.sizeIn codec q)) ∧ parseBody codec (ch, old) =
      .ok (.inl ((ch.withBuffer b).handleMessage (Frame.messageIn codec q).2
        ((q.take (Frame.sizeIn codec q)).drop (4 + Frame.lengthIn q)),
        Frame.peekedLength old (some (q.take 4)))) := by
  obtain ⟨b, hremove, hafter⟩ := TCPConnection.removeData_of_le hrep hsize
  have hmessage : 4 + Frame.lengthIn q ≤ arraySize := (Nat.le_add_right _ _).trans hfits
  have hcopied : (q.take (Frame.sizeIn codec q)).length ≤ arraySize :=
    (List.length_take_le _ _).trans hfits
  refine ⟨b, hafter, ?_⟩
  rw [parseBody_message hrep hword hlong, if_pos hmessage, if_neg (Nat.not_lt.mpr hsize), hremove]
  simp only [ok_bind, intoArray, if_pos hcopied]
  rfl

end Turn

end FastRpcChannel

end LibMsf
