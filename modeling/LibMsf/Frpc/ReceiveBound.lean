import LibMsf.Frpc.CallCompletion
import LibMsf.Library.Path

/-!
The bound on what `ParseFrpcMessage` copies into its array.

The array has 2048 bytes, and the two lengths that a copy adds up come from the peer. The
bytes received so far are cut into frames in one way, however the reads were made: the
copies stay inside the array just when every message that has arrived fits with its length
word, and every frame that has arrived fits as a whole.
-/

namespace LibMsf

open Cxx

variable {M : Type}

inductive ReceiveOp (M : Type) where
  | read (chunk : Bytes)
  | call (call : MethodCall M) (controller done : Bool) (block : Option Nat)
  | timeout (callId : UInt32)

namespace FastRpcChannel

section Receiving

variable (codec : Codec FastMessage)

def receiveStep (hash : Bytes → UInt64) (ch : FastRpcChannel M) :
    ReceiveOp M → Option (Except Fault (FastRpcChannel M))
  | .read chunk => readCallback codec ch chunk
  | .call call controller done block =>
      some (.ok (ch.callMethod codec hash block call controller done))
  | .timeout callId => some (.ok (ch.fireTimer callId))

/-- A chunk is what one read takes off the socket, all of it, and the buffer has room for
it in memory. -/
def Receivable (ch : FastRpcChannel M) : ReceiveOp M → Prop
  | .read chunk =>
      ch.conn.readableLength + chunk.length + 1 < 2 ^ 63 ∧
        ∃ conn, ch.conn.handleReadEvent (if chunk.isEmpty then none else some chunk) .eagain =
          .ok (conn, chunk)
  | _ => True

/-- The bytes received from the server, in order. -/
def received (ops : List (ReceiveOp M)) : Bytes :=
  ops.flatMap fun
    | .read chunk => chunk
    | _ => []

/-- The first frame of these bytes is incomplete. If its message is there, it fits the
array. -/
def Waits (q : Bytes) : Prop :=
  q.length ≤ 4 ∨ q.length < 4 + Frame.lengthIn q ∨
    4 + Frame.lengthIn q ≤ arraySize ∧ q.length < Frame.sizeIn codec q

/-- The first frame of these bytes is complete and fits the array. -/
structure Leads (q : Bytes) : Prop where
  word : 4 < q.length
  message : 4 + Frame.lengthIn q ≤ q.length
  whole : Frame.sizeIn codec q ≤ q.length
  fits : Frame.sizeIn codec q ≤ arraySize

/-- Every complete frame fits the array, and so does the last message. -/
inductive Fits : Bytes → Prop where
  | waits {q : Bytes} (rests : Waits codec q) : Fits q
  | frame {q : Bytes} (leads : Leads codec q) (rest : Fits (q.drop (Frame.sizeIn codec q))) :
      Fits q

variable {codec} {q : Bytes}

theorem Leads.not_waits (h : Leads codec q) : ¬Waits codec q := by
  rintro (hword | hmessage | hsize)
  · exact absurd h.word (Nat.not_lt.mpr hword)
  · exact absurd h.message (Nat.not_le.mpr hmessage)
  · exact absurd h.whole (Nat.not_le.mpr hsize.2)

theorem Leads.append (h : Leads codec q) (more : Bytes) : Leads codec (q ++ more) := by
  have hlength : (q ++ more).length = q.length + more.length := List.length_append
  have hword := h.word
  have hmessage := h.message
  have hwhole := h.whole
  refine ⟨by omega, ?_, ?_, ?_⟩
  · rw [Frame.lengthIn_append h.message]
    omega
  · rw [Frame.sizeIn_append h.message]
    omega
  · rw [Frame.sizeIn_append h.message]
    exact h.fits

theorem Leads.fits_iff (h : Leads codec q) :
    Fits codec q ↔ Fits codec (q.drop (Frame.sizeIn codec q)) := by
  constructor
  · intro hfits
    cases hfits with
    | waits rests => exact absurd rests h.not_waits
    | frame leads rest => exact rest
  · exact Fits.frame h

/-- Taking a complete frame off does not depend on what comes behind. -/
theorem Leads.fits_append_iff (h : Leads codec q) (more : Bytes) :
    Fits codec (q ++ more) ↔ Fits codec (q.drop (Frame.sizeIn codec q) ++ more) := by
  rw [(h.append more).fits_iff, Frame.sizeIn_append h.message,
    List.drop_append_of_le_length h.whole]

theorem not_fits (hwaits : ¬Waits codec q) (hleads : ¬Leads codec q) : ¬Fits codec q := by
  intro hfits
  cases hfits with
  | waits rests => exact hwaits rests
  | frame leads rest => exact hleads leads

section Turn

variable {ch : FastRpcChannel M} (hrep : ch.conn.readBuf.Represents q) (old : UInt32)

include hrep

theorem parseBody_rests (hwaits : Waits codec q) : parseBody codec (ch, old) = .ok (.inr ch) := by
  by_cases hword : q.length ≤ 4
  · exact parseBody_short hrep hword codec old
  · by_cases hmessage : q.length < 4 + Frame.lengthIn q
    · exact parseBody_unready hrep (Nat.not_le.mp hword) hmessage codec old
    · obtain ⟨hfits, hsize⟩ := (hwaits.resolve_left hword).resolve_left hmessage
      exact parseBody_waits hrep (Nat.not_le.mp hword) (Nat.not_lt.mp hmessage) hfits hsize old

theorem parseBody_overruns (hwaits : ¬Waits codec q) (hleads : ¬Leads codec q) :
    parseBody codec (ch, old) = .error .outOfBounds := by
  have hword : 4 < q.length := Nat.not_le.mp fun h => hwaits (.inl h)
  have hmessage : 4 + Frame.lengthIn q ≤ q.length :=
    Nat.not_lt.mp fun h => hwaits (.inr (.inl h))
  by_cases hfits : 4 + Frame.lengthIn q ≤ arraySize
  · have hsize : Frame.sizeIn codec q ≤ q.length :=
      Nat.not_lt.mp fun h => hwaits (.inr (.inr ⟨hfits, h⟩))
    have hover : arraySize < Frame.sizeIn codec q :=
      Nat.not_le.mp fun h => hleads ⟨hword, hmessage, hsize, h⟩
    exact parseBody_overlong_frame hrep hword hmessage hfits hsize hover old
  · exact parseBody_overlong hrep hword hmessage (Nat.not_le.mp hfits) old

end Turn

/-- The loop stops with the bytes that wait, or at a frame that does not fit. -/
theorem parse_outcome (fuel : Nat) {ch : FastRpcChannel M} (hfuel : q.length < fuel)
    (hrep : ch.conn.readBuf.Represents q) (old : UInt32) :
    (∃ ch' kept, Run.loop (parseBody codec) fuel (ch, old) = some (.ok ch') ∧
        ch'.conn.readBuf.Represents kept ∧ Waits codec kept ∧
        ∀ more, Fits codec (q ++ more) ↔ Fits codec (kept ++ more)) ∨
      Run.loop (parseBody codec) fuel (ch, old) = some (.error .outOfBounds) ∧
        ¬Fits codec q := by
  induction fuel generalizing q ch old with
  | zero => exact absurd hfuel (Nat.not_lt_zero _)
  | succ fuel ih =>
      by_cases hwaits : Waits codec q
      · refine .inl ⟨ch, q, ?_, hrep, hwaits, fun more => Iff.rfl⟩
        rw [Run.loop, parseBody_rests hrep old hwaits]
      · by_cases hleads : Leads codec q
        · obtain ⟨b, hafter, hturn⟩ := parseBody_taken hrep hleads.word hleads.message
            hleads.whole hleads.fits old
          have hless : (q.drop (Frame.sizeIn codec q)).length < fuel := by
            have hword := hleads.word
            rw [List.length_drop, Frame.sizeIn]
            omega
          have hnext : ((ch.withBuffer b).handleMessage (Frame.messageIn codec q).2
              ((q.take (Frame.sizeIn codec q)).drop (4 + Frame.lengthIn q))).conn.readBuf.Represents
              (q.drop (Frame.sizeIn codec q)) := by
            rw [handleMessage_readBuf]
            exact hafter
          rw [Run.loop, hturn, hleads.fits_iff]
          rcases ih hless hnext (Frame.peekedLength old (some (q.take 4))) with
            ⟨ch', kept, hloop, hkept, hrests, hfits⟩ | hfault
          · refine .inl ⟨ch', kept, hloop, hkept, hrests, fun more => ?_⟩
            rw [hleads.fits_append_iff, hfits]
          · exact .inr hfault
        · refine .inr ⟨?_, not_fits hwaits hleads⟩
          rw [Run.loop, parseBody_overruns hrep old hwaits hleads]

theorem handleReadEvent_receivable {conn conn' : TCPConnection} {chunk : Bytes}
    (hrep : conn.readBuf.Represents q) (hfits : conn.readableLength + chunk.length + 1 < 2 ^ 63)
    (hread : conn.handleReadEvent (if chunk.isEmpty then none else some chunk) .eagain =
      .ok (conn', chunk)) : conn'.readBuf.Represents (q ++ chunk) := by
  rw [TCPConnection.readableLength_eq hrep] at hfits
  by_cases hstate : conn.state = .connected
  · obtain ⟨b, n, hevent, -, -, hafter⟩ :=
      TCPConnection.handleReadEvent_waiting hstate hrep hfits
    obtain ⟨rfl, hall⟩ := Prod.mk.inj (Except.ok.inj (hevent.symm.trans hread))
    rw [hall] at hafter
    exact hafter
  · -- A connection that is closed takes no bytes.
    have hclosed : conn.handleReadEvent (if chunk.isEmpty then none else some chunk) .eagain =
        .ok (conn, []) := by
      rw [TCPConnection.handleReadEvent, if_pos hstate]
      rfl
    obtain ⟨rfl, rfl⟩ := Prod.mk.inj (Except.ok.inj (hclosed.symm.trans hread))
    rw [List.append_nil]
    exact hrep

theorem callMethod_readBuf (codec : Codec FastMessage) (hash : Bytes → UInt64)
    (block : Option Nat) (ch : FastRpcChannel M) (call : MethodCall M) (controller done : Bool) :
    (callMethod codec hash block ch call controller done).conn.readBuf = ch.conn.readBuf := by
  cases block with
  | none => rfl
  | some base => rfl

theorem fireTimer_readBuf (ch : FastRpcChannel M) (callId : UInt32) :
    (ch.fireTimer callId).conn.readBuf = ch.conn.readBuf := by
  rw [fireTimer]
  split
  · rw [handleRequestTimeout]
    split
    · rfl
    · rfl
  · rfl

theorem received_cons (op : ReceiveOp M) (ops : List (ReceiveOp M)) :
    received (op :: ops) = received [op] ++ received ops := by
  rw [received, List.flatMap_cons, received, List.flatMap_singleton, received]

theorem received_read (chunk : Bytes) : received [ReceiveOp.read (M := M) chunk] = chunk :=
  List.flatMap_singleton _ _

/-- One operation either goes well, and the bytes that wait stand for all that was received,
or it meets a frame that does not fit. -/
theorem receiveStep_outcome (hash : Bytes → UInt64) {ch : FastRpcChannel M} {op : ReceiveOp M}
    (hrep : ch.conn.readBuf.Represents q) (hwaits : Waits codec q) (hop : Receivable ch op) :
    (∃ ch' kept, receiveStep codec hash ch op = some (.ok ch') ∧
        ch'.conn.readBuf.Represents kept ∧ Waits codec kept ∧
        ∀ more, Fits codec (q ++ received [op] ++ more) ↔ Fits codec (kept ++ more)) ∨
      receiveStep codec hash ch op = some (.error .outOfBounds) ∧
        ¬Fits codec (q ++ received [op]) := by
  cases op with
  | read chunk =>
      obtain ⟨hfits, conn, hread⟩ := hop
      have hbuffer := handleReadEvent_receivable hrep hfits hread
      have hstep : receiveStep codec hash ch (.read chunk) =
          parseFrpcMessage codec { ch with conn := conn } := by
        simp only [receiveStep, readCallback, hread]
      rw [hstep, received_read, parseFrpcMessage]
      refine parse_outcome _ ?_ hbuffer 0
      rw [TCPConnection.readableLength_eq hbuffer]
      exact Nat.lt_succ_self _
  | call call controller done block =>
      refine .inl ⟨_, q, rfl, ?_, hwaits, fun more => ?_⟩
      · rw [callMethod_readBuf]
        exact hrep
      · exact iff_of_eq (congrArg (fun bytes => Fits codec (bytes ++ more)) (List.append_nil q))
  | timeout callId =>
      refine .inl ⟨_, q, rfl, ?_, hwaits, fun more => ?_⟩
      · rw [fireTimer_readBuf]
        exact hrep
      · exact iff_of_eq (congrArg (fun bytes => Fits codec (bytes ++ more)) (List.append_nil q))

theorem receiveStep_overruns (hash : Bytes → UInt64) {ch : FastRpcChannel M} {op : ReceiveOp M}
    (hrep : ch.conn.readBuf.Represents q) (hwaits : Waits codec q) (hop : Receivable ch op)
    (hover : ¬Fits codec (q ++ received [op])) :
    receiveStep codec hash ch op = some (.error .outOfBounds) := by
  rcases receiveStep_outcome hash hrep hwaits hop with
    ⟨ch', kept, -, -, hrests, hfits⟩ | ⟨hfault, -⟩
  · have hkept : Fits codec (kept ++ []) := by
      rw [List.append_nil]
      exact .waits hrests
    have hall := (hfits []).mpr hkept
    rw [List.append_nil] at hall
    exact absurd hall hover
  · exact hfault

/-- The same for a run, from a buffer that holds the bytes that wait. -/
theorem receive_outcome {hash : Bytes → UInt64} {ch : FastRpcChannel M}
    {ops : List (ReceiveOp M)} {r : Except Fault (FastRpcChannel M)}
    (hrun : Run.Path (receiveStep codec hash) Receivable ch ops r)
    (hrep : ch.conn.readBuf.Represents q) (hwaits : Waits codec q) :
    (∃ ch', r = .ok ch') ↔ Fits codec (q ++ received ops) := by
  induction hrun generalizing q with
  | nil ch =>
      rw [show received ([] : List (ReceiveOp M)) = [] from rfl, List.append_nil]
      exact iff_of_true ⟨ch, rfl⟩ (.waits hwaits)
  | cons head taken tail ih =>
      rw [received_cons, ← List.append_assoc]
      rcases receiveStep_outcome hash hrep hwaits head with
        ⟨ch', kept, hstep, hkept, hrests, hfits⟩ | ⟨hfault, -⟩
      · cases taken.symm.trans hstep
        rw [ih hkept hrests, hfits]
      · cases taken.symm.trans hfault
  | fault head taken =>
      rcases receiveStep_outcome hash hrep hwaits head with ⟨ch', -, hstep, -⟩ | ⟨-, hnot⟩
      · cases taken.symm.trans hstep
      · refine iff_of_false ?_ hnot
        rintro ⟨ch', hok⟩
        cases hok

/-- Along every run of reads, calls and timeouts, from an empty buffer: no copy goes past the
array just when the frames in the bytes received fit it. -/
theorem receive_within_iff (codec : Codec FastMessage) (hash : Bytes → UInt64)
    (ch : FastRpcChannel M) (hempty : ch.conn.readBuf.Represents []) (ops : List (ReceiveOp M))
    (r : Except Fault (FastRpcChannel M))
    (hrun : Run.Path (receiveStep codec hash) Receivable ch ops r) :
    (∃ ch', r = .ok ch') ↔ Fits codec (received ops) :=
  receive_outcome hrun hempty (.inl (Nat.zero_le _))

/-- A frame of a server that keeps to the format fits just when its bytes do. -/
theorem fits_bytes_iff {f : Frame} (hf : f.Carried codec) :
    Fits codec (f.bytes codec) ↔ (f.bytes codec).length ≤ arraySize := by
  have hlength := Frame.length_bytes codec f
  have hpos := hf.message_nonempty
  have hbytes : f.bytes codec <+: f.bytes codec ++ [] := List.prefix_append _ []
  have hword := Frame.lengthIn_frame hf hbytes (by omega)
  have hsize := Frame.sizeIn_frame hf hbytes (by omega)
  constructor
  · intro hfits
    cases hfits with
    | waits rests =>
        rw [Waits, hword, hsize] at rests
        omega
    | frame leads rest => exact hsize ▸ leads.fits
  · intro hfits
    refine .frame ⟨by omega, by omega, hsize.le, hsize.trans_le hfits⟩ (.waits (.inl ?_))
    rw [hsize, List.drop_length]
    exact Nat.zero_le _

/-- An open connection can receive any chunk that is not too long for one read. -/
theorem receivable_read {ch : FastRpcChannel M} {chunk : Bytes}
    (hstate : ch.conn.state = .connected) (hrep : ch.conn.readBuf.Represents q)
    (hfits : q.length + chunk.length + 1 < 2 ^ 63) (hshort : chunk.length ≤ Buffer.extraSize) :
    Receivable ch (.read chunk) := by
  obtain ⟨b, n, hread, -, hall, -⟩ := TCPConnection.handleReadEvent_waiting hstate hrep hfits
  rw [Nat.min_eq_left hshort] at hall
  rw [List.take_of_length_le hall] at hread
  refine ⟨?_, _, hread⟩
  rw [TCPConnection.readableLength_eq hrep]
  exact hfits

end Receiving

/-- The answer to a call, received in one read. -/
theorem receive_within_answer :
    ∃ r, Run.Path (receiveStep answerCodec echoHash) Receivable echoChannel
        [.read (echoAnswer.bytes answerCodec)] r ∧ ∃ ch', r = .ok ch' := by
  have hread : Receivable echoChannel (.read (echoAnswer.bytes answerCodec)) :=
    receivable_read rfl echoConn_empty (by decide +kernel) (by decide +kernel)
  have hempty : Waits answerCodec [] := .inl (Nat.zero_le _)
  obtain ⟨r, hrun⟩ : ∃ r, Run.Path (receiveStep answerCodec echoHash) Receivable echoChannel
      [.read (echoAnswer.bytes answerCodec)] r := by
    rcases receiveStep_outcome echoHash echoConn_empty hempty hread with
      ⟨ch', -, hstep, -⟩ | ⟨hstep, -⟩
    · exact ⟨_, .cons hread hstep (.nil ch')⟩
    · exact ⟨_, .fault hread hstep⟩
  refine ⟨r, hrun, (receive_within_iff _ _ _ echoConn_empty _ r hrun).mpr ?_⟩
  rw [received_read]
  exact (fits_bytes_iff answerFrame.carried).mpr (by decide +kernel)

/-- An answer with a body of 2100 bytes, and its wire format. -/
def longAnswer : Frame where
  message := { echoAnswer.message with length := 2100 }
  body := List.replicate 2100 0x61

def longCodec : Codec FastMessage :=
  .table [(longAnswer.message,
    [0x0d, 0x7b, 0x00, 0x00, 0x00, 0x15, 0xc8, 0x01, 0x00, 0x00, 0x1d, 0x02, 0x00, 0x00, 0x00,
      0x25, 0x34, 0x08, 0x00, 0x00, 0x2d, 0x07, 0x00, 0x00, 0x00, 0x45, 0x87, 0x2d, 0x6e, 0xea])]

theorem longAnswer_carried : longAnswer.Carried longCodec :=
  ⟨by rw [Codec.RoundTrips]; decide +kernel, by decide +kernel, by decide +kernel,
    by rw [longAnswer, List.length_replicate]; decide⟩

theorem length_longAnswer : (longAnswer.bytes longCodec).length = 2134 := by
  have hmessage : (longCodec.serialize longAnswer.message).length = 30 := by decide +kernel
  have hbody : longAnswer.body.length = 2100 := List.length_replicate
  rw [Frame.length_bytes, hmessage, hbody]

/-- The whole frame is removed into the array, which it overruns. -/
theorem long_answer_overruns :
    arraySize < (longAnswer.bytes longCodec).length ∧
    Run.Path (receiveStep longCodec echoHash) Receivable echoChannel
      [.read (longAnswer.bytes longCodec)] (.error .outOfBounds) := by
  have hover : arraySize < (longAnswer.bytes longCodec).length := by
    rw [length_longAnswer]
    decide
  have hread : Receivable echoChannel (.read (longAnswer.bytes longCodec)) := by
    refine receivable_read rfl echoConn_empty ?_ ?_
    · rw [length_longAnswer]
      decide
    · rw [length_longAnswer]
      decide
  refine ⟨hover, .fault hread (receiveStep_overruns echoHash echoConn_empty ?_ hread ?_)⟩
  · exact .inl (Nat.zero_le _)
  · rw [received_read]
    exact fun hfits => Nat.not_le.mpr hover ((fits_bytes_iff longAnswer_carried).mp hfits)

end FastRpcChannel

end LibMsf
