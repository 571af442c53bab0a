import LibMsf.Frpc.Turns
import LibMsf.Library.Run

/-!
Completion of calls.

A response is parsed into the caller's object, but its call stays in the table: the call
does not count as completed, and its timer still marks it as failed and completes it. A
run keeps every call from being completed twice just when no response ever reaches a call
that waits for it.
-/

namespace LibMsf

open Cxx

variable {M : Type}

/-- A frame that fits the array of the receiver. -/
structure WireFrame (codec : Codec FastMessage) where
  frame : Frame
  carried : frame.Carried codec
  short : (frame.bytes codec).length ≤ FastRpcChannel.arraySize

inductive ChannelOp (M : Type) (codec : Codec FastMessage) where
  | call (call : MethodCall M) (controller done : Bool) (block : Option Nat)
  | arrive (f : WireFrame codec)
  | timeout (callId : UInt32)

/-- The call that an event completes as timed out. -/
def ChannelEvent.timeoutOf : ChannelEvent M → Option UInt32
  | .setFailed callId _ => some callId
  | .completedSet callId => some callId
  | .doneRun callId => some callId
  | _ => none

namespace FastRpcChannel

section Frames

variable {codec : Codec FastMessage} {f : Frame} {ch : FastRpcChannel M} {tail : Bytes}

theorem parseBody_frame (hf : f.Carried codec) (hshort : (f.bytes codec).length ≤ arraySize)
    (hrep : ch.conn.readBuf.Represents (f.bytes codec ++ tail)) (old : UInt32) :
    ∃ b length, b.Represents tail ∧ parseBody codec (ch, old) =
      .ok (.inl ((ch.withBuffer b).handleMessage f.message f.body, length)) := by
  have hbytes := Frame.length_bytes codec f
  have hpos := hf.message_nonempty
  have hall : (f.bytes codec ++ tail).length = (f.bytes codec).length + tail.length :=
    List.length_append
  have hlength := Frame.lengthIn_frame hf (List.prefix_refl (f.bytes codec ++ tail)) (by omega)
  have hmessage := Frame.messageIn_frame hf (List.prefix_refl (f.bytes codec ++ tail)) (by omega)
  have hsize := Frame.sizeIn_frame hf (List.prefix_refl (f.bytes codec ++ tail)) (by omega)
  obtain ⟨b, hafter, hturn⟩ := parseBody_taken hrep (by omega) (by omega)
    (show Frame.sizeIn codec (f.bytes codec ++ tail) ≤ _ by omega) (by omega) old
  rw [hsize, List.drop_left] at hafter
  rw [hsize, List.take_left, hmessage, hlength, Frame.drop_bytes] at hturn
  exact ⟨b, _, hafter, hturn⟩

/-- An arriving frame is handled at once, as long as the connection is open. -/
theorem readCallback_frame (hf : f.Carried codec) (hshort : (f.bytes codec).length ≤ arraySize)
    (hrep : ch.conn.readBuf.Represents []) (hstate : ch.conn.state = .connected) :
    ∃ b, b.Represents [] ∧ readCallback codec ch (f.bytes codec) =
      some (.ok ((ch.withBuffer b).handleMessage f.message f.body)) := by
  have hsmall : (f.bytes codec).length ≤ 2048 := hshort
  obtain ⟨b, n, hread, hle, hmin, hrepb⟩ := TCPConnection.handleReadEvent_waiting hstate hrep
    (show ([] : Bytes).length + (f.bytes codec).length + 1 < 2 ^ 63 by
      rw [List.length_nil]; omega)
  have hn : n = (f.bytes codec).length := by
    have : Buffer.extraSize = 65536 := rfl
    omega
  rw [hn, List.take_length, List.nil_append, ← List.append_nil (f.bytes codec)] at hrepb
  have hready : (ch.withBuffer b).conn.readBuf.Represents (f.bytes codec ++ []) := hrepb
  have havailable := TCPConnection.readableLength_eq hready
  obtain ⟨b', length, hrep', hturn⟩ := parseBody_frame hf hshort hready 0
  rw [withBuffer_withBuffer] at hturn
  refine ⟨b', hrep', ?_⟩
  have hafter : ((ch.withBuffer b').handleMessage f.message f.body).conn.readBuf.Represents [] := by
    rw [handleMessage_readBuf]
    exact hrep'
  have hsize := Frame.length_bytes codec f
  obtain ⟨k, hk⟩ : ∃ k, (f.bytes codec ++ []).length = k + 1 :=
    ⟨(f.bytes codec ++ []).length - 1, by rw [List.append_nil]; omega⟩
  have hparse : parseFrpcMessage codec (ch.withBuffer b) =
      some (.ok ((ch.withBuffer b').handleMessage f.message f.body)) := by
    rw [parseFrpcMessage, havailable, hk]
    simp only [Run.loop, hturn, parseBody_short hafter (Nat.zero_le _)]
  rw [readCallback, hread]
  exact hparse

theorem readCallback_closed (hstate : ch.conn.state ≠ .connected)
    (hrep : ch.conn.readBuf.Represents []) (codec : Codec FastMessage) (arrived : Bytes) :
    readCallback codec ch arrived = some (.ok ch) := by
  simp only [readCallback, TCPConnection.handleReadEvent, if_pos hstate, pure_eq_ok,
    parseFrpcMessage, Run.loop, parseBody_short hrep (Nat.zero_le _)]

end Frames

section Runs

variable {codec : Codec FastMessage}

def step (hash : Bytes → UInt64) (ch : FastRpcChannel M) :
    ChannelOp M codec → Option (Except Fault (FastRpcChannel M))
  | .call call controller done block =>
      some (.ok (callMethod codec hash block ch call controller done))
  | .arrive f => readCallback codec ch (f.frame.bytes codec)
  | .timeout callId => some (.ok (ch.fireTimer callId))

def advance (hash : Bytes → UInt64) (r : Option (Except Fault (FastRpcChannel M)))
    (op : ChannelOp M codec) : Option (Except Fault (FastRpcChannel M)) :=
  match r with
  | some (.ok ch) => step hash ch op
  | other => other

def run (hash : Bytes → UInt64) (ch : FastRpcChannel M) (ops : List (ChannelOp M codec)) :
    Option (Except Fault (FastRpcChannel M)) :=
  ops.foldl (advance hash) (some (.ok ch))

/-- A call whose response was parsed is completed, and nothing after its response counts it
as timed out. -/
structure CompletedOnce (ch : FastRpcChannel M) : Prop where
  completed : ∀ callId response, .responseParsed callId response ∈ ch.log →
    ch.isCallCompleted callId = true
  silent : ∀ before callId response after,
    ch.log = before ++ .responseParsed callId response :: after →
    ∀ e ∈ after, e.timeoutOf ≠ some callId

/-- A response that parses reaches a call that waits for it. -/
def Answers (ch : FastRpcChannel M) : ChannelOp M codec → Prop
  | .arrive f => ch.conn.state = .connected ∧
      f.frame.message.type = MessageType.response.number ∧
      ∃ param, ch.waitingResponses[f.frame.message.callId]? = some param ∧
        (param.response.parse f.frame.body).1 = true
  | _ => False

/-- No response was parsed yet, and the buffer is empty between the steps. -/
structure Unanswered (ch : FastRpcChannel M) : Prop where
  buffer : ch.conn.readBuf.Represents []
  log : ∀ callId response, .responseParsed callId response ∉ ch.log

theorem Unanswered.completedOnce {ch : FastRpcChannel M} (h : Unanswered ch) :
    CompletedOnce ch := by
  refine ⟨fun callId response hmem => absurd hmem (h.log callId response), ?_⟩
  intro before callId response after hlog
  exact absurd (by rw [hlog]; simp) (h.log callId response)

theorem timeoutEvents_unanswered (callId : UInt32) (param : WaitingResponse M)
    (callId' : UInt32) (response : M) :
    .responseParsed callId' response ∉ timeoutEvents callId param := by
  cases hcontroller : param.controller with
  | true =>
      cases hdone : param.done with
      | true => simp [timeoutEvents, hcontroller, hdone]
      | false => simp [timeoutEvents, hcontroller, hdone]
  | false =>
      cases hdone : param.done with
      | true => simp [timeoutEvents, hcontroller, hdone]
      | false => simp [timeoutEvents, hcontroller, hdone]

theorem Unanswered.callMethod {ch : FastRpcChannel M} (h : Unanswered ch)
    (codec : Codec FastMessage) (hash : Bytes → UInt64) (block : Option Nat)
    (call : MethodCall M) (controller done : Bool) :
    Unanswered (callMethod codec hash block ch call controller done) := by
  cases block with
  | none => exact ⟨h.buffer, h.log⟩
  | some base => exact ⟨h.buffer, h.log⟩

theorem Unanswered.fireTimer {ch : FastRpcChannel M} (h : Unanswered ch) (callId : UInt32) :
    Unanswered (ch.fireTimer callId) := by
  rw [FastRpcChannel.fireTimer]
  split
  · rw [handleRequestTimeout]
    split
    · exact ⟨h.buffer, h.log⟩
    · refine ⟨h.buffer, ?_⟩
      intro callId' response hmem
      cases List.mem_append.mp hmem with
      | inl hold => exact h.log callId' response hold
      | inr hnew => exact timeoutEvents_unanswered callId _ callId' response hnew
  · exact h

/-- A message that is no answer leaves the log alone; an answer is logged while its call
stays in the table. -/
theorem handleMessage_log (ch : FastRpcChannel M) (frpc : FastMessage) (body : Bytes) :
    (¬(frpc.type = MessageType.response.number ∧
        ∃ param, ch.waitingResponses[frpc.callId]? = some param ∧
          (param.response.parse body).1 = true) →
      (ch.handleMessage frpc body).log = ch.log) ∧
    ∀ param, frpc.type = MessageType.response.number →
      ch.waitingResponses[frpc.callId]? = some param → (param.response.parse body).1 = true →
      ch.handleMessage frpc body =
        { ch with
          log := ch.log ++ [.responseParsed frpc.callId (param.response.parse body).2] } := by
  constructor
  · intro hnot
    rw [handleMessage]
    split
    · rename_i htype
      split
      · rfl
      · rename_i param hparam
        dsimp only
        split
        · rename_i hparse
          exact absurd ⟨htype, param, hparam, hparse⟩ hnot
        · rfl
    · rfl
  · intro param htype hparam hparse
    simp only [handleMessage, if_pos htype, hparam, hparse, if_true]

theorem Unanswered.step {ch : FastRpcChannel M} (h : Unanswered ch) (hash : Bytes → UInt64)
    {op : ChannelOp M codec} (hnot : ¬Answers ch op) :
    ∃ ch', FastRpcChannel.step hash ch op = some (.ok ch') ∧ Unanswered ch' := by
  cases op with
  | call call controller done block =>
      exact ⟨_, rfl, h.callMethod codec hash block call controller done⟩
  | timeout callId => exact ⟨_, rfl, h.fireTimer callId⟩
  | arrive f =>
      by_cases hstate : ch.conn.state = .connected
      · obtain ⟨b, hrep, hread⟩ := readCallback_frame f.carried f.short h.buffer hstate
        have hlog : ((ch.withBuffer b).handleMessage f.frame.message f.frame.body).log = ch.log :=
          (handleMessage_log _ _ _).1 (fun hanswer => hnot ⟨hstate, hanswer⟩)
        refine ⟨_, hread, ?_, ?_⟩
        · rw [handleMessage_readBuf]
          exact hrep
        · rw [hlog]
          exact h.log
      · exact ⟨ch, readCallback_closed hstate h.buffer codec _, h⟩

theorem Unanswered.step_answered {ch ch' : FastRpcChannel M} (h : Unanswered ch)
    {hash : Bytes → UInt64} {op : ChannelOp M codec} (hanswer : Answers ch op)
    (hstep : FastRpcChannel.step hash ch op = some (.ok ch')) : ¬CompletedOnce ch' := by
  cases op with
  | call call controller done block => exact hanswer.elim
  | timeout callId => exact hanswer.elim
  | arrive f =>
      obtain ⟨hstate, htype, param, hparam, hparse⟩ := hanswer
      obtain ⟨b, -, hread⟩ := readCallback_frame f.carried f.short h.buffer hstate
      have hmessage := (handleMessage_log (ch.withBuffer b) _ _).2 param htype hparam hparse
      rw [hmessage] at hread
      cases hread.symm.trans hstep
      intro honce
      have hcompleted := honce.completed f.frame.message.callId _
        (List.mem_append_right _ List.mem_cons_self)
      have hwaiting : (ch.withBuffer b).waitingResponses[f.frame.message.callId]? = some param :=
        hparam
      rw [isCallCompleted, hwaiting] at hcompleted
      cases hcompleted

def CompletedResult (r : Option (Except Fault (FastRpcChannel M))) : Prop :=
  ∃ ch, r = some (.ok ch) ∧ CompletedOnce ch

def AnsweredBy (r : Option (Except Fault (FastRpcChannel M))) (op : ChannelOp M codec) : Prop :=
  ∃ ch, r = some (.ok ch) ∧ Answers ch op

/-- From a channel that no response has reached, calls are completed once throughout a run
just when no step of the run brings a response to a call that waits for it. -/
theorem run_completedOnce_iff (hash : Bytes → UInt64) (ch : FastRpcChannel M)
    (hfresh : Unanswered ch) (ops : List (ChannelOp M codec)) :
    (∀ before after, ops = before ++ after → CompletedResult (run hash ch before)) ↔
      ∀ before op after, ops = before ++ op :: after → ¬AnsweredBy (run hash ch before) op := by
  have holds : ∀ r : Option (Except Fault (FastRpcChannel M)),
      (∃ ch, r = some (.ok ch) ∧ Unanswered ch) → CompletedResult r := by
    rintro r ⟨ch, rfl, h⟩
    exact ⟨ch, rfl, h.completedOnce⟩
  have keeps : ∀ (r : Option (Except Fault (FastRpcChannel M))) (op : ChannelOp M codec),
      (∃ ch, r = some (.ok ch) ∧ Unanswered ch) → ¬AnsweredBy r op →
        ∃ ch, advance hash r op = some (.ok ch) ∧ Unanswered ch := by
    rintro r op ⟨ch, rfl, h⟩ hnot
    exact h.step hash (fun hanswer => hnot ⟨ch, rfl, hanswer⟩)
  have breaks : ∀ (r : Option (Except Fault (FastRpcChannel M))) (op : ChannelOp M codec),
      (∃ ch, r = some (.ok ch) ∧ Unanswered ch) → ¬¬AnsweredBy r op →
        ¬CompletedResult (advance hash r op) := by
    rintro r op ⟨ch, rfl, h⟩ hanswered ⟨ch', hstep, honce⟩
    obtain ⟨ch₁, heq, hanswer⟩ := not_not.mp hanswered
    cases heq
    exact h.step_answered hanswer hstep honce
  exact Run.prefixes_iff holds keeps breaks ops (some (.ok ch)) ⟨ch, rfl, hfresh⟩

/-- The server's answer to the call with the text `hi`, and its wire format. -/
def echoAnswer : Frame where
  message := { echoCall.innerMessage echoHash with type := MessageType.response.number }
  body := [0x0a, 0x02, 0x68, 0x69]

def answerCodec : Codec FastMessage :=
  .table [(echoAnswer.message,
    [0x0d, 0x7b, 0x00, 0x00, 0x00, 0x15, 0xc8, 0x01, 0x00, 0x00, 0x1d, 0x02, 0x00, 0x00, 0x00,
      0x25, 0x04, 0x00, 0x00, 0x00, 0x2d, 0x07, 0x00, 0x00, 0x00, 0x45, 0x87, 0x2d, 0x6e, 0xea])]

def answerFrame : WireFrame answerCodec where
  frame := echoAnswer
  carried := ⟨by rw [Codec.RoundTrips]; decide +kernel, by decide +kernel, by decide +kernel,
    by decide +kernel⟩
  short := by decide +kernel

def echoChannel : FastRpcChannel Bytes where
  conn := echoConn
  timeout := 100

theorem echoChannel_unanswered : Unanswered echoChannel :=
  ⟨echoConn_empty, fun _ _ => List.not_mem_nil⟩

/-- An answer that nobody waits for, a call, and its timeout. -/
theorem run_completedOnce_timeout :
    CompletedResult (run echoHash echoChannel
      [.arrive answerFrame, .call echoCall true true (some 1), .timeout 7]) := by
  refine (run_completedOnce_iff echoHash echoChannel echoChannel_unanswered _).mpr ?_ _ []
    (List.append_nil _).symm
  rintro before op after heq ⟨ch, hrun, hanswer⟩
  cases before with
  | nil =>
      obtain ⟨rfl, -⟩ := List.cons_eq_cons.mp heq
      cases hrun
      obtain ⟨-, -, param, hparam, -⟩ := hanswer
      rw [show echoChannel.waitingResponses = ∅ from rfl, Std.ExtTreeMap.getElem?_empty] at hparam
      cases hparam
  | cons first before =>
      obtain ⟨-, htail⟩ := List.cons_eq_cons.mp heq
      have hop : op ∈ [.call echoCall true true (some 1), .timeout 7] := by
        rw [htail]
        simp
      simp only [List.mem_cons, List.not_mem_nil, or_false] at hop
      cases hop with
      | inl hcall =>
          rw [hcall] at hanswer
          exact hanswer
      | inr htimeout =>
          rw [htimeout] at hanswer
          exact hanswer

/-- The call counts as waiting after its answer, and its timeout marks it as failed and runs
its closure. -/
theorem answered_call_times_out :
    (run echoHash echoChannel
        [.call echoCall true true (some 1), .arrive answerFrame, .timeout 7]).map
      (fun r => r.map log) = some (.ok [.responseParsed 7 (ascii ['h', 'i']),
        .setFailed 7 (ascii "request timeout".toList), .doneRun 7, .cancelCallbacksRun 7]) ∧
    ¬CompletedResult (run echoHash echoChannel
        [.call echoCall true true (some 1), .arrive answerFrame, .timeout 7]) := by
  have hlog : (run echoHash echoChannel
        [.call echoCall true true (some 1), .arrive answerFrame, .timeout 7]).map
      (fun r => r.map log) = some (.ok [.responseParsed 7 (ascii ['h', 'i']),
        .setFailed 7 (ascii "request timeout".toList), .doneRun 7, .cancelCallbacksRun 7]) := by
    decide +kernel
  refine ⟨hlog, ?_⟩
  rintro ⟨ch, hrun, honce⟩
  rw [hrun] at hlog
  have hch : ch.log = _ := Except.ok.inj (Option.some.inj hlog)
  exact honce.silent [] 7 _ _ hch (.doneRun 7) (by decide +kernel) rfl

end Runs

end FastRpcChannel

end LibMsf
