import LibMsf.Frpc.Turns
import LibMsf.Library.Assignment

/-!
Framing of requests on a byte stream.

The stream is the frames of a list of calls, back to back, and reads cut it anywhere.
After every read the server has dispatched exactly the calls whose frames have arrived
completely, and what it keeps is the beginning of the next frame.
-/

namespace LibMsf

open Cxx

variable {M : Type}

/-- What is relied on about the messages of a call. -/
structure MethodCall.Carried (codec : Codec FastMessage) (hash : Bytes → UInt64)
    (call : MethodCall M) : Prop where
  frame : (call.frame hash).Carried codec
  request : call.method.request.RoundTrips call.request

def MethodCall.dispatch (hash : Bytes → UInt64) (call : MethodCall M) : Dispatch M :=
  ⟨call.innerMessage hash, call.method, call.request⟩

/-- The frames of the calls, back to back. -/
def callStream (codec : Codec FastMessage) (hash : Bytes → UInt64)
    (calls : List (MethodCall M)) : Bytes :=
  stream codec (calls.map (MethodCall.frame hash))

section Stream

variable {codec : Codec FastMessage} {hash : Bytes → UInt64}

theorem callStream_cons (call : MethodCall M) (calls : List (MethodCall M)) :
    callStream codec hash (call :: calls) =
      (call.frame hash).bytes codec ++ callStream codec hash calls :=
  stream_cons _ _

theorem callStream_append (done rest : List (MethodCall M)) :
    callStream codec hash (done ++ rest) =
      callStream codec hash done ++ callStream codec hash rest := by
  rw [callStream, List.map_append, stream_append, callStream, callStream]

end Stream

namespace FastRpcServer

section Turn

variable {codec : Codec FastMessage} {hash : Bytes → UInt64} {server : FastRpcServer M}
  {f : Frame} {call : MethodCall M} {s : FrpcState M} {q tail : Bytes}

/-- With the message in the buffer, a turn comes to its second half. -/
theorem handleBody_message (server : FastRpcServer M) (hf : f.Carried codec)
    (hrep : s.conn.readBuf.Represents q) (hq : q <+: f.bytes codec ++ tail)
    (hlong : 4 + (codec.serialize f.message).length ≤ q.length) (old : UInt32) :
    ∃ length : UInt32, length.toNat = (codec.serialize f.message).length ∧
      handleBody codec (fun _ => true) server (s, old) =
        takeFrame (fun _ => true) server (visited s) q.length length f.message >>=
          fun turn => .ok (turn.map (fun s => (s, length)) id) := by
  have hpos := hf.message_nonempty
  have hlength := Frame.lengthIn_frame hf hq (by omega)
  refine ⟨Frame.peekedLength old (some (q.take 4)), by rw [Frame.toNat_peekedLength, hlength], ?_⟩
  rw [handleBody_peeked hrep (by omega) (by omega) rfl, Frame.messageIn_frame hf hq hlong,
    if_neg Bool.true_eq_false.mp]

/-- A turn without a complete frame ends the loop and changes neither the buffer nor the
requests. -/
theorem handleBody_unfinished (hf : f.Carried codec) (hrep : s.conn.readBuf.Represents q)
    (hq : q <+: f.bytes codec) (hlt : q.length < (f.bytes codec).length) (old : UInt32) :
    ∃ s', handleBody codec (fun _ => true) server (s, old) = .ok (.inr s') ∧
      s'.conn = s.conn ∧ s'.dispatched = s.dispatched := by
  rw [Frame.length_bytes] at hlt
  have hq' : q <+: f.bytes codec ++ [] := hq.trans (List.prefix_append _ [])
  by_cases hmessage : 4 + (codec.serialize f.message).length ≤ q.length
  · obtain ⟨length, hlength, hturn⟩ := handleBody_message server hf hrep hq' hmessage old
    refine ⟨visited s, ?_, rfl, rfl⟩
    rw [hturn, takeFrame_waits (by rw [hlength, hf.body_length]; exact hlt)]
    rfl
  · by_cases hword : q.length ≤ 4
    · exact ⟨s, handleBody_short hrep hword codec _ old, rfl, rfl⟩
    · have hlength := Frame.lengthIn_frame hf hq' (by omega)
      exact ⟨s, handleBody_unready hrep (by omega) (by omega) codec _ old, rfl, rfl⟩

theorem handleMessage_call (hcall : call.Carried codec hash)
    (hmethod : server.getFastMethod (opcodeOf hash call.method) = some call.method)
    (s : FrpcState M) (block : Nat) :
    handleMessage server s block (call.frame hash).message (call.frame hash).body =
      .inl { s.free block with dispatched := s.dispatched ++ [call.dispatch hash] } := by
  have hopcode : server.getFastMethod (call.frame hash).message.opcode = some call.method :=
    hmethod
  have hparse : call.method.request.parse (call.frame hash).body = (true, call.request) :=
    hcall.request
  have htype : (call.frame hash).message.type = MessageType.request.number := rfl
  simp only [handleMessage, if_pos htype, hopcode, hparse, if_true]
  rfl

/-- A turn with a complete frame in front takes it off the buffer and dispatches it. -/
theorem handleBody_frame (hcall : call.Carried codec hash)
    (hmethod : server.getFastMethod (opcodeOf hash call.method) = some call.method)
    (hrep : s.conn.readBuf.Represents ((call.frame hash).bytes codec ++ tail)) (old : UInt32) :
    ∃ s' length, handleBody codec (fun _ => true) server (s, old) = .ok (.inl (s', length)) ∧
      s'.conn = { s.conn with readBuf := s'.conn.readBuf } ∧
      s'.conn.readBuf.Represents tail ∧ s'.dispatched = s.dispatched ++ [call.dispatch hash] := by
  have hsize := Frame.length_bytes codec (call.frame hash)
  have hbody := hcall.frame.body_length
  obtain ⟨length, hlength, hturn⟩ := handleBody_message server hcall.frame hrep
    (List.prefix_refl _) (by rw [List.length_append]; omega) old
  have hall : 4 + length.toNat + (call.frame hash).message.length.toNat =
      ((call.frame hash).bytes codec).length := by
    omega
  have hvisited : (visited s).conn.readBuf.Represents ((call.frame hash).bytes codec ++ tail) :=
    hrep
  obtain ⟨b, hafter, htaken⟩ := takeFrame_taken hvisited (fun _ => true) rfl server
    length (call.frame hash).message (by rw [hall, List.length_append]; omega)
  rw [hall, List.drop_left] at hafter
  rw [hall, List.take_left, hlength, Frame.drop_bytes, handleMessage_call hcall hmethod] at htaken
  refine ⟨{ (taken (visited s) b).free (visited s).mallocs with
      dispatched := s.dispatched ++ [call.dispatch hash] }, length, ?_, rfl, hafter, rfl⟩
  rw [hturn, htaken]
  rfl

end Turn

theorem getFastMethod_hookService {hash : Bytes → UInt64} {methods : List (FastRpcMethod M)}
    (hdistinct : (methods.map (opcodeOf hash)).Nodup) {method : FastRpcMethod M}
    (hmethod : method ∈ methods) :
    (hookService hash methods).getFastMethod (opcodeOf hash method) = some method :=
  Assignment.getElem?_of_mem (List.pairwise_map.mp hdistinct) hmethod ∅

section Loop

variable {codec : Codec FastMessage} {hash : Bytes → UInt64} {server : FastRpcServer M}

/-- Handling a beginning of the stream dispatches the calls that are complete in it and
keeps the rest. -/
theorem handleFrpcMessage_returns (calls : List (MethodCall M))
    (hcarried : ∀ call ∈ calls, call.Carried codec hash)
    (hmethods : ∀ call ∈ calls,
      server.getFastMethod (opcodeOf hash call.method) = some call.method)
    {s : FrpcState M} {q : Bytes} (hrep : s.conn.readBuf.Represents q)
    (hq : q <+: callStream codec hash calls) (old : UInt32) :
    ∃ s' done rest kept, calls = done ++ rest ∧
      Run.Returns (handleBody codec (fun _ => true) server) (s, old) (.ok s') ∧
      q = callStream codec hash done ++ kept ∧
      Unfinished codec (rest.map (MethodCall.frame hash)) kept ∧
      s'.conn = { s.conn with readBuf := s'.conn.readBuf } ∧
      s'.conn.readBuf.Represents kept ∧
      s'.dispatched = s.dispatched ++ done.map (MethodCall.dispatch hash) := by
  induction calls generalizing s q old with
  | nil =>
      obtain rfl : q = [] := List.prefix_nil.mp hq
      exact ⟨s, [], [], [], rfl, .done (handleBody_short hrep (Nat.zero_le _) codec _ old), rfl,
        rfl, rfl, hrep, (List.append_nil _).symm⟩
  | cons call calls ih =>
      have hcall := hcarried call List.mem_cons_self
      cases stream_cases hq with
      | inl hpart =>
          obtain ⟨s', hturn, hconn, hsame⟩ :=
            handleBody_unfinished hcall.frame hrep hpart.1 hpart.2 old
          exact ⟨s', [], call :: calls, q, rfl, .done hturn, rfl, hpart, by rw [hconn],
            hconn ▸ hrep, by rw [hsame, List.map_nil, List.append_nil]⟩
      | inr hwhole =>
          obtain ⟨tail, rfl, htail⟩ := hwhole
          obtain ⟨s₁, length, hturn, hconn, hrep₁, hdispatched⟩ :=
            handleBody_frame hcall (hmethods call List.mem_cons_self) hrep old
          obtain ⟨s', done, rest, kept, rfl, hreturns, rfl, hkept, hconn', hrep', hdone⟩ :=
            ih (fun c hc => hcarried c (List.mem_cons_of_mem call hc))
              (fun c hc => hmethods c (List.mem_cons_of_mem call hc)) hrep₁ htail length
          refine ⟨s', call :: done, rest, kept, rfl, .again hturn hreturns, ?_, hkept, ?_, hrep',
            ?_⟩
          · rw [callStream_cons, List.append_assoc]
          · rw [hconn', hconn]
          · rw [hdone, hdispatched, List.map_cons, List.append_assoc, List.singleton_append]

end Loop

end FastRpcServer

namespace ServerSession

variable {codec : Codec FastMessage} {hash : Bytes → UInt64} {server : FastRpcServer M}
  {calls : List (MethodCall M)} {delivered : Bytes} {session : ServerSession M}

/-- The bytes delivered so far are the frames of the calls that were dispatched, the bytes
that the connection keeps, and those that wait on the socket. -/
structure Framed (codec : Codec FastMessage) (hash : Bytes → UInt64)
    (calls : List (MethodCall M)) (delivered : Bytes) (session : ServerSession M) : Prop where
  connected : session.state.conn.state = .connected
  parts : ∃ done rest kept, calls = done ++ rest ∧
    delivered = callStream codec hash done ++ kept ++ session.waiting ∧
    Unfinished codec (rest.map (MethodCall.frame hash)) kept ∧
    session.state.conn.readBuf.Represents kept ∧
    session.state.dispatched = done.map (MethodCall.dispatch hash)

/-- A read that finds no more than `extraSize` bytes leaves none of them on the socket. -/
theorem Framed.step (h : Framed codec hash calls delivered session)
    (hcarried : ∀ call ∈ calls, call.Carried codec hash)
    (hmethods : ∀ call ∈ calls,
      server.getFastMethod (opcodeOf hash call.method) = some call.method)
    (hsize : (callStream codec hash calls).length + 1 < 2 ^ 63) {chunk : Bytes}
    (hchunk : delivered ++ chunk <+: callStream codec hash calls) :
    ∃ enough session', (∀ fuel, enough ≤ fuel →
        step codec (fun _ => true) server fuel session chunk = some (.ok session')) ∧
      Framed codec hash calls (delivered ++ chunk) session' ∧
      ((session.waiting ++ chunk).length ≤ Buffer.extraSize → session'.waiting = []) := by
  obtain ⟨done, rest, kept, rfl, rfl, -, hrep, hdispatched⟩ := h.parts
  have hwaiting : kept ++ (session.waiting ++ chunk) <+: callStream codec hash rest := by
    rw [callStream_append, List.append_assoc, List.append_assoc] at hchunk
    exact (List.prefix_append_right_inj _).mp hchunk
  have hfits : kept.length + (session.waiting ++ chunk).length + 1 < 2 ^ 63 := by
    have hlen := hchunk.length_le
    simp only [List.length_append] at hlen ⊢
    omega
  obtain ⟨b, n, hread, hn, hall, hrepb⟩ :=
    TCPConnection.handleReadEvent_waiting h.connected hrep hfits
  have hbeginning : kept ++ (session.waiting ++ chunk).take n <+: callStream codec hash rest := by
    refine List.IsPrefix.trans ?_ hwaiting
    rw [List.prefix_append_right_inj]
    exact ⟨_, List.take_append_drop n _⟩
  obtain ⟨s', done', rest', kept', hcalls, ⟨enough, hloop⟩, hsplit, hkept, hconn, hrep', hdone⟩ :=
    FastRpcServer.handleFrpcMessage_returns rest
      (fun c hc => hcarried c (List.mem_append_right _ hc))
      (fun c hc => hmethods c (List.mem_append_right _ hc))
      (s := { session.state with conn := { session.state.conn with readBuf := b } }) hrepb
      hbeginning 0
  refine ⟨enough, ⟨s', (session.waiting ++ chunk).drop n⟩, ?_, ⟨?_, ?_⟩, ?_⟩
  · intro fuel hfuel
    have htaken : ((session.waiting ++ chunk).take n).length = n := by
      rw [List.length_take]
      omega
    simp only [step, hread, FastRpcServer.handleFrpcMessage, hloop fuel hfuel, Option.map_some,
      Except.map, htaken]
  · rw [hconn]
    exact h.connected
  · refine ⟨done ++ done', rest', kept', by rw [hcalls, List.append_assoc], ?_, hkept, hrep', ?_⟩
    · calc callStream codec hash done ++ kept ++ session.waiting ++ chunk
          = callStream codec hash done ++ (kept ++ ((session.waiting ++ chunk).take n ++
              (session.waiting ++ chunk).drop n)) := by
            rw [List.take_append_drop, List.append_assoc, List.append_assoc]
        _ = callStream codec hash done ++ (callStream codec hash done' ++ kept' ++
              (session.waiting ++ chunk).drop n) := by
            rw [← List.append_assoc kept, hsplit]
        _ = callStream codec hash (done ++ done') ++ kept' ++
              (session.waiting ++ chunk).drop n := by
            simp only [callStream_append, List.append_assoc]
    · rw [hdone, List.map_append, hdispatched]
  · intro hshort
    rw [Nat.min_eq_left hshort] at hall
    exact List.drop_eq_nil_of_le hall

theorem Framed.run (chunks : List Bytes) (h : Framed codec hash calls delivered session)
    (hcarried : ∀ call ∈ calls, call.Carried codec hash)
    (hmethods : ∀ call ∈ calls,
      server.getFastMethod (opcodeOf hash call.method) = some call.method)
    (hsize : (callStream codec hash calls).length + 1 < 2 ^ 63)
    (hchunks : delivered ++ chunks.flatten <+: callStream codec hash calls) :
    ∃ enough session', (∀ fuel, enough ≤ fuel →
        run codec (fun _ => true) server fuel session chunks = some (.ok session')) ∧
      Framed codec hash calls (delivered ++ chunks.flatten) session' ∧
      (session.waiting = [] → (∀ chunk ∈ chunks, chunk.length ≤ Buffer.extraSize) →
        session'.waiting = []) := by
  induction chunks generalizing delivered session with
  | nil =>
      rw [List.flatten_nil, List.append_nil] at *
      exact ⟨0, session, fun _ _ => rfl, h, fun hread _ => hread⟩
  | cons chunk chunks ih =>
      rw [List.flatten_cons, ← List.append_assoc] at hchunks ⊢
      obtain ⟨enough, session₁, hstep, h₁, hread₁⟩ :=
        h.step hcarried hmethods hsize ((List.prefix_append _ _).trans hchunks)
      obtain ⟨enough', session', hrun, h', hread'⟩ := ih h₁ hchunks
      refine ⟨max enough enough', session', ?_, h', ?_⟩
      · intro fuel hfuel
        rw [ServerSession.run, hstep fuel (by omega)]
        exact hrun fuel (by omega)
      · intro hread hshort
        refine hread' (hread₁ ?_) fun c hc => hshort c (List.mem_cons_of_mem chunk hc)
        rw [hread, List.nil_append]
        exact hshort chunk List.mem_cons_self

theorem Framed.complete (h : Framed codec hash calls (callStream codec hash calls) session)
    (hread : session.waiting = []) :
    session.state.dispatched = calls.map (MethodCall.dispatch hash) ∧
      session.state.conn.readBuf.Represents [] := by
  obtain ⟨done, rest, kept, rfl, hsplit, hkept, hrep, hdispatched⟩ := h.parts
  rw [hread, List.append_nil, callStream_append, List.append_cancel_left_eq] at hsplit
  cases rest with
  | nil =>
      rw [show kept = [] from hkept] at hrep
      rw [List.append_nil]
      exact ⟨hdispatched, hrep⟩
  | cons call rest =>
      -- A kept part of the next frame is too short to hold all of that frame.
      have hlt := hkept.2
      rw [← hsplit, callStream_cons, List.length_append] at hlt
      omega

/-- However the stream of the calls is cut into reads: after every read exactly the calls
whose frames have arrived are dispatched, in order, and the connection keeps the beginning
of the next frame. Reads of at most `extraSize` bytes leave nothing on the socket, and once all
is read, all calls are dispatched. -/
theorem run_dispatches (codec : Codec FastMessage) (hash : Bytes → UInt64)
    (methods : List (FastRpcMethod M)) (hdistinct : (methods.map (opcodeOf hash)).Nodup)
    (calls : List (MethodCall M)) (hregistered : ∀ call ∈ calls, call.method ∈ methods)
    (hcarried : ∀ call ∈ calls, call.Carried codec hash)
    (hsize : (callStream codec hash calls).length + 1 < 2 ^ 63)
    (conn : TCPConnection) (hconn : conn.state = .connected)
    (hempty : conn.readBuf.Represents []) (chunks : List Bytes)
    (hchunks : chunks.flatten <+: callStream codec hash calls) :
    ∃ enough session, (∀ fuel, enough ≤ fuel →
        run codec (fun _ => true) (FastRpcServer.hookService hash methods) fuel
          { state := { conn := conn } } chunks = some (.ok session)) ∧
      Framed codec hash calls chunks.flatten session ∧
      ((∀ chunk ∈ chunks, chunk.length ≤ Buffer.extraSize) → session.waiting = []) ∧
      (chunks.flatten = callStream codec hash calls → session.waiting = [] →
        session.state.dispatched = calls.map (MethodCall.dispatch hash) ∧
          session.state.conn.readBuf.Represents []) := by
  have hstart : Framed codec hash calls [] { state := { conn := conn } } :=
    ⟨hconn, [], calls, [], rfl, rfl, unfinished_nil _, hempty, rfl⟩
  obtain ⟨enough, session, hrun, h, hread⟩ := Framed.run chunks hstart hcarried
    (fun call hcall => FastRpcServer.getFastMethod_hookService hdistinct (hregistered call hcall))
    hsize hchunks
  rw [List.nil_append] at h
  refine ⟨enough, session, hrun, h, hread rfl, ?_⟩
  intro hall hwaiting
  rw [hall] at h
  exact h.complete hwaiting

/-- The wire format of the message that announces the call. -/
def echoCodec : Codec FastMessage :=
  .table [(echoCall.innerMessage echoHash,
    [0x0d, 0x7b, 0x00, 0x00, 0x00, 0x15, 0xc8, 0x01, 0x00, 0x00, 0x1d, 0x01, 0x00, 0x00, 0x00,
      0x25, 0x04, 0x00, 0x00, 0x00, 0x2d, 0x07, 0x00, 0x00, 0x00, 0x45, 0x87, 0x2d, 0x6e, 0xea])]

theorem echoCall_carried : echoCall.Carried echoCodec echoHash :=
  ⟨⟨by rw [Codec.RoundTrips]; decide +kernel, by decide +kernel, by decide +kernel,
    by decide +kernel⟩, by rw [Codec.RoundTrips]; decide +kernel⟩

/-- Two calls, cut inside the length word, the message and the body. -/
def echoChunks : List Bytes :=
  let bytes := callStream echoCodec echoHash [echoCall, echoCall]
  [bytes.take 3, (bytes.drop 3).take 20, (bytes.drop 23).take 14, bytes.drop 37]

theorem run_dispatches_echo :
    ∃ enough session, (∀ fuel, enough ≤ fuel →
        run echoCodec (fun _ => true) (FastRpcServer.hookService echoHash [echoMethod]) fuel
          { state := { conn := echoConn } } echoChunks = some (.ok session)) ∧
      session.state.dispatched = [echoCall.dispatch echoHash, echoCall.dispatch echoHash] ∧
      session.state.conn.readBuf.Represents [] := by
  have hall : echoChunks.flatten = callStream echoCodec echoHash [echoCall, echoCall] := by
    decide +kernel
  have hcarried : ∀ call ∈ [echoCall, echoCall], call.Carried echoCodec echoHash := by
    simpa only [List.mem_cons, List.not_mem_nil, or_false, or_self, forall_eq] using
      echoCall_carried
  have hshort : ∀ chunk ∈ echoChunks, chunk.length ≤ Buffer.extraSize := by
    decide +kernel
  obtain ⟨enough, session, hrun, -, hread, hdone⟩ := run_dispatches echoCodec echoHash [echoMethod]
    (by decide +kernel) [echoCall, echoCall] (by simp [echoCall]) hcarried (by decide +kernel)
    echoConn rfl echoConn_empty echoChunks (by rw [hall])
  exact ⟨enough, session, hrun, hdone hall (hread hshort)⟩

end ServerSession

end LibMsf
