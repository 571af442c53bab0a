import LibMsf.Frpc.CallCompletion
import LibMsf.Frpc.ServerFraming

/-!
The memory blocks of one call of `HandleFrpcMessage`.

Every turn of the loop asks for a block for the message and frees it, and asks for
another one for the whole frame, which it frees only when the message is a request.
`Emits` tells which blocks are asked for and freed, by the bytes in the buffer and the
answers of `Malloc`; the loop emits just that, whatever the bytes are. So all blocks are
freed exactly when every frame that is taken off is a request.
-/

namespace LibMsf

open Cxx

variable {M : Type}

def BlockEvent.block : BlockEvent → Nat
  | .malloc block => block
  | .free block => block

/-- Every block that was obtained is freed exactly once. -/
def Released (made : List BlockEvent) : Prop :=
  ∀ block, .malloc block ∈ made → made.count (.free block) = 1

section Blocks

variable {made rest : List BlockEvent} {block m : Nat}

theorem count_free_eq_zero (h : ∀ e ∈ made, e.block ≠ block) :
    made.count (.free block) = 0 :=
  List.count_eq_zero.mpr fun hmem => h _ hmem rfl

/-- Events about different blocks are judged apart. -/
theorem released_append (hmade : ∀ e ∈ made, e.block < m) (hrest : ∀ e ∈ rest, m ≤ e.block) :
    Released (made ++ rest) ↔ Released made ∧ Released rest := by
  have hfirst : ∀ block, .malloc block ∈ made → rest.count (.free block) = 0 := by
    intro block hmem
    have hblock : block < m := hmade _ hmem
    exact count_free_eq_zero fun e he => (hblock.trans_le (hrest e he)).ne'
  have hsecond : ∀ block, .malloc block ∈ rest → made.count (.free block) = 0 := by
    intro block hmem
    have hblock : m ≤ block := hrest _ hmem
    exact count_free_eq_zero fun e he => ((hmade e he).trans_le hblock).ne
  constructor
  · intro h
    refine ⟨fun block hmem => ?_, fun block hmem => ?_⟩
    · have hcount := h block (List.mem_append_left rest hmem)
      rwa [List.count_append, hfirst block hmem, Nat.add_zero] at hcount
    · have hcount := h block (List.mem_append_right made hmem)
      rwa [List.count_append, hsecond block hmem, Nat.zero_add] at hcount
  · rintro ⟨hleft, hright⟩ block hmem
    rw [List.count_append]
    cases List.mem_append.mp hmem with
    | inl hmem => rw [hfirst block hmem, hleft block hmem]
    | inr hmem => rw [hsecond block hmem, hright block hmem]

end Blocks

namespace FastRpcServer

variable (codec : Codec FastMessage) (grants : Nat → Bool) (server : FastRpcServer M)

/-- The turn gets a block for a complete message; `n` calls of `Malloc` were made before. -/
def Peeks (n : Nat) (q : Bytes) : Prop :=
  4 < q.length ∧ 4 + Frame.lengthIn q ≤ q.length ∧ grants n = true

/-- The message parses, its frame is complete, and there is a block for it. -/
structure Takes (n : Nat) (q : Bytes) : Prop where
  peeks : Peeks grants n q
  parses : (Frame.messageIn codec q).1 = true
  whole : Frame.sizeIn codec q ≤ q.length
  granted : grants (n + 1) = true

def IsRequest (q : Bytes) : Prop :=
  (Frame.messageIn codec q).2.type = MessageType.request.number

/-- The method is hooked and its request parses. -/
def Serves (q : Bytes) : Prop :=
  ∃ method, server.getFastMethod (Frame.messageIn codec q).2.opcode = some method ∧
    (method.request.parse
      ((q.take (Frame.sizeIn codec q)).drop (4 + Frame.lengthIn q))).1 = true

/-- Every frame that is taken off the buffer carries a request. -/
inductive TakesRequests : Nat → Bytes → Prop where
  | stopped {n : Nat} {q : Bytes} (rests : ¬Takes codec grants n q) : TakesRequests n q
  | refused {n : Nat} {q : Bytes} (takes : Takes codec grants n q) (request : IsRequest codec q)
      (closes : ¬Serves codec server q) : TakesRequests n q
  | served {n : Nat} {q : Bytes} (takes : Takes codec grants n q) (request : IsRequest codec q)
      (serves : Serves codec server q)
      (rest : TakesRequests (n + 2) (q.drop (Frame.sizeIn codec q))) : TakesRequests n q

/-- The blocks that a call obtains and frees, in order. -/
inductive Emits : Nat → Bytes → List BlockEvent → Prop where
  | idle {n : Nat} {q : Bytes} (rests : ¬Peeks grants n q) : Emits n q []
  | peeked {n : Nat} {q : Bytes} (peeks : Peeks grants n q) (rests : ¬Takes codec grants n q) :
      Emits n q [.malloc n, .free n]
  | dropped {n : Nat} {q : Bytes} {made : List BlockEvent} (takes : Takes codec grants n q)
      (other : ¬IsRequest codec q) (rest : Emits (n + 2) (q.drop (Frame.sizeIn codec q)) made) :
      Emits n q ([.malloc n, .free n, .malloc (n + 1)] ++ made)
  | refused {n : Nat} {q : Bytes} (takes : Takes codec grants n q) (request : IsRequest codec q)
      (closes : ¬Serves codec server q) :
      Emits n q [.malloc n, .free n, .malloc (n + 1), .free (n + 1)]
  | served {n : Nat} {q : Bytes} {made : List BlockEvent} (takes : Takes codec grants n q)
      (request : IsRequest codec q) (serves : Serves codec server q)
      (rest : Emits (n + 2) (q.drop (Frame.sizeIn codec q)) made) :
      Emits n q ([.malloc n, .free n, .malloc (n + 1), .free (n + 1)] ++ made)

/-- The call returns, and every block that it obtained is freed exactly once by then. -/
def ReleasesAll (s : FrpcState M) : Prop :=
  ∃ s' made, Run.Returns (handleBody codec grants server) (s, 0) (.ok s') ∧
    s'.events = s.events ++ made ∧ Released made

variable {codec grants server}

section Switch

variable {q : Bytes}

theorem handleMessage_other (hother : ¬IsRequest codec q) (s : FrpcState M) (block : Nat)
    (body : Bytes) :
    handleMessage server s block (Frame.messageIn codec q).2 body = .inl s :=
  if_neg hother

theorem handleMessage_refused (hrequest : IsRequest codec q) (hnot : ¬Serves codec server q)
    (s : FrpcState M) (block : Nat) :
    handleMessage server s block (Frame.messageIn codec q).2
        ((q.take (Frame.sizeIn codec q)).drop (4 + Frame.lengthIn q)) =
      .inr (s.free block).closeConn := by
  have htype : (Frame.messageIn codec q).2.type = MessageType.request.number := hrequest
  rw [handleMessage, if_pos htype]
  cases hmethod : server.getFastMethod (Frame.messageIn codec q).2.opcode with
  | none => rfl
  | some method =>
      have hparse : ¬(method.request.parse
          ((q.take (Frame.sizeIn codec q)).drop (4 + Frame.lengthIn q))).1 = true :=
        fun h => hnot ⟨method, hmethod, h⟩
      simp only [if_neg hparse]

theorem handleMessage_served (hrequest : IsRequest codec q) (hserves : Serves codec server q)
    (s : FrpcState M) (block : Nat) :
    ∃ dispatched, handleMessage server s block (Frame.messageIn codec q).2
        ((q.take (Frame.sizeIn codec q)).drop (4 + Frame.lengthIn q)) =
      .inl { s.free block with dispatched := dispatched } := by
  have htype : (Frame.messageIn codec q).2.type = MessageType.request.number := hrequest
  obtain ⟨method, hmethod, hparse⟩ := hserves
  refine ⟨s.dispatched ++ [⟨(Frame.messageIn codec q).2, method, (method.request.parse
    ((q.take (Frame.sizeIn codec q)).drop (4 + Frame.lengthIn q))).2⟩], ?_⟩
  simp only [handleMessage, if_pos htype, hmethod, hparse, if_true]
  rfl

end Switch

section Turn

variable {s : FrpcState M} {q : Bytes} (hrep : s.conn.readBuf.Represents q) (old : UInt32)

include hrep

theorem handleBody_idle (hrests : ¬Peeks grants s.mallocs q) :
    ∃ s', handleBody codec grants server (s, old) = .ok (.inr s') ∧ s'.events = s.events := by
  by_cases hword : 4 < q.length
  · by_cases hlong : 4 + Frame.lengthIn q ≤ q.length
    · have hdenied : grants s.mallocs = false :=
        Bool.eq_false_iff.mpr fun hgranted => hrests ⟨hword, hlong, hgranted⟩
      exact ⟨_, handleBody_denied hrep hword hlong hdenied codec old, rfl⟩
    · exact ⟨s, handleBody_unready hrep hword (Nat.not_le.mp hlong) codec grants old, rfl⟩
  · exact ⟨s, handleBody_short hrep (Nat.not_lt.mp hword) codec grants old, rfl⟩

theorem handleBody_peeks (hpeeks : Peeks grants s.mallocs q)
    (hrests : ¬Takes codec grants s.mallocs q) :
    ∃ s', handleBody codec grants server (s, old) = .ok (.inr s') ∧
      s'.events = s.events ++ [.malloc s.mallocs, .free s.mallocs] := by
  have hvisited : (visited s).events = s.events ++ [.malloc s.mallocs, .free s.mallocs] :=
    List.append_assoc _ _ _
  rw [handleBody_peeked hrep hpeeks.1 hpeeks.2.1 hpeeks.2.2]
  by_cases hparses : (Frame.messageIn codec q).1 = false
  · exact ⟨_, if_pos hparses, hvisited⟩
  · rw [if_neg hparses]
    by_cases hwhole : Frame.sizeIn codec q ≤ q.length
    · have hdenied : grants (visited s).mallocs = false :=
        Bool.eq_false_iff.mpr fun hgranted =>
          hrests ⟨hpeeks, Bool.eq_true_of_not_eq_false hparses, hwhole, hgranted⟩
      rw [takeFrame_denied (by rwa [Frame.toNat_peekedLength]) hdenied]
      exact ⟨_, rfl, hvisited⟩
    · rw [takeFrame_waits (by rw [Frame.toNat_peekedLength]; exact Nat.not_le.mp hwhole)]
      exact ⟨_, rfl, hvisited⟩

/-- A frame that is taken goes to the `switch`, with a second block. -/
theorem handleBody_takes (server : FastRpcServer M) (htakes : Takes codec grants s.mallocs q) :
    ∃ b, b.Represents (q.drop (Frame.sizeIn codec q)) ∧
      handleBody codec grants server (s, old) =
        .ok ((handleMessage server (taken (visited s) b) (s.mallocs + 1)
          (Frame.messageIn codec q).2
          ((q.take (Frame.sizeIn codec q)).drop (4 + Frame.lengthIn q))).map
            (fun s => (s, Frame.peekedLength old (some (q.take 4)))) id) := by
  have hvisited : (visited s).conn.readBuf.Represents q := hrep
  have hsize : 4 + (Frame.peekedLength old (some (q.take 4))).toNat +
      (Frame.messageIn codec q).2.length.toNat = Frame.sizeIn codec q := by
    rw [Frame.toNat_peekedLength, Frame.sizeIn]
  obtain ⟨b, hafter, htaken⟩ := takeFrame_taken hvisited grants htakes.granted server
    (Frame.peekedLength old (some (q.take 4))) (Frame.messageIn codec q).2
    (by rw [hsize]; exact htakes.whole)
  rw [hsize] at hafter htaken
  rw [Frame.toNat_peekedLength] at htaken
  refine ⟨b, hafter, ?_⟩
  rw [handleBody_peeked hrep htakes.peeks.1 htakes.peeks.2.1 htakes.peeks.2.2,
    if_neg (by rw [htakes.parses]; exact Bool.true_eq_false.mp), htaken]
  rfl

end Turn

/-- Whatever the buffer holds, the call returns and has emitted what its bytes tell. -/
theorem returns_emits (n : Nat) {s : FrpcState M} {q : Bytes} (hn : q.length ≤ n)
    (hrep : s.conn.readBuf.Represents q) (old : UInt32) :
    ∃ s' made, Run.Returns (handleBody codec grants server) (s, old) (.ok s') ∧
      s'.events = s.events ++ made ∧ Emits codec grants server s.mallocs q made := by
  induction n generalizing s q old with
  | zero =>
      have hrests : ¬Peeks grants s.mallocs q := fun hpeeks => by
        have := hpeeks.1
        omega
      obtain ⟨s', hturn, hevents⟩ := handleBody_idle hrep old hrests
      exact ⟨s', [], .done hturn, by rw [hevents, List.append_nil], .idle hrests⟩
  | succ n ih =>
      by_cases hpeeks : Peeks grants s.mallocs q
      · by_cases htakes : Takes codec grants s.mallocs q
        · obtain ⟨b, hafter, hturn⟩ := handleBody_takes hrep old server htakes
          have hless : (q.drop (Frame.sizeIn codec q)).length ≤ n := by
            have hword := hpeeks.1
            rw [List.length_drop, Frame.sizeIn]
            omega
          by_cases hrequest : IsRequest codec q
          · by_cases hserves : Serves codec server q
            · obtain ⟨dispatched, hserved⟩ := handleMessage_served hrequest hserves
                (taken (visited s) b) (s.mallocs + 1)
              rw [hserved] at hturn
              have hnext : FrpcState.conn { (taken (visited s) b).free (s.mallocs + 1) with
                dispatched := dispatched } |>.readBuf.Represents _ := hafter
              obtain ⟨s', made, hreturns, hevents, hemits⟩ := ih hless hnext _
              refine ⟨s', _, .again hturn hreturns, ?_, .served htakes hrequest hserves hemits⟩
              rw [hevents]
              simp [taken, visited, FrpcState.free]
            · rw [handleMessage_refused hrequest hserves] at hturn
              refine ⟨_, _, .done hturn, ?_, .refused htakes hrequest hserves⟩
              simp [taken, visited, FrpcState.free, FrpcState.closeConn]
          · rw [handleMessage_other hrequest] at hturn
            have hnext : (taken (visited s) b).conn.readBuf.Represents _ := hafter
            obtain ⟨s', made, hreturns, hevents, hemits⟩ := ih hless hnext _
            refine ⟨s', _, .again hturn hreturns, ?_, .dropped htakes hrequest hemits⟩
            rw [hevents]
            simp [taken, visited]
        · obtain ⟨s', hturn, hevents⟩ := handleBody_peeks hrep old hpeeks htakes
          exact ⟨s', _, .done hturn, hevents, .peeked hpeeks htakes⟩
      · obtain ⟨s', hturn, hevents⟩ := handleBody_idle hrep old hpeeks
        exact ⟨s', [], .done hturn, by rw [hevents, List.append_nil], .idle hpeeks⟩

theorem Emits.block_le {n : Nat} {q : Bytes} {made : List BlockEvent}
    (h : Emits codec grants server n q made) : ∀ e ∈ made, n ≤ e.block := by
  induction h with
  | idle rests => simp
  | peeked peeks rests => simp [BlockEvent.block]
  | dropped takes other rest ih =>
      refine List.forall_mem_append.mpr ⟨by simp [BlockEvent.block], fun e hmem => ?_⟩
      exact (Nat.le_add_right _ 2).trans (ih e hmem)
  | refused takes request closes => simp [BlockEvent.block]
  | served takes request serves rest ih =>
      refine List.forall_mem_append.mpr ⟨by simp [BlockEvent.block], fun e hmem => ?_⟩
      exact (Nat.le_add_right _ 2).trans (ih e hmem)

theorem Emits.released_iff {n : Nat} {q : Bytes} {made : List BlockEvent}
    (h : Emits codec grants server n q made) :
    Released made ↔ TakesRequests codec grants server n q := by
  induction h with
  | idle rests =>
      refine iff_of_true ?_ (.stopped fun takes => rests takes.peeks)
      simp [Released]
  | peeked peeks rests =>
      refine iff_of_true ?_ (.stopped rests)
      simp [Released]
  | @dropped n q made takes other rest ih =>
      rw [released_append (m := n + 2) (by simp [BlockEvent.block]) rest.block_le]
      refine iff_of_false (fun hreleased => ?_) ?_
      · have := hreleased.1 (n + 1)
        simp at this
      · rintro (rests | ⟨-, request, -⟩ | ⟨-, request, -, -⟩)
        · exact rests takes
        · exact other request
        · exact other request
  | refused takes request closes =>
      refine iff_of_true ?_ (.refused takes request closes)
      simp [Released]
  | @served n q made takes request serves rest ih =>
      rw [released_append (m := n + 2) (by simp [BlockEvent.block]) rest.block_le, ih]
      constructor
      · exact fun h => .served takes request serves h.2
      · rintro (rests | ⟨-, -, closes⟩ | ⟨-, -, -, hrest⟩)
        · exact absurd takes rests
        · exact absurd serves closes
        · exact ⟨by simp [Released], hrest⟩

/-- For every content of the read buffer and every pattern of allocations: the call returns
with every block freed once just when each frame that it takes off is a request. -/
theorem releasesAll_iff (codec : Codec FastMessage) (grants : Nat → Bool)
    (server : FastRpcServer M) (s : FrpcState M) (q : Bytes)
    (hrep : s.conn.readBuf.Represents q) :
    ReleasesAll codec grants server s ↔ TakesRequests codec grants server s.mallocs q := by
  obtain ⟨s', made, hreturns, hevents, hemits⟩ := returns_emits q.length le_rfl hrep 0
  rw [← hemits.released_iff]
  constructor
  · rintro ⟨s'', made', hreturns', hevents', hreleased⟩
    cases hreturns.unique hreturns'
    rw [hevents, List.append_cancel_left_eq] at hevents'
    rw [hevents']
    exact hreleased
  · intro hreleased
    exact ⟨s', made, hreturns, hevents, hreleased⟩

/-- A connection whose buffer holds these bytes. -/
def holding (q : Bytes) : FrpcState Bytes where
  conn := { echoConn with readBuf := ⟨q ++ List.replicate 1 0, q.length + 0 + 1, 0, q.length⟩ }

theorem holding_represents {q : Bytes} (hbounded : q.length + 0 + 1 < 2 ^ 63) :
    (holding q).conn.readBuf.Represents q :=
  Buffer.represents_front q hbounded

/-- One request and no more bytes: both blocks are freed. -/
theorem releasesAll_echo :
    ReleasesAll ServerSession.echoCodec (fun _ => true) (hookService echoHash [echoMethod])
      (holding ((echoCall.frame echoHash).bytes ServerSession.echoCodec)) := by
  refine (releasesAll_iff _ _ _ _ _ (holding_represents (by decide +kernel))).mpr ?_
  refine .served ⟨⟨by decide +kernel, by decide +kernel, rfl⟩, by decide +kernel,
    by decide +kernel, rfl⟩ (by unfold IsRequest; decide +kernel)
    ⟨echoMethod, ?_, by decide +kernel⟩ (.stopped fun takes => ?_)
  · rw [show (Frame.messageIn _ _).2.opcode = opcodeOf echoHash echoMethod by decide +kernel]
    exact getFastMethod_hookService (by decide +kernel) List.mem_cons_self
  · exact absurd takes.peeks.1 (by decide +kernel)

/-- A frame of type `RESPONSE` that a server receives: its second block is never freed. -/
theorem response_block_kept :
    (handleFrpcMessage FastRpcChannel.answerCodec (fun _ => true)
        (hookService echoHash [echoMethod]) 2
        (holding (FastRpcChannel.echoAnswer.bytes FastRpcChannel.answerCodec))).map
      (fun r => r.map FrpcState.events) = some (.ok [.malloc 0, .free 0, .malloc 1]) ∧
    ¬ReleasesAll FastRpcChannel.answerCodec (fun _ => true) (hookService echoHash [echoMethod])
      (holding (FastRpcChannel.echoAnswer.bytes FastRpcChannel.answerCodec)) := by
  have hevents : (handleFrpcMessage FastRpcChannel.answerCodec (fun _ => true)
        (hookService echoHash [echoMethod]) 2
        (holding (FastRpcChannel.echoAnswer.bytes FastRpcChannel.answerCodec))).map
      (fun r => r.map FrpcState.events) = some (.ok [.malloc 0, .free 0, .malloc 1]) := by
    decide +kernel
  refine ⟨hevents, ?_⟩
  rintro ⟨s', made, hreturns, hmade, hreleased⟩
  obtain ⟨r, hloop, hr⟩ := Option.map_eq_some_iff.mp hevents
  have hsame : r = .ok s' := Run.Returns.unique ⟨2, fun _ => Run.loop_mono hloop⟩ hreturns
  rw [hsame] at hr
  obtain rfl : made = [.malloc 0, .free 0, .malloc 1] := hmade.symm.trans (Except.ok.inj hr)
  exact absurd (hreleased 1 (by decide)) (by decide)

end FastRpcServer

end LibMsf
