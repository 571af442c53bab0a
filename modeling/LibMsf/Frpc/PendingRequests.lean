import LibMsf.Frpc.ServerFraming
import LibMsf.Library.Path

/-!
Requests between their dispatch and their response.

`HandleFrpcMessage` enters each request that it dispatches into `pending_request_`, and
the closure that the service runs, `SendResponse`, takes it out at its end. The objects
are numbered in the order in which they are made, and the set holds their numbers. A
response for which there is no memory leaves the set as it was: the set is the requests
that wait for their response just as long as that does not happen.
-/

namespace LibMsf

open Cxx

variable {M : Type}

/-- The controller is left out: nothing here looks at it. -/
structure FastRpcRequest (M : Type) where
  conn : Nat
  frpc : FastMessage
  method : FastRpcMethod M
  request : M
  response : M

/-- `answered` are the requests whose closure has run. -/
structure PendingTable (M : Type) where
  conns : Nat → TCPConnection
  requests : List (FastRpcRequest M) := []
  pendingRequest : Finset Nat := ∅
  answered : List Nat := []

namespace PendingTable

/-- A new response is empty, as a message without fields. -/
def dispatch (s : PendingTable M) (conn : Nat) (d : Dispatch M) : PendingTable M :=
  let pending : FastRpcRequest M :=
    ⟨conn, d.frpc, d.method, d.request, (d.method.response.parse []).2⟩
  { s with
    requests := s.requests ++ [pending]
    pendingRequest := insert s.requests.length s.pendingRequest }

/-- `block` is what `conn->Malloc` returns. -/
def sendResponse (codec : Codec FastMessage) (block : Option Nat) (s : PendingTable M)
    (id : Nat) (msg : FastRpcRequest M) : PendingTable M :=
  let body := msg.method.response.serialize msg.response
  let frpc := { msg.frpc with
    type := MessageType.response.number
    length := .ofNat body.length }
  let s := { s with requests := s.requests.set id { msg with frpc := frpc } }
  match block with
  | none => s
  | some base =>
      let conn := (s.conns msg.conn).submitWriteBuffer ⟨base, Frame.bytes codec ⟨frpc, body⟩⟩
      { s with
        conns := Function.update s.conns msg.conn { conn with writeEvent := true }
        pendingRequest := s.pendingRequest.erase id }

inductive Op (M : Type) where
  | dispatch (conn : Nat) (d : Dispatch M)
  | done (id : Nat) (response : M) (block : Option Nat)

/-- The service fills the response in and runs the closure, which deletes itself. -/
def step (codec : Codec FastMessage) (s : PendingTable M) :
    Op M → Option (Except Fault (PendingTable M))
  | .dispatch conn d => some (.ok (s.dispatch conn d))
  | .done id response block =>
      match s.requests[id]? with
      | none => none
      | some msg =>
          if id ∈ s.answered then none
          else
            let s := { s with answered := s.answered ++ [id] }
            some (.ok (s.sendResponse codec block id { msg with response := response }))

/-- The set is the requests that were dispatched and not answered. -/
def Exact (s : PendingTable M) : Prop :=
  ∀ id, id ∈ s.pendingRequest ↔ id < s.requests.length ∧ id ∉ s.answered

def ExactResult (r : Except Fault (PendingTable M)) : Prop :=
  ∃ s, r = .ok s ∧ Exact s

/-- There is memory for the response. -/
def HasMemory (_ : PendingTable M) : Op M → Prop
  | .done _ _ block => block.isSome
  | .dispatch _ _ => True

section Step

variable {codec : Codec FastMessage} {s : PendingTable M}

structure Tracked (s : PendingTable M) : Prop where
  exact : Exact s
  made : ∀ id ∈ s.answered, id < s.requests.length

theorem Tracked.dispatch (h : Tracked s) (conn : Nat) (d : Dispatch M) :
    Tracked (s.dispatch conn d) := by
  have hlength : (s.dispatch conn d).requests.length = s.requests.length + 1 :=
    List.length_append
  refine ⟨fun id => ?_, fun id hid => ?_⟩
  · have hset : id ∈ (s.dispatch conn d).pendingRequest ↔
        id = s.requests.length ∨ id ∈ s.pendingRequest := Finset.mem_insert
    rw [hset, hlength, h.exact id]
    constructor
    · rintro (rfl | ⟨hmade, hwaits⟩)
      · exact ⟨Nat.lt_succ_self _, fun hid => Nat.lt_irrefl _ (h.made _ hid)⟩
      · exact ⟨Nat.lt_succ_of_lt hmade, hwaits⟩
    · rintro ⟨hmade, hwaits⟩
      cases Nat.lt_succ_iff_lt_or_eq.mp hmade with
      | inl hlt => exact .inr ⟨hlt, hwaits⟩
      | inr heq => exact .inl heq
  · rw [hlength]
    exact Nat.lt_succ_of_lt (h.made id hid)

theorem step_done {id : Nat} {response : M} {block : Option Nat}
    {r : Except Fault (PendingTable M)} (hstep : step codec s (.done id response block) = some r) :
    ∃ msg, id < s.requests.length ∧ id ∉ s.answered ∧
      r = .ok ({ s with answered := s.answered ++ [id] }.sendResponse codec block id msg) := by
  simp only [step] at hstep
  cases hmsg : s.requests[id]? with
  | none =>
      rw [hmsg] at hstep
      cases hstep
  | some msg =>
      obtain ⟨hmade, -⟩ := List.getElem?_eq_some_iff.mp hmsg
      simp only [hmsg] at hstep
      by_cases hid : id ∈ s.answered
      · rw [if_pos hid] at hstep
        cases hstep
      · rw [if_neg hid] at hstep
        exact ⟨_, hmade, hid, (Option.some.inj hstep).symm⟩

theorem Tracked.sendResponse (h : Tracked s) {id : Nat} (hmade : id < s.requests.length)
    (base : Nat) (msg : FastRpcRequest M) :
    Tracked ({ s with answered := s.answered ++ [id] }.sendResponse codec (some base) id msg) := by
  have hlength : ({ s with answered := s.answered ++ [id] }.sendResponse codec (some base)
      id msg).requests.length = s.requests.length := List.length_set
  refine ⟨fun other => ?_, fun other hother => ?_⟩
  · have hset : other ∈ ({ s with answered := s.answered ++ [id] }.sendResponse codec (some base)
        id msg).pendingRequest ↔ other ≠ id ∧ other ∈ s.pendingRequest := Finset.mem_erase
    have hanswered : ({ s with answered := s.answered ++ [id] }.sendResponse codec (some base)
        id msg).answered = s.answered ++ [id] := rfl
    rw [hset, hlength, hanswered, h.exact other, List.mem_append, List.mem_singleton]
    tauto
  · rw [hlength]
    cases List.mem_append.mp hother with
    | inl hold => exact h.made other hold
    | inr hnew => exact (List.mem_singleton.mp hnew) ▸ hmade

theorem Tracked.step (h : Tracked s) {op : Op M} {r : Except Fault (PendingTable M)}
    (hmemory : HasMemory s op) (hstep : PendingTable.step codec s op = some r) :
    ∃ s', r = .ok s' ∧ Tracked s' := by
  cases op with
  | dispatch conn d =>
      cases hstep
      exact ⟨_, rfl, h.dispatch conn d⟩
  | done id response block =>
      obtain ⟨msg, hmade, -, rfl⟩ := step_done hstep
      obtain ⟨base, rfl⟩ := Option.isSome_iff_exists.mp hmemory
      exact ⟨_, rfl, h.sendResponse hmade base msg⟩

/-- Without memory the request stays in the set, though its closure has run. -/
theorem Tracked.step_refused (h : Tracked s) {op : Op M} {r : Except Fault (PendingTable M)}
    (hmemory : ¬HasMemory s op) (hstep : PendingTable.step codec s op = some r) :
    ¬ExactResult r := by
  cases op with
  | dispatch conn d => exact absurd trivial hmemory
  | done id response block =>
      obtain ⟨msg, hmade, hwaits, rfl⟩ := step_done hstep
      obtain rfl : block = none := Option.not_isSome_iff_eq_none.mp hmemory
      rintro ⟨s', hs', hexact⟩
      cases hs'
      have hstays : id ∈ s.pendingRequest := (h.exact id).mpr ⟨hmade, hwaits⟩
      exact ((hexact id).mp hstays).2 (List.mem_append_right _ List.mem_cons_self)

end Step

/-- Before the first request. -/
def start (conns : Nat → TCPConnection) : PendingTable M where
  conns := conns

theorem start_tracked (conns : Nat → TCPConnection) : Tracked (start (M := M) conns) :=
  ⟨fun _ => ⟨fun h => absurd h (Finset.notMem_empty _), fun h => absurd h.1 (Nat.not_lt_zero _)⟩,
    fun _ h => absurd h List.not_mem_nil⟩

/-- The set is exact throughout a run just when there is memory for every response of it. -/
theorem run_exact_iff (codec : Codec FastMessage) (conns : Nat → TCPConnection)
    (ops : List (Op M)) (r : Except Fault (PendingTable M))
    (hrun : Run.Path (step codec) (fun _ _ => True) (start conns) ops r) :
    (∀ before after r', ops = before ++ after →
      Run.Path (step codec) (fun _ _ => True) (start conns) before r' → ExactResult r') ↔
      ∀ before op after s, ops = before ++ op :: after →
        Run.Path (step codec) (fun _ _ => True) (start conns) before (.ok s) →
          HasMemory s op := by
  refine Run.Path.good_iff (fun s h => ⟨s, rfl, h.exact⟩) ?_ ?_ hrun (start_tracked conns)
  · exact fun s op r h _ hmemory hstep => h.step hmemory hstep
  · exact fun s op r h _ hmemory hstep => h.step_refused hmemory hstep

def echoDispatch : Dispatch Bytes :=
  echoCall.dispatch echoHash

/-- Two requests that are answered in the other order. -/
theorem run_exact_two :
    ∃ r, Run.Path (step ServerSession.echoCodec) (fun _ _ => True) (start fun _ => echoConn)
        [.dispatch 0 echoDispatch, .dispatch 1 echoDispatch, .done 1 (ascii ['h', 'i']) (some 9),
          .done 0 (ascii ['h', 'i']) (some 5)] r ∧
      ExactResult r := by
  have hrun : ∃ r, Run.Path (step ServerSession.echoCodec) HasMemory (start fun _ => echoConn)
      [.dispatch 0 echoDispatch, .dispatch 1 echoDispatch, .done 1 (ascii ['h', 'i']) (some 9),
        .done 0 (ascii ['h', 'i']) (some 5)] r :=
    ⟨_, .cons trivial rfl (.cons trivial rfl (.cons rfl rfl (.cons rfl rfl (.nil _))))⟩
  obtain ⟨r, hpath⟩ := hrun
  have hfree := hpath.mono (fun _ _ _ => trivial)
  refine ⟨r, hfree, ?_⟩
  exact Run.Path.good_of_meets (fun _ _ h => h) (run_exact_iff _ _ _ r hfree) hpath hfree

/-- A request whose response finds no memory stays in the set for ever. -/
theorem refused_response_stays :
    ∃ s, Run.Path (step ServerSession.echoCodec) (fun _ _ => True) (start fun _ => echoConn)
        [.dispatch 0 echoDispatch, .done 0 (ascii ['h', 'i']) none] (.ok s) ∧
      0 ∈ s.pendingRequest ∧ s.answered = [0] ∧ ¬Exact s := by
  refine ⟨_, Run.Path.of_follow rfl, ?_, rfl, ?_⟩
  · decide
  · intro hexact
    exact ((hexact 0).mp (by decide)).2 (by decide)

end PendingTable

end LibMsf
