import LibMsf.Stun.PseudoTcpReceiving

/-!
The calls that an application makes, from outside or in a callback.

Each of them keeps the invariant against the view of the peer and lets its own view grow. What
the application offers to `Send` in a callback is counted, since the stream must not run out of
sequence numbers.
-/

namespace LibMsf

open Cxx

/-- The number of bytes that a call offers. -/
def AppCall.offered : AppCall → Nat
  | .send data => data.length
  | .recv _ => 0
  | .close _ => 0

/-- The number of bytes that the calls of a callback offer. -/
def offered (calls : List AppCall) : Nat := (calls.map AppCall.offered).sum

/-- Nothing is taken when the connection is closed, so `OnTcpClosed` does not count. -/
def Notify.offered (notify : Notify) : Nat :=
  LibMsf.offered notify.onTcpOpen + LibMsf.offered notify.onTcpWriteable +
    LibMsf.offered notify.onTcpReadable

namespace Endpoint

variable {v : View} {n : Nat} {e e' : Endpoint} {host : Host}

/-- What receiving leaves as it is. -/
structure Receives (e e' : Endpoint) : Prop where
  sender : e'.sender = e.sender
  common : e'.common = e.common
  packets : e'.packets = e.packets
  scale : e'.rwndScale = e.rwndScale
  nxt : e.rcvNxt.toNat ≤ e'.rcvNxt.toNat
  edge : e.receiver.edge ≤ e'.receiver.edge

theorem Receives.grows (h : e.Receives e') : e.view.Grows e'.view := by
  refine ⟨?_, ?_, h.nxt, h.edge, congrArg UInt8.toNat h.scale⟩
  · have hqueued : e'.view.queued = e.view.queued := congrArg Sender.queued h.sender
    rw [hqueued]
  · intro c hc
    have hcut : e'.view.cut = e.view.cut := congrArg Sender.Cut h.sender
    rwa [hcut]

theorem Inv.receives (h : e.Inv v n) (hr : e.Receives e') (hok : e'.receiver.Ok v) :
    e'.Inv v n := by
  refine ⟨?_, h.packets_grow hr.grows hr.packets⟩
  have hcore : e'.core = ⟨e.sender, e'.receiver, e.common⟩ := by
    rw [← hr.sender, ← hr.common]
    rfl
  rw [hcore]
  refine { h.core with receiver := hok, stream := ?_ }
  have hscale : e'.receiver.scale = e.receiver.scale := hr.scale
  rw [Core.Stream, hscale]
  exact h.core.stream

theorem rcvAvailable_toNat (h : e.receiver.Ok v) :
    e.rcvAvailable.toNat = e.rbuf.tape.ahead.length := by
  have hvalid : e.rbuf.Valid := h.valid
  have hcapacity : e.rbuf.bufferLength < 2 ^ 32 := h.capacity_lt
  rw [rcvAvailable, hvalid.getWriteRemaining_eq, toNat_ofNat32]
  rw [hvalid.length_ahead]
  omega

theorem Inv.openWindow (h : e.Inv v n) (hstart : e.rcvNxt ≠ 0) :
    Ends (e.openWindow host) (fun e' => e'.Inv v n ∧ e.view.Grows e'.view) := by
  have havailable := rcvAvailable_toNat h.core.receiver
  have hwnd : e.rcvWnd.toNat ≤ e.rcvAvailable.toNat := by
    rw [havailable]
    exact h.core.receiver.wnd_le
  have hr : e.Receives { e with rcvWnd := e.rcvAvailable } :=
    ⟨rfl, rfl, rfl, rfl, le_rfl, Nat.add_le_add_left hwnd _⟩
  have hinv : Inv v n { e with rcvWnd := e.rcvAvailable } :=
    h.receives hr (h.core.receiver.widen hstart hwnd havailable.le)
  unfold Endpoint.openWindow
  split
  · split
    · refine (hinv.attemptSend .immediateAck).mono ?_
      rintro e₁ ⟨hinv₁, htransmits⟩
      exact ⟨hinv₁, hr.grows.trans htransmits.grows⟩
    · exact .ok ⟨hinv, hr.grows⟩
  · exact .ok ⟨h, .refl _⟩

theorem Inv.taken (h : e.Inv v n) (len : Nat) {rbuf : FifoBuffer} (hvalid : rbuf.Valid)
    (hcapacity : rbuf.bufferLength = e.rbuf.bufferLength)
    (htape : rbuf.tape = e.rbuf.tape.drop len) {e₁ : Endpoint}
    (hcore : e₁.core = { e.core with receiver := { e.receiver with
      rbuf := rbuf, delivered := e.delivered ++ e.rbuf.tape.readable.take len } })
    (hpackets : e₁.packets = e.packets) : e₁.Inv v n ∧ e.view.Grows e₁.view := by
  have hreceiver : e₁.receiver = { e.receiver with
      rbuf := rbuf, delivered := e.delivered ++ e.rbuf.tape.readable.take len } :=
    congrArg Core.receiver hcore
  have hnxt : e₁.rcvNxt = e.rcvNxt := congrArg Receiver.nxt hreceiver
  have hr : e.Receives e₁ := by
    refine ⟨congrArg Core.sender hcore, congrArg Core.common hcore, hpackets,
      congrArg Receiver.scale hreceiver, by rw [hnxt], ?_⟩
    rw [hreceiver]
    exact le_rfl
  refine ⟨h.receives hr ?_, hr.grows⟩
  rw [hreceiver]
  exact h.core.receiver.read len hvalid hcapacity htape

theorem Inv.recv (h : e.Inv v n) (len : Nat) :
    Ends (e.recv host len) (fun r => r.1.Inv v n ∧ e.view.Grows r.1.view) := by
  unfold Endpoint.recv
  by_cases hstate : e.state ≠ .established
  · rw [if_pos hstate]
    exact .ok ⟨h.of_core rfl rfl, .refl _⟩
  have hvalid : e.rbuf.Valid := h.core.receiver.valid
  have hopened : e.rbuf.tape.closed = false := h.core.receiver.opened
  obtain ⟨rbuf, hread, hvalid', hcapacity, htape⟩ := hvalid.read_eq len
  rw [if_neg hstate, hread, checked_ok, ok_bind]
  by_cases hempty : e.rbuf.tape.readable = []
  · have hblock : e.rbuf.tape.readResult 0 = .block := by
      simp [FifoBuffer.Tape.readResult, hempty, hopened]
    rw [if_pos hblock]
    refine .ok (h.taken len hvalid' hcapacity htape ?_ rfl)
    rw [hempty, List.take_nil, List.append_nil]
    rfl
  · have hsuccess : e.rbuf.tape.readResult 0 = .success :=
      if_pos (List.length_pos_of_ne_nil hempty)
    have hstart : e.rcvNxt ≠ 0 := fun hzero => hempty (h.core.receiver.unread hzero)
    have hready : e.rbuf.tape.readResult 0 ≠ .block := by
      rw [hsuccess]
      decide
    rw [if_neg hready, checked_assertThat hsuccess, ok_bind]
    generalize he₁ : ({ e with
      rbuf := rbuf
      delivered := e.delivered ++ e.rbuf.tape.readable.take len } : Endpoint) = e₁
    have htaken : e₁.Inv v n ∧ e.view.Grows e₁.view :=
      h.taken len hvalid' hcapacity htape (by rw [← he₁]; rfl) (by rw [← he₁])
    have hstart₁ : e₁.rcvNxt ≠ 0 := by
      rw [← he₁]
      exact hstart
    refine (htaken.1.openWindow hstart₁).bind ?_
    rintro e₂ ⟨hinv₂, hgrows₂⟩
    exact .ok ⟨hinv₂, htaken.2.trans hgrows₂⟩

theorem Inv.close (h : e.Inv v n) (force : Bool) :
    (e.close force).Inv v n ∧ e.view.Grows (e.close force).view := by
  have hr : e.Receives (e.close force) := ⟨rfl, rfl, rfl, rfl, le_rfl, le_rfl⟩
  have hok := h.core.receiver
  refine ⟨h.receives hr { hok with content := ?_ }, hr.grows⟩
  intro hnone
  change (if force then Shutdown.forceful else Shutdown.graceful) = .none at hnone
  split at hnone <;> cases hnone

theorem Inv.appCall (call : AppCall) (h : e.Inv v (n + call.offered)) :
    Ends (e.appCall host call) (fun e' => e'.Inv v n ∧ e.view.Grows e'.view) := by
  cases call with
  | send data =>
      refine Ends.bind (Inv.send h) ?_
      exact fun r hr => .ok hr
  | recv len =>
      refine Ends.bind (Inv.recv h len) ?_
      exact fun r hr => .ok hr
  | close force => exact .ok (Inv.close h force)

theorem Inv.callback (calls : List AppCall) (h : e.Inv v (n + offered calls)) :
    Ends (callback host e calls) (fun e' => e'.Inv v n ∧ e.view.Grows e'.view) := by
  induction calls generalizing e with
  | nil => exact .ok ⟨h, .refl _⟩
  | cons call calls ih =>
      have hcall : e.Inv v (n + offered calls + call.offered) := by
        refine h.spend (le_of_eq ?_)
        rw [offered, offered, List.map_cons, List.sum_cons]
        omega
      refine hcall.appCall.bind ?_
      rintro e₁ ⟨hinv, hgrows⟩
      refine (ih hinv).mono ?_
      rintro e₂ ⟨hinv₂, hgrows₂⟩
      exact ⟨hinv₂, hgrows.trans hgrows₂⟩

/-- A change of the state to one in which nothing depends on what is queued, or of a kind that
the queue suits. -/
theorem Inv.with_state (h : e.Inv v n) {state : TcpState} (hidle : state ≠ .listen)
    (hactive : state = .closed ∨ e.queued ≠ []) : Inv v n { e with state := state } := by
  refine ⟨{ h.core with idle := fun hl => absurd hl hidle, active := ?_ }, h.packets⟩
  intro hstate
  refine hactive.resolve_left ?_
  rintro rfl
  rcases hstate with hstate | hstate | hstate <;> cases hstate

/-- On a closed connection `Send` and `Recv` do nothing. -/
theorem Inv.callback_closed (calls : List AppCall) (h : e.Inv v n) (hclosed : e.state = .closed) :
    Ends (Endpoint.callback host e calls) (fun e' => e'.Inv v n ∧ e.view.Grows e'.view) := by
  induction calls generalizing e with
  | nil => exact .ok ⟨h, .refl _⟩
  | cons call calls ih =>
      have hnot : e.state ≠ .established := by
        rw [hclosed]
        decide
      have hcall : Ends (e.appCall host call)
          (fun e' => e'.Inv v n ∧ e.view.Grows e'.view ∧ e'.state = .closed) := by
        cases call with
        | send data =>
            rw [Endpoint.appCall, Endpoint.send, if_pos hnot, ok_bind]
            exact .ok ⟨h.of_core rfl rfl, .refl _, hclosed⟩
        | recv len =>
            rw [Endpoint.appCall, Endpoint.recv, if_pos hnot, ok_bind]
            exact .ok ⟨h.of_core rfl rfl, .refl _, hclosed⟩
        | close force => exact .ok ⟨(h.close force).1, (h.close force).2, hclosed⟩
      refine hcall.bind ?_
      rintro e₁ ⟨hinv, hgrows, hclosed₁⟩
      refine (ih hinv hclosed₁).mono ?_
      rintro e₂ ⟨hinv₂, hgrows₂⟩
      exact ⟨hinv₂, hgrows.trans hgrows₂⟩

theorem Inv.closedown (h : e.Inv v n) (notify : Notify) :
    Ends (e.closedown host notify) (fun e' => e'.Inv v n ∧ e.view.Grows e'.view) :=
  Inv.callback_closed _ (h.with_state (by decide) (.inl rfl)) rfl

theorem Inv.retuned (h : e.Inv v n) {mss msslevel ssthresh cwnd recover rtoBase : UInt32}
    {dupAcks : UInt8}
    (hcore : e'.core = { e.core with sender := { e.sender with
      mss := mss, msslevel := msslevel, ssthresh := ssthresh, cwnd := cwnd, recover := recover,
      dupAcks := dupAcks, rtoBase := rtoBase } })
    (hpackets : e'.packets = e.packets) (hcongestion : e'.sender.Congestion) :
    e'.Inv v n ∧ e.view.Grows e'.view := by
  have hok := h.core.sender
  have hcongestion' : e'.core.sender.Congestion := hcongestion
  have hgrows : e.view.Grows e'.view := by
    rw [view, view, hcore]
    exact ⟨List.prefix_rfl, fun _ hc => hc, le_rfl, le_rfl, rfl⟩
  refine ⟨⟨?_, h.packets_grow hgrows hpackets⟩, hgrows⟩
  rw [hcore] at hcongestion' ⊢
  exact ⟨⟨hok.buffered, hcongestion', hok.bounded, hok.split, hok.ctrl, hok.una_le, hok.nxt_le,
    hok.wnd_le, hok.first, hok.scale⟩, h.core.receiver, h.core.room, h.core.stream, h.core.idle,
    h.core.active, h.core.support, h.core.mtu_ge, h.core.mtu_le⟩

end Endpoint

end LibMsf
