import LibMsf.Sock.Connection

/-!
What the write path does with submitted bytes.

A session adds to the connection a record of what was submitted, what the kernel
accepted and which buffers were passed to `Free`. The queues themselves keep every
submitted buffer in order; what goes wrong is that a send which takes only part of
the busy bytes, or none because it would block, still releases all of them.
`Completes` says that this does not happen, and a run keeps its bytes exactly when
each of its write events completes.
-/

namespace LibMsf

open Cxx

inductive WriteOp where
  | submitBuffer (iov : Iovec)
  | submitIovec (queue : List Iovec)
  | writeEvent (r : SendResult)
deriving DecidableEq, Repr

structure WriteSession where
  conn : TCPConnection
  submitted : List Iovec
  accepted : Bytes
  freed : List Iovec

theorem bytesOf_append (xs ys : List Iovec) : bytesOf (xs ++ ys) = bytesOf xs ++ bytesOf ys := by
  simp only [bytesOf, List.map_append, List.flatten_append]

namespace TCPConnection

variable (conn : TCPConnection)

def held : List Iovec :=
  conn.writeBusyQueue ++ conn.writePendingQueue

theorem submitWriteBuffer_held (iov : Iovec) :
    (conn.submitWriteBuffer iov).held = conn.held ++ [iov] := by
  simp only [held, submitWriteBuffer, List.append_assoc]

theorem submitWriteIovec_held (queue : List Iovec) :
    (conn.submitWriteIovec queue).1.held = conn.held ++ queue := by
  cases queue with
  | nil => simp [submitWriteIovec]
  | cons iov queue =>
      cases hpending : conn.writePendingQueue with
      | nil => simp [submitWriteIovec, held, hpending]
      | cons first rest => simp [submitWriteIovec, held, hpending]

theorem submitWriteIovec_state (queue : List Iovec) :
    (conn.submitWriteIovec queue).1.state = conn.state := by
  simp only [submitWriteIovec]
  split
  · rfl
  · split <;> rfl

/-- Pending iovecs move behind the busy ones, and the caller goes on to send. -/
theorem updateWriteBusyIovec_eq :
    conn.updateWriteBusyIovec =
      ({ conn with writeBusyQueue := conn.held, writePendingQueue := [] }, false) := by
  cases hpending : conn.writePendingQueue with
  | nil =>
      simp only [updateWriteBusyIovec, hpending, List.isEmpty_nil, if_true, held, List.append_nil,
        Prod.mk.injEq, and_true]
      rw [← hpending]
  | cons first rest => simp [updateWriteBusyIovec, held, hpending]

theorem handleWriteEvent_eq (hstate : conn.state = .connected) (r : SendResult) :
    conn.handleWriteEvent r =
      if isConnError (r.ret conn.held) r.errno then
        ⟨{ conn with writeBusyQueue := conn.held, writePendingQueue := [] },
          r.taken conn.held, []⟩
      else
        ⟨{ conn with writeBusyQueue := [], writePendingQueue := [], writeEvent := false },
          r.taken conn.held, conn.held⟩ := by
  have hguard : ¬(conn.state ≠ .connected ∧ conn.state ≠ .closeWaitWrite) := fun h => h.1 hstate
  simp only [handleWriteEvent, if_neg hguard, updateWriteBusyIovec_eq, Bool.false_eq_true,
    if_false]

end TCPConnection

namespace WriteSession

variable {s : WriteSession}

def step (s : WriteSession) : WriteOp → WriteSession
  | .submitBuffer iov =>
      { s with conn := s.conn.submitWriteBuffer iov, submitted := s.submitted ++ [iov] }
  | .submitIovec queue =>
      { s with conn := (s.conn.submitWriteIovec queue).1, submitted := s.submitted ++ queue }
  | .writeEvent r =>
      let out := s.conn.handleWriteEvent r
      { s with
        conn := out.conn
        accepted := s.accepted ++ out.accepted
        freed := s.freed ++ out.freed }

def run (s : WriteSession) (ops : List WriteOp) : WriteSession :=
  ops.foldl step s

/-- A connected session before anything is submitted. -/
structure Fresh (s : WriteSession) : Prop where
  connected : s.conn.state = .connected
  pending : s.conn.writePendingQueue = []
  busy : s.conn.writeBusyQueue = []
  submitted : s.submitted = []
  accepted : s.accepted = []
  freed : s.freed = []

structure Lossless (s : WriteSession) : Prop where
  accepted_first : s.accepted <+: bytesOf s.submitted
  rest_held : (bytesOf s.submitted).drop s.accepted.length <:+ bytesOf s.conn.held
  freed_first : s.freed <+: s.submitted
  freed_accepted : bytesOf s.freed <+: s.accepted

/-- The kernel takes all the bytes that are queued, or the call counts as a connection
error and takes none. -/
def Completes (s : WriteSession) : WriteOp → Prop
  | .writeEvent (.room n) => n = 0 ∨ (bytesOf s.conn.held).length ≤ min n maxRwCount
  | .writeEvent (.failed (.other _)) => True
  | .writeEvent (.failed _) => bytesOf s.conn.held = []
  | _ => True

/-- The queues hold what was submitted and not released, and what was released is what
the kernel accepted. -/
structure Exact (s : WriteSession) : Prop where
  connected : s.conn.state = .connected
  split : s.submitted = s.freed ++ s.conn.held
  accepted : s.accepted = bytesOf s.freed

theorem Exact.lossless (h : Exact s) : Lossless s := by
  have hbytes : bytesOf s.submitted = s.accepted ++ bytesOf s.conn.held := by
    rw [h.split, bytesOf_append, h.accepted]
  refine ⟨?_, ?_, ?_, ?_⟩
  · exact ⟨_, hbytes.symm⟩
  · rw [hbytes, List.drop_left]
  · exact ⟨_, h.split.symm⟩
  · rw [h.accepted]

theorem Exact.retained (h : Exact s) {r : SendResult}
    (herror : TCPConnection.isConnError (r.ret s.conn.held) r.errno = true)
    (htaken : r.taken s.conn.held = []) : Exact (s.step (.writeEvent r)) := by
  simp only [step, s.conn.handleWriteEvent_eq h.connected, herror, if_true, htaken,
    List.append_nil]
  refine ⟨h.connected, ?_, h.accepted⟩
  simpa only [TCPConnection.held, List.append_nil] using h.split

/-- A write event that releases the busy buffers keeps the record exact just when the
kernel took all their bytes; otherwise a released buffer was not accepted. -/
theorem Exact.released (h : Exact s) {r : SendResult}
    (herror : TCPConnection.isConnError (r.ret s.conn.held) r.errno = false) :
    (r.taken s.conn.held = bytesOf s.conn.held → Exact (s.step (.writeEvent r))) ∧
      ((r.taken s.conn.held).length < (bytesOf s.conn.held).length →
        ¬Lossless (s.step (.writeEvent r))) := by
  simp only [step, s.conn.handleWriteEvent_eq h.connected, herror, Bool.false_eq_true, if_false]
  refine ⟨?_, ?_⟩
  · intro hall
    refine ⟨h.connected, ?_, ?_⟩
    · simpa only [TCPConnection.held, List.append_nil] using h.split
    · simp only [hall, bytesOf_append, h.accepted]
  · intro hshort hlossless
    have hle := hlossless.freed_accepted.length_le
    simp only [bytesOf_append, h.accepted, List.length_append] at hle
    omega

theorem room_exact (h : Exact s) (n : Nat) :
    (Completes s (.writeEvent (.room n)) → Exact (s.step (.writeEvent (.room n)))) ∧
      (¬Completes s (.writeEvent (.room n)) → ¬Lossless (s.step (.writeEvent (.room n)))) := by
  have hlen : (SendResult.taken s.conn.held (.room n)).length =
      min (min n maxRwCount) (bytesOf s.conn.held).length := List.length_take
  have herror : TCPConnection.isConnError (SendResult.ret s.conn.held (.room n)) (.other 0) =
      decide ((SendResult.taken s.conn.held (.room n)).length = 0) :=
    TCPConnection.isConnError_ofNat _ _
  by_cases hempty : (SendResult.taken s.conn.held (.room n)).length = 0
  · refine ⟨fun _ => h.retained (by rw [SendResult.errno, herror, decide_eq_true hempty])
      (List.length_eq_zero_iff.mp hempty), fun hnot => ?_⟩
    simp only [Completes, not_or, maxRwCount] at hnot hlen
    omega
  · obtain ⟨hfull, hshort⟩ :=
      h.released (by rw [SendResult.errno, herror, decide_eq_false hempty])
    refine ⟨fun hdone => hfull (List.take_of_length_le ?_), fun hnot => hshort ?_⟩
    · cases hdone with
      | inl hzero => omega
      | inr hall => exact hall
    · simp only [Completes, not_or] at hnot
      omega

theorem failed_exact (h : Exact s) (errno : Errno) :
    (Completes s (.writeEvent (.failed errno)) →
        Exact (s.step (.writeEvent (.failed errno)))) ∧
      (¬Completes s (.writeEvent (.failed errno)) →
        ¬Lossless (s.step (.writeEvent (.failed errno)))) := by
  cases errno with
  | other code => exact ⟨fun _ => h.retained rfl rfl, fun hnot => absurd trivial hnot⟩
  | eintr | eagain | ewouldblock =>
      exact ⟨fun hdone => (h.released rfl).1 hdone.symm,
        fun hnot => (h.released rfl).2 (List.length_pos_iff.mpr hnot)⟩

theorem step_exact (h : Exact s) (op : WriteOp) :
    (Completes s op → Exact (s.step op)) ∧ (¬Completes s op → ¬Lossless (s.step op)) := by
  cases op with
  | submitBuffer iov =>
      refine ⟨fun _ => ⟨h.connected, ?_, h.accepted⟩, fun hnot => absurd trivial hnot⟩
      simp only [step, TCPConnection.submitWriteBuffer_held, h.split, List.append_assoc]
  | submitIovec queue =>
      refine ⟨fun _ => ⟨?_, ?_, h.accepted⟩, fun hnot => absurd trivial hnot⟩
      · exact (s.conn.submitWriteIovec_state queue).trans h.connected
      · simp only [step, TCPConnection.submitWriteIovec_held, h.split, List.append_assoc]
  | writeEvent r =>
      cases r with
      | room n => exact room_exact h n
      | failed errno => exact failed_exact h errno

theorem Fresh.exact (h : Fresh s) : Exact s := by
  refine ⟨h.connected, ?_, ?_⟩
  · simp [TCPConnection.held, h.busy, h.pending, h.submitted, h.freed]
  · simp [bytesOf, h.accepted, h.freed]

/-- From a connected session with empty queues, every state of a run is lossless just
when each write event of the run completes in the state it meets. -/
theorem run_lossless_iff (s : WriteSession) (hfresh : Fresh s) (ops : List WriteOp) :
    (∀ before after, ops = before ++ after → Lossless (s.run before)) ↔
      ∀ before op after, ops = before ++ op :: after → Completes (s.run before) op :=
  Run.prefixes_iff (fun _ h => h.lossless) (fun _ op h => (step_exact h op).1)
    (fun _ op h => (step_exact h op).2) ops s hfresh.exact

def connected : WriteSession :=
  { conn := ⟨true, .connected, true, ⟨[0], 1, 0, 0⟩, ⟨[0], 1, 0, 0⟩, [], []⟩
    submitted := []
    accepted := []
    freed := [] }

theorem connected_fresh : Fresh connected :=
  ⟨rfl, rfl, rfl, rfl, rfl, rfl⟩

theorem run_lossless_whole_buffer :
    Lossless (connected.run [.submitBuffer ⟨1, [1, 2, 3]⟩, .writeEvent (.room 10)]) := by
  refine (run_lossless_iff connected connected_fresh _).mpr ?_ _ [] (List.append_nil _).symm
  intro before op after heq
  cases before with
  | nil =>
      obtain ⟨rfl, -⟩ := List.cons_eq_cons.mp heq
      trivial
  | cons first before =>
      obtain ⟨rfl, htail⟩ := List.cons_eq_cons.mp heq
      cases before with
      | nil =>
          obtain ⟨rfl, -⟩ := List.cons_eq_cons.mp htail
          exact .inr (by decide)
      | cons second before => simp at htail

/-- A send that takes one byte of three releases the buffer with the other two. -/
theorem run_loses_short_send :
    (connected.run [.submitBuffer ⟨1, [1, 2, 3]⟩, .writeEvent (.room 1)]).accepted = [1] ∧
      (connected.run [.submitBuffer ⟨1, [1, 2, 3]⟩, .writeEvent (.room 1)]).conn.held = [] ∧
      ¬Lossless (connected.run [.submitBuffer ⟨1, [1, 2, 3]⟩, .writeEvent (.room 1)]) := by
  refine ⟨by decide, by decide, ?_⟩
  intro h
  exact absurd h.freed_accepted.length_le (by decide)

end WriteSession

end LibMsf
