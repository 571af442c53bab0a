import LibMsf.Library.Path
import LibMsf.Sock.WriteLoss

/-!
The hand-over of iovecs to a connection.

Callers keep vectors of iovecs of their own, append fresh iovecs to them and submit them
as often as they like. A vector that meets an empty pending queue changes places with it
and comes back empty; otherwise its iovecs are copied behind the pending ones and the
caller keeps them as well. So each iovec is queued once, and each vector comes back empty,
just as long as no vector with something in it meets a queue with something in it.
-/

namespace LibMsf

open Cxx

/-- `objects` are the callers' vectors and `used` the iovecs made so far. `submitted` are
the iovecs in the order of their first submission, and `left` is what was in the vectors
when `SubmitWriteIovecSafe` came back. -/
structure HandoverSession where
  conn : TCPConnection
  objects : Nat → List Iovec := fun _ => []
  used : List Iovec := []
  submitted : List Iovec := []
  left : List (List Iovec) := []

inductive HandoverOp where
  | append (object : Nat) (iov : Iovec)
  | submitBuffer (iov : Iovec)
  | submitIovec (object : Nat)
  | updateBusy

namespace TCPConnection

variable {conn : TCPConnection} {queue : List Iovec}

theorem submitWriteIovec_moved (h : queue = [] ∨ conn.writePendingQueue = []) :
    (conn.submitWriteIovec queue).2 = [] := by
  cases queue with
  | nil => rfl
  | cons iov queue =>
      have hpending := h.resolve_left (List.cons_ne_nil _ _)
      simp [submitWriteIovec, hpending]

theorem submitWriteIovec_kept (h : ¬(queue = [] ∨ conn.writePendingQueue = [])) :
    (conn.submitWriteIovec queue).2 = queue := by
  rw [not_or] at h
  simp [submitWriteIovec, h.1, h.2]

end TCPConnection

namespace HandoverSession

def step (s : HandoverSession) : HandoverOp → Option (Except Fault HandoverSession)
  | .append object iov =>
      some (.ok { s with
        objects := Function.update s.objects object (s.objects object ++ [iov])
        used := s.used ++ [iov] })
  | .submitBuffer iov =>
      some (.ok { s with
        conn := s.conn.submitWriteBuffer iov
        used := s.used ++ [iov]
        submitted := s.submitted ++ [iov] })
  | .submitIovec object =>
      let r := s.conn.submitWriteIovec (s.objects object)
      some (.ok { s with
        conn := r.1
        objects := Function.update s.objects object r.2
        submitted := s.submitted ++ (s.objects object).filter (· ∉ s.submitted)
        left := s.left ++ [r.2] })
  | .updateBusy => some (.ok { s with conn := s.conn.updateWriteBusyIovec.1 })

/-- New iovecs are fresh. -/
def Fresh (s : HandoverSession) : HandoverOp → Prop
  | .append _ iov | .submitBuffer iov => iov ∉ s.used
  | _ => True

instance (s : HandoverSession) (op : HandoverOp) : Decidable (Fresh s op) :=
  match op with
  | .append _ iov => inferInstanceAs (Decidable (iov ∉ s.used))
  | .submitBuffer iov => inferInstanceAs (Decidable (iov ∉ s.used))
  | .submitIovec _ => isTrue trivial
  | .updateBusy => isTrue trivial

/-- The queues hold each submitted iovec once, in order, and the vectors came back empty. -/
structure HandedOver (s : HandoverSession) : Prop where
  queued : s.conn.held = s.submitted
  once : s.conn.held.Nodup
  emptied : ∀ queue ∈ s.left, queue = []

def HandedOverResult (r : Except Fault HandoverSession) : Prop :=
  ∃ s, r = .ok s ∧ HandedOver s

/-- The vector or the pending queue is empty. -/
def Moves (s : HandoverSession) : HandoverOp → Prop
  | .submitIovec object => s.objects object = [] ∨ s.conn.writePendingQueue = []
  | _ => True

/-- Every iovec lies in one vector or was submitted. -/
structure Loose (s : HandoverSession) : Prop where
  handed : HandedOver s
  used : ∀ iov ∈ s.submitted, iov ∈ s.used
  objects_used : ∀ object, ∀ iov ∈ s.objects object, iov ∈ s.used
  objects_nodup : ∀ object, (s.objects object).Nodup
  apart : ∀ object other iov, iov ∈ s.objects object → iov ∈ s.objects other → object = other
  unsubmitted : ∀ object, ∀ iov ∈ s.objects object, iov ∉ s.submitted

section Step

variable {s : HandoverSession}

theorem HandedOver.submitted_nodup (h : HandedOver s) : s.submitted.Nodup :=
  h.queued ▸ h.once

theorem Loose.append (h : Loose s) {iov : Iovec} (hfresh : iov ∉ s.used) (object : Nat) :
    Loose { s with
      objects := Function.update s.objects object (s.objects object ++ [iov])
      used := s.used ++ [iov] } := by
  have hnew : ∀ other, iov ∉ s.objects other := fun other hmem =>
    hfresh (h.objects_used other iov hmem)
  have hmem : ∀ other iov', iov' ∈ Function.update s.objects object (s.objects object ++ [iov])
      other ↔ iov' ∈ s.objects other ∨ other = object ∧ iov' = iov := by
    intro other iov'
    by_cases heq : other = object
    · subst heq
      simp
    · simp [heq]
  refine ⟨⟨h.handed.queued, h.handed.once, h.handed.emptied⟩, ?_, ?_, ?_, ?_, ?_⟩
  · exact fun iov' hsub => List.mem_append_left _ (h.used iov' hsub)
  · intro other iov' hother
    rcases (hmem other iov').mp hother with hold | ⟨-, rfl⟩
    · exact List.mem_append_left _ (h.objects_used other iov' hold)
    · exact List.mem_append_right _ List.mem_cons_self
  · intro other
    by_cases heq : other = object
    · subst heq
      simp only [Function.update_self]
      apply (h.objects_nodup other).append (List.nodup_singleton iov)
      exact List.disjoint_singleton.mpr (hnew other)
    · simp only [Function.update_of_ne heq]
      exact h.objects_nodup other
  · intro first second iov' hfirst hsecond
    rcases (hmem first iov').mp hfirst with hold | ⟨rfl, rfl⟩
    · rcases (hmem second iov').mp hsecond with hold' | ⟨rfl, rfl⟩
      · exact h.apart first second iov' hold hold'
      · exact absurd hold (hnew first)
    · rcases (hmem second iov').mp hsecond with hold' | ⟨rfl, -⟩
      · exact absurd hold' (hnew second)
      · rfl
  · intro other iov' hother hsub
    rcases (hmem other iov').mp hother with hold | ⟨-, rfl⟩
    · exact h.unsubmitted other iov' hold hsub
    · exact hfresh (h.used iov' hsub)

theorem Loose.submitBuffer (h : Loose s) {iov : Iovec} (hfresh : iov ∉ s.used) :
    Loose { s with
      conn := s.conn.submitWriteBuffer iov
      used := s.used ++ [iov]
      submitted := s.submitted ++ [iov] } := by
  have hheld : (s.conn.submitWriteBuffer iov).held = s.submitted ++ [iov] := by
    rw [TCPConnection.submitWriteBuffer_held, h.handed.queued]
  refine ⟨⟨hheld, ?_, h.handed.emptied⟩, ?_, ?_, h.objects_nodup, h.apart, ?_⟩
  · rw [hheld]
    apply h.handed.submitted_nodup.append (List.nodup_singleton iov)
    exact List.disjoint_singleton.mpr fun hsub => hfresh (h.used iov hsub)
  · intro iov' hsub
    rcases List.mem_append.mp hsub with hold | hnew
    · exact List.mem_append_left _ (h.used iov' hold)
    · exact List.mem_append_right _ hnew
  · exact fun object iov' hmem => List.mem_append_left _ (h.objects_used object iov' hmem)
  · intro object iov' hmem hsub
    rcases List.mem_append.mp hsub with hold | hnew
    · exact h.unsubmitted object iov' hmem hold
    · rw [List.mem_singleton.mp hnew] at hmem
      exact hfresh (h.objects_used object iov hmem)

/-- A vector that is moved adds its iovecs to the submitted ones and comes back empty. -/
theorem Loose.submitIovec (h : Loose s) {object : Nat}
    (hmoves : s.objects object = [] ∨ s.conn.writePendingQueue = []) :
    Loose { s with
      conn := (s.conn.submitWriteIovec (s.objects object)).1
      objects := Function.update s.objects object
        (s.conn.submitWriteIovec (s.objects object)).2
      submitted := s.submitted ++ (s.objects object).filter (· ∉ s.submitted)
      left := s.left ++ [(s.conn.submitWriteIovec (s.objects object)).2] } := by
  have hfilter : (s.objects object).filter (· ∉ s.submitted) = s.objects object := by
    rw [List.filter_eq_self]
    exact fun iov hmem => decide_eq_true (h.unsubmitted object iov hmem)
  have hheld : (s.conn.submitWriteIovec (s.objects object)).1.held =
      s.submitted ++ s.objects object := by
    rw [TCPConnection.submitWriteIovec_held, h.handed.queued]
  have hmem : ∀ other iov, iov ∈ Function.update s.objects object [] other ↔
      iov ∈ s.objects other ∧ other ≠ object := by
    intro other iov
    by_cases heq : other = object
    · subst heq
      simp
    · simp [heq]
  rw [hfilter, TCPConnection.submitWriteIovec_moved hmoves]
  refine ⟨⟨hheld, ?_, ?_⟩, ?_, ?_, ?_, ?_, ?_⟩
  · rw [hheld]
    apply h.handed.submitted_nodup.append (h.objects_nodup object)
    exact fun iov hsub hmem => h.unsubmitted object iov hmem hsub
  · intro queue hleft
    rcases List.mem_append.mp hleft with hold | hnew
    · exact h.handed.emptied queue hold
    · exact List.mem_singleton.mp hnew
  · intro iov hsub
    rcases List.mem_append.mp hsub with hold | hnew
    · exact h.used iov hold
    · exact h.objects_used object iov hnew
  · exact fun other iov hother => h.objects_used other iov ((hmem other iov).mp hother).1
  · intro other
    by_cases heq : other = object
    · subst heq
      simp
    · simp only [Function.update_of_ne heq]
      exact h.objects_nodup other
  · exact fun first second iov hfirst hsecond => h.apart first second iov
      ((hmem first iov).mp hfirst).1 ((hmem second iov).mp hsecond).1
  · intro other iov hother hsub
    obtain ⟨hold, hne⟩ := (hmem other iov).mp hother
    rcases List.mem_append.mp hsub with hsub | hmoved
    · exact h.unsubmitted other iov hold hsub
    · exact hne (h.apart other object iov hold hmoved)

theorem Loose.updateBusy (h : Loose s) :
    Loose { s with conn := s.conn.updateWriteBusyIovec.1 } := by
  have hheld : s.conn.updateWriteBusyIovec.1.held = s.conn.held := by
    rw [TCPConnection.updateWriteBusyIovec_eq]
    exact List.append_nil _
  exact ⟨⟨hheld.trans h.handed.queued, hheld ▸ h.handed.once, h.handed.emptied⟩, h.used,
    h.objects_used, h.objects_nodup, h.apart, h.unsubmitted⟩

theorem Loose.step (h : Loose s) {op : HandoverOp} {r : Except Fault HandoverSession}
    (hfresh : Fresh s op) (hmoves : Moves s op) (hstep : HandoverSession.step s op = some r) :
    ∃ s', r = .ok s' ∧ Loose s' := by
  cases op with
  | append object iov =>
      cases hstep
      exact ⟨_, rfl, h.append hfresh object⟩
  | submitBuffer iov =>
      cases hstep
      exact ⟨_, rfl, h.submitBuffer hfresh⟩
  | submitIovec object =>
      cases hstep
      exact ⟨_, rfl, h.submitIovec hmoves⟩
  | updateBusy =>
      cases hstep
      exact ⟨_, rfl, h.updateBusy⟩

/-- A vector that is copied comes back as it was, with something in it. -/
theorem step_copied {op : HandoverOp} {r : Except Fault HandoverSession} (hmoves : ¬Moves s op)
    (hstep : HandoverSession.step s op = some r) : ¬HandedOverResult r := by
  cases op with
  | submitIovec object =>
      cases hstep
      rintro ⟨s', hs', hhanded⟩
      cases hs'
      have hleft := hhanded.emptied (s.conn.submitWriteIovec (s.objects object)).2
        (List.mem_append_right _ List.mem_cons_self)
      rw [TCPConnection.submitWriteIovec_kept hmoves] at hleft
      exact hmoves (.inl hleft)
  | append object iov => exact absurd trivial hmoves
  | submitBuffer iov => exact absurd trivial hmoves
  | updateBusy => exact absurd trivial hmoves

end Step

/-- A connection with empty queues, before any vector is filled. -/
def start (conn : TCPConnection) : HandoverSession where
  conn := conn

theorem start_loose {conn : TCPConnection} (hempty : conn.held = []) : Loose (start conn) := by
  refine ⟨⟨hempty, ?_, ?_⟩, ?_, ?_, ?_, ?_, ?_⟩
  · rw [start, hempty]
    exact List.nodup_nil
  all_goals simp [start]

/-- Every run hands its iovecs over, in each of its states, just when no vector of the run
meets a pending queue while both have something in them. -/
theorem run_handedOver_iff (conn : TCPConnection) (hempty : conn.held = [])
    (ops : List HandoverOp) (r : Except Fault HandoverSession)
    (hrun : Run.Path step Fresh (start conn) ops r) :
    (∀ before after r', ops = before ++ after → Run.Path step Fresh (start conn) before r' →
        HandedOverResult r') ↔
      ∀ before op after s, ops = before ++ op :: after →
        Run.Path step Fresh (start conn) before (.ok s) → Moves s op := by
  refine Run.Path.good_iff (fun s h => ⟨s, rfl, h.handed⟩) ?_ ?_ hrun (start_loose hempty)
  · exact fun s op r h hfresh hmoves hstep => h.step hfresh hmoves hstep
  · exact fun s op r _ _ hmoves hstep => step_copied hmoves hstep

def iovecA : Iovec := ⟨1, [0x61]⟩

def iovecB : Iovec := ⟨2, [0x62]⟩

/-- One vector, filled and submitted twice, with the first content sent in between. -/
theorem run_handedOver_twice :
    ∃ r, Run.Path step Fresh (start WriteSession.connected.conn)
        [.append 0 iovecA, .submitIovec 0, .updateBusy, .append 0 iovecB, .submitIovec 0] r ∧
      HandedOverResult r := by
  have hrun : ∃ r, Run.Path step (fun s op => Fresh s op ∧ Moves s op)
      (start WriteSession.connected.conn)
      [.append 0 iovecA, .submitIovec 0, .updateBusy, .append 0 iovecB, .submitIovec 0] r :=
    ⟨_, .cons ⟨by decide, trivial⟩ rfl (.cons ⟨trivial, .inr rfl⟩ rfl
      (.cons ⟨trivial, trivial⟩ rfl (.cons ⟨by decide, trivial⟩ rfl
        (.cons ⟨trivial, .inr rfl⟩ rfl (.nil _)))))⟩
  obtain ⟨r, hpath⟩ := hrun
  have hfresh := hpath.mono (fun _ _ hboth => hboth.1)
  refine ⟨r, hfresh, ?_⟩
  exact Run.Path.good_of_meets (fun _ _ hboth => hboth.2)
    (run_handedOver_iff _ rfl _ r hfresh) hpath hfresh

/-- A vector that is copied behind a pending buffer is submitted once more: its iovec is
queued twice, and the caller still has it. -/
theorem copied_vector_queued_twice :
    ∃ s, Run.Path step Fresh (start WriteSession.connected.conn)
        [.submitBuffer iovecA, .append 0 iovecB, .submitIovec 0, .submitIovec 0] (.ok s) ∧
      s.conn.held = [iovecA, iovecB, iovecB] ∧ s.objects 0 = [iovecB] ∧ ¬HandedOver s := by
  refine ⟨_, .cons (by decide) rfl (.cons (by decide) rfl (.cons trivial rfl
    (.cons trivial rfl (.nil _)))), rfl, rfl, ?_⟩
  intro hhanded
  exact absurd hhanded.once (by decide)

end HandoverSession

end LibMsf
