import LibMsf.Base.AsyncLogging
import LibMsf.Library.Path

/-!
No byte of the log is lost, doubled or moved.

A buffer is the current one, the next one, a spare one of the loop, or waits in one of the
two vectors. What waits, read in the order in which the loop will write it and put behind
what is written, is what was appended. The loop finds enough buffers to recycle because the
next buffer is only taken by an append that leaves another buffer in `buffers_`: the loop
gives its second spare buffer away only together with two buffers to write.
-/

namespace LibMsf

open Cxx

namespace AsyncLogging

variable {s : AsyncLogging} {r : Except Fault AsyncLogging}

def bytesOf (buffers : List BufferPtr) : Bytes :=
  buffers.flatMap (fun p => (p.map FixedBuffer.contents).getD [])

@[simp] theorem bytesOf_nil : bytesOf [] = [] := rfl

@[simp] theorem bytesOf_some (b : LogBuffer) : bytesOf [some b] = b.contents := by
  simp [bytesOf]

@[simp] theorem bytesOf_append (front back : List BufferPtr) :
    bytesOf (front ++ back) = bytesOf front ++ bytesOf back := by
  simp [bytesOf]

theorem bytesOf_cons (p : BufferPtr) (buffers : List BufferPtr) :
    bytesOf (p :: buffers) = bytesOf [p] ++ bytesOf buffers :=
  bytesOf_append [p] buffers

@[simp] theorem deref_some (b : LogBuffer) : deref (some b) = .ok b := rfl

/-- The buffers that the loop has taken and not yet written. -/
def unwritten (s : AsyncLogging) : List BufferPtr :=
  match s.pc with
  | .write next => s.buffersToWrite.drop next
  | _ => []

def Conserved (s : AsyncLogging) : Prop :=
  s.output ++ bytesOf s.unwritten ++ bytesOf s.buffers ++ bytesOf [s.currentBuffer] = s.appended

/-- Between the exchange and the end of the recycling. -/
def LoggingPc.busy : LoggingPc → Bool
  | .write _ | .recycle => true
  | _ => false

def HasSpares (s : AsyncLogging) : Prop :=
  isEmpty s.newBuffer1 ∧ isEmpty s.newBuffer2 ∧ s.buffersToWrite = []

/-- What the loop has to refill its spare buffers from. -/
def CanRefill (s : AsyncLogging) : Prop :=
  s.newBuffer1 = none ∧ (∀ p ∈ s.buffersToWrite, p.isSome) ∧ s.buffersToWrite ≠ [] ∧
    (isEmpty s.newBuffer2 ∨ s.newBuffer2 = none ∧ 2 ≤ s.buffersToWrite.length)

structure Rotating (s : AsyncLogging) : Prop where
  conserved : Conserved s
  current : ∃ b, s.currentBuffer = some b
  queued : ∀ p ∈ s.buffers, p.isSome
  next : isEmpty s.nextBuffer ∨ s.nextBuffer = none ∧ s.buffers ≠ []
  spares : LoggingPc.busy s.pc = false → HasSpares s
  used : LoggingPc.busy s.pc = true → CanRefill s

theorem isEmpty_new : isEmpty (some FixedBuffer.new) := ⟨_, rfl, rfl⟩

theorem init_rotating : Rotating {} := by
  refine ⟨rfl, ⟨_, rfl⟩, ?_, .inl isEmpty_new, fun _ => ⟨isEmpty_new, isEmpty_new, rfl⟩, ?_⟩
  · intro p hp
    cases hp
  · intro hbusy
    cases hbusy

/-- The buffer that an append falls back to is empty, so a short line fits. -/
theorem append_fresh {p : BufferPtr} (h : isEmpty p ∨ p = none) {line : Bytes}
    (hline : line.length < kLargeBuffer) :
    ((p.getD .new).append line).contents = line := by
  have hempty : (p.getD .new).contents = [] := by
    cases h with
    | inl h =>
        obtain ⟨b, rfl, hb⟩ := h
        exact hb
    | inr h =>
        rw [h]
        rfl
  rw [FixedBuffer.append_of_lt]
  · rw [hempty]
    rfl
  · rw [FixedBuffer.avail, hempty]
    exact hline

theorem Rotating.queued_concat (h : Rotating s) (b : FixedBuffer kLargeBuffer) :
    ∀ p ∈ s.buffers ++ [some b], p.isSome := by
  rw [List.forall_mem_append]
  exact ⟨h.queued, List.forall_mem_singleton.mpr rfl⟩

theorem Rotating.append (h : Rotating s) {line : Bytes} (hline : line.length < kLargeBuffer) :
    ∃ s', s.append line = .ok s' ∧ Rotating s' := by
  obtain ⟨current, hcurrent⟩ := h.current
  have hconserved := h.conserved
  simp only [Conserved, hcurrent, bytesOf_some] at hconserved
  simp only [AsyncLogging.append, hcurrent, deref_some, ok_bind]
  split
  · rename_i hfits
    refine ⟨_, rfl, ?_, ⟨_, rfl⟩, h.queued, h.next, h.spares, h.used⟩
    simp only [Conserved, bytesOf_some, FixedBuffer.append_of_lt hfits, ← hconserved,
      List.append_assoc]
    rfl
  · refine ⟨_, rfl, ?_, ⟨_, rfl⟩, h.queued_concat current, .inr ⟨rfl, by simp⟩, h.spares,
      h.used⟩
    have hfresh := append_fresh (h.next.imp_right And.left) hline
    simp only [Conserved, bytesOf_some, hfresh, bytesOf_append, ← hconserved,
      List.append_assoc]
    rfl

theorem Rotating.test (h : Rotating s) (hpc : s.pc = .head) :
    ∃ s', s.test = .ok s' ∧ Rotating s' := by
  have hspares := h.spares (by rw [hpc]; rfl)
  have hconserved := h.conserved
  simp only [Conserved, unwritten, hpc] at hconserved
  simp only [AsyncLogging.test]
  split
  · rw [assertThat_of hspares.1, assertThat_of hspares.2.1, assertThat_of hspares.2.2]
    exact ⟨_, rfl, hconserved, h.current, h.queued, h.next, fun _ => hspares,
      fun hbusy => by cases hbusy⟩
  · exact ⟨_, rfl, hconserved, h.current, h.queued, h.next, fun _ => hspares,
      fun hbusy => by cases hbusy⟩

theorem Rotating.wait (h : Rotating s) (hpc : s.pc = .lock) :
    Rotating { s with pc := .waiting } := by
  have hconserved := h.conserved
  simp only [Conserved, unwritten, hpc] at hconserved
  exact ⟨hconserved, h.current, h.queued, h.next, fun _ => h.spares (by rw [hpc]; rfl),
    fun hbusy => by cases hbusy⟩

/-- The exchange leaves an empty next buffer; where the second spare one went for it, a full
buffer came with the current one. -/
theorem Rotating.exchange_next (h : Rotating s) (hspare2 : isEmpty s.newBuffer2) :
    isEmpty s.exchange.nextBuffer ∧ (isEmpty s.exchange.newBuffer2 ∨
      s.exchange.newBuffer2 = none ∧ 2 ≤ s.exchange.buffersToWrite.length) := by
  simp only [AsyncLogging.exchange]
  cases h.next with
  | inl hnext =>
      obtain ⟨n, hn, hnempty⟩ := hnext
      simp only [hn, Option.isNone_some, Bool.false_eq_true, if_false]
      exact ⟨⟨n, rfl, hnempty⟩, .inl hspare2⟩
  | inr hnext =>
      have hpos : 0 < s.buffers.length := List.length_pos_iff.mpr hnext.2
      simp only [hnext.1, Option.isNone_none, if_true, List.length_append, List.length_singleton]
      exact ⟨hspare2, .inr ⟨trivial, by omega⟩⟩

theorem Rotating.exchange (h : Rotating s) (hpc : LoggingPc.busy s.pc = false) :
    Rotating s.exchange := by
  obtain ⟨⟨b1, hb1, hb1empty⟩, hspare2, hempty⟩ := h.spares hpc
  obtain ⟨current, hcurrent⟩ := h.current
  have hunwritten : s.unwritten = [] := by
    rw [unwritten]
    split
    · rename_i next hwrite
      rw [hwrite] at hpc
      cases hpc
    · rfl
  have hconserved := h.conserved
  simp only [Conserved, hunwritten, hcurrent, bytesOf_some, bytesOf_nil] at hconserved
  obtain ⟨hnext, hrefill⟩ := h.exchange_next hspare2
  refine ⟨?_, ⟨b1, hb1⟩, ?_, .inl hnext, ?_, ?_⟩
  · simp only [Conserved, unwritten, AsyncLogging.exchange, List.drop_zero, bytesOf_append,
      hcurrent, hempty, hb1, bytesOf_some, hb1empty, bytesOf_nil, List.append_nil,
      ← hconserved, List.append_assoc]
  · simp only [AsyncLogging.exchange, hempty]
    intro p hp
    cases hp
  · intro hbusy
    cases hbusy
  · intro _
    refine ⟨rfl, ?_, ?_, hrefill⟩
    · simp only [AsyncLogging.exchange, hcurrent]
      exact h.queued_concat current
    · simp [AsyncLogging.exchange]

theorem Rotating.exchangeAndCheck (h : Rotating s) (hpc : LoggingPc.busy s.pc = false) :
    s.exchangeAndCheck = .ok s.exchange := by
  have hne : s.exchange.buffersToWrite ≠ [] := ((h.exchange hpc).used rfl).2.2.1
  simp only [AsyncLogging.exchangeAndCheck, assertThat_of hne, ok_bind, pure_eq_ok]

theorem Rotating.writeNext (h : Rotating s) {next : Nat} (hpc : s.pc = .write next) :
    ∃ s', s.writeNext next = .ok s' ∧ Rotating s' := by
  have hrefill := h.used (by rw [hpc]; rfl)
  have hconserved := h.conserved
  simp only [Conserved, unwritten, hpc] at hconserved
  simp only [AsyncLogging.writeNext]
  split
  · rename_i p hp
    obtain ⟨b, rfl⟩ := Option.isSome_iff_exists.mp (hrefill.2.1 p (List.mem_of_getElem? hp))
    obtain ⟨hlt, hget⟩ := List.getElem?_eq_some_iff.mp hp
    refine ⟨_, rfl, ?_, h.current, h.queued, h.next, (fun hbusy => by cases hbusy),
      fun _ => hrefill⟩
    rw [List.drop_eq_getElem_cons hlt, hget, bytesOf_cons, bytesOf_some] at hconserved
    simpa only [Conserved, unwritten, List.append_assoc] using hconserved
  · rename_i hend
    refine ⟨_, rfl, ?_, h.current, h.queued, h.next, (fun hbusy => by cases hbusy),
      fun _ => hrefill⟩
    rwa [List.drop_eq_nil_of_le (List.getElem?_eq_none_iff.mp hend)] at hconserved

theorem refill_of_isEmpty {p : BufferPtr} (h : isEmpty p) (toWrite : List BufferPtr) :
    refill p toWrite = .ok (p, toWrite) := by
  obtain ⟨b, rfl, -⟩ := h
  rfl

theorem refill_none {toWrite : List BufferPtr} (hsome : ∀ p ∈ toWrite, p.isSome)
    (hpos : 0 < toWrite.length) : refill none toWrite = .ok (some .new, toWrite.dropLast) := by
  have hne := List.length_pos_iff.mp hpos
  obtain ⟨b, hb⟩ := Option.isSome_iff_exists.mp (hsome _ (List.getLast_mem hne))
  simp only [refill, Option.isNone_none, if_true, takeBack, assertThat_of hne,
    List.getLast?_eq_some_getLast hne, hb, ok_bind, Option.getD_some, deref_some, pure_eq_ok,
    FixedBuffer.reset]

theorem Rotating.recycled (h : Rotating s) (hpc : s.pc = .recycle)
    {newBuffer1 newBuffer2 : BufferPtr} (h1 : isEmpty newBuffer1) (h2 : isEmpty newBuffer2) :
    Rotating { s with
      newBuffer1 := newBuffer1, newBuffer2 := newBuffer2, buffersToWrite := [], pc := .head } := by
  have hconserved := h.conserved
  simp only [Conserved, unwritten, hpc] at hconserved
  exact ⟨hconserved, h.current, h.queued, h.next, fun _ => ⟨h1, h2, rfl⟩,
    fun hbusy => by cases hbusy⟩

theorem Rotating.recycle (h : Rotating s) (hpc : s.pc = .recycle) :
    ∃ s', s.recycle = .ok s' ∧ Rotating s' := by
  obtain ⟨hnone, hsome, hne, hspare2⟩ := h.used (by rw [hpc]; rfl)
  have hpos : 0 < s.buffersToWrite.length := List.length_pos_iff.mpr hne
  -- Resizing to two buffers keeps as many as the two spare ones need.
  obtain ⟨toWrite, htoWrite⟩ : ∃ toWrite, toWrite =
      if 2 < s.buffersToWrite.length then s.buffersToWrite.take 2 else s.buffersToWrite := ⟨_, rfl⟩
  have hkept : (∀ p ∈ toWrite, p.isSome) ∧ min 2 s.buffersToWrite.length ≤ toWrite.length := by
    rw [htoWrite]
    split
    · exact ⟨fun p hp => hsome p (List.mem_of_mem_take hp), by rw [List.length_take]⟩
    · exact ⟨hsome, Nat.min_le_right _ _⟩
  have hfirst := refill_none hkept.1 (by omega)
  simp only [AsyncLogging.recycle, ← htoWrite, hnone, hfirst, ok_bind]
  cases hspare2 with
  | inl hspare2 =>
      simp only [refill_of_isEmpty hspare2, ok_bind]
      exact ⟨_, rfl, h.recycled hpc isEmpty_new hspare2⟩
  | inr hspare2 =>
      have hmore : 0 < toWrite.dropLast.length := by
        rw [List.length_dropLast]
        omega
      have hsecond := refill_none (fun p hp => hkept.1 p (List.mem_of_mem_dropLast hp)) hmore
      simp only [hspare2.1, hsecond, ok_bind]
      exact ⟨_, rfl, h.recycled hpc isEmpty_new isEmpty_new⟩

/-- Lines are shorter than a buffer. -/
def ShortLine : Action → Prop
  | .append line => line.length < kLargeBuffer
  | _ => True

/-- What a step does, and where the loop stands when it is taken. -/
inductive Stepped (s : AsyncLogging) (r : Except Fault AsyncLogging) : Action → Prop where
  | append {line : Bytes} (result : r = s.append line) : Stepped s r (.append line)
  | test (pc : s.pc = .head) (result : r = s.test) : Stepped s r .test
  | wait (pc : s.pc = .lock) (result : r = .ok { s with pc := .waiting }) : Stepped s r .lock
  | exchange {action : Action} (pc : s.pc = .lock ∨ s.pc = .waiting)
      (result : r = s.exchangeAndCheck) : Stepped s r action
  | write {next : Nat} (pc : s.pc = .write next) (result : r = s.writeNext next) :
      Stepped s r .write
  | recycle (pc : s.pc = .recycle) (result : r = s.recycle) : Stepped s r .recycle
  | stop (result : r = .ok { s with running := false, stopping := .joining }) : Stepped s r .stop
  | join (pc : s.pc = .done) (result : r = .ok { s with stopping := .returned }) :
      Stepped s r .join

theorem step_cases {action : Action} (h : step s action = some r) : Stepped s r action := by
  cases action with
  | append line => exact .append (Option.some.inj h).symm
  | test =>
      simp only [step, Option.ite_none_right_eq_some, Option.some.injEq] at h
      exact .test h.1 h.2.symm
  | lock =>
      simp only [step, Option.ite_none_right_eq_some] at h
      obtain ⟨hpc, h⟩ := h
      split at h
      · exact .wait hpc (Option.some.inj h).symm
      · exact .exchange (.inl hpc) (Option.some.inj h).symm
  | wake =>
      simp only [step, Option.ite_none_right_eq_some, Option.some.injEq] at h
      exact .exchange (.inr h.1) h.2.symm
  | write =>
      simp only [step] at h
      split at h
      · rename_i next hpc
        exact .write hpc (Option.some.inj h).symm
      · cases h
  | recycle =>
      simp only [step, Option.ite_none_right_eq_some, Option.some.injEq] at h
      exact .recycle h.1 h.2.symm
  | stop =>
      simp only [step, Option.ite_none_right_eq_some, Option.some.injEq] at h
      exact .stop h.2.symm
  | join =>
      simp only [step, Option.ite_none_right_eq_some, Option.some.injEq] at h
      exact .join h.1.2 h.2.symm

theorem Rotating.step {action : Action} (h : Rotating s) (hshort : ShortLine action)
    (hstep : AsyncLogging.step s action = some r) : ∃ s', r = .ok s' ∧ Rotating s' := by
  cases step_cases hstep with
  | append result => exact result ▸ h.append hshort
  | test pc result => exact result ▸ h.test pc
  | wait pc result => exact ⟨_, result, h.wait pc⟩
  | exchange pc result =>
      have hidle : LoggingPc.busy s.pc = false := by
        cases pc with
        | inl pc => rw [pc]; rfl
        | inr pc => rw [pc]; rfl
      exact ⟨_, result.trans (h.exchangeAndCheck hidle), h.exchange hidle⟩
  | write pc result => exact result ▸ h.writeNext pc
  | recycle pc result => exact result ▸ h.recycle pc
  | stop result =>
      exact ⟨_, result, h.conserved, h.current, h.queued, h.next, h.spares, h.used⟩
  | join pc result =>
      exact ⟨_, result, h.conserved, h.current, h.queued, h.next, h.spares, h.used⟩

theorem run_rotating {actions : List Action} (hs : Rotating s)
    (hrun : Run.Path step (fun _ a => ShortLine a) s actions r) : ∃ s', r = .ok s' ∧ Rotating s' :=
  hrun.safe (fun _ _ _ h hshort hstep => h.step hshort hstep) hs

/-- In every interleaving of appends with the loop no assertion fails, and the bytes written
so far with those of the waiting buffers behind them are the appended lines in order. -/
theorem run_linesConserved {actions : List Action} {r : Except Fault AsyncLogging}
    (hrun : Run.Path step (fun _ a => ShortLine a) {} actions r) :
    ∃ s, r = .ok s ∧ Conserved s := by
  obtain ⟨s, hr, h⟩ := run_rotating init_rotating hrun
  exact ⟨s, hr, h.conserved⟩

/-- The second line comes while the loop waits, the third one while it writes. -/
theorem run_linesConserved_three_lines :
    ∃ s, Run.Path step (fun _ a => ShortLine a) {}
        [.append [1], .test, .lock, .append [2], .wake, .append [3], .write] (.ok s) ∧
      s.output = [1, 2] ∧ s.appended = [1, 2, 3] ∧ Conserved s := by
  have hshort : ∀ b : UInt8, ShortLine (.append [b]) := fun _ => by
    simp only [ShortLine, List.length_singleton, kLargeBuffer]
    omega
  have hrun : ∃ s, Run.Path step (fun _ a => ShortLine a) {}
      [.append [1], .test, .lock, .append [2], .wake, .append [3], .write] (.ok s) ∧
      s.output = [1, 2] ∧ s.appended = [1, 2, 3] :=
    ⟨_, .cons (hshort 1) rfl (.cons trivial rfl (.cons trivial rfl (.cons (hshort 2) rfl
      (.cons trivial rfl (.cons (hshort 3) rfl (.cons trivial rfl (.nil _))))))), rfl, rfl⟩
  obtain ⟨s, hpath, houtput, happended⟩ := hrun
  obtain ⟨_, hr, hconserved⟩ := run_linesConserved hpath
  cases hr
  exact ⟨s, hpath, houtput, happended, hconserved⟩

end AsyncLogging

end LibMsf
