import LibMsf.Base.LogConservation

/-!
What the log file holds when `stop` returns.

The loop looks at `running_` only at its head, and nothing is written behind the loop. Once
`stop` has cleared the flag, a loop that is about to exchange buffers still takes everything
that was appended before; any other loop finishes the buffers that it has already taken and
ends, so what waits in `buffers_` and in the current buffer never reaches the file.
-/

namespace LibMsf

open Cxx

namespace AsyncLogging

variable {s s' : AsyncLogging} {sent taken : Bytes} {action : Action}

/-- The loop exchanges buffers before it looks at `running_` again. -/
def LoggingPc.awaits : LoggingPc → Bool
  | .lock | .waiting => true
  | _ => false

/-- What the loop has taken to write, written or not. -/
def committed (s : AsyncLogging) : Bytes := s.output ++ bytesOf s.unwritten

def pending (s : AsyncLogging) : Bytes := bytesOf s.buffers ++ bytesOf [s.currentBuffer]

theorem committed_of_awaits (h : LoggingPc.awaits s.pc = true) : committed s = s.output := by
  rw [committed, unwritten]
  split
  · rename_i next hpc
    rw [hpc] at h
    cases h
  · exact List.append_nil _

theorem committed_exchange (h : LoggingPc.awaits s.pc = true) :
    committed s.exchange = committed s ++ pending s := by
  rw [committed_of_awaits h]
  simp only [committed, pending, unwritten, exchange, List.drop_zero, bytesOf_append]

theorem exchangeAndCheck_ok (h : s.exchangeAndCheck = .ok s') : s' = s.exchange := by
  simp only [exchangeAndCheck] at h
  obtain ⟨_, -, h⟩ := bind_eq_ok.mp h
  cases h
  rfl

/-- An append leaves the loop alone and puts bytes behind those that wait. -/
theorem append_ok {line : Bytes} (h : s.append line = .ok s') :
    s'.pc = s.pc ∧ s'.running = s.running ∧ s'.stopping = s.stopping ∧ s'.output = s.output ∧
      s'.buffersToWrite = s.buffersToWrite ∧ pending s <+: pending s' := by
  simp only [append] at h
  obtain ⟨current, hderef, h⟩ := bind_eq_ok.mp h
  have hcurrent : s.currentBuffer = some current := by
    cases hb : s.currentBuffer with
    | none =>
        rw [hb] at hderef
        cases hderef
    | some b =>
        rw [hb] at hderef
        cases hderef
        rfl
  split at h
  · rename_i hfits
    cases h
    refine ⟨rfl, rfl, rfl, rfl, rfl, line, ?_⟩
    simp only [pending, hcurrent, bytesOf_some, FixedBuffer.append_of_lt hfits,
      List.append_assoc]
  · cases h
    refine ⟨rfl, rfl, rfl, rfl, rfl, ?_⟩
    simp only [pending, bytesOf_append]
    exact List.prefix_append _ _

/-- After `stop`, with no exchange to come. -/
structure PastExchange (taken : Bytes) (s : AsyncLogging) : Prop where
  stopped : s.running = false
  past : LoggingPc.awaits s.pc = false
  taken : committed s = taken
  joined : s.stopping = .returned → s.pc = .done

/-- After `stop`, with an exchange to come. -/
structure BeforeExchange (sent : Bytes) (s : AsyncLogging) : Prop where
  stopped : s.running = false
  awaits : LoggingPc.awaits s.pc = true
  held : sent <+: committed s ++ pending s
  joined : s.stopping ≠ .returned

theorem committed_congr (hpc : s'.pc = s.pc) (houtput : s'.output = s.output)
    (htoWrite : s'.buffersToWrite = s.buffersToWrite) : committed s' = committed s := by
  simp only [committed, unwritten, hpc, houtput, htoWrite]

theorem committed_writeNext {next : Nat} (hpc : s.pc = .write next) (h : s.writeNext next = .ok s')
    : committed s' = committed s := by
  simp only [writeNext] at h
  split at h
  · rename_i p hp
    obtain ⟨b, hderef, h⟩ := bind_eq_ok.mp h
    obtain ⟨hlt, hget⟩ := List.getElem?_eq_some_iff.mp hp
    have hbytes : bytesOf [p] = b.contents := by
      cases p with
      | none => cases hderef
      | some b' =>
          cases hderef
          exact bytesOf_some b
    cases h
    simp only [committed, unwritten, hpc]
    rw [List.drop_eq_getElem_cons hlt, hget, bytesOf_cons, hbytes, List.append_assoc]
  · rename_i hend
    cases h
    simp only [committed, unwritten, hpc]
    rw [List.drop_eq_nil_of_le (List.getElem?_eq_none_iff.mp hend)]

theorem writeNext_ok {next : Nat} (h : s.writeNext next = .ok s') :
    s'.running = s.running ∧ s'.stopping = s.stopping ∧ LoggingPc.awaits s'.pc = false := by
  simp only [writeNext] at h
  split at h
  · obtain ⟨b, -, h⟩ := bind_eq_ok.mp h
    cases h
    exact ⟨rfl, rfl, rfl⟩
  · cases h
    exact ⟨rfl, rfl, rfl⟩

theorem recycle_ok (h : s.recycle = .ok s') :
    s'.running = s.running ∧ s'.stopping = s.stopping ∧ s'.pc = .head ∧ s'.output = s.output := by
  simp only [recycle] at h
  obtain ⟨_, -, h⟩ := bind_eq_ok.mp h
  obtain ⟨_, -, h⟩ := bind_eq_ok.mp h
  cases h
  exact ⟨rfl, rfl, rfl, rfl⟩

theorem PastExchange.not_returned (h : PastExchange taken s) (hpc : s.pc ≠ .done) :
    s.stopping ≠ .returned :=
  fun hreturned => hpc (h.joined hreturned)

theorem PastExchange.step (h : PastExchange taken s)
    (hstep : AsyncLogging.step s action = some (.ok s')) : PastExchange taken s' := by
  have hpast := h.past
  cases step_cases hstep with
  | append result =>
      obtain ⟨hpc, hrunning, hstopping, houtput, htoWrite, -⟩ := append_ok result.symm
      refine ⟨hrunning.trans h.stopped, by rw [hpc]; exact h.past,
        (committed_congr hpc houtput htoWrite).trans h.taken, ?_⟩
      rw [hpc, hstopping]
      exact h.joined
  | test pc result =>
      simp only [test, h.stopped, Bool.false_eq_true, if_false] at result
      cases result
      refine ⟨rfl, rfl, ?_, fun _ => rfl⟩
      simpa only [committed, unwritten, pc] using h.taken
  | wait pc result =>
      rw [pc] at hpast
      cases hpast
  | exchange pc result =>
      cases pc with
      | inl pc | inr pc =>
          rw [pc] at hpast
          cases hpast
  | write pc result =>
      obtain ⟨hrunning, hstopping, hstill⟩ := writeNext_ok result.symm
      refine ⟨hrunning.trans h.stopped, hstill,
        (committed_writeNext pc result.symm).trans h.taken, ?_⟩
      rw [hstopping]
      exact fun hreturned => absurd hreturned (h.not_returned (by simp [pc]))
  | recycle pc result =>
      obtain ⟨hrunning, hstopping, hhead, houtput⟩ := recycle_ok result.symm
      refine ⟨hrunning.trans h.stopped, by rw [hhead]; rfl, ?_, ?_⟩
      · rw [← h.taken]
        simp only [committed, unwritten, hhead, pc, houtput]
      · rw [hstopping]
        exact fun hreturned => absurd hreturned (h.not_returned (by simp [pc]))
  | stop result =>
      cases result
      exact ⟨rfl, h.past, h.taken, fun hreturned => by cases hreturned⟩
  | join pc result =>
      cases result
      exact ⟨h.stopped, h.past, h.taken, fun _ => pc⟩

theorem BeforeExchange.exchange (h : BeforeExchange sent s) :
    PastExchange (committed s ++ pending s) s.exchange :=
  ⟨h.stopped, rfl, committed_exchange h.awaits, fun hreturned => absurd hreturned h.joined⟩

/-- Either the exchange is still to come, or it has taken all that was sent. -/
def Draining (sent : Bytes) (s : AsyncLogging) : Prop :=
  BeforeExchange sent s ∨ ∃ taken, sent <+: taken ∧ PastExchange taken s

theorem BeforeExchange.step (h : BeforeExchange sent s)
    (hstep : AsyncLogging.step s action = some (.ok s')) : Draining sent s' := by
  have hawaits := h.awaits
  cases step_cases hstep with
  | append result =>
      obtain ⟨hpc, hrunning, hstopping, houtput, htoWrite, hmore⟩ := append_ok result.symm
      refine .inl ⟨hrunning.trans h.stopped, by rw [hpc]; exact hawaits, ?_, ?_⟩
      · rw [committed_congr hpc houtput htoWrite]
        exact h.held.trans ((List.prefix_append_right_inj _).mpr hmore)
      · rw [hstopping]
        exact h.joined
  | wait pc result =>
      cases result
      refine .inl ⟨h.stopped, rfl, ?_, h.joined⟩
      have hheld := h.held
      simp only [committed, unwritten, pc] at hheld
      exact hheld
  | exchange pc result =>
      rw [exchangeAndCheck_ok result.symm]
      exact .inr ⟨_, h.held, h.exchange⟩
  | stop result =>
      cases result
      exact .inl ⟨rfl, hawaits, h.held, fun hreturned => by cases hreturned⟩
  | test pc result | write pc result | recycle pc result | join pc result =>
      rw [pc] at hawaits
      cases hawaits

theorem Draining.step (h : Draining sent s) (hstep : AsyncLogging.step s action = some (.ok s')) :
    Draining sent s' := by
  cases h with
  | inl h => exact h.step hstep
  | inr h =>
      obtain ⟨taken, hsent, h⟩ := h
      exact .inr ⟨taken, hsent, h.step hstep⟩

theorem PastExchange.output_of_returned (h : PastExchange taken s)
    (hreturned : s.stopping = .returned) : s.output = taken := by
  have htaken := h.taken
  simp only [committed, unwritten, h.joined hreturned, bytesOf_nil, List.append_nil] at htaken
  exact htaken

theorem Draining.output_of_returned (h : Draining sent s) (hreturned : s.stopping = .returned) :
    sent <+: s.output := by
  cases h with
  | inl h => exact absurd hreturned h.joined
  | inr h =>
      obtain ⟨taken, hsent, h⟩ := h
      rw [h.output_of_returned hreturned]
      exact hsent

/-- The loop is past the test of `running_` and has not exchanged buffers yet, or no byte
waits for it. -/
def Drainable (s : AsyncLogging) : Prop :=
  s.pc = .lock ∨ s.pc = .waiting ∨ pending s = []

theorem Drainable.of_awaits (h : LoggingPc.awaits s.pc = true) : Drainable s := by
  cases hpc : s.pc with
  | lock => exact .inl hpc
  | waiting => exact .inr (.inl hpc)
  | head | write next | recycle | done =>
      rw [hpc] at h
      cases h

theorem drainable_iff_of_past (h : LoggingPc.awaits s.pc = false) :
    Drainable s ↔ pending s = [] := by
  constructor
  · intro hdrainable
    cases hdrainable with
    | inl hpc =>
        rw [hpc] at h
        cases h
    | inr hrest =>
        cases hrest with
        | inl hpc =>
            rw [hpc] at h
            cases h
        | inr hpending => exact hpending
  · exact fun hpending => .inr (.inr hpending)

/-- The lines appended before `stop` are in the file when `stop` returns just when the loop
was about to exchange buffers as `stop` cleared the flag, or had nothing left to take. -/
theorem run_drained_iff {before after : List Action} {s s' : AsyncLogging}
    (hbefore : Run.Path step (fun _ a => ShortLine a) {} before (.ok s))
    (hafter : Run.Path step (fun _ _ => True) s (.stop :: after) (.ok s'))
    (hreturned : s'.stopping = .returned) :
    s.appended <+: s'.output ↔ Drainable s := by
  obtain ⟨_, hr, hrotating⟩ := run_rotating init_rotating hbefore
  cases hr
  have hconserved : committed s ++ pending s = s.appended := by
    rw [← hrotating.conserved]
    simp only [committed, pending, List.append_assoc]
  cases hafter with
  | cons head taken tail =>
      simp only [step] at taken
      split at taken
      · cases taken
        cases hawaits : LoggingPc.awaits s.pc with
        | true =>
            have hstart : Draining s.appended
                { s with running := false, stopping := .joining } := by
              refine .inl ⟨rfl, hawaits, ?_, ?_⟩
              · rw [← hconserved]
                exact List.prefix_rfl
              · intro hjoined
                cases hjoined
            have hend := tail.carries (fun _ _ _ h _ hstep => Draining.step h hstep) hstart
            exact iff_of_true (hend.output_of_returned hreturned) (.of_awaits hawaits)
        | false =>
            have hstart : PastExchange (committed s)
                { s with running := false, stopping := .joining } := by
              refine ⟨rfl, hawaits, rfl, ?_⟩
              intro hjoined
              cases hjoined
            have hend := tail.carries (fun _ _ _ h _ hstep => PastExchange.step h hstep) hstart
            rw [hend.output_of_returned hreturned, drainable_iff_of_past hawaits, ← hconserved]
            constructor
            · intro hprefix
              have hle := hprefix.length_le
              rw [List.length_append] at hle
              exact List.length_eq_zero_iff.mp (by omega)
            · intro hpending
              rw [hpending, List.append_nil]
      · cases taken

/-- The loop waits for lines when `stop` clears the flag. -/
theorem run_drained_waiting :
    ∃ s s', Run.Path step (fun _ a => ShortLine a) {} [.append [7], .test, .lock] (.ok s) ∧
      Run.Path step (fun _ _ => True) s [.stop, .wake, .write, .write, .recycle, .test, .join]
        (.ok s') ∧
      s.appended = [7] ∧ s.appended <+: s'.output := by
  have hrun : ∃ s s',
      Run.Path step (fun _ a => ShortLine a) {} [.append [7], .test, .lock] (.ok s) ∧
      Run.Path step (fun _ _ => True) s [.stop, .wake, .write, .write, .recycle, .test, .join]
        (.ok s') ∧
      s.appended = [7] ∧ s.pc = .waiting ∧ s'.stopping = .returned :=
    ⟨_, _, .cons (show 1 < kLargeBuffer by rw [kLargeBuffer]; omega) rfl
        (.cons trivial rfl (.cons trivial rfl (.nil _))),
      Run.Path.of_follow rfl, rfl, rfl, rfl⟩
  obtain ⟨s, s', hbefore, hafter, happended, hpc, hreturned⟩ := hrun
  exact ⟨s, s', hbefore, hafter, happended,
    (run_drained_iff hbefore hafter hreturned).mpr (.inr (.inl hpc))⟩

/-- A line appended while the loop writes is not in the file when `stop` returns. -/
theorem stop_while_writing_loses_line :
    ∃ s s', Run.Path step (fun _ a => ShortLine a) {} [.test, .lock, .wake, .append [7]] (.ok s) ∧
      Run.Path step (fun _ _ => True) s [.stop, .write, .write, .recycle, .test, .join] (.ok s') ∧
      s.pc = .write 0 ∧ s'.stopping = .returned ∧ s.appended = [7] ∧ s'.output = [] :=
  ⟨_, _, .cons trivial rfl (.cons trivial rfl (.cons trivial rfl
      (.cons (show 1 < kLargeBuffer by rw [kLargeBuffer]; omega) rfl (.nil _)))),
    Run.Path.of_follow rfl, rfl, rfl, rfl, rfl⟩

end AsyncLogging

end LibMsf
