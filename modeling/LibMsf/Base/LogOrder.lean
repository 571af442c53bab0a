import LibMsf.Base.BatchWrites
import LibMsf.Library.Path

/-!
The order of what is appended in both ways.

A line goes into the buffer of the stream and a batch to the descriptor, so a batch overtakes
the lines that are still in the buffer. The bytes of the file are those of the calls in order as
long as this cannot be seen.
-/

namespace LibMsf

open Cxx

theorem AppendFile.fwrite_flush (f : AppendFile) (data : List UInt8) :
    (f.fwrite data).flush.file = f.flush.file ++ data := by
  simp only [fwrite, flush, List.append_assoc, List.take_append_drop]

/-- When the stream takes the whole line there is no second write. -/
theorem AppendFile.append_eq (f : AppendFile) (line : List UInt8) :
    f.append line =
      some (.ok { f.fwrite line with writtenBytes := f.writtenBytes + line.length }) := by
  simp [append, AppendLoop.run, AppendLoop.start, AppendLoop.turn, Run.loop, write, fwrite,
    Except.map]

namespace LogFile

/-- A log, and the bytes that were appended to it so far. -/
structure Session where
  log : LogFile
  appended : List UInt8 := []

namespace Session

inductive Action where
  | append (line : List UInt8) (clock : LogClock)
  | appendBatch (buffers : List (List UInt8)) (clock : LogClock)

def step (s : Session) : Action → Option (Except Fault Session)
  | .append line clock => (s.log.append line clock).map fun r =>
      r.map fun log => { log := log, appended := s.appended ++ line }
  | .appendBatch buffers clock => some ((s.log.appendBatch buffers clock).map fun log =>
      { log := log, appended := s.appended ++ buffers.flatten })

/-- `afterAppend` finds this file, and neither rolls nor flushes it. -/
def Stays (log : LogFile) (file : AppendFile) (clock : LogClock) : Prop :=
  ({ log with file := file }.afterAppend clock).file = file

/-- Neither a roll nor a flush, and a batch has at most 32 buffers. -/
def Plain (s : Session) : Action → Prop
  | .append line clock => ∀ file, s.log.file.append line = some (.ok file) →
      Stays s.log file clock
  | .appendBatch buffers clock => buffers.length ≤ 32 ∧
      Stays s.log { s.log.file with file := s.log.file.file ++ buffers.flatten } clock

/-- What `flush` would leave in the file is what a flush at the start would have left, and then
all that was appended. -/
def InOrder (log : LogFile) (s : Session) : Prop :=
  s.log.flush.file.file = log.flush.file.file ++ s.appended

/-- A batch and what is in the buffer before it give the same bytes in either order: one of them
is empty, or both repeat the same bytes. -/
def Commutes (s : Session) : Action → Prop
  | .append _ _ => True
  | .appendBatch buffers _ =>
      s.log.file.buffer ++ buffers.flatten = buffers.flatten ++ s.log.file.buffer

section Step

variable {log : LogFile} {s : Session} {line : List UInt8} {buffers : List (List UInt8)}
  {clock : LogClock} {action : Action} {r : Except Fault Session}

theorem step_append (s : Session) (line : List UInt8) (clock : LogClock) :
    step s (.append line clock) = some (.ok
      { log := { s.log with file := { s.log.file.fwrite line with
          writtenBytes := s.log.file.writtenBytes + line.length } }.afterAppend clock
        appended := s.appended ++ line }) := by
  rw [step, LogFile.append, AppendFile.append_eq]
  rfl

theorem step_appendBatch (s : Session) (clock : LogClock) (h : buffers.length ≤ 32) :
    step s (.appendBatch buffers clock) = some (.ok
      { log := { s.log with file := { s.log.file with
          file := s.log.file.file ++ buffers.flatten } }.afterAppend clock
        appended := s.appended ++ buffers.flatten }) := by
  rw [step, LogFile.appendBatch, foldlM_batches (h.trans (by decide))]
  rfl

theorem flush_append (hplain : Plain s (.append line clock)) {s' : Session}
    (hstep : step s (.append line clock) = some (.ok s')) :
    s'.log.flush.file.file = s.log.flush.file.file ++ line ∧ s'.appended = s.appended ++ line := by
  have hstays : Stays _ _ _ := hplain _ (s.log.file.append_eq line)
  cases (step_append s line clock).symm.trans hstep
  refine ⟨?_, rfl⟩
  simp only [LogFile.flush]
  rw [hstays]
  exact s.log.file.fwrite_flush line

theorem flush_appendBatch (hplain : Plain s (.appendBatch buffers clock)) {s' : Session}
    (hstep : step s (.appendBatch buffers clock) = some (.ok s')) :
    s'.log.flush.file.file = s.log.file.file ++ buffers.flatten ++ s.log.file.buffer ∧
      s'.appended = s.appended ++ buffers.flatten := by
  have hstays : Stays _ _ _ := hplain.2
  cases (step_appendBatch s clock hplain.1).symm.trans hstep
  refine ⟨?_, rfl⟩
  simp only [LogFile.flush]
  rw [hstays]
  rfl

theorem InOrder.step (h : InOrder log s) (hplain : Plain s action) (hcommutes : Commutes s action)
    (hstep : Session.step s action = some r) : ∃ s', r = .ok s' ∧ InOrder log s' := by
  cases action with
  | append line clock =>
      cases (step_append s line clock).symm.trans hstep
      obtain ⟨hflush, happended⟩ := flush_append hplain hstep
      refine ⟨_, rfl, ?_⟩
      rw [InOrder, hflush, happended, h, List.append_assoc]
  | appendBatch buffers clock =>
      cases (step_appendBatch s clock hplain.1).symm.trans hstep
      obtain ⟨hflush, happended⟩ := flush_appendBatch hplain hstep
      refine ⟨_, rfl, ?_⟩
      have hswap : buffers.flatten ++ s.log.file.buffer =
          s.log.file.buffer ++ buffers.flatten := Eq.symm hcommutes
      rw [InOrder, hflush, happended, List.append_assoc, hswap, ← List.append_assoc,
        ← List.append_assoc, ← h]
      rfl

/-- A batch that overtakes other bytes shows. -/
theorem InOrder.not_step (h : InOrder log s) (hplain : Plain s action)
    (hcommutes : ¬Commutes s action) {s' : Session}
    (hstep : Session.step s action = some (.ok s')) : ¬InOrder log s' := by
  intro horder
  cases action with
  | append line clock => exact hcommutes trivial
  | appendBatch buffers clock =>
      obtain ⟨hflush, happended⟩ := flush_appendBatch hplain hstep
      apply hcommutes
      have hold : s.log.file.file ++ s.log.file.buffer =
          log.flush.file.file ++ s.appended := h
      rw [InOrder, hflush, happended, ← List.append_assoc, ← hold, List.append_assoc,
        List.append_assoc] at horder
      exact (List.append_cancel_left horder).symm

end Step

def InOrderResult (log : LogFile) (r : Except Fault Session) : Prop :=
  ∃ s, r = .ok s ∧ InOrder log s

/-- In calls of which none rolls or flushes the file, a flush gives the appended bytes in the
order of the calls just when every batch commutes with what is in the buffer before it. -/
theorem run_inOrder_iff (log : LogFile) (actions : List Action) (r : Except Fault Session)
    (hrun : Run.Path step Plain { log := log } actions r) :
    (∀ before after r', actions = before ++ after →
      Run.Path step Plain { log := log } before r' → InOrderResult log r') ↔
      ∀ before action after s, actions = before ++ action :: after →
        Run.Path step Plain { log := log } before (.ok s) → Commutes s action := by
  have hstart : InOrder log { log := log } := (List.append_nil _).symm
  refine Run.Path.good_iff ?_ ?_ ?_ hrun hstart
  · exact fun s h => ⟨s, rfl, h⟩
  · exact fun s action r h hplain hcommutes hstep => h.step hplain hcommutes hstep
  · rintro s action r h hplain hcommutes hstep ⟨s', rfl, horder⟩
    exact h.not_step hplain hcommutes hstep horder

/-- A log that was just opened. -/
def fresh : LogFile :=
  { file := {}, flushInterval := 3, rollSize := 2048000, count := 0 }

/-- A batch before the first line, and one that repeats the line. -/
theorem run_inOrder_repeated :
    ∃ r, Run.Path step Plain { log := fresh }
        [.appendBatch [[1, 2], [3]] noon, .append [4] noon, .appendBatch [[4, 4]] noon,
          .append [5] noon] r ∧
      InOrderResult fresh r := by
  have hrun : ∃ r, Run.Path step (fun s a => Plain s a ∧ Commutes s a) { log := fresh }
      [.appendBatch [[1, 2], [3]] noon, .append [4] noon, .appendBatch [[4, 4]] noon,
        .append [5] noon] r := by
    refine ⟨_, .cons ⟨⟨by decide, rfl⟩, rfl⟩ (step_appendBatch _ _ (by decide))
      (.cons ⟨?_, trivial⟩ rfl (.cons ⟨⟨by decide, rfl⟩, rfl⟩ (step_appendBatch _ _ (by decide))
        (.cons ⟨?_, trivial⟩ rfl (.nil _))))⟩
    · intro file hfile
      cases hfile
      rfl
    · intro file hfile
      cases hfile
      rfl
  obtain ⟨r, hpath⟩ := hrun
  have hplain := hpath.mono (fun _ _ h => h.1)
  refine ⟨r, hplain, ?_⟩
  exact Run.Path.good_of_meets (fun _ _ h => h.2) (run_inOrder_iff fresh _ r hplain) hpath hplain

/-- A line and then a batch: after the flush the batch comes first. -/
theorem batch_overtakes_line :
    ∃ s, Run.Path step Plain { log := fresh }
        [.append [1] noon, .appendBatch [[2]] noon] (.ok s) ∧
      s.appended = [1, 2] ∧ s.log.flush.file.file = [2, 1] ∧ ¬InOrder fresh s := by
  refine ⟨_, .cons ?_ rfl (.cons ⟨by decide, rfl⟩ (step_appendBatch _ _ (by decide)) (.nil _)),
    rfl, rfl, ?_⟩
  · intro file hfile
    cases hfile
    rfl
  · intro horder
    cases horder

end Session

end LogFile

end LibMsf
