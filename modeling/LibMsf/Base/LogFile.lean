import LibMsf.Library.Loop

/-!
The log file of `base/log_file.cc` and the file of `base/file_utils.cc` that it appends to.

`AppendFile` has a stdio stream with a buffer of its own, which is written to the descriptor in
whole blocks or when it is flushed, and writes batches to the descriptor directly. Its loop for
short writes is kept apart from the stream that it writes to. The clock and the file that a roll
opens are parameters of a call. Left out are the lock, the names of the files, `forbit_write_`,
which nothing reads, and the redirection of the standard streams.
-/

namespace LibMsf

open Cxx

/-- The variables of the loop in `AppendFile::append`. -/
structure AppendLoop (σ : Type) where
  stream : σ
  nread : Nat
  remain : Nat
  n : Nat

namespace AppendLoop

variable {σ : Type} (write : σ → (off len : Nat) → σ × Nat)

/-- The first write of a line, and the variables behind it. -/
def start (stream : σ) (len : Nat) : AppendLoop σ :=
  let (stream, nread) := write stream 0 len
  { stream := stream, nread := nread, remain := len - nread, n := 0 }

/-- The loop ends with the stream, and with whether a write of nothing ended it. -/
def turn (len : Nat) (s : AppendLoop σ) : Except Fault (AppendLoop σ ⊕ σ × Bool) :=
  if 0 < s.remain then
    let (stream, n) := write s.stream s.n s.remain
    if n = 0 then .ok (.inr (stream, true))
    else
      let nread := s.nread + n
      .ok (.inl { stream := stream, nread := nread, remain := len - nread, n := n })
  else .ok (.inr (s.stream, false))

/-- Every turn but the last one takes a byte. -/
def run (stream : σ) (len : Nat) : Option (Except Fault (σ × Bool)) :=
  Run.loop (turn write len) (len + 1) (start write stream len)

end AppendLoop

/-- What the descriptor was given, and what is in the buffer of the stream. -/
structure AppendFile where
  file : List UInt8 := []
  buffer : List UInt8 := []
  writtenBytes : Int := 0

namespace AppendFile

def kFileBufferSize : Nat := 4096

/-- `fwrite_unlocked`, when all that it writes to the descriptor is taken. A buffer that is
filled exactly goes to the file here; glibc keeps it until the next write. -/
def fwrite (f : AppendFile) (data : List UInt8) : AppendFile :=
  let all := f.buffer ++ data
  let whole := all.length / kFileBufferSize * kFileBufferSize
  { f with file := f.file ++ all.take whole, buffer := all.drop whole }

def write (f : AppendFile) (data : List UInt8) : AppendFile × Nat :=
  (f.fwrite data, data.length)

def append (f : AppendFile) (line : List UInt8) : Option (Except Fault AppendFile) :=
  (AppendLoop.run (fun f off len => f.write ((line.drop off).take len)) f line.length).map
    fun r => r.map fun (f, _) => { f with writtenBytes := f.writtenBytes + line.length }

/-- The loop that fills `iov[32]`. -/
def fillIov (iov : List (List UInt8)) : List (List UInt8) → Except Fault (List (List UInt8))
  | [] => .ok iov
  | buffer :: buffers =>
      if iov.length < 32 then fillIov (iov ++ [buffer]) buffers else .error .outOfBounds

/-- The call to `writev` takes all bytes, as the assertion behind it expects. -/
def appendBatch (f : AppendFile) (buffers : List (List UInt8)) : Except Fault AppendFile := do
  let iov ← fillIov [] buffers
  .ok { f with file := f.file ++ iov.flatten }

def flush (f : AppendFile) : AppendFile :=
  { f with file := f.file ++ f.buffer, buffer := [] }

end AppendFile

/-- What `time` returns in `afterAppend` and in `rollFile`, and the file that a roll opens. -/
structure LogClock where
  now : Int
  rollNow : Int
  opened : AppendFile

structure LogFile where
  file : AppendFile
  flushInterval : Int
  rollSize : Int
  count : Int
  startOfPeriod : Int := 0
  lastRoll : Int := 0
  lastFlush : Int := 0
  /-- The files before this one, as their `fclose` left them. -/
  rolled : List (List UInt8) := []

namespace LogFile

def kCheckTimeRoll : Int := 1024

def kRollPerSeconds : Int := 60 * 60 * 24

def periodOf (now : Int) : Int :=
  now.tdiv kRollPerSeconds * kRollPerSeconds

def rollFile (s : LogFile) (clock : LogClock) : LogFile × Bool :=
  if s.lastRoll < clock.rollNow then
    ({ s with
      lastRoll := clock.rollNow
      lastFlush := clock.rollNow
      startOfPeriod := periodOf clock.rollNow
      file := clock.opened
      rolled := s.rolled ++ [s.file.flush.file] }, true)
  else (s, false)

def afterAppend (s : LogFile) (clock : LogClock) : LogFile :=
  if s.rollSize < s.file.writtenBytes then (s.rollFile clock).1
  else if kCheckTimeRoll < s.count then
    let s := { s with count := 0 }
    if periodOf clock.now ≠ s.startOfPeriod then (s.rollFile clock).1
    else if s.flushInterval < clock.now - s.lastFlush then
      { s with lastFlush := clock.now, file := s.file.flush }
    else s
  else { s with count := s.count + 1 }

def append (s : LogFile) (line : List UInt8) (clock : LogClock) :
    Option (Except Fault LogFile) :=
  (s.file.append line).map fun r => r.map fun file => { s with file := file }.afterAppend clock

/-- The ranges that `appendBatch` hands over, from a turn of its loop on. -/
def batches (len i : Nat) : List (Nat × Nat) :=
  -- A turn starts at the first buffer, and not at `i`.
  if i + 32 < len then (0, 32) :: batches len (i + 32) else [(i, len)]
termination_by len - i

def appendRange (buffers : List (List UInt8)) (f : AppendFile) (range : Nat × Nat) :
    Except Fault AppendFile :=
  f.appendBatch ((buffers.take range.2).drop range.1)

def appendBatch (s : LogFile) (buffers : List (List UInt8)) (clock : LogClock) :
    Except Fault LogFile := do
  let file ← (batches buffers.length 0).foldlM (appendRange buffers) s.file
  .ok ({ s with file := file }.afterAppend clock)

def flush (s : LogFile) : LogFile :=
  { s with file := s.file.flush }

/-- `afterAppend` opens another file. -/
def Rolls (s : LogFile) (clock : LogClock) : Prop :=
  s.lastRoll < clock.rollNow ∧
    (s.rollSize < s.file.writtenBytes ∨
      kCheckTimeRoll < s.count ∧ periodOf clock.now ≠ s.startOfPeriod)

section AfterAppend

variable {s : LogFile} {clock : LogClock}

theorem rollFile_file (h : clock.rollNow ≤ s.lastRoll) : (s.rollFile clock).1.file = s.file := by
  rw [rollFile, if_neg (not_lt.mpr h)]

theorem afterAppend_file (h : ¬s.Rolls clock) :
    (s.afterAppend clock).file = s.file ∨ (s.afterAppend clock).file = s.file.flush := by
  rw [afterAppend]
  split
  · rename_i hsize
    left
    have hle : clock.rollNow ≤ s.lastRoll := by
      by_contra hlt
      exact h ⟨not_le.mp hlt, .inl hsize⟩
    exact rollFile_file hle
  · split
    · rename_i hcount
      simp only
      split
      · rename_i hperiod
        left
        have hle : clock.rollNow ≤ s.lastRoll := by
          by_contra hlt
          exact h ⟨not_le.mp hlt, .inr ⟨hcount, hperiod⟩⟩
        exact rollFile_file hle
      · split
        · exact .inr rfl
        · exact .inl rfl
    · exact .inl rfl

end AfterAppend

end LogFile

end LibMsf
