import LibMsf.Base.LogFile

/-!
What `LogFile::appendBatch` hands to `writev`.

The ranges are short enough for the array, but every turn of the loop hands over the first
buffers again. Up to two ranges the buffers are all handed over, each once.
-/

namespace LibMsf

open Cxx

namespace LogFile

def positions (range : Nat × Nat) : List Nat :=
  List.range' range.1 (range.2 - range.1)

/-- Every buffer is handed over once and in order, and without a fault its bytes come behind
those that the file had. What was in the stream stays there, or is flushed behind them. -/
structure WritesOnce (s : LogFile) (buffers : List (List UInt8)) (clock : LogClock) : Prop where
  handed : (batches buffers.length 0).flatMap positions = List.range buffers.length
  written : ∃ s', s.appendBatch buffers clock = .ok s' ∧
    s.file.file ++ buffers.flatten <+: s'.file.file ∧
    s'.file.file ++ s'.file.buffer = s.file.file ++ buffers.flatten ++ s.file.buffer

section Batches

variable {s : LogFile} {f : AppendFile} {buffers iov : List (List UInt8)} {len i : Nat}

theorem batches_of_le (h : len ≤ i + 32) : batches len i = [(i, len)] := by
  rw [batches, if_neg (not_lt.mpr h)]

theorem batches_of_lt (h : i + 32 < len) : batches len i = (0, 32) :: batches len (i + 32) := by
  rw [batches, if_pos h]

theorem fillIov_of_le (h : iov.length + buffers.length ≤ 32) :
    AppendFile.fillIov iov buffers = .ok (iov ++ buffers) := by
  induction buffers generalizing iov with
  | nil => rw [AppendFile.fillIov, List.append_nil]
  | cons buffer buffers ih =>
      rw [List.length_cons] at h
      rw [AppendFile.fillIov, if_pos (by omega), ih, List.append_assoc, List.singleton_append]
      rw [List.length_append, List.length_singleton]
      omega

theorem appendBatch_of_le (h : buffers.length ≤ 32) :
    f.appendBatch buffers = .ok { f with file := f.file ++ buffers.flatten } := by
  rw [AppendFile.appendBatch, fillIov_of_le (by rw [List.length_nil]; omega), List.nil_append]
  rfl

theorem foldlM_batches (h : buffers.length ≤ 64) :
    (batches buffers.length 0).foldlM (appendRange buffers) f =
      .ok { f with file := f.file ++ buffers.flatten } := by
  by_cases hshort : buffers.length ≤ 32
  · have hrange : appendRange buffers f (0, buffers.length) =
        .ok { f with file := f.file ++ buffers.flatten } := by
      simp only [appendRange, List.take_length, List.drop_zero]
      exact appendBatch_of_le hshort
    rw [batches_of_le (by omega), List.foldlM_cons, hrange]
    rfl
  · have hfirst : appendRange buffers f (0, 32) =
        .ok { f with file := f.file ++ (buffers.take 32).flatten } :=
      appendBatch_of_le (by simp)
    have hrest : ∀ g, appendRange buffers g (32, buffers.length) =
        .ok { g with file := g.file ++ (buffers.drop 32).flatten } := by
      intro g
      simp only [appendRange, List.take_length]
      exact appendBatch_of_le (by rw [List.length_drop]; omega)
    have hsplit : (buffers.take 32).flatten ++ (buffers.drop 32).flatten = buffers.flatten := by
      rw [← List.flatten_append, List.take_append_drop]
    rw [batches_of_lt (by omega), batches_of_le (by omega), List.foldlM_cons, hfirst, ok_bind,
      List.foldlM_cons, hrest, ok_bind, List.append_assoc, hsplit]
    rfl

theorem flatMap_batches (h : len ≤ 64) :
    (batches len 0).flatMap positions = List.range len := by
  by_cases hshort : len ≤ 32
  · rw [batches_of_le (by omega), List.flatMap_singleton, positions, List.range_eq_range']
    rfl
  · have hrest : 32 + (len - 32) = len := by omega
    rw [batches_of_lt (by omega), batches_of_le (by omega), List.flatMap_cons,
      List.flatMap_singleton, List.range_eq_range', ← hrest, ← List.range'_append_1, hrest]
    rfl

/-- The 33rd buffer that is handed over is the first one again. -/
theorem flatMap_batches_ne (h : 64 < len) :
    (batches len 0).flatMap positions ≠ List.range len := by
  intro heq
  rw [batches_of_lt (by omega), batches_of_lt (by omega), List.flatMap_cons, List.flatMap_cons]
    at heq
  have hat : (List.range len)[32]? = some 0 := by
    rw [← heq, List.getElem?_append_right (by decide)]
    rfl
  rw [List.getElem?_range (by omega)] at hat
  cases hat

end Batches

/-- A call that does not roll the file writes every buffer once and in order just when there are
at most 64 of them. -/
theorem appendBatch_once_iff (s : LogFile) (buffers : List (List UInt8)) (clock : LogClock)
    (hroll : ¬s.Rolls clock) : WritesOnce s buffers clock ↔ buffers.length ≤ 64 := by
  constructor
  · intro honce
    by_contra hlong
    exact flatMap_batches_ne (not_le.mp hlong) honce.handed
  · intro hlen
    refine ⟨flatMap_batches hlen, ?_⟩
    refine ⟨_, by rw [appendBatch, foldlM_batches hlen, ok_bind], ?_⟩
    have hroll' : ¬Rolls { s with file :=
        { s.file with file := s.file.file ++ buffers.flatten } } clock := hroll
    cases afterAppend_file hroll' with
    | inl hkept =>
        rw [hkept]
        exact ⟨List.prefix_rfl, rfl⟩
    | inr hflushed =>
        rw [hflushed]
        exact ⟨List.prefix_append _ _, List.append_nil _⟩

/-- An open log with a line in its stream. -/
def opened : LogFile :=
  { file := { file := [1], buffer := [2], writtenBytes := 1 }
    flushInterval := 3, rollSize := 2048000, count := 0 }

def noon : LogClock :=
  { now := 43200, rollNow := 43200, opened := {} }

theorem opened_not_rolls : ¬opened.Rolls noon := by
  rintro ⟨-, hroll⟩
  cases hroll with
  | inl hsize => exact absurd hsize (by decide)
  | inr hcount => exact absurd hcount.1 (by decide)

theorem appendBatch_once_two :
    ¬opened.Rolls noon ∧ WritesOnce opened [[3, 4], [5]] noon :=
  ⟨opened_not_rolls,
    (appendBatch_once_iff opened [[3, 4], [5]] noon opened_not_rolls).mpr (by decide)⟩

def numbered : List (List UInt8) :=
  (List.range 65).map fun i => [UInt8.ofNat i]

/-- Of 65 buffers the first 32 are written twice, and the next 32 not at all. -/
theorem batches_repeat_first :
    (opened.appendBatch numbered noon).toOption.map (fun s => s.file.file) =
        some (1 :: (List.range 32 ++ List.range 32 ++ [64]).map UInt8.ofNat) ∧
      ¬WritesOnce opened numbered noon := by
  have hlength : numbered.length = 65 := rfl
  have hbatches : batches 65 0 = [(0, 32), (0, 32), (64, 65)] := by
    rw [batches_of_lt (by decide), batches_of_lt (by decide), batches_of_le (by decide)]
  constructor
  · rw [appendBatch, hlength, hbatches]
    rfl
  · intro honce
    exact flatMap_batches_ne (by decide) honce.handed

end LogFile

end LibMsf
