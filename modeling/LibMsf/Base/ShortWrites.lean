import LibMsf.Base.LogFile

/-!
`AppendFile::append` on a stream that takes fewer bytes than it is offered.

The stream answers from a sequence that is fixed from the start, and keeps the positions in the
line of the bytes that it was handed. The loop starts each write at the count of the last one and
not at the total. The two differ as soon as two writes before it have taken bytes, and behind the
first write, which leaves the count at zero.
-/

namespace LibMsf

open Cxx

structure ShortStream where
  results : Nat → Nat
  calls : Nat := 0
  handed : List Nat := []

namespace ShortStream

/-- A call that is offered the bytes of the line from a position on. -/
def fwrite (s : ShortStream) (off len : Nat) : ShortStream × Nat :=
  let n := min (s.results s.calls) len
  ({ s with calls := s.calls + 1, handed := s.handed ++ List.range' off n }, n)

/-- All bytes of the line were handed over, each once and in order, or the first ones of them if
a write of nothing ended the loop. -/
def Delivered (len : Nat) (s : ShortStream) (ended : Bool) : Prop :=
  if ended then s.handed <+: List.range len else s.handed = List.range len

/-- The first write takes the line, or bytes of it and the second one nothing; or it takes
nothing, and one of the next three does not either or the next two take the line. -/
def TakesEnough (len : Nat) (results : Nat → Nat) : Prop :=
  len ≤ results 0 ∨ 0 < results 0 ∧ results 1 = 0 ∨
    results 0 = 0 ∧
      (results 1 = 0 ∨ results 2 = 0 ∨ results 3 = 0 ∨ len ≤ results 1 + results 2)

/-- The loop ends within a number of turns, with this outcome. -/
def Ends (len fuel : Nat) (s : AppendLoop ShortStream) (P : ShortStream → Bool → Prop) : Prop :=
  ∃ out ended,
    Run.loop (AppendLoop.turn fwrite len) fuel s = some (.ok (out, ended)) ∧ P out ended

/-- The loop has handed over the first bytes of the line. -/
structure Aligned (len : Nat) (results : Nat → Nat) (s : AppendLoop ShortStream) : Prop where
  results : s.stream.results = results
  sum : s.nread + s.remain = len
  handed : s.stream.handed = List.range s.nread

/-- The variables behind a write in the loop that takes bytes. -/
def afterWrite (len : Nat) (s : AppendLoop ShortStream) : AppendLoop ShortStream :=
  let n := min (s.stream.results s.stream.calls) s.remain
  { stream := (s.stream.fwrite s.n s.remain).1
    nread := s.nread + n
    remain := len - (s.nread + n)
    n := n }

theorem range_append_range' (a b : Nat) : List.range a ++ List.range' a b = List.range (a + b) := by
  have happend := List.range'_append_1 (s := 0) (m := a) (n := b)
  rw [Nat.zero_add] at happend
  rw [List.range_eq_range', List.range_eq_range', happend]

theorem range_start {a b : Nat} (h : a ≤ b) : List.range a <+: List.range b := by
  refine ⟨List.range' a (b - a), ?_⟩
  rw [range_append_range', Nat.add_sub_cancel' h]

section Turn

variable {len fuel : Nat} {results : Nat → Nat} {s : AppendLoop ShortStream}
  {P Q : ShortStream → Bool → Prop}

theorem Delivered.handed_start {out : ShortStream} {ended : Bool} (h : Delivered len out ended) :
    out.handed <+: List.range len := by
  rw [Delivered] at h
  split at h
  · exact h
  · rw [h]

theorem Ends.imp (h : Ends len fuel s P) (himp : ∀ out ended, P out ended → Q out ended) :
    Ends len fuel s Q := by
  obtain ⟨out, ended, hloop, hP⟩ := h
  exact ⟨out, ended, hloop, himp out ended hP⟩

theorem ends_of_remain_eq_zero (h : s.remain = 0) (hP : P s.stream false) :
    Ends len (fuel + 1) s P := by
  refine ⟨_, _, ?_, hP⟩
  simp only [Run.loop, AppendLoop.turn, h, Nat.lt_irrefl, if_false]

theorem ends_of_zero (hpos : 0 < s.remain) (hzero : s.stream.results s.stream.calls = 0)
    (hP : ∀ out, out.handed = s.stream.handed → P out true) : Ends len (fuel + 1) s P := by
  have hwrite : (s.stream.fwrite s.n s.remain).2 = 0 := by simp [fwrite, hzero]
  refine ⟨_, true, ?_, hP (s.stream.fwrite s.n s.remain).1 (by simp [fwrite, hzero])⟩
  simp only [Run.loop, AppendLoop.turn, if_pos hpos, hwrite, if_true]

theorem ends_of_afterWrite (hpos : 0 < s.remain) (htakes : 0 < s.stream.results s.stream.calls)
    (h : Ends len fuel (afterWrite len s) P) : Ends len (fuel + 1) s P := by
  have hwrite : (s.stream.fwrite s.n s.remain).2 =
      min (s.stream.results s.stream.calls) s.remain := rfl
  have htaken : ¬min (s.stream.results s.stream.calls) s.remain = 0 := by omega
  obtain ⟨out, ended, hloop, hP⟩ := h
  refine ⟨out, ended, ?_, hP⟩
  simp only [Run.loop, AppendLoop.turn, if_pos hpos, hwrite, if_neg htaken]
  exact hloop

theorem afterWrite_sum (hsum : s.nread + s.remain = len) :
    (afterWrite len s).nread + (afterWrite len s).remain = len := by
  simp only [afterWrite]
  omega

theorem afterWrite_remain_lt (hsum : s.nread + s.remain = len) (hpos : 0 < s.remain)
    (htakes : 0 < s.stream.results s.stream.calls) (hfuel : s.remain < fuel + 1) :
    (afterWrite len s).remain < fuel := by
  simp only [afterWrite]
  omega

/-- The loop ends, and the stream keeps what it has. -/
theorem ends_extending (hsum : s.nread + s.remain = len) (hfuel : s.remain < fuel) :
    Ends len fuel s (fun out _ => s.stream.handed <+: out.handed) := by
  induction fuel generalizing s with
  | zero => exact absurd hfuel (Nat.not_lt_zero _)
  | succ fuel ih =>
      by_cases hdone : s.remain = 0
      · exact ends_of_remain_eq_zero hdone List.prefix_rfl
      · have hpos := Nat.pos_of_ne_zero hdone
        by_cases hzero : s.stream.results s.stream.calls = 0
        · exact ends_of_zero hpos hzero (fun out hout => hout ▸ List.prefix_rfl)
        · have htakes := Nat.pos_of_ne_zero hzero
          have hless := afterWrite_remain_lt hsum hpos htakes hfuel
          refine ends_of_afterWrite hpos htakes ((ih (afterWrite_sum hsum) hless).imp ?_)
          exact fun out _ hext => (List.prefix_append _ _).trans hext

theorem Aligned.done (h : Aligned len results s) (hdone : s.remain = 0) :
    Ends len (fuel + 1) s (Delivered len) := by
  refine ends_of_remain_eq_zero hdone ?_
  have hall : s.nread = len := by
    have hsum := h.sum
    omega
  rw [← hall]
  exact h.handed

theorem Aligned.zero (h : Aligned len results s) (hpos : 0 < s.remain)
    (hzero : results s.stream.calls = 0) : Ends len (fuel + 1) s (Delivered len) := by
  refine ends_of_zero hpos (h.results ▸ hzero) ?_
  intro out hout
  have hle : s.nread ≤ len := by
    have hsum := h.sum
    omega
  rw [Delivered, if_pos rfl, hout, h.handed]
  exact range_start hle

/-- A write that starts where the last one ended keeps the bytes in order. -/
theorem Aligned.placed (h : Aligned len results s) (hplace : s.n = s.nread) :
    Aligned len results (afterWrite len s) := by
  refine ⟨h.results, afterWrite_sum h.sum, ?_⟩
  simp only [afterWrite, fwrite]
  rw [h.handed, hplace]
  exact range_append_range' _ _

/-- One that starts elsewhere hands over a byte out of place, and that stays. -/
theorem Aligned.misplaced (h : Aligned len results s) (hpos : 0 < s.remain)
    (htakes : 0 < results s.stream.calls) (hplace : s.n ≠ s.nread) (hfuel : s.remain < fuel + 1) :
    Ends len (fuel + 1) s (fun out ended => ¬Delivered len out ended) := by
  have htakes' : 0 < s.stream.results s.stream.calls := h.results ▸ htakes
  have hless := afterWrite_remain_lt h.sum hpos htakes' hfuel
  refine ends_of_afterWrite hpos htakes' ((ends_extending (afterWrite_sum h.sum) hless).imp ?_)
  intro out ended hext hdelivered
  obtain ⟨rest, hrest⟩ := hext.trans hdelivered.handed_start
  have htaken : 0 < min (s.stream.results s.stream.calls) s.remain := by omega
  have hlt : s.nread < len := by
    have hsum := h.sum
    omega
  have hat : (List.range len)[s.nread]? = some s.n := by
    rw [← hrest]
    simp only [afterWrite, fwrite]
    rw [h.handed, List.append_assoc, List.getElem?_append_right (by simp), List.length_range,
      Nat.sub_self, List.getElem?_append_left (by simpa using htaken),
      List.getElem?_range' htaken]
    simp
  rw [List.getElem?_range hlt] at hat
  exact hplace (Option.some.inj hat).symm

theorem Aligned.ends_iff_of_ne (h : Aligned len results s) (hplace : s.n ≠ s.nread)
    (hfuel : s.remain < fuel) :
    Ends len fuel s (fun out ended =>
      Delivered len out ended ↔ s.remain = 0 ∨ results s.stream.calls = 0) := by
  obtain ⟨fuel, rfl⟩ := Nat.exists_eq_add_one_of_ne_zero (Nat.ne_zero_of_lt hfuel)
  by_cases hdone : s.remain = 0
  · exact (h.done hdone).imp fun _ _ hdelivered => iff_of_true hdelivered (.inl hdone)
  · have hpos := Nat.pos_of_ne_zero hdone
    by_cases hzero : results s.stream.calls = 0
    · exact (h.zero hpos hzero).imp fun _ _ hdelivered => iff_of_true hdelivered (.inr hzero)
    · refine (h.misplaced hpos (Nat.pos_of_ne_zero hzero) hplace hfuel).imp ?_
      exact fun _ _ hlost => iff_of_false hlost (not_or.mpr ⟨hdone, hzero⟩)

theorem Aligned.ends_iff_of_eq (h : Aligned len results s) (hplace : s.n = s.nread)
    (hfuel : s.remain < fuel) {C : Prop}
    (hnext : s.remain ≠ 0 → results s.stream.calls ≠ 0 → Aligned len results (afterWrite len s) →
      ∀ fuel', (afterWrite len s).remain < fuel' →
        Ends len fuel' (afterWrite len s) (fun out ended => Delivered len out ended ↔ C)) :
    Ends len fuel s (fun out ended =>
      Delivered len out ended ↔ s.remain = 0 ∨ results s.stream.calls = 0 ∨ C) := by
  obtain ⟨fuel, rfl⟩ := Nat.exists_eq_add_one_of_ne_zero (Nat.ne_zero_of_lt hfuel)
  by_cases hdone : s.remain = 0
  · exact (h.done hdone).imp fun _ _ hdelivered => iff_of_true hdelivered (.inl hdone)
  · have hpos := Nat.pos_of_ne_zero hdone
    by_cases hzero : results s.stream.calls = 0
    · exact (h.zero hpos hzero).imp fun _ _ hdelivered =>
        iff_of_true hdelivered (.inr (.inl hzero))
    · have htakes : 0 < s.stream.results s.stream.calls :=
        h.results ▸ Nat.pos_of_ne_zero hzero
      have hless := afterWrite_remain_lt h.sum hpos htakes hfuel
      have hrest := hnext hdone hzero (h.placed hplace) fuel hless
      refine ends_of_afterWrite hpos htakes (hrest.imp ?_)
      intro out ended hiff
      rw [hiff, or_iff_right hdone, or_iff_right hzero]

/-- A write that starts at its place, behind one that took bytes, leaves the next one out of
place. -/
theorem Aligned.ends_iff_behind (h : Aligned len results s) (hplace : s.n = s.nread)
    (hpos : 0 < s.nread) (hfuel : s.remain < fuel) :
    Ends len fuel s (fun out ended => Delivered len out ended ↔
      s.remain = 0 ∨ results s.stream.calls = 0 ∨
        s.remain ≤ results s.stream.calls ∨ results (s.stream.calls + 1) = 0) := by
  refine (h.ends_iff_of_eq hplace hfuel (fun _ _ h' _ hfuel' => h'.ends_iff_of_ne ?_ hfuel')).imp ?_
  · simp only [afterWrite]
    omega
  · intro out ended hiff
    have hsum := h.sum
    have hremain : (afterWrite len s).remain = 0 ↔
        s.remain ≤ results s.stream.calls := by
      simp only [afterWrite, h.results]
      omega
    rw [hiff, hremain]
    rfl

end Turn

/-- `append` ends on every stream, and hands over what it should just when the stream takes
enough at once. -/
theorem append_delivers_iff (len : Nat) (results : Nat → Nat) :
    ∃ out ended, AppendLoop.run fwrite { results := results } len = some (.ok (out, ended)) ∧
      (Delivered len out ended ↔ TakesEnough len results) := by
  have hstart : Aligned len results (AppendLoop.start fwrite { results := results } len) := by
    refine ⟨rfl, ?_, ?_⟩
    · simp only [AppendLoop.start, fwrite]
      omega
    · simp only [AppendLoop.start, fwrite, List.nil_append]
      exact List.range_eq_range'.symm
  have hfuel : (AppendLoop.start fwrite { results := results } len).remain < len + 1 := by
    simp only [AppendLoop.start]
    omega
  have hcalls : (AppendLoop.start fwrite { results := results } len).stream.calls = 1 := rfl
  have hremain : (AppendLoop.start fwrite { results := results } len).remain =
      len - min (results 0) len := rfl
  by_cases hfirst : min (results 0) len = 0
  · -- The first write in the loop starts at zero and the second behind it, as they should.
    have hplace : (AppendLoop.start fwrite { results := results } len).nread = 0 := hfirst
    refine (hstart.ends_iff_of_eq hplace.symm hfuel (fun hmore htakes h' _ hfuel' =>
      h'.ends_iff_behind ?_ ?_ hfuel')).imp ?_
    · simp only [afterWrite, hplace, Nat.zero_add]
    · rw [hcalls] at htakes
      simp only [afterWrite, hplace, hstart.results, hcalls]
      omega
    · intro out ended hiff
      have hsecond : (afterWrite len (AppendLoop.start fwrite { results := results } len)).remain =
          len - results 1 := by
        simp only [afterWrite, hplace, hstart.results, hcalls, hremain, hfirst, Nat.zero_add,
          Nat.sub_zero]
        omega
      have hcalls' : (afterWrite len
          (AppendLoop.start fwrite { results := results } len)).stream.calls = 2 := rfl
      simp only [hiff, hcalls, hremain, hsecond, hcalls', Nat.reduceAdd, TakesEnough]
      omega
  · refine (hstart.ends_iff_of_ne (Ne.symm hfirst) hfuel).imp ?_
    intro out ended hiff
    rw [hiff, hcalls, hremain, TakesEnough]
    omega

/-- A line of three bytes that is taken one by one: the first byte is handed over twice, and then
the second one. -/
theorem short_writes_misplaced :
    ∃ out, AppendLoop.run fwrite { results := fun _ => 1 } 3 = some (.ok (out, false)) ∧
      out.handed = [0, 0, 1] ∧ ¬Delivered 3 out false := by
  refine ⟨_, rfl, rfl, ?_⟩
  intro hdelivered
  cases hdelivered

end ShortStream

end LibMsf
