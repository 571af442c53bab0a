import LibMsf.Base.FileReading

/-!
What `readFile` leaves in the container.

A turn of the loop fills the container or comes to the end of the file. The container is the first
bytes of the file as long as it is filled; at the end of the file it is longer than the file, and
is returned like that. It also grows no more where three times its size is not a `size_t`.
-/

namespace LibMsf

open Cxx

namespace FileUtils

section Contents

theorem deposit_slots {file out : Bytes} {b n : Nat} (hfront : out.take b = file.take b)
    (hout : b + n ≤ out.length) (hfile : b + n ≤ file.length) :
    (deposit file out (slots (List.range' b n) b)).length = out.length ∧
      (deposit file out (slots (List.range' b n) b)).take (b + n) = file.take (b + n) := by
  induction n generalizing b out with
  | zero => exact ⟨rfl, hfront⟩
  | succ n ih =>
      have hcell : b < out.length := by omega
      have hset : (out.set b (file.getD b 0)).take (b + 1) = file.take (b + 1) := by
        have hbyte : file[b]? = some (file.getD b 0) := by
          rw [List.getElem?_eq_getElem (by omega), List.getD_eq_getElem]
        rw [List.take_add_one, List.take_add_one, List.getElem?_set_self hcell, List.take_set,
          List.set_eq_of_length_le (by simp), hfront, hbyte]
      have hstep : deposit file out (slots (List.range' b (n + 1)) b) =
          deposit file (out.set b (file.getD b 0))
            (slots (List.range' (b + 1) n) (b + 1 : Nat)) := by
        rw [List.range'_succ, slots, deposit, List.foldl_cons, Int.toNat_natCast, Nat.cast_add]
        rfl
      rw [hstep]
      have hrest := ih hset (by rw [List.length_set]; omega) (by omega)
      rw [List.length_set, Nat.add_right_comm] at hrest
      exact hrest

end Contents

section Growth

variable {file : Bytes} {numBytes : UInt64}

/-- The file has as many bytes as are asked for, and the sizes on the way are not reduced. -/
def Fits (file : Bytes) (numBytes : UInt64) : Prop :=
  numBytes.toNat ≤ file.length ∧ numBytes.toNat * 3 < 2 ^ 64

/-- What a success leaves in the container. -/
structure Exit (file : Bytes) (numBytes : UInt64) (out : Bytes) : Prop where
  fits : Fits file numBytes → out = file.take numBytes.toNat
  other : ¬Fits file numBytes → out.length ≠ min file.length numBytes.toNat

/-- What holds before each turn of the loop. -/
structure Growing (file : Bytes) (numBytes : UInt64) (results : Nat → Outcome) (s : ReadState) :
    Prop where
  results : s.device.results = results
  position : s.device.position = s.soFar
  inside : s.soFar ≤ file.length
  contents : s.soFar < s.out.length → s.out.take s.soFar = file.take s.soFar
  capped : s.out.length ≤ numBytes.toNat
  size : s.soFar < s.out.length → 2 ≤ s.out.length ∨ s.out.length = numBytes.toNat
  full : s.out.length ≤ s.soFar → Exit file numBytes s.out

theorem length_resize (out : Bytes) (n : Nat) : (resize out n).length = n := by
  rw [resize, List.length_append, List.length_take, List.length_replicate]
  omega

theorem firstSize_le (stSize : Int64) : firstSize stSize numBytes ≤ numBytes.toNat :=
  Nat.min_le_right _ _

theorem firstSize_cases (stSize : Int64) :
    2 ≤ firstSize stSize numBytes ∨ firstSize stSize numBytes = numBytes.toNat := by
  rw [firstSize, initialAlloc]
  split
  · omega
  · omega

/-- A size that does not grow is all that was asked for, or its product was reduced. -/
theorem nextSize_cases {size : Nat} (hcapped : size ≤ numBytes.toNat)
    (hsize : 2 ≤ size ∨ size = numBytes.toNat) (hnext : nextSize size numBytes ≤ size) :
    (size = numBytes.toNat ∧ numBytes.toNat * 3 < 2 ^ 64 ∧ nextSize size numBytes = size) ∨
      (2 ^ 64 ≤ numBytes.toNat * 3 ∧ nextSize size numBytes < size) := by
  have hbytes := numBytes.toNat_lt
  rw [nextSize] at hnext ⊢
  by_cases hwrap : size * 3 < 2 ^ 64
  · rw [Nat.mod_eq_of_lt hwrap] at hnext ⊢
    omega
  · refine .inr ⟨by omega, ?_⟩
    have hquotient : 1 ≤ size * 3 / 2 ^ 64 :=
      (Nat.le_div_iff_mul_le (by decide)).mpr (by omega)
    have hreduced : size * 3 % 2 ^ 64 / 2 < size := by omega
    omega

theorem Growing.start (results : Nat → Outcome) (stSize : Int64) :
    Growing file numBytes results
      ⟨0, resize [] (firstSize stSize numBytes), { results := results }⟩ := by
  have hle : firstSize stSize numBytes ≤ numBytes.toNat := firstSize_le stSize
  have hcases : 2 ≤ firstSize stSize numBytes ∨ firstSize stSize numBytes = numBytes.toNat :=
    firstSize_cases stSize
  refine ⟨rfl, rfl, Nat.zero_le _, fun _ => rfl, ?_, ?_, ?_⟩
  · rw [length_resize]
    exact hle
  · intro _
    rw [length_resize]
    exact hcases
  · intro hempty
    rw [length_resize] at hempty
    have hzero : firstSize stSize numBytes = 0 := Nat.eq_zero_of_le_zero hempty
    have hnone : numBytes.toNat = 0 := by omega
    refine ⟨?_, ?_⟩
    · intro _
      rw [hzero, hnone, List.take_zero]
      rfl
    · intro hother
      exact absurd ⟨by omega, by omega⟩ hother

theorem exit_of_nextSize {out : Bytes} (hinside : out.length ≤ file.length)
    (hcontents : out = file.take out.length) (hcapped : out.length ≤ numBytes.toNat)
    (hsize : 2 ≤ out.length ∨ out.length = numBytes.toNat)
    (hnext : nextSize out.length numBytes ≤ out.length) :
    Exit file numBytes (resize out (nextSize out.length numBytes)) := by
  cases nextSize_cases hcapped hsize hnext with
  | inl hall =>
      obtain ⟨hlength, hwrap, hsame⟩ := hall
      have hout : resize out (nextSize out.length numBytes) = out := by
        rw [hsame, resize_of_le (Nat.le_refl _), Nat.sub_self, List.replicate_zero,
          List.append_nil]
      rw [hout]
      refine ⟨?_, ?_⟩
      · intro _
        rw [← hlength]
        exact hcontents
      · intro hother
        exact absurd ⟨hlength ▸ hinside, hwrap⟩ hother
  | inr hreduced =>
      obtain ⟨hwrap, hless⟩ := hreduced
      refine ⟨?_, ?_⟩
      · intro hfits
        exact absurd hfits.2 (Nat.not_lt.mpr hwrap)
      · intro _
        rw [length_resize]
        omega

variable {results : Nat → Outcome} {s : ReadState}

/-- The container has been filled, and gets its next size. -/
theorem growing_resize {out : Bytes} {device : Device} (hresults : device.results = results)
    (hposition : device.position = out.length) (hinside : out.length ≤ file.length)
    (hcontents : out = file.take out.length) (hcapped : out.length ≤ numBytes.toNat)
    (hsize : 2 ≤ out.length ∨ out.length = numBytes.toNat) :
    Growing file numBytes results
      ⟨out.length, resize out (nextSize out.length numBytes), device⟩ := by
  have hle : nextSize out.length numBytes ≤ numBytes.toNat := Nat.min_le_right _ _
  refine ⟨hresults, hposition, hinside, ?_, ?_, ?_, ?_⟩
  · simp only [length_resize]
    intro hgrown
    rw [resize_of_le (Nat.le_of_lt hgrown), List.take_left]
    exact hcontents
  · rw [length_resize]
    exact hle
  · simp only [length_resize]
    intro hgrown
    omega
  · simp only [length_resize]
    exact exit_of_nextSize hinside hcontents hcapped hsize

theorem Growing.resume (alloc : Nat → Bool) (h : Growing file numBytes results s)
    (hgo : s.soFar < s.out.length) {actual : Int} {device : Device}
    (hfilled : Filled file s.device s.soFar s.soFar (s.out.length - s.soFar) actual device) :
    (∃ out, s.resume file numBytes alloc actual device = .ok (.inr (true, out)) ∧
      Exit file numBytes out) ∨
    ∃ n s', s.resume file numBytes alloc actual device =
        (if alloc n then .ok (.inl s') else .error .aborted) ∧
      Growing file numBytes results s' ∧ s'.soFar = s.out.length := by
  obtain ⟨hreturned, hposition, hresults, hmoved⟩ := hfilled
  obtain ⟨n, hn⟩ : ∃ n, min (s.out.length - s.soFar) (file.length - s.soFar) = n := ⟨_, rfl⟩
  rw [hn] at hreturned hposition hmoved
  have hinside := h.inside
  have hcapped := h.capped
  obtain ⟨out, hout⟩ : ∃ out, deposit file s.out (device.moved.drop s.device.moved.length) = out :=
    ⟨_, rfl⟩
  obtain ⟨hlength, hcontents⟩ : out.length = s.out.length ∧
      out.take (s.soFar + n) = file.take (s.soFar + n) := by
    rw [← hout, hmoved, List.drop_left]
    exact deposit_slots (h.contents hgo) (by omega) (by omega)
  simp only [ReadState.resume, hout, hreturned, Int.toNat_natCast,
    if_neg (show ¬ (n : Int) = -1 by omega)]
  by_cases hend : s.soFar + n < out.length
  · -- the file ends inside the container, which is longer than the file
    rw [if_pos hend]
    refine .inl ⟨out, rfl, ?_, ?_⟩
    · intro hfits
      have hle := hfits.1
      omega
    · intro _
      omega
  · rw [if_neg hend]
    have hfull : s.soFar + n = out.length := by omega
    rw [hfull] at hcontents hposition
    rw [List.take_length] at hcontents
    have hinside' : out.length ≤ file.length := by omega
    have hsize : 2 ≤ out.length ∨ out.length = numBytes.toNat := hlength ▸ h.size hgo
    rw [← hlength] at hcapped
    refine .inr ⟨nextSize out.length numBytes, _, ?_,
      growing_resize (hresults.trans h.results) hposition hinside' hcontents hcapped hsize, hlength⟩
    rw [hfull, resizeTo]
    split
    · rfl
    · rfl

end Growth

section Runs

variable {file : Bytes} {numBytes : UInt64} {alloc : Nat → Bool} {results : Nat → Outcome}
  {s : ReadState}

/-- What a success leaves, whatever the calls did. -/
theorem readLoop_exit (hregular : ∀ k, results k ≠ .zero) {fuel : Nat} {out : Bytes}
    (h : Growing file numBytes results s)
    (hrun : readLoop file numBytes alloc fuel s = some (.ok (true, out))) :
    Exit file numBytes out := by
  induction fuel generalizing s with
  | zero => cases hrun
  | succ fuel ih =>
      rw [readLoop] at hrun
      by_cases hgo : s.soFar < s.out.length
      · rw [if_pos hgo] at hrun
        cases hread : readFull file fuel s.device s.soFar (s.out.length - s.soFar) with
        | none =>
            rw [hread] at hrun
            cases hrun
        | some r =>
            obtain ⟨⟨actual, device⟩, rfl, hcases⟩ := readFull_spec (h.results ▸ hregular)
              (by omega) h.position h.inside hread
            rw [hread] at hrun
            cases hcases with
            | inl hfailed =>
                obtain ⟨rfl, -⟩ := hfailed
                cases hrun
            | inr hfilled =>
                cases h.resume alloc hgo hfilled with
                | inl hdone =>
                    obtain ⟨out', hresume, hexit⟩ := hdone
                    simp only [hresume] at hrun
                    cases hrun
                    exact hexit
                | inr hgrown =>
                    obtain ⟨n, s', hresume, hgrowing, -⟩ := hgrown
                    by_cases hn : alloc n = true
                    · simp only [hresume, if_pos hn] at hrun
                      exact ih hgrowing hrun
                    · simp only [hresume, if_neg hn] at hrun
                      cases hrun
      · rw [if_neg hgo] at hrun
        cases hrun
        exact h.full (Nat.not_lt.mp hgo)

/-- When no call fails and every size can be had, the loop ends with a success. -/
theorem readLoop_returns (hregular : ∀ k, results k ≠ .zero)
    (hsound : ∀ k e, results k ≠ .fails e) (halloc : ∀ n, alloc n = true)
    (h : Growing file numBytes results s) :
    ∃ out enough, ∀ fuel, enough ≤ fuel →
      readLoop file numBytes alloc fuel s = some (.ok (true, out)) := by
  induction hm : (if s.soFar < s.out.length then numBytes.toNat - s.out.length + 1 else 0)
    using Nat.strongRecOn generalizing s with
  | ind m ih =>
      by_cases hgo : s.soFar < s.out.length
      · have hfull : ∃ out : Int × Device,
            Filled file s.device s.soFar s.soFar (s.out.length - s.soFar) out.1 out.2 ∧
              ∃ enough, ∀ fuel, enough ≤ fuel →
                readFull file fuel s.device s.soFar (s.out.length - s.soFar) = some (.ok out) :=
          readFull_returns (h.results ▸ hregular) (h.results ▸ hsound) (by omega) h.position
            h.inside
        obtain ⟨⟨actual, device⟩, hfilled, enough, hread⟩ := hfull
        cases h.resume alloc hgo hfilled with
        | inl hdone =>
            obtain ⟨out, hresume, -⟩ := hdone
            refine ⟨out, enough + 1, ?_⟩
            intro fuel hfuel
            obtain ⟨fuel, rfl⟩ : ∃ k, fuel = k + 1 := ⟨fuel - 1, by omega⟩
            simp only [readLoop, if_pos hgo, hread fuel (by omega), hresume]
        | inr hgrown =>
            obtain ⟨n, s', hresume, hgrowing, hsoFar⟩ := hgrown
            rw [if_pos (halloc n)] at hresume
            -- the container has grown, or the next turn ends the loop
            have hless : (if s'.soFar < s'.out.length then numBytes.toNat - s'.out.length + 1
                else 0) < m := by
              have hcapped := hgrowing.capped
              rw [if_pos hgo] at hm
              split
              · omega
              · omega
            obtain ⟨out, enough', hrest⟩ := ih _ hless hgrowing rfl
            refine ⟨out, max enough enough' + 1, ?_⟩
            intro fuel hfuel
            obtain ⟨fuel, rfl⟩ : ∃ k, fuel = k + 1 := ⟨fuel - 1, by omega⟩
            simp only [readLoop, if_pos hgo, hread fuel (by omega), hresume]
            exact hrest fuel (by omega)
      · refine ⟨s.out, 1, ?_⟩
        intro fuel hfuel
        obtain ⟨fuel, rfl⟩ : ∃ k, fuel = k + 1 := ⟨fuel - 1, by omega⟩
        rw [readLoop, if_neg hgo]

/-- A success gives the first bytes of the file, as many as are asked for or as there are. -/
def ReadsFile (k : Kernel) (fd : Nat) (stSize : Option Int64) (numBytes : UInt64)
    (file : Bytes) : Prop :=
  ∀ results alloc fuel out out', (∀ k, results k ≠ .zero) →
    readFile k ⟨results, stSize, alloc⟩ fuel fd out numBytes = some (.ok (true, out')) →
      out' = file.take numBytes.toNat

variable {k : Kernel} {fd : Nat}

theorem readFile_eq (hfd : k.descriptors fd = some file) (stSize : Int64) (fuel : Nat)
    (out : Bytes) :
    readFile k ⟨results, some stSize, alloc⟩ fuel fd out numBytes =
      if alloc (firstSize stSize numBytes) then
        readLoop file numBytes alloc fuel
          ⟨0, resize [] (firstSize stSize numBytes), { results := results }⟩
      else some (.error .aborted) := by
  have hempty : resize out 0 = [] := by simp [resize]
  simp only [readFile, hfd, hempty, resizeTo]
  split
  · rename_i h
    split at h
    · cases h
    · rename_i hn
      cases h
      rw [if_neg hn]
  · rename_i h
    split at h
    · rename_i hn
      cases h
      rw [if_pos hn]
    · cases h

theorem readsFile_iff (hfd : k.descriptors fd = some file) (stSize : Option Int64)
    (numBytes : UInt64) :
    ReadsFile k fd stSize numBytes file ↔ stSize = none ∨ Fits file numBytes := by
  constructor
  · intro hreads
    cases stSize with
    | none => exact .inl rfl
    | some stSize =>
        refine .inr ?_
        by_contra hother
        -- no call fails, and every size can be had
        have hregular : ∀ k : Nat, (fun _ => Outcome.moves 0) k ≠ .zero := fun _ h => nomatch h
        have halloc : ∀ n : Nat, (fun _ => true) n = true := fun _ => rfl
        have hstart : Growing file numBytes (fun _ => .moves 0) _ := Growing.start _ stSize
        obtain ⟨out, enough, hrun⟩ := readLoop_returns hregular (fun _ _ h => nomatch h) halloc
          hstart
        have hexit := readLoop_exit hregular hstart (hrun enough (Nat.le_refl _))
        have hsame := hreads (fun _ => .moves 0) (fun _ => true) enough [] out hregular
          (by rw [readFile_eq hfd, if_pos rfl]; exact hrun enough (Nat.le_refl _))
        apply hexit.other hother
        rw [hsame, List.length_take, Nat.min_comm]
  · intro hcond results alloc fuel out out' hregular hrun
    cases stSize with
    | none =>
        simp only [readFile, hfd] at hrun
        cases hrun
    | some stSize =>
        have hfits : Fits file numBytes := hcond.resolve_left nofun
        rw [readFile_eq hfd] at hrun
        split at hrun
        · exact (readLoop_exit hregular (Growing.start _ stSize) hrun).fits hfits
        · cases hrun

theorem readFileNamed_closed {name : Bytes} (hname : k.files name = some file)
    (env : Surroundings) (fuel fd : Nat) (out : Bytes) (numBytes : UInt64) :
    readFileNamed k env fuel name fd out numBytes = some (.ok (false, [])) := by
  simp [readFileNamed, Kernel.openNoInt, hname, readFile, Kernel.closeNoInt, resize]

/-- From an open descriptor the file is read just when it has as many bytes as are asked for and
their number is not too large, or not at all; by name it is never read. -/
theorem readFile_iff (hfd : k.descriptors fd = some file) {name : Bytes}
    (hname : k.files name = some file) (stSize : Option Int64) (numBytes : UInt64) :
    (ReadsFile k fd stSize numBytes file ↔ stSize = none ∨ Fits file numBytes) ∧
      ∀ env fuel fd' out,
        readFileNamed k env fuel name fd' out numBytes = some (.ok (false, [])) :=
  ⟨readsFile_iff hfd stSize numBytes,
    fun env fuel fd' out => readFileNamed_closed hname env fuel fd' out numBytes⟩

/-- One file, which is open and has the name. -/
def oneFile (file : Bytes) : Kernel := ⟨fun _ => some file, fun _ => some file⟩

theorem readFile_two : ReadsFile (oneFile [7, 8, 9]) 3 (some 3) 2 [7, 8, 9] := by
  have hname : (oneFile [7, 8, 9]).files [] = some [7, 8, 9] := rfl
  exact (readFile_iff rfl hname (some 3) 2).1.mpr (.inr ⟨by decide, by decide⟩)

/-- A file of one byte, of the size that `fstat` says, is read with a zero behind it. -/
theorem readFile_padded :
    readFile (oneFile [7]) ⟨fun _ => .moves 0, some 1, fun _ => true⟩ 4 3 []
        18446744073709551615 =
        some (.ok (true, [7, 0])) ∧
      readFileNamed (oneFile [7]) ⟨fun _ => .moves 0, some 1, fun _ => true⟩ 4 [] 3 []
        18446744073709551615 = some (.ok (false, [])) := by
  exact ⟨rfl, rfl⟩

end Runs

end FileUtils

end LibMsf
