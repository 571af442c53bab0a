import LibMsf.Base.Utils

/-!
What `strlcpy` and `strlcat` leave in a buffer.

The loop goes on counting when it has stopped writing: the place of the next write is the smaller
one of the count and the last place of the buffer, which is kept for the final zero.
-/

namespace LibMsf

open Cxx

namespace Utils

/-- Where the buffer is `done ++ free`, the loop adds to `done` what there is room for. -/
theorem copyLoop_eq {size : Nat} {text : Bytes} (htext : 0 ∉ text) (junk : Bytes)
    (done free : Bytes) (bytes : Nat) (hsize : (done ++ free).length = size)
    (hdone : done.length = min bytes (size - 1)) :
    copyLoop size (text ++ 0 :: junk) done.length bytes (done ++ free) =
      .ok ((done ++ text.take (size - 1 - bytes)).length, bytes + text.length,
        done ++ text.take (size - 1 - bytes) ++
          free.drop (min text.length (size - 1 - bytes))) := by
  induction text generalizing done free bytes with
  | nil => simp [copyLoop]
  | cons ch text ih =>
      rw [List.mem_cons, not_or] at htext
      obtain ⟨hch, htext⟩ := htext
      rw [List.cons_append, copyLoop, if_neg (Ne.symm hch)]
      by_cases hroom : bytes + 1 < size
      · have hfree : [ch].length ≤ free.length := by
          rw [List.length_append] at hsize
          rw [List.length_singleton]
          omega
        have hsize' : ((done ++ [ch]) ++ free.drop 1).length = size := by
          simp only [List.length_append, List.length_singleton, List.length_drop] at hsize hfree ⊢
          omega
        have hdone' : (done ++ [ch]).length = min (bytes + 1) (size - 1) := by
          rw [List.length_append, List.length_singleton]
          omega
        have hnext := ih htext (done ++ [ch]) (free.drop 1) (bytes + 1) hsize' hdone'
        obtain ⟨room, hroom'⟩ : ∃ room, size - 1 - bytes = room + 1 := ⟨size - 2 - bytes, by omega⟩
        have hroom'' : size - 1 - (bytes + 1) = room := by omega
        rw [List.length_append, List.length_singleton, hroom''] at hnext
        rw [if_pos hroom, writeAt_done hfree, ok_bind, List.length_singleton, hnext, hroom',
          List.take_succ_cons, List.drop_drop]
        simp only [List.append_assoc, List.singleton_append, List.length_cons,
          Nat.add_min_add_right]
        congr 3
        · omega
        · congr 3
          omega
      · have hnext := ih htext done free (bytes + 1) hsize (by omega)
        have hnone : size - 1 - bytes = 0 := by omega
        have hnone' : size - 1 - (bytes + 1) = 0 := by omega
        rw [hnone'] at hnext
        rw [if_neg hroom, hnext, hnone]
        simp only [List.take_zero, List.append_nil, Nat.min_zero, List.drop_zero, List.length_cons]
        congr 3
        omega

theorem strlen_eq {text : Bytes} (htext : 0 ∉ text) (junk : Bytes) :
    strlen (text ++ 0 :: junk) = .ok text.length := by
  induction text with
  | nil => rfl
  | cons ch text ih =>
      rw [List.mem_cons, not_or] at htext
      rw [List.cons_append, strlen, if_neg (Ne.symm htext.1), ih htext.2]
      rfl

theorem seekEnd_eq {old : Bytes} (hold : 0 ∉ old) (rest : Bytes) (size bytes : Nat)
    (hrest : bytes + old.length = size ∧ rest = [] ∨
      bytes + old.length < size ∧ rest.head? = some 0) :
    seekEnd size (old ++ rest) bytes = .ok (bytes + old.length) := by
  induction old generalizing bytes with
  | nil =>
      cases rest with
      | nil =>
          obtain ⟨heq, -⟩ := hrest.resolve_right (fun h => by cases h.2)
          rw [List.append_nil, seekEnd, if_neg (by rw [List.length_nil] at heq; omega)]
          rfl
      | cons ch rest =>
          obtain ⟨-, hhead⟩ := hrest.resolve_left (fun h => by cases h.2)
          cases hhead
          rw [List.nil_append, seekEnd, if_neg (fun h => h.2 rfl)]
          rfl
  | cons ch old ih =>
      rw [List.mem_cons, not_or] at hold
      rw [List.length_cons] at hrest ⊢
      have hlt : bytes < size := by omega
      rw [List.cons_append, seekEnd, if_pos ⟨hlt, Ne.symm hold.1⟩,
        ih hold.2 (bytes + 1) (by simpa only [Nat.add_assoc, Nat.add_comm 1] using hrest)]
      congr 1
      omega

theorem writeAt_final {done free : Bytes} (h : free ≠ []) :
    writeAt (done ++ free) done.length [0] = .ok (done ++ 0 :: free.drop 1) := by
  have hfree : [(0 : UInt8)].length ≤ free.length := List.length_pos_iff.mpr h
  rw [writeAt_done hfree, List.length_singleton, List.append_assoc, List.singleton_append]

theorem strlcpy_eq {text : Bytes} (htext : 0 ∉ text) (junk : Bytes) {dst : Bytes}
    (hpos : dst ≠ []) :
    strlcpy dst (text ++ 0 :: junk) dst.length =
      .ok (text.take (dst.length - 1) ++ 0 :: dst.drop (min text.length (dst.length - 1) + 1),
        text.length) := by
  have hlength := List.length_pos_iff.mpr hpos
  have hloop := copyLoop_eq htext junk [] dst 0 rfl (by simp)
  have hfree : dst.drop (min text.length (dst.length - 1)) ≠ [] := by
    rw [ne_eq, List.drop_eq_nil_iff]
    omega
  simp only [List.nil_append, List.length_nil, Nat.sub_zero, Nat.zero_add] at hloop
  simp only [strlcpy, hloop, ok_bind, if_pos (show dst.length ≠ 0 by omega), writeAt_final hfree,
    pure_eq_ok, List.drop_drop]

theorem strlcat_eq {text : Bytes} (htext : 0 ∉ text) (junk : Bytes) {old : Bytes} (hold : 0 ∉ old)
    (rest : Bytes) {size : Nat} (hsize : (old ++ 0 :: rest).length = size) :
    strlcat (old ++ 0 :: rest) (text ++ 0 :: junk) size =
      .ok ((old ++ text).take (size - 1) ++
          0 :: (old ++ 0 :: rest).drop (min (old.length + text.length) (size - 1) + 1),
        old.length + text.length) := by
  have hlt : old.length < size := by
    rw [← hsize, List.length_append, List.length_cons]
    omega
  have hseek := seekEnd_eq hold (0 :: rest) size 0
    (.inr ⟨by rw [Nat.zero_add]; exact hlt, rfl⟩)
  rw [Nat.zero_add] at hseek
  have hloop := copyLoop_eq htext junk old (0 :: rest) old.length hsize (by omega)
  have hfree : (0 :: rest).drop (min text.length (size - 1 - old.length)) ≠ [] := by
    rw [ne_eq, List.drop_eq_nil_iff, List.length_cons]
    rw [List.length_append, List.length_cons] at hsize
    omega
  rw [strlcat, hseek, ok_bind, if_neg (by omega), hloop, ok_bind]
  simp only [writeAt_final hfree, ok_bind, pure_eq_ok, List.drop_drop]
  have htake : (old ++ text).take (size - 1) = old ++ text.take (size - 1 - old.length) := by
    rw [List.take_append, List.take_of_length_le (by omega)]
  have hdrop : (old ++ 0 :: rest).drop (min (old.length + text.length) (size - 1) + 1) =
      (0 :: rest).drop (min text.length (size - 1 - old.length) + 1) := by
    have hplace : min (old.length + text.length) (size - 1) + 1 =
        old.length + (min text.length (size - 1 - old.length) + 1) := by
      omega
    rw [hplace, List.drop_length_add_append]
  rw [htake, hdrop]

theorem strlcat_full {text : Bytes} (htext : 0 ∉ text) (junk : Bytes) {dst : Bytes}
    (hdst : 0 ∉ dst) :
    strlcat dst (text ++ 0 :: junk) dst.length = .ok (dst, dst.length + text.length) := by
  have hseek := seekEnd_eq hdst [] dst.length 0
    (.inl ⟨Nat.zero_add _, rfl⟩)
  rw [List.append_nil, Nat.zero_add] at hseek
  rw [strlcat, hseek, ok_bind, if_pos rfl, strlen_eq htext, ok_bind, pure_eq_ok]

/-- Both functions write inside the buffer only, whatever its size. `strlcpy` leaves as much of the
source as fits, a zero and the rest of the buffer as it was; `strlcat` does so behind the string
that is there, and does nothing when there is none. What they return counts all of both. -/
theorem bounded_copies (size : Nat) (dst text junk : Bytes) (hdst : dst.length = size)
    (htext : 0 ∉ text) :
    (size = 0 → strlcpy dst (text ++ 0 :: junk) size = .ok (dst, text.length)) ∧
      (0 < size → strlcpy dst (text ++ 0 :: junk) size =
        .ok (text.take (size - 1) ++ 0 :: dst.drop (min text.length (size - 1) + 1),
          text.length)) ∧
      (∀ old rest, dst = old ++ 0 :: rest → 0 ∉ old →
        strlcat dst (text ++ 0 :: junk) size =
          .ok ((old ++ text).take (size - 1) ++
              0 :: dst.drop (min (old.length + text.length) (size - 1) + 1),
            old.length + text.length)) ∧
      (0 ∉ dst → strlcat dst (text ++ 0 :: junk) size = .ok (dst, size + text.length)) := by
  subst hdst
  refine ⟨?_, ?_, ?_, strlcat_full htext junk⟩
  · intro hzero
    have hloop := copyLoop_eq htext junk [] dst 0 rfl (by simp)
    simp only [List.nil_append, List.length_nil, hzero, Nat.zero_sub, Nat.zero_add,
      List.take_zero, Nat.min_zero, List.drop_zero] at hloop
    simp only [hzero, strlcpy, hloop, ok_bind, ne_eq, not_true_eq_false, if_false, pure_eq_ok]
  · exact fun hpos => strlcpy_eq htext junk (List.length_pos_iff.mp hpos)
  · rintro old rest rfl hold
    exact strlcat_eq htext junk hold rest rfl

/-- A buffer of four bytes with one character in it, and a source of three. -/
theorem bounded_copies_four :
    strlcpy [120, 0, 1, 2] [97, 98, 99, 0, 7] 4 = .ok ([97, 98, 99, 0], 3) ∧
      strlcat [120, 0, 1, 2] [97, 98, 99, 0, 7] 4 = .ok ([120, 97, 98, 0], 4) := by
  have h := bounded_copies 4 [120, 0, 1, 2] [97, 98, 99] [7] rfl (by decide)
  exact ⟨h.2.1 (by decide), h.2.2.1 [120] [1, 2] rfl (by decide)⟩

end Utils

end LibMsf
