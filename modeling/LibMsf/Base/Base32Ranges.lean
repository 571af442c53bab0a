import LibMsf.Base.Base32RoundTrip

/-!
The writes of the Base32 decoder.

The result has room for five bytes of every block and loses those that padding stands for, block
after block, while the place of the next write goes on by five. So padding in front of the last
block takes room away that later blocks still need.
-/

namespace LibMsf

open Cxx

namespace Encoding

/-- What the table has for a character; one that it does not have counts as no character. -/
def groupOf (c : UInt8) : UInt8 :=
  base32Values.getD c.toNat 0xFF

def groupsOf (c1 c2 c3 c4 c5 c6 c7 c8 : UInt8) : Groups :=
  ⟨groupOf c1, groupOf c2, groupOf c3, groupOf c4, groupOf c5, groupOf c6, groupOf c7, groupOf c8⟩

/-- The groups that the decoder goes on with. -/
def Accepted (n : Groups) : Prop :=
  (n.n1 ≤ 31 ∧ n.n2 ≤ 31) ∧
    n.n3 ≤ 32 ∧ n.n4 ≤ 32 ∧ n.n5 ≤ 32 ∧ n.n6 ≤ 32 ∧ n.n7 ≤ 32 ∧ n.n8 ≤ 32

instance (n : Groups) : Decidable (Accepted n) :=
  inferInstanceAs (Decidable (_ ∧ _))

/-- The bytes that the padding of a block stands for. -/
def padding (n : Groups) : Nat :=
  if n.n8 = 32 then
    if n.n6 = 32 then
      if n.n5 = 32 then
        if n.n3 = 32 then 4 else 3
      else 2
    else 1
  else 0

/-- The padding of each block, up to the first block that is not accepted. -/
def paddings : Bytes → List Nat
  | c1 :: c2 :: c3 :: c4 :: c5 :: c6 :: c7 :: c8 :: str =>
      if Accepted (groupsOf c1 c2 c3 c4 c5 c6 c7 c8) then
        padding (groupsOf c1 c2 c3 c4 c5 c6 c7 c8) :: paddings str
      else []
  | _ => []

theorem lookup_groupOf {c : UInt8} (h : c < 0x80) : lookup base32Values c = .ok (groupOf c) := by
  have htable : ∀ k < 128, base32Values[k]? = some (base32Values.getD k 0xFF) := by
    decide +kernel
  simp only [lookup, htable c.toNat (UInt8.lt_iff_toNat_lt.mp h), groupOf]

theorem groupOf_other {c : UInt8} (h : 0x80 ≤ c) : groupOf c = 0xFF := by
  have hlength : base32Values.length = 128 := by decide +kernel
  have hle : base32Values.length ≤ c.toNat := hlength ▸ UInt8.le_iff_toNat_le.mp h
  rw [groupOf, List.getD_eq_getElem?_getD, List.getElem?_eq_none hle, Option.getD_none]

theorem shrink_of_pos {result : Bytes} (h : 0 < result.length) :
    shrink result = .ok result.dropLast ∧ result.dropLast.length = result.length - 1 :=
  ⟨if_neg (by omega), List.length_dropLast⟩

theorem dropPadding_length {result : Bytes} (n : Groups) (h : 4 ≤ result.length) :
    ∃ result', dropPadding true n result = .ok result' ∧
      result'.length + padding n = result.length := by
  obtain ⟨h1, l1⟩ := shrink_of_pos (show 0 < result.length by omega)
  obtain ⟨h2, l2⟩ := shrink_of_pos (show 0 < result.dropLast.length by omega)
  obtain ⟨h3, l3⟩ := shrink_of_pos (show 0 < result.dropLast.dropLast.length by omega)
  obtain ⟨h4, l4⟩ := shrink_of_pos (show 0 < result.dropLast.dropLast.dropLast.length by omega)
  simp only [dropPadding, padding, h1, h2, h3, ok_bind, check, if_true]
  split
  · split
    · split
      · split
        · exact ⟨_, h4, by omega⟩
        · exact ⟨_, rfl, by omega⟩
      · exact ⟨_, rfl, by omega⟩
    · exact ⟨_, rfl, by omega⟩
  · exact ⟨_, rfl, by omega⟩

section Loop

variable {c1 c2 c3 c4 c5 c6 c7 c8 : UInt8}

theorem ascii_of_accepted (h : Accepted (groupsOf c1 c2 c3 c4 c5 c6 c7 c8)) :
    ∀ c ∈ [c1, c2, c3, c4, c5, c6, c7, c8], c < 0x80 := by
  have hascii : ∀ c, groupOf c ≤ 32 → c < 0x80 := by
    intro c hle
    by_contra hge
    rw [groupOf_other (UInt8.not_lt.mp hge)] at hle
    exact absurd hle (by decide)
  have hgroup : ∀ c, groupOf c ≤ 31 → c < 0x80 :=
    fun c hle => hascii c (UInt8.le_trans hle (by decide))
  obtain ⟨⟨h1, h2⟩, h3, h4, h5, h6, h7, h8⟩ := h
  simp only [List.forall_mem_cons, List.not_mem_nil, false_implies, implies_true, and_true]
  exact ⟨hgroup _ h1, hgroup _ h2, hascii _ h3, hascii _ h4, hascii _ h5, hascii _ h6,
    hascii _ h7, hascii _ h8⟩

theorem base32DecodeLoop_block (str : Bytes) (j : Nat) (result : Bytes) :
    base32DecodeLoop true (c1 :: c2 :: c3 :: c4 :: c5 :: c6 :: c7 :: c8 :: str) j result =
      if Accepted (groupsOf c1 c2 c3 c4 c5 c6 c7 c8) then do
        let result ← writeAt result j (gather (groupsOf c1 c2 c3 c4 c5 c6 c7 c8))
        let result ← dropPadding true (groupsOf c1 c2 c3 c4 c5 c6 c7 c8) result
        base32DecodeLoop true str (j + 5) result
      else .ok [] := by
  by_cases hascii : ∀ c ∈ [c1, c2, c3, c4, c5, c6, c7, c8], c < 0x80
  · have hnone : ¬∃ c ∈ [c1, c2, c3, c4, c5, c6, c7, c8], 0x80 ≤ c :=
      fun ⟨c, hc, hge⟩ => UInt8.not_lt.mpr hge (hascii c hc)
    have hlookup := fun c hc => lookup_groupOf (hascii c hc)
    simp only [List.forall_mem_cons, List.not_mem_nil, false_implies, implies_true,
      and_true] at hlookup
    obtain ⟨r1, r2, r3, r4, r5, r6, r7, r8⟩ := hlookup
    simp only [base32DecodeLoop, check, if_true, ok_bind, if_neg hnone, r1, r2, r3, r4, r5, r6, r7,
      r8, gt_iff_lt, ← UInt8.not_le, ← not_and_or, ite_not, pure_eq_ok]
    rw [← ite_and]
    rfl
  · have hsome : ∃ c ∈ [c1, c2, c3, c4, c5, c6, c7, c8], 0x80 ≤ c := by
      simpa only [not_forall, exists_prop, UInt8.not_lt] using hascii
    rw [base32DecodeLoop, check, if_pos rfl, ok_bind, if_pos hsome,
      if_neg (fun h => hascii (ascii_of_accepted h))]
    rfl

end Loop

/-- The loop goes through just when each accepted block finds its five places, with what the
padding before it has taken away. -/
theorem base32DecodeLoop_ok_iff (str : Bytes) (j : Nat) (result : Bytes) :
    (∃ out, base32DecodeLoop true str j result = .ok out) ↔
      ∀ m < (paddings str).length,
        j + 5 * (m + 1) + ((paddings str).take m).sum ≤ result.length := by
  induction str using paddings.induct generalizing j result with
  | case1 c1 c2 c3 c4 c5 c6 c7 c8 str haccepted ih =>
      generalize hn : groupsOf c1 c2 c3 c4 c5 c6 c7 c8 = n at haccepted
      rw [base32DecodeLoop_block, paddings, hn, if_pos haccepted, if_pos haccepted]
      by_cases hroom : j + 5 ≤ result.length
      · have hroom' : j + (gather n).length ≤ result.length := hroom
        have hlength := length_overwrite hroom'
        obtain ⟨result', hdrop, hresult'⟩ :=
          dropPadding_length n (show 4 ≤ (overwrite result j (gather n)).length by omega)
        rw [writeAt_of_le hroom', ok_bind, hdrop, ok_bind, ih, List.length_cons]
        constructor
        · intro hrest m hm
          cases m with
          | zero => simpa using hroom
          | succ m =>
              have hnext := hrest m (by omega)
              rw [List.take_succ_cons, List.sum_cons]
              omega
        · intro hall m hm
          have hnext := hall (m + 1) (by omega)
          rw [List.take_succ_cons, List.sum_cons] at hnext
          omega
      · rw [writeAt, length_gather, if_neg hroom, error_bind]
        refine iff_of_false ?_ ?_
        · rintro ⟨out, hout⟩
          cases hout
        · intro hall
          have hfirst := hall 0 (by simp)
          rw [List.take_zero, List.sum_nil] at hfirst
          omega
  | case2 c1 c2 c3 c4 c5 c6 c7 c8 str haccepted =>
      rw [base32DecodeLoop_block, if_neg haccepted, paddings, if_neg haccepted]
      simp
  | case3 str hshort =>
      have hloop : base32DecodeLoop true str j result = .ok result := by
        rw [base32DecodeLoop]
        · exact hshort
      have hnone : paddings str = [] := by
        rw [paddings]
        · exact hshort
      simp [hloop, hnone]

theorem length_paddings_le (str : Bytes) : (paddings str).length ≤ str.length / 8 := by
  induction str using paddings.induct with
  | case1 c1 c2 c3 c4 c5 c6 c7 c8 str haccepted ih =>
      rw [paddings, if_pos haccepted]
      simp only [List.length_cons]
      omega
  | case2 c1 c2 c3 c4 c5 c6 c7 c8 str haccepted =>
      rw [paddings, if_neg haccepted]
      exact Nat.zero_le _
  | case3 str hshort =>
      rw [paddings]
      · exact Nat.zero_le _
      · exact hshort

/-- Without asserts, every access of the decoder is in range just when the length of the text is
no multiple of eight, or the padding in front of an accepted block is at most five times the number
of blocks behind it. -/
theorem base32Decode_inRange_iff (str : Bytes) :
    (∃ out, base32Decode true str = .ok out) ↔
      str.length % 8 ≠ 0 ∨ ∀ m < (paddings str).length,
        ((paddings str).take m).sum ≤ 5 * (str.length / 8 - (m + 1)) := by
  rw [base32Decode, check, if_pos rfl, ok_bind]
  by_cases hlength : str.length % 8 ≠ 0
  · rw [if_pos hlength]
    exact iff_of_true ⟨[], rfl⟩ (.inl hlength)
  · rw [if_neg hlength, or_iff_right hlength, base32DecodeLoop_ok_iff, List.length_replicate]
    have hblocks := length_paddings_le str
    refine forall₂_congr (fun m hm => ?_)
    omega

/-- The padding of the first block takes four places, and the second block writes behind the end. -/
theorem padding_in_front_overruns :
    base32Decode true
        (['A', 'A', '=', '=', '=', '=', '=', '=', 'A', 'A', 'A', 'A', 'A', 'A', 'A', 'A'].map
          Char.toUInt8) = .error .outOfBounds := by
  decide +kernel

end Encoding

end LibMsf
