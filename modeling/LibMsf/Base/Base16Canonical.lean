import LibMsf.Base.Base32RoundTrip

/-!
Base16 text and the bytes it stands for.

The table of the decoder has 0xFF for a character that is no digit, and the decoder does not look
for it: the bits of such an entry come out as the digit F. So a text is the one that its bytes are
encoded to just when it consists of digits, or is turned down for another reason.
-/

namespace LibMsf

open Cxx

namespace Encoding

section Digits

/-- The hexadecimal digits, in either case. -/
def IsHex (c : UInt8) : Prop :=
  ('0'.toUInt8 ≤ c ∧ c ≤ '9'.toUInt8) ∨ ('A'.toUInt8 ≤ c ∧ c ≤ 'F'.toUInt8) ∨
    ('a'.toUInt8 ≤ c ∧ c ≤ 'f'.toUInt8)

instance (c : UInt8) : Decidable (IsHex c) :=
  inferInstanceAs (Decidable (_ ∨ _))

def digitOf (v : UInt8) : UInt8 :=
  base16.getD v.toNat 0

def valueOf (c : UInt8) : UInt8 :=
  base16Values.getD c.toNat 0

theorem lookup_base16 {v : UInt8} (h : v < 16) : lookup base16 v = .ok (digitOf v) := by
  have htable : ∀ k < 16, base16[k]? = some (base16.getD k 0) := by decide
  simp only [lookup, htable v.toNat (UInt8.lt_iff_toNat_lt.mp h), digitOf]

theorem lookup_base16Values {c : UInt8} (h : c < 0x80) :
    lookup base16Values c = .ok (valueOf c) := by
  have htable : ∀ k < 128, base16Values[k]? = some (base16Values.getD k 0) := by decide +kernel
  simp only [lookup, htable c.toNat (UInt8.lt_iff_toNat_lt.mp h), valueOf]

/-- A digit has a value that is spelled by its upper-case form. -/
theorem valueOf_hex {c : UInt8} (h : IsHex c) :
    valueOf c < 16 ∧ digitOf (valueOf c) = toupper c :=
  Bits.byte_of_table (P := fun c => IsHex c → valueOf c < 16 ∧ digitOf (valueOf c) = toupper c)
    (by decide +kernel) c c.toNat_lt h

theorem valueOf_other {c : UInt8} (hascii : c < 0x80) (h : ¬IsHex c) :
    valueOf c = 0xFF ∧ toupper c ≠ digitOf 0x0F :=
  Bits.byte_of_table (P := fun c => ¬IsHex c → valueOf c = 0xFF ∧ toupper c ≠ digitOf 0x0F)
    (by decide +kernel) c (UInt8.lt_iff_toNat_lt.mp hascii) h

theorem digitOf_spec {v : UInt8} (h : v < 16) : digitOf v < 0x80 ∧ valueOf (digitOf v) = v :=
  Bits.byte_of_table (P := fun v => digitOf v < 0x80 ∧ valueOf (digitOf v) = v) (by decide +kernel)
    v (UInt8.lt_iff_toNat_lt.mp h)

def hiOf (ch : UInt8) : UInt8 :=
  (ch &&& 0xF0) >>> 4

def loOf (ch : UInt8) : UInt8 :=
  (ch &&& 0x0F) >>> 0

theorem halves_spec (ch : UInt8) :
    hiOf ch < 16 ∧ loOf ch < 16 ∧ hiOf ch <<< 4 ||| loOf ch = ch :=
  Bits.byte_of_table (P := fun ch => hiOf ch < 16 ∧ loOf ch < 16 ∧ hiOf ch <<< 4 ||| loOf ch = ch)
    (by decide +kernel) ch ch.toNat_lt

theorem halves_join {a b : UInt8} (ha : a < 16) (hb : b < 16) :
    hiOf (a <<< 4 ||| b) = a ∧ loOf (a <<< 4 ||| b) = b := by
  have htable : ∀ k < 16, ∀ l < 16,
      hiOf (UInt8.ofNat k <<< 4 ||| UInt8.ofNat l) = UInt8.ofNat k ∧
        loOf (UInt8.ofNat k <<< 4 ||| UInt8.ofNat l) = UInt8.ofNat l := by
    decide +kernel
  simpa only [UInt8.ofNat_toNat] using
    htable a.toNat (UInt8.lt_iff_toNat_lt.mp ha) b.toNat (UInt8.lt_iff_toNat_lt.mp hb)

/-- The entry of a character that is no digit fills its half, and the other one from below. -/
theorem halves_filled (v : UInt8) :
    loOf (v <<< 4 ||| 0xFF) = 0x0F ∧ hiOf ((0xFF : UInt8) <<< 4 ||| v) = 0x0F :=
  Bits.byte_of_table
    (P := fun v => loOf (v <<< 4 ||| 0xFF) = 0x0F ∧ hiOf ((0xFF : UInt8) <<< 4 ||| v) = 0x0F)
    (by decide +kernel) v v.toNat_lt

end Digits

section Encode

/-- The two digits of a byte. -/
def digitsOf (ch : UInt8) : Bytes :=
  [digitOf (hiOf ch), digitOf (loOf ch)]

theorem base16EncodeLoop_eq (str done : Bytes) :
    base16EncodeLoop str done.length (done ++ List.replicate (str.length * 2) 0) =
      .ok (done ++ str.flatMap digitsOf) := by
  induction str generalizing done with
  | nil => simp [base16EncodeLoop]
  | cons ch str ih =>
      obtain ⟨hhi, hlo, -⟩ := halves_spec ch
      have hwrite : writeAt (done ++ List.replicate ((ch :: str).length * 2) 0) done.length
          (digitsOf ch) = .ok (done ++ digitsOf ch ++ List.replicate (str.length * 2) 0) := by
        rw [writeAt_done (by simp [digitsOf]), List.drop_replicate, List.length_cons, Nat.add_mul]
        simp [digitsOf]
      have hnext := ih (done ++ digitsOf ch)
      rw [List.length_append] at hnext
      simp only [base16EncodeLoop]
      rw [← hiOf, lookup_base16 hhi, ok_bind, ← loOf, lookup_base16 hlo, ok_bind, ← digitsOf,
        hwrite, ok_bind, List.flatMap_cons, ← List.append_assoc]
      exact hnext

theorem base16Encode_eq (str : Bytes) : base16Encode str = .ok (str.flatMap digitsOf) :=
  base16EncodeLoop_eq str []

end Encode

section Decode

variable {ndebug : Bool}

/-- What the decoder makes of the characters, two by two. -/
def packed : Bytes → Bytes
  | c1 :: c2 :: str => (valueOf c1 <<< 4 ||| valueOf c2) :: packed str
  | _ => []

theorem base16DecodeLoop_eq {str : Bytes} (hascii : ∀ c ∈ str, c < 0x80) (done : Bytes) :
    base16DecodeLoop ndebug str done.length (done ++ List.replicate (str.length / 2) 0) =
      .ok (done ++ packed str) := by
  induction str using packed.induct generalizing done with
  | case1 c1 c2 str ih =>
      simp only [List.forall_mem_cons] at hascii
      obtain ⟨h1, h2, hrest⟩ := hascii
      have hhalf : (c1 :: c2 :: str).length / 2 = str.length / 2 + 1 := by
        simp only [List.length_cons]
        omega
      have hkept : ¬(c1 ≥ 0x80 ∨ c2 ≥ 0x80) := by
        rw [not_or]
        exact ⟨UInt8.not_le.mpr h1, UInt8.not_le.mpr h2⟩
      have hnext := ih hrest (done ++ [valueOf c1 <<< 4 ||| valueOf c2])
      rw [List.length_append, List.length_singleton] at hnext
      rw [hhalf, base16DecodeLoop, check_of ndebug ⟨h1, h2⟩, ok_bind, if_neg hkept,
        lookup_base16Values h1, ok_bind, lookup_base16Values h2, ok_bind, writeAt_done (by simp),
        ok_bind, List.length_singleton, List.drop_replicate, Nat.add_sub_cancel, hnext, packed,
        List.append_assoc, List.singleton_append]
  | case2 str hshort =>
      match str, hshort with
      | [], _ => simp [base16DecodeLoop, packed]
      | [c], _ => simp [base16DecodeLoop, packed]
      | c1 :: c2 :: str, hshort => exact (hshort c1 c2 str rfl).elim

/-- A character that is not ASCII ends the loop with the empty string, without asserts. -/
theorem base16DecodeLoop_refused {str : Bytes} (hother : ∃ c ∈ str, 0x80 ≤ c)
    (heven : str.length % 2 = 0) (j : Nat) (result : Bytes)
    (hroom : j + str.length / 2 ≤ result.length) :
    base16DecodeLoop true str j result = .ok [] := by
  induction str using packed.induct generalizing j result with
  | case1 c1 c2 str ih =>
      simp only [List.length_cons] at heven hroom
      rw [base16DecodeLoop, check, if_pos rfl, ok_bind]
      split
      · rfl
      · rename_i hkept
        rw [not_or, UInt8.not_le, UInt8.not_le] at hkept
        have hrest : ∃ c ∈ str, 0x80 ≤ c := by
          obtain ⟨c, hc, hge⟩ := hother
          simp only [List.mem_cons] at hc
          rcases hc with rfl | rfl | hc
          · exact absurd hkept.1 (UInt8.not_lt.mpr hge)
          · exact absurd hkept.2 (UInt8.not_lt.mpr hge)
          · exact ⟨c, hc, hge⟩
        have hfit : j + [valueOf c1 <<< 4 ||| valueOf c2].length ≤ result.length := by
          rw [List.length_singleton]
          omega
        rw [lookup_base16Values hkept.1, ok_bind, lookup_base16Values hkept.2, ok_bind,
          writeAt_of_le hfit, ok_bind]
        refine ih hrest (by omega) (j + 1) _ ?_
        rw [length_overwrite hfit]
        omega
  | case2 str hshort =>
      match str, hshort with
      | [], _ => simp at hother
      | [c], _ => simp at heven
      | c1 :: c2 :: str, hshort => exact (hshort c1 c2 str rfl).elim

theorem base16Decode_eq {str : Bytes} (hascii : ∀ c ∈ str, c < 0x80)
    (heven : str.length % 2 = 0) : base16Decode ndebug str = .ok (packed str) := by
  rw [base16Decode, check_of ndebug heven, ok_bind, if_neg (not_not.mpr heven)]
  exact base16DecodeLoop_eq hascii []

theorem base16Decode_refused {str : Bytes}
    (h : str.length % 2 ≠ 0 ∨ ∃ c ∈ str, 0x80 ≤ c) : base16Decode true str = .ok [] := by
  rw [base16Decode, check, if_pos rfl, ok_bind]
  split
  · rfl
  · rename_i heven
    have heven := not_not.mp heven
    refine base16DecodeLoop_refused (h.resolve_left (not_not.mpr heven)) heven 0 _ ?_
    rw [List.length_replicate, Nat.zero_add]

end Decode

section Canonical

theorem packed_digitsOf (str : Bytes) : packed (str.flatMap digitsOf) = str := by
  induction str with
  | nil => rfl
  | cons ch str ih =>
      obtain ⟨hhi, hlo, hjoin⟩ := halves_spec ch
      rw [List.flatMap_cons, digitsOf, List.cons_append, List.cons_append, List.nil_append,
        packed, (digitOf_spec hhi).2, (digitOf_spec hlo).2, hjoin, ih]

theorem digitsOf_lt (str : Bytes) : ∀ c ∈ str.flatMap digitsOf, c < 0x80 := by
  intro c hc
  obtain ⟨ch, -, hc⟩ := List.mem_flatMap.mp hc
  obtain ⟨hhi, hlo, -⟩ := halves_spec ch
  simp only [digitsOf, List.mem_cons, List.not_mem_nil, or_false] at hc
  cases hc with
  | inl heq => exact heq ▸ (digitOf_spec hhi).1
  | inr heq => exact heq ▸ (digitOf_spec hlo).1

theorem length_digitsOf (str : Bytes) : (str.flatMap digitsOf).length = str.length * 2 := by
  simp [List.length_flatMap, digitsOf]

/-- Two characters are the digits of the byte that is made of them just when they are digits. -/
theorem digitsOf_pair {c1 c2 : UInt8} (h1 : c1 < 0x80) (h2 : c2 < 0x80) :
    digitsOf (valueOf c1 <<< 4 ||| valueOf c2) = [toupper c1, toupper c2] ↔
      IsHex c1 ∧ IsHex c2 := by
  simp only [digitsOf, List.cons.injEq, and_true]
  constructor
  · rintro ⟨hhi, hlo⟩
    have hsecond : IsHex c2 := by
      by_contra hother
      obtain ⟨hvalue, hne⟩ := valueOf_other h2 hother
      rw [hvalue, (halves_filled _).1] at hlo
      exact hne hlo.symm
    refine ⟨?_, hsecond⟩
    by_contra hother
    obtain ⟨hvalue, hne⟩ := valueOf_other h1 hother
    rw [hvalue, (halves_filled _).2] at hhi
    exact hne hhi.symm
  · rintro ⟨hhex1, hhex2⟩
    obtain ⟨hlt1, hdigit1⟩ := valueOf_hex hhex1
    obtain ⟨hlt2, hdigit2⟩ := valueOf_hex hhex2
    obtain ⟨hhi, hlo⟩ := halves_join hlt1 hlt2
    rw [hhi, hlo]
    exact ⟨hdigit1, hdigit2⟩

theorem digitsOf_packed {str : Bytes} (hascii : ∀ c ∈ str, c < 0x80)
    (heven : str.length % 2 = 0) :
    (packed str).flatMap digitsOf = str.map toupper ↔ ∀ c ∈ str, IsHex c := by
  induction str using packed.induct with
  | case1 c1 c2 str ih =>
      simp only [List.forall_mem_cons] at hascii
      obtain ⟨h1, h2, hrest⟩ := hascii
      simp only [List.length_cons] at heven
      have hsplit : (packed (c1 :: c2 :: str)).flatMap digitsOf = (c1 :: c2 :: str).map toupper ↔
          digitsOf (valueOf c1 <<< 4 ||| valueOf c2) = [toupper c1, toupper c2] ∧
            (packed str).flatMap digitsOf = str.map toupper := by
        simp [packed, digitsOf, and_assoc]
      rw [hsplit, digitsOf_pair h1 h2, ih hrest (by omega), List.forall_mem_cons,
        List.forall_mem_cons, and_assoc]
  | case2 str hshort =>
      match str, hshort with
      | [], _ => simp [packed]
      | [c], _ => simp at heven
      | c1 :: c2 :: str, hshort => exact (hshort c1 c2 str rfl).elim

/-- A text is turned down, or is what its bytes are encoded to but for the case of letters. -/
def Canonical (t : Bytes) : Prop :=
  ∃ s, base16Decode true t = .ok s ∧ (s = [] ∨ base16Encode s = .ok (t.map toupper))

/-- Bytes are encoded to a text that decodes to them. A text is canonical just when its length is
odd, it has a character that is not ASCII, or it has digits only. -/
theorem base16_canonical_iff (s t : Bytes) :
    (∃ text, base16Encode s = .ok text ∧ ∀ ndebug, base16Decode ndebug text = .ok s) ∧
      (Canonical t ↔ t.length % 2 ≠ 0 ∨ (∃ c ∈ t, 0x80 ≤ c) ∨ ∀ c ∈ t, IsHex c) := by
  refine ⟨?_, ?_⟩
  · refine ⟨_, base16Encode_eq s, ?_⟩
    intro ndebug
    rw [base16Decode_eq (digitsOf_lt s) (by rw [length_digitsOf]; omega), packed_digitsOf]
  · by_cases hrefused : t.length % 2 ≠ 0 ∨ ∃ c ∈ t, 0x80 ≤ c
    · have hcanonical : Canonical t := ⟨[], base16Decode_refused hrefused, .inl rfl⟩
      exact iff_of_true hcanonical (or_assoc.mp (.inl hrefused))
    · have hnot := not_or.mp hrefused
      have heven : t.length % 2 = 0 := not_not.mp hnot.1
      have hascii : ∀ c ∈ t, c < 0x80 :=
        fun c hc => UInt8.not_le.mp (fun hge => hnot.2 ⟨c, hc, hge⟩)
      have hright : (t.length % 2 ≠ 0 ∨ (∃ c ∈ t, 0x80 ≤ c) ∨ ∀ c ∈ t, IsHex c) ↔
          ∀ c ∈ t, IsHex c := by
        rw [← or_assoc, or_iff_right hrefused]
      have hleft : Canonical t ↔
          packed t = [] ∨ (packed t).flatMap digitsOf = t.map toupper := by
        simp only [Canonical, base16Decode_eq hascii heven, Except.ok.injEq, exists_eq_left',
          base16Encode_eq]
      rw [hright, hleft, digitsOf_packed hascii heven]
      refine or_iff_right_of_imp ?_
      intro hempty
      -- Only the empty text of even length gives no bytes.
      match t, heven, hempty with
      | [], _, _ => simp
      | [c], heven, _ => simp at heven
      | c1 :: c2 :: t, _, hempty => cases hempty

/-- Two characters that are no digits are taken for the digits of 0xFF. -/
theorem letters_taken_for_digits :
    base16Decode true (['z', 'z'].map Char.toUInt8) = .ok [0xFF] ∧
      base16Encode [0xFF] = .ok (['F', 'F'].map Char.toUInt8) ∧
      ¬Canonical (['z', 'z'].map Char.toUInt8) := by
  refine ⟨by decide +kernel, by decide +kernel, ?_⟩
  rintro ⟨s, hdecode, hcases⟩
  have heq : s = [0xFF] := by
    have hvalue : base16Decode true (['z', 'z'].map Char.toUInt8) = .ok [0xFF] := by
      decide +kernel
    exact Except.ok.inj (hdecode.symm.trans hvalue)
  subst heq
  exact absurd hcases (by decide +kernel)

end Canonical

end Encoding

end LibMsf
