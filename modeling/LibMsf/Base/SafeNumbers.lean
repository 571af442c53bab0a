import LibMsf.Base.Utils

/-!
When the parsing functions of `base/utils.cc` give the number that the string has.

A numeral is converted to 64 bits first, and a negative one modulo 2^64. The unsigned functions
look for a sign only when the result is negative as a signed number, so that a number below -2^63
wraps round to a small one without being noticed; those for 32 bits do not look at the upper half.
-/

namespace LibMsf

open Cxx

namespace Utils

/-- A result of a parsing function: where it returns true, `*out` is the value of the numeral that
the string starts with, and else it is zero. -/
def Sound {ν : Type} (toInt : ν → Int) (str : Bytes) (r : Bool × ν) : Prop :=
  (r.1 = true → ∃ n, numeral str = some n ∧ toInt r.2 = n.value) ∧ (r.1 = false → toInt r.2 = 0)

section Conversions

/-- What `strtoull` makes of a numeral that is in range. -/
def unsignedValue (n : Numeral) : UInt64 :=
  if n.negative then -.ofNat n.magnitude else .ofNat n.magnitude

theorem unsignedValue_toNat {n : Numeral} (h : n.magnitude < 2 ^ 64) :
    ((unsignedValue n).toNat : Int) = n.value % 2 ^ 64 := by
  have hmagnitude : (UInt64.ofNat n.magnitude).toNat = n.magnitude :=
    UInt64.toNat_ofNat_of_lt' h
  cases hnegative : n.negative with
  | true =>
      simp only [unsignedValue, Numeral.value, hnegative, if_true, UInt64.toNat_neg, UInt64.size,
        hmagnitude]
      omega
  | false =>
      simp only [unsignedValue, Numeral.value, hnegative, Bool.false_eq_true, if_false, hmagnitude]
      omega

theorem strtoull_of_lt {str : Bytes} {n : Numeral} (h : numeral str = some n)
    (hrange : n.magnitude < 2 ^ 64) :
    strtoull str = ⟨unsignedValue n, false, some n.rest⟩ := by
  rw [strtoull, h]
  exact if_neg (not_le.mpr hrange)

theorem strtoull_of_ge {str : Bytes} {n : Numeral} (h : numeral str = some n)
    (hrange : 2 ^ 64 ≤ n.magnitude) :
    strtoull str = ⟨.ofNat (2 ^ 64 - 1), true, some n.rest⟩ := by
  rw [strtoull, h]
  exact if_pos hrange

theorem value_bounds {n : Numeral} :
    n.magnitude < 2 ^ 64 ↔ -2 ^ 64 < n.value ∧ n.value < 2 ^ 64 := by
  unfold Numeral.value
  split
  · omega
  · omega

theorem toInt64_neg_iff (u : UInt64) : u.toInt64 < 0 ↔ 2 ^ 63 ≤ u.toNat := by
  have hvalue : u.toInt64.toInt = (u.toNat : Int).bmod (2 ^ 64) := u.toBitVec.toInt_eq_toNat_bmod
  have hlt := u.toNat_lt
  rw [Int64.lt_iff_toInt_lt, hvalue, Int64.toInt_zero, Int.bmod_def]
  split
  · omega
  · omega

theorem ne_zero_of_isSpace {c : UInt8} (h : isSpace c = true) : c ≠ 0 := by
  rintro rfl
  cases h

theorem strchr_of_negative {str : Bytes} {n : Numeral} (h : numeral str = some n)
    (hnegative : n.negative = true) : strchr str '-'.toUInt8 = true := by
  have hminus : ∃ rest, str.dropWhile isSpace = 45 :: rest := by
    rw [numeral] at h
    split at h
    · rename_i rest heq
      exact ⟨rest, heq⟩
    · rw [numeralDigits] at h
      split at h
      · cases h
      · cases h
        cases hnegative
    · rw [numeralDigits] at h
      split at h
      · cases h
      · cases h
        cases hnegative
  obtain ⟨rest, hrest⟩ := hminus
  have hsplit := List.takeWhile_append_dropWhile (p := isSpace) (l := str)
  rw [hrest] at hsplit
  have hspaces : ∀ c ∈ str.takeWhile isSpace, decide (c ≠ 0) = true :=
    fun c hc => decide_eq_true (ne_zero_of_isSpace (List.mem_takeWhile_imp hc))
  rw [strchr, ← hsplit, List.takeWhile_append_of_pos hspaces, List.contains_iff_mem]
  exact List.mem_append_right _ List.mem_cons_self

end Conversions

section Unsigned

variable {str : Bytes} {n : Numeral}

/-- The unsigned functions turn a numeral down that is out of range or followed by other
characters, or negative as far as they look. -/
def Refused (str : Bytes) (n : Numeral) : Prop :=
  2 ^ 64 ≤ n.magnitude ∨ endsNumeral n.rest = false ∨
    (2 ^ 63 ≤ (unsignedValue n).toNat ∧ strchr str '-'.toUInt8 = true)

theorem msfSafeStrtoull_refused (h : numeral str = some n) (hrefused : Refused str n) :
    msfSafeStrtoull str = (false, 0) ∧ msfSafeStrtoul str = (false, 0) := by
  by_cases hrange : 2 ^ 64 ≤ n.magnitude
  · simp only [msfSafeStrtoull, msfSafeStrtoul, strtoul, strtoull_of_ge h hrange, if_true, and_self]
  · simp only [msfSafeStrtoull, msfSafeStrtoul, strtoul, strtoull_of_lt h (not_le.mp hrange),
      Bool.false_eq_true, if_false, toInt64_neg_iff]
    cases hrefused.resolve_left hrange with
    | inl hends => simp only [hends, Bool.false_eq_true, if_false, and_self]
    | inr hminus => simp only [if_pos hminus, ite_self, and_self]

theorem msfSafeStrtoull_accepted (h : numeral str = some n) (haccepted : ¬Refused str n) :
    msfSafeStrtoull str = (true, unsignedValue n) ∧
      msfSafeStrtoul str = (true, (unsignedValue n).toUInt32) := by
  rw [Refused, not_or, not_or] at haccepted
  obtain ⟨hrange, hends, hminus⟩ := haccepted
  rw [Bool.not_eq_false] at hends
  simp only [msfSafeStrtoull, msfSafeStrtoul, strtoul, strtoull_of_lt h (not_le.mp hrange),
    Bool.false_eq_true, if_false, hends, if_true, toInt64_neg_iff, if_neg hminus, and_self]

theorem msfSafeStrtoull_none (h : numeral str = none) :
    msfSafeStrtoull str = (false, 0) ∧ msfSafeStrtoul str = (false, 0) := by
  simp only [msfSafeStrtoull, msfSafeStrtoul, strtoul, strtoull, h, and_self]

theorem sound_refused {ν : Type} {toInt : ν → Int} {zero : ν} (hzero : toInt zero = 0)
    (str : Bytes) : Sound toInt str (false, zero) :=
  ⟨nofun, fun _ => hzero⟩

theorem sound_accepted_iff {ν : Type} {toInt : ν → Int} {out : ν} (h : numeral str = some n) :
    Sound toInt str (true, out) ↔ toInt out = n.value := by
  constructor
  · intro hsound
    obtain ⟨n', hn', hvalue⟩ := hsound.1 rfl
    cases h.symm.trans hn'
    exact hvalue
  · exact fun hvalue => ⟨fun _ => ⟨n, h, hvalue⟩, nofun⟩

theorem lt_of_not_refused (h : ¬Refused str n) : n.magnitude < 2 ^ 64 :=
  not_le.mp fun hrange => h (.inl hrange)

/-- Numbers that are refused for their sign are the negative ones down to -2^63, and large ones
with a minus sign behind them. -/
theorem refused_iff (h : numeral str = some n) :
    Refused str n ↔ n.value ≤ -2 ^ 64 ∨ 2 ^ 64 ≤ n.value ∨ endsNumeral n.rest = false ∨
      (-2 ^ 63 ≤ n.value ∧ n.value < 0) ∨ (2 ^ 63 ≤ n.value ∧ strchr str '-'.toUInt8 = true) := by
  have hbounds := value_bounds (n := n)
  by_cases hrange : 2 ^ 64 ≤ n.magnitude
  · refine iff_of_true (.inl hrange) ?_
    have hnot : ¬(-2 ^ 64 < n.value ∧ n.value < 2 ^ 64) := fun hin =>
      absurd (hbounds.mpr hin) (by omega)
    omega
  · have hin := hbounds.mp (by omega)
    have hvalue := unsignedValue_toNat (show n.magnitude < 2 ^ 64 by omega)
    have hminus : n.value < 0 → strchr str '-'.toUInt8 = true := by
      intro hneg
      apply strchr_of_negative h
      by_contra hpositive
      rw [Numeral.value, if_neg hpositive] at hneg
      omega
    have hlarge : 2 ^ 63 ≤ (unsignedValue n).toNat ↔
        (-2 ^ 63 ≤ n.value ∧ n.value < 0) ∨ 2 ^ 63 ≤ n.value := by
      omega
    rw [Refused, hlarge]
    constructor
    · rintro (hfar | hends | ⟨hneg | hbig, hchr⟩)
      · exact absurd hfar hrange
      · exact .inr (.inr (.inl hends))
      · exact .inr (.inr (.inr (.inl hneg)))
      · exact .inr (.inr (.inr (.inr ⟨hbig, hchr⟩)))
    · rintro (hlow | hhigh | hends | hneg | ⟨hbig, hchr⟩)
      · omega
      · omega
      · exact .inr (.inl hends)
      · exact .inr (.inr ⟨.inl hneg, hminus hneg.2⟩)
      · exact .inr (.inr ⟨.inr hbig, hchr⟩)

theorem msfSafeStrtoull_sound_iff (h : numeral str = some n) :
    Sound (fun out : UInt64 => out.toNat) str (msfSafeStrtoull str) ↔
      (endsNumeral n.rest = true → ¬(-2 ^ 64 < n.value ∧ n.value < -2 ^ 63)) := by
  by_cases hrefused : Refused str n
  · rw [(msfSafeStrtoull_refused h hrefused).1]
    refine iff_of_true (sound_refused rfl str) ?_
    intro hends
    simp only [refused_iff h, hends, Bool.true_eq_false, false_or] at hrefused
    omega
  · have hvalue := unsignedValue_toNat (lt_of_not_refused hrefused)
    rw [(msfSafeStrtoull_accepted h hrefused).1, sound_accepted_iff h, hvalue]
    simp only [refused_iff h, not_or, Bool.not_eq_false] at hrefused
    simp only [hrefused.2.2.1, forall_const]
    omega

theorem msfSafeStrtoul_sound_iff (h : numeral str = some n) :
    Sound (fun out : UInt32 => out.toNat) str (msfSafeStrtoul str) ↔
      (endsNumeral n.rest = true →
        ¬(-2 ^ 64 < n.value ∧ n.value < -2 ^ 63) ∧ ¬(2 ^ 32 ≤ n.value ∧ n.value < 2 ^ 63) ∧
          ¬(2 ^ 63 ≤ n.value ∧ n.value < 2 ^ 64 ∧ strchr str '-'.toUInt8 = false)) := by
  by_cases hrefused : Refused str n
  · rw [(msfSafeStrtoull_refused h hrefused).2]
    refine iff_of_true (sound_refused rfl str) ?_
    intro hends
    simp only [refused_iff h, hends, Bool.true_eq_false, false_or] at hrefused
    refine ⟨by omega, by omega, ?_⟩
    rintro ⟨hlow, hhigh, hchr⟩
    simp only [hchr, Bool.false_eq_true, and_false, or_false] at hrefused
    omega
  · have hvalue := unsignedValue_toNat (lt_of_not_refused hrefused)
    rw [(msfSafeStrtoull_accepted h hrefused).2, sound_accepted_iff h, UInt64.toNat_toUInt32]
    simp only [refused_iff h, not_or, not_and, Bool.not_eq_false, Bool.not_eq_true] at hrefused
    obtain ⟨hlow, hhigh, hends, hneg, hbig⟩ := hrefused
    have hchr : 2 ^ 63 ≤ n.value ∧ n.value < 2 ^ 64 ∧ strchr str '-'.toUInt8 = false ↔
        2 ^ 63 ≤ n.value := ⟨And.left, fun hle => ⟨hle, by omega, hbig hle⟩⟩
    simp only [hends, forall_const, hchr]
    omega

end Unsigned

section Signed

variable {str : Bytes} {n : Numeral}

theorem strtoll_of_mem (h : numeral str = some n)
    (hrange : -2 ^ 63 ≤ n.value ∧ n.value < 2 ^ 63) :
    strtoll str = ⟨.ofInt n.value, false, some n.rest⟩ := by
  simp only [strtoll, h, if_neg (not_lt.mpr hrange.1), if_neg (not_le.mpr hrange.2)]

theorem strtoll_of_notMem (h : numeral str = some n)
    (hrange : ¬(-2 ^ 63 ≤ n.value ∧ n.value < 2 ^ 63)) :
    ∃ value, strtoll str = ⟨value, true, some n.rest⟩ := by
  simp only [strtoll, h]
  by_cases hlow : n.value < -2 ^ 63
  · exact ⟨_, if_pos hlow⟩
  · have hhigh : 2 ^ 63 ≤ n.value := by omega
    rw [if_neg hlow, if_pos hhigh]
    exact ⟨_, rfl⟩

theorem msfSafeStrtoll_none (h : numeral str = none) :
    msfSafeStrtoll str = (false, 0) ∧ msfSafeStrtol str = (false, 0) := by
  simp only [msfSafeStrtoll, msfSafeStrtol, strtol, strtoll, h, and_self]

theorem msfSafeStrtoll_refused (h : numeral str = some n)
    (hrefused : ¬(-2 ^ 63 ≤ n.value ∧ n.value < 2 ^ 63) ∨ endsNumeral n.rest = false) :
    msfSafeStrtoll str = (false, 0) ∧ msfSafeStrtol str = (false, 0) := by
  by_cases hrange : -2 ^ 63 ≤ n.value ∧ n.value < 2 ^ 63
  · have hends : endsNumeral n.rest = false := hrefused.resolve_left (not_not.mpr hrange)
    simp only [msfSafeStrtoll, msfSafeStrtol, strtol, strtoll_of_mem h hrange, hends,
      Bool.false_eq_true, if_false, and_self]
  · obtain ⟨value, hvalue⟩ := strtoll_of_notMem h hrange
    simp only [msfSafeStrtoll, msfSafeStrtol, strtol, hvalue, if_true, and_self]

theorem msfSafeStrtoll_accepted (h : numeral str = some n)
    (hrange : -2 ^ 63 ≤ n.value ∧ n.value < 2 ^ 63) (hends : endsNumeral n.rest = true) :
    msfSafeStrtoll str = (true, (Int64.ofInt n.value).toUInt64) ∧
      msfSafeStrtol str = (true, (Int64.ofInt n.value).toInt32) := by
  simp only [msfSafeStrtoll, msfSafeStrtol, strtol, strtoll_of_mem h hrange, hends,
    Bool.false_eq_true, if_false, if_true, and_self]

theorem msfSafeStrtoll_sound (h : numeral str = some n) :
    Sound (fun out : UInt64 => out.toInt64.toInt) str (msfSafeStrtoll str) := by
  by_cases haccepted :
      (-2 ^ 63 ≤ n.value ∧ n.value < 2 ^ 63) ∧ endsNumeral n.rest = true
  · obtain ⟨hrange, hends⟩ := haccepted
    rw [(msfSafeStrtoll_accepted h hrange hends).1, sound_accepted_iff h]
    rw [Int64.toInt64_toUInt64]
    exact Int64.toInt_ofInt_of_le hrange.1 hrange.2
  · rw [not_and_or, Bool.not_eq_true] at haccepted
    rw [(msfSafeStrtoll_refused h haccepted).1]
    exact sound_refused rfl str

theorem msfSafeStrtol_sound_iff (h : numeral str = some n) :
    Sound Int32.toInt str (msfSafeStrtol str) ↔
      (endsNumeral n.rest = true → ¬(-2 ^ 63 ≤ n.value ∧ n.value < -2 ^ 31) ∧
        ¬(2 ^ 31 ≤ n.value ∧ n.value < 2 ^ 63)) := by
  by_cases haccepted :
      (-2 ^ 63 ≤ n.value ∧ n.value < 2 ^ 63) ∧ endsNumeral n.rest = true
  · obtain ⟨hrange, hends⟩ := haccepted
    have hout : (Int64.ofInt n.value).toInt32.toInt = n.value.bmod (2 ^ 32) := by
      rw [Int64.toInt_toInt32, Int64.toInt_ofInt_of_le hrange.1 hrange.2]
    rw [(msfSafeStrtoll_accepted h hrange hends).2, sound_accepted_iff h, hout]
    simp only [hends, forall_const, Int.bmod_def]
    split
    · omega
    · omega
  · rw [not_and_or, Bool.not_eq_true] at haccepted
    rw [(msfSafeStrtoll_refused h haccepted).2]
    refine iff_of_true (sound_refused rfl str) ?_
    intro hends
    have hrange := haccepted.resolve_right (Bool.not_eq_false _ ▸ hends)
    omega

end Signed

/-- When each function is sound. `msf_safe_strtoll` always is; `msf_safe_strtoull` unless the
numeral is between -2^64 and -2^63; `msf_safe_strtoul` unless it is there or, not being refused for
a minus sign behind it, does not fit 32 bits; `msf_safe_strtol` unless it fits 64 bits and not
32. -/
theorem safeNumbers_sound_iff (str : Bytes) :
    (Sound (fun out : UInt64 => out.toNat) str (msfSafeStrtoull str) ↔
        ∀ n, numeral str = some n → endsNumeral n.rest = true →
          ¬(-2 ^ 64 < n.value ∧ n.value < -2 ^ 63)) ∧
      (Sound (fun out : UInt32 => out.toNat) str (msfSafeStrtoul str) ↔
        ∀ n, numeral str = some n → endsNumeral n.rest = true →
          ¬(-2 ^ 64 < n.value ∧ n.value < -2 ^ 63) ∧ ¬(2 ^ 32 ≤ n.value ∧ n.value < 2 ^ 63) ∧
            ¬(2 ^ 63 ≤ n.value ∧ n.value < 2 ^ 64 ∧ strchr str '-'.toUInt8 = false)) ∧
      Sound (fun out : UInt64 => out.toInt64.toInt) str (msfSafeStrtoll str) ∧
      (Sound Int32.toInt str (msfSafeStrtol str) ↔
        ∀ n, numeral str = some n → endsNumeral n.rest = true →
          ¬(-2 ^ 63 ≤ n.value ∧ n.value < -2 ^ 31) ∧
            ¬(2 ^ 31 ≤ n.value ∧ n.value < 2 ^ 63)) := by
  cases h : numeral str with
  | none =>
      rw [(msfSafeStrtoull_none h).1, (msfSafeStrtoull_none h).2, (msfSafeStrtoll_none h).1,
        (msfSafeStrtoll_none h).2]
      refine ⟨iff_of_true (sound_refused rfl str) ?_, iff_of_true (sound_refused rfl str) ?_,
        sound_refused rfl str, iff_of_true (sound_refused rfl str) ?_⟩
      · exact nofun
      · exact nofun
      · exact nofun
  | some n =>
      simp only [Option.some.injEq, forall_eq']
      exact ⟨msfSafeStrtoull_sound_iff h, msfSafeStrtoul_sound_iff h, msfSafeStrtoll_sound h,
        msfSafeStrtol_sound_iff h⟩

/-- The three functions that are not always sound, on numbers out of their range. -/
theorem numbers_wrap_round :
    msfSafeStrtoull (ascii "-18446744073709551615".toList) = (true, 1) ∧
      (numeral (ascii "-18446744073709551615".toList)).map Numeral.value = some (1 - 2 ^ 64) ∧
      msfSafeStrtoul (ascii "4294967296".toList) = (true, 0) ∧
      (numeral (ascii "4294967296".toList)).map Numeral.value = some (2 ^ 32) ∧
      msfSafeStrtol (ascii "4294967297".toList) = (true, 1) ∧
      (numeral (ascii "4294967297".toList)).map Numeral.value = some (2 ^ 32 + 1) := by
  decide +kernel

end Utils

end LibMsf
