import LibMsf.Cxx.Strings

/-!
Decimal numbers in strings: `operator<<` of an unsigned integer, `atol` and its relatives.

`atol` skips white space, takes an optional sign and as many digits as follow, and
saturates at the bounds of a 64-bit `long`. `strtoull`, `strtoul`, `strtoll` and `strtol` do
the same on LP64, where `long` has 64 bits, and also tell where the numeral ends and whether
it was out of range; the unsigned ones negate modulo 2^64. The zero behind a string is not
part of the list, and one in the list ends the string.
-/

namespace Cxx

def decimal (n : Nat) : Bytes :=
  ascii (Nat.toDigits 10 n)

def isSpace (c : UInt8) : Bool :=
  c == 32 || (decide (9 ≤ c) && decide (c ≤ 13))

def isDigit (c : UInt8) : Bool :=
  decide (48 ≤ c) && decide (c ≤ 57)

def digitsValue (s : Bytes) : Nat :=
  (s.takeWhile isDigit).foldl (fun value c => 10 * value + (c.toNat - 48)) 0

def atol (s : Bytes) : Int :=
  match s.dropWhile isSpace with
  | 45 :: rest => max (-2 ^ 63) (-(digitsValue rest : Int))
  | 43 :: rest => min (2 ^ 63 - 1) (digitsValue rest)
  | rest => min (2 ^ 63 - 1) (digitsValue rest)

/-- A `long` assigned to a `uint64_t`. -/
def longToUint64 (value : Int) : UInt64 :=
  UInt64.ofNat (value % 2 ^ 64).toNat

/-- A decimal numeral at the start of a string, and what is behind it. -/
structure Numeral where
  negative : Bool
  magnitude : Nat
  rest : Bytes

def Numeral.value (n : Numeral) : Int :=
  if n.negative then -n.magnitude else n.magnitude

def numeralDigits (negative : Bool) (s : Bytes) : Option Numeral :=
  if s.takeWhile isDigit = [] then none
  else some ⟨negative, digitsValue s, s.dropWhile isDigit⟩

/-- White space, an optional sign and at least one digit; nothing when there is no digit. -/
def numeral (s : Bytes) : Option Numeral :=
  match s.dropWhile isSpace with
  | 45 :: rest => numeralDigits true rest
  | 43 :: rest => numeralDigits false rest
  | rest => numeralDigits false rest

/-- The result of a conversion. Where there is no numeral, `endptr` is the start of the string,
which is nothing here. -/
structure Conversion (ν : Type) where
  value : ν
  erange : Bool
  endptr : Option Bytes

def strtoull (s : Bytes) : Conversion UInt64 :=
  match numeral s with
  | none => ⟨0, false, none⟩
  | some n =>
      if 2 ^ 64 ≤ n.magnitude then ⟨.ofNat (2 ^ 64 - 1), true, some n.rest⟩
      else ⟨if n.negative then -.ofNat n.magnitude else .ofNat n.magnitude, false, some n.rest⟩

def strtoul (s : Bytes) : Conversion UInt64 :=
  strtoull s

def strtoll (s : Bytes) : Conversion Int64 :=
  match numeral s with
  | none => ⟨0, false, none⟩
  | some n =>
      if n.value < -2 ^ 63 then ⟨.ofInt (-2 ^ 63), true, some n.rest⟩
      else if 2 ^ 63 ≤ n.value then ⟨.ofInt (2 ^ 63 - 1), true, some n.rest⟩
      else ⟨.ofInt n.value, false, some n.rest⟩

def strtol (s : Bytes) : Conversion Int64 :=
  strtoll s

/-- `strchr(s, c) != NULL`. -/
def strchr (s : Bytes) (c : UInt8) : Bool :=
  (s.takeWhile (· ≠ 0)).contains c

theorem toNat_of_isDigit {c : Char} (h : c.isDigit = true) :
    (UInt8.ofNat c.toNat).toNat = c.toNat := by
  have hle : c.toNat ≤ 57 := by
    simp only [Char.isDigit, Bool.and_eq_true, decide_eq_true_eq] at h
    exact h.2
  exact Nat.mod_eq_of_lt (by omega)

theorem isDigit_ofNat {c : Char} (h : c.isDigit = true) : isDigit (UInt8.ofNat c.toNat) = true := by
  have hnat := toNat_of_isDigit h
  simp only [Char.isDigit, Bool.and_eq_true, decide_eq_true_eq] at h
  simp only [isDigit, Bool.and_eq_true, decide_eq_true_eq, UInt8.le_iff_toNat_le, hnat]
  exact h

theorem isDigit_of_mem_decimal {n : Nat} {c : UInt8} (h : c ∈ decimal n) : isDigit c = true := by
  obtain ⟨d, hd, rfl⟩ := List.mem_map.mp h
  exact isDigit_ofNat (Nat.isDigit_of_mem_toDigits (by decide) (by decide) hd)

theorem foldl_ascii (cs : List Char) (h : ∀ c ∈ cs, c.isDigit = true) (value : Nat) :
    (ascii cs).foldl (fun value c => 10 * value + (c.toNat - 48)) value =
      Nat.ofDigitChars 10 cs value := by
  induction cs generalizing value with
  | nil => simp [ascii]
  | cons c cs ih =>
      have hc := toNat_of_isDigit (h c List.mem_cons_self)
      rw [Nat.ofDigitChars_cons, ← ih (fun d hd => h d (List.mem_cons_of_mem c hd))]
      simp [ascii, hc]

theorem digitsValue_decimal (n : Nat) : digitsValue (decimal n) = n := by
  rw [digitsValue, List.takeWhile_eq_self_iff.mpr (fun c hc => isDigit_of_mem_decimal hc), decimal,
    foldl_ascii _ (fun c hc => Nat.isDigit_of_mem_toDigits (by decide) (by decide) hc),
    Nat.ofDigitChars_ten_toDigits]

theorem decimal_ne_nil (n : Nat) : decimal n ≠ [] := by
  simp [decimal, ascii]

theorem isSpace_of_isDigit {c : UInt8} (h : isDigit c = true) : isSpace c = false := by
  simp only [isDigit, Bool.and_eq_true, decide_eq_true_eq, UInt8.le_iff_toNat_le] at h
  have hlow : (48 : UInt8).toNat ≤ c.toNat := h.1
  have hne : (c == 32) = false := by
    refine beq_eq_false_iff_ne.mpr ?_
    rintro rfl
    exact absurd hlow (by decide)
  have hgt : decide (c ≤ 13) = false := by
    refine decide_eq_false ?_
    intro hle
    rw [UInt8.le_iff_toNat_le] at hle
    exact absurd (hlow.trans hle) (by decide)
  simp only [isSpace, hne, hgt, Bool.and_false, Bool.or_self]

theorem atol_decimal_eq (n : Nat) : atol (decimal n) = min (2 ^ 63 - 1) (n : Int) := by
  have hvalue := digitsValue_decimal n
  cases hn : decimal n with
  | nil => exact absurd hn (decimal_ne_nil n)
  | cons c cs =>
      have hdigit : isDigit c = true := isDigit_of_mem_decimal (hn ▸ List.mem_cons_self)
      rw [hn] at hvalue
      simp only [atol, List.dropWhile_cons, isSpace_of_isDigit hdigit, Bool.false_eq_true, if_false]
      split
      · rename_i heq
        cases heq
        exact absurd hdigit (by decide)
      · rename_i heq
        cases heq
        exact absurd hdigit (by decide)
      · rw [hvalue]

theorem atol_decimal {n : Nat} (h : n < 2 ^ 63) : atol (decimal n) = n := by
  rw [atol_decimal_eq]
  omega

theorem longToUint64_ofNat {n : Nat} (h : n < 2 ^ 63) : (longToUint64 n).toNat = n := by
  have hmod : ((n : Int) % 2 ^ 64).toNat = n := by omega
  rw [longToUint64, hmod]
  exact UInt64.toNat_ofNat_of_lt' (show n < 2 ^ 64 by omega)

end Cxx
