import Mathlib

/-!
Base64 text, as a specification.

Three bytes are four digits of six bits. The text of a string is the digits of its blocks of
three bytes; a short block at the end keeps the digits that hold its bits and is filled up
with padding.
-/

namespace Radix64

/-- `"ABCDEFGHIJKLMNOPQRSTUVWXYZabcdefghijklmnopqrstuvwxyz0123456789+/"`. -/
def alphabet : List UInt8 :=
  ['A', 'B', 'C', 'D', 'E', 'F', 'G', 'H', 'I', 'J', 'K', 'L', 'M', 'N', 'O', 'P', 'Q', 'R', 'S',
    'T', 'U', 'V', 'W', 'X', 'Y', 'Z', 'a', 'b', 'c', 'd', 'e', 'f', 'g', 'h', 'i', 'j', 'k', 'l',
    'm', 'n', 'o', 'p', 'q', 'r', 's', 't', 'u', 'v', 'w', 'x', 'y', 'z', '0', '1', '2', '3', '4',
    '5', '6', '7', '8', '9', '+', '/'].map Char.toUInt8

def padding : UInt8 := '='.toUInt8

def digit (v : Nat) : UInt8 :=
  alphabet.getD v padding

def sextets (a b c : UInt8) : List Nat :=
  [a.toNat / 4, a.toNat % 4 * 16 + b.toNat / 16, b.toNat % 16 * 4 + c.toNat / 64, c.toNat % 64]

def quad (a b c : UInt8) : List UInt8 :=
  (sextets a b c).map digit

def text : List UInt8 → List UInt8
  | [] => []
  | [a] => (quad a 0 0).take 2 ++ [padding, padding]
  | [a, b] => (quad a b 0).take 3 ++ [padding]
  | a :: b :: c :: s => quad a b c ++ text s

/-- The digits of a string filled up with zeros to whole blocks. -/
def filled : List UInt8 → List UInt8
  | [] => []
  | [a] => quad a 0 0
  | [a, b] => quad a b 0
  | a :: b :: c :: s => quad a b c ++ filled s

/-- The number of bytes that the last block lacks. -/
def missing (n : Nat) : Nat :=
  (3 - n % 3) % 3

@[simp] theorem length_quad (a b c : UInt8) : (quad a b c).length = 4 := rfl

theorem length_filled (s : List UInt8) : (filled s).length = 4 * ((s.length + 2) / 3) := by
  induction s using filled.induct with
  | case1 | case2 a | case3 a b => simp [filled]
  | case4 a b c s ih =>
      simp only [filled, List.length_append, length_quad, ih, List.length_cons]
      omega

/-- Padding takes the place of the digits of the bytes that are missing. -/
theorem text_eq_filled (s : List UInt8) :
    text s = (filled s).take ((filled s).length - missing s.length) ++
      List.replicate (missing s.length) padding := by
  induction s using text.induct with
  | case1 | case2 a | case3 a b => rfl
  | case4 a b c s ih =>
      have hmissing : missing (a :: b :: c :: s).length = missing s.length := by
        simp only [missing, List.length_cons]
        omega
      have hle : missing s.length ≤ (filled s).length := by
        simp only [missing, length_filled]
        omega
      have hshorter : 4 + (filled s).length - missing s.length =
          (quad a b c).length + ((filled s).length - missing s.length) := by
        rw [length_quad]
        omega
      rw [hmissing, text, filled, List.length_append, length_quad, hshorter,
        List.take_length_add_append, List.append_assoc, ← ih]

theorem length_text (s : List UInt8) : (text s).length = 4 * ((s.length + 2) / 3) := by
  rw [text_eq_filled, List.length_append, List.length_take, List.length_replicate, length_filled,
    missing]
  omega

theorem sextets_lt (a b c : UInt8) : ∀ v ∈ sextets a b c, v < 64 := by
  have ha := a.toNat_lt
  have hb := b.toNat_lt
  have hc := c.toNat_lt
  intro v hv
  simp only [sextets, List.mem_cons, List.not_mem_nil, or_false] at hv
  omega

theorem digit_ne_padding {v : Nat} (h : v < 64) : digit v ≠ padding := by
  have htable : ∀ k < 64, digit k ≠ padding := by decide
  exact htable v h

/-- The last two characters tell how many bytes the last block lacks. -/
theorem text_ends {s : List UInt8} (h : s ≠ []) :
    ∃ front c d, text s = front ++ [c, d] ∧ (d = padding ↔ missing s.length ≠ 0) ∧
      (c = padding ↔ missing s.length = 2) := by
  have hdigit (a b c : UInt8) {v : Nat} (hv : v ∈ sextets a b c) :=
    digit_ne_padding (sextets_lt a b c v hv)
  simp only [sextets, List.mem_cons, List.not_mem_nil, or_false] at hdigit
  have h2 (a b c : UInt8) := hdigit a b c (Or.inr (Or.inl rfl))
  have h3 (a b c : UInt8) := hdigit a b c (Or.inr (Or.inr (Or.inl rfl)))
  have h4 (a b c : UInt8) := hdigit a b c (Or.inr (Or.inr (Or.inr rfl)))
  induction s using text.induct with
  | case1 => exact absurd rfl h
  | case2 a =>
      exact ⟨(quad a 0 0).take 2, padding, padding, rfl, by simp [missing], by simp [missing]⟩
  | case3 a b =>
      refine ⟨(quad a b 0).take 2, _, padding, rfl, by simp [missing], ?_⟩
      simpa [missing] using h3 a b 0
  | case4 a b c s ih =>
      by_cases hs : s = []
      · rw [hs]
        refine ⟨(quad a b c).take 2, _, _, rfl, ?_, ?_⟩
        · simpa [missing] using h4 a b c
        · simpa [missing] using h3 a b c
      · obtain ⟨front, c', d', htext, hd, hc⟩ := ih hs
        have hmissing : missing (a :: b :: c :: s).length = missing s.length := by
          simp only [missing, List.length_cons]
          omega
        refine ⟨quad a b c ++ front, c', d', ?_, ?_, ?_⟩
        · rw [text, htext, List.append_assoc]
        · rw [hmissing, hd]
        · rw [hmissing, hc]

end Radix64
