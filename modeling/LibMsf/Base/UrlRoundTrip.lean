import LibMsf.Base.Encoding

/-!
URL text decodes to what was encoded.

The decoder is shown to consume what one byte was encoded to, whatever follows; the branches
that give up on malformed text are not reached.
-/

namespace LibMsf

open Cxx

namespace Encoding

/-- The text of a byte: itself, a plus sign, or a percent sign and two hexadecimal digits of
which the decoder makes the byte again. -/
inductive UrlText (ch : UInt8) : Bytes → Prop where
  | plain (hpercent : ch ≠ '%'.toUInt8) (hplus : ch ≠ '+'.toUInt8) : UrlText ch [ch]
  | blank (h : ch = ' '.toUInt8) : UrlText ch ['+'.toUInt8]
  | escaped {hi lo : UInt8} (hhi : hexIndex (toupper hi) < 16) (hlo : hexIndex (toupper lo) < 16)
      (hvalue : UInt8.ofNat ((hexIndex (toupper hi) <<< 4) + hexIndex (toupper lo)) = ch) :
      UrlText ch ['%'.toUInt8, hi, lo]

/-- A hexadecimal digit is found at its place, and is an upper-case letter already. -/
theorem hex_spec {k : Nat} (h : k < 16) :
    ∃ c, hex[k]? = some c ∧ hexIndex (toupper c) = k := by
  have htable : ∀ k < 16, hex[k]? = some (hex.getD k 0) ∧
      hexIndex (toupper (hex.getD k 0)) = k := by
    decide
  exact ⟨hex.getD k 0, htable k h⟩

/-- Sign extension does not reach the bits of the two nibbles. -/
theorem nibble_spec (ch : UInt8) :
    nibble ch 4 < 16 ∧ nibble ch 0 < 16 ∧
      UInt8.ofNat ((nibble ch 4 <<< 4) + nibble ch 0) = ch := by
  have htable : ∀ k < 256, nibble (UInt8.ofNat k) 4 < 16 ∧ nibble (UInt8.ofNat k) 0 < 16 ∧
      UInt8.ofNat ((nibble (UInt8.ofNat k) 4 <<< 4) + nibble (UInt8.ofNat k) 0) =
        UInt8.ofNat k := by
    decide +kernel
  simpa only [UInt8.ofNat_toNat] using htable ch.toNat ch.toNat_lt

theorem urlEncodeChar_eq (ch : UInt8) :
    ∃ chars, urlEncodeChar ch = .ok chars ∧ UrlText ch chars := by
  rw [urlEncodeChar]
  split
  case isTrue hkept =>
      refine ⟨[ch], rfl, .plain ?_ ?_⟩
      · intro heq
        rw [heq] at hkept
        exact absurd hkept (by decide)
      · intro heq
        rw [heq] at hkept
        exact absurd hkept (by decide)
  case isFalse =>
      split
      case isTrue hblank => exact ⟨_, rfl, .blank hblank⟩
      case isFalse =>
          obtain ⟨hhi, hlo, hvalue⟩ := nibble_spec ch
          obtain ⟨hi, hcellHi, hindexHi⟩ := hex_spec hhi
          obtain ⟨lo, hcellLo, hindexLo⟩ := hex_spec hlo
          refine ⟨['%'.toUInt8, hi, lo], ?_, ?_⟩
          · rw [cellAt_eq hcellHi, ok_bind, cellAt_eq hcellLo, ok_bind, pure_eq_ok]
          · exact .escaped (by omega) (by omega) (by rw [hindexHi, hindexLo, hvalue])

/-- The decoder makes the byte of its text and goes on behind it. -/
theorem urlDecodeLoop_text {ch : UInt8} {chars : Bytes} (h : UrlText ch chars)
    (rest result : Bytes) :
    urlDecodeLoop (chars ++ rest) result = urlDecodeLoop rest (result ++ [ch]) := by
  cases h with
  | plain hpercent hplus =>
      rw [List.singleton_append, urlDecodeLoop.eq_def]
      simp only [if_neg hpercent, if_neg hplus]
  | blank hblank =>
      rw [List.singleton_append, urlDecodeLoop.eq_def, hblank]
      rfl
  | escaped hhi hlo hvalue =>
      simp only [List.cons_append, List.nil_append, urlDecodeLoop, if_true,
        if_neg (not_or.mpr ⟨Nat.not_le.mpr hhi, Nat.not_le.mpr hlo⟩), hvalue]

theorem urlDecodeLoop_encoded (str result : Bytes) :
    ∃ text, urlEncodeLoop str result = .ok (result ++ text) ∧
      ∀ decoded, urlDecodeLoop text decoded = decoded ++ str := by
  induction str generalizing result with
  | nil => exact ⟨[], by simp [urlEncodeLoop], fun decoded => by simp [urlDecodeLoop]⟩
  | cons ch str ih =>
      obtain ⟨chars, hchars, htext⟩ := urlEncodeChar_eq ch
      obtain ⟨text, hencode, hdecode⟩ := ih (result ++ chars)
      refine ⟨chars ++ text, ?_, ?_⟩
      · rw [urlEncodeLoop, hchars, ok_bind, hencode, List.append_assoc]
      · intro decoded
        rw [urlDecodeLoop_text htext, hdecode, List.append_assoc, List.singleton_append]

/-- Encoding returns normally on every byte string, and decoding gives the string back. -/
theorem url_round_trip (str : Bytes) :
    ∃ text, urlEncode str = .ok text ∧ urlDecode text = str := by
  obtain ⟨text, hencode, hdecode⟩ := urlDecodeLoop_encoded str []
  exact ⟨text, hencode, hdecode []⟩

end Encoding

end LibMsf
