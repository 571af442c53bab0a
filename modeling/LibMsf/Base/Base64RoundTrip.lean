import LibMsf.Base.Base32RoundTrip
import LibMsf.Library.Radix64

/-!
Base64 text decodes to what was encoded, unless nothing was.

The encoder fills up with zeros and puts the padding in place afterwards; the decoder counts
the padding first and stops writing when its result is full. Both are compared with the plain
text of the string. The decoder looks at the last two characters before anything else, so the
text of the empty string takes it outside its input.
-/

namespace LibMsf

open Cxx

namespace Encoding

section Digits

/-- The encoder's alphabet, the decoder's table and the digits agree. -/
theorem digit_spec {v : Nat} (h : v < 64) :
    base64[v]? = some (Radix64.digit v) ∧
      base64Values[(Radix64.digit v).toNat]? = some (UInt8.ofNat v) ∧
      Radix64.digit v ≠ '='.toUInt8 := by
  have htable : ∀ k < 64, base64[k]? = some (Radix64.digit k) ∧
      base64Values[(Radix64.digit k).toNat]? = some (UInt8.ofNat k) ∧
      Radix64.digit k ≠ '='.toUInt8 := by
    decide
  exact htable v h

theorem sextet_digit {v : Nat} (h : v < 64) :
    sextet (Radix64.digit v) = .ok (UInt8.ofNat v).toUInt32 := by
  simp only [sextet, if_neg (digit_spec h).2.2, lookup, (digit_spec h).2.1, ok_bind, pure_eq_ok]

theorem sextet_padding {v : Nat} (h : v = 0) :
    sextet Radix64.padding = .ok (UInt8.ofNat v).toUInt32 := by
  rw [h]
  rfl

theorem toNat_triple24 (a b c : UInt8) :
    ((a.toUInt32 <<< 0x10) + (b.toUInt32 <<< 0x08) + c.toUInt32).toNat =
      a.toNat * 65536 + b.toNat * 256 + c.toNat := by
  have ha := a.toNat_lt
  have hb := b.toNat_lt
  have hc := c.toNat_lt
  have hhigh := Bits.toNat_moved a.toUInt32 0x10 16 rfl (by decide)
    (by rw [UInt8.toNat_toUInt32]; omega)
  have hmiddle := Bits.toNat_moved b.toUInt32 0x08 8 rfl (by decide)
    (by rw [UInt8.toNat_toUInt32]; omega)
  rw [UInt32.toNat_add, UInt32.toNat_add, hhigh, hmiddle]
  simp only [UInt8.toNat_toUInt32]
  omega

theorem base64EncodeTriple_eq (a b c : UInt8) (j : Nat) (result : Bytes) :
    base64EncodeTriple a b c j result = writeAt result j (Radix64.quad a b c) := by
  have hdigit (s : UInt32) (k : Nat) (hk : s.toNat = k) (hlt : k < 32) :=
    Bits.toNat_digit ((a.toUInt32 <<< 0x10) + (b.toUInt32 <<< 0x08) + c.toUInt32) 0x3F s k 6 hk hlt
      rfl
  have hcell {v : Nat} (hv : v ∈ Radix64.sextets a b c) :
      cellAt base64 v = .ok (Radix64.digit v) :=
    cellAt_eq (digit_spec (Radix64.sextets_lt a b c v hv)).1
  simp only [Radix64.sextets, List.mem_cons, List.not_mem_nil, or_false] at hcell
  have ha := a.toNat_lt
  have hb := b.toNat_lt
  have hc := c.toNat_lt
  -- The sextets of the triple are those of its three bytes.
  have h1 := hdigit 18 18 rfl (by decide)
  have h2 := hdigit 12 12 rfl (by decide)
  have h3 := hdigit 6 6 rfl (by decide)
  have h4 := hdigit 0 0 rfl (by decide)
  rw [toNat_triple24] at h1 h2 h3 h4
  rw [show (a.toNat * 65536 + b.toNat * 256 + c.toNat) / 2 ^ 18 % 2 ^ 6 = a.toNat / 4 by omega]
    at h1
  rw [show (a.toNat * 65536 + b.toNat * 256 + c.toNat) / 2 ^ 12 % 2 ^ 6 =
    a.toNat % 4 * 16 + b.toNat / 16 by omega] at h2
  rw [show (a.toNat * 65536 + b.toNat * 256 + c.toNat) / 2 ^ 6 % 2 ^ 6 =
    b.toNat % 16 * 4 + c.toNat / 64 by omega] at h3
  rw [show (a.toNat * 65536 + b.toNat * 256 + c.toNat) / 2 ^ 0 % 2 ^ 6 = c.toNat % 64 by omega]
    at h4
  simp only [base64EncodeTriple, h1, h2, h3, h4, hcell (Or.inl rfl), hcell (Or.inr (Or.inl rfl)),
    hcell (Or.inr (Or.inr (Or.inl rfl))), hcell (Or.inr (Or.inr (Or.inr rfl))), ok_bind]
  rfl

end Digits

section Encode

theorem base64EncodeLoop_eq (str done : Bytes) :
    base64EncodeLoop str done.length (done ++ List.replicate (Radix64.filled str).length 0) =
      .ok (done ++ Radix64.filled str) := by
  induction str using Radix64.filled.induct generalizing done with
  | case1 => simp [base64EncodeLoop, Radix64.filled]
  | case2 a =>
      rw [base64EncodeLoop, base64EncodeTriple_eq, Radix64.filled, writeAt_done (by simp)]
      simp
  | case3 a b =>
      rw [base64EncodeLoop, base64EncodeTriple_eq, Radix64.filled, writeAt_done (by simp)]
      simp
  | case4 a b c str ih =>
      have hnext := ih (done ++ Radix64.quad a b c)
      rw [List.length_append, Radix64.length_quad] at hnext
      rw [base64EncodeLoop, base64EncodeTriple_eq, Radix64.filled, writeAt_done (by simp), ok_bind,
        List.length_append, List.drop_replicate, Nat.add_sub_cancel_left, hnext,
        List.append_assoc]

theorem setFromEnd_eq (front tail : Bytes) (old c : UInt8) :
    setFromEnd (front ++ old :: tail) (1 + tail.length) c = .ok (front ++ c :: tail) := by
  have hindex : (front ++ old :: tail).length - (1 + tail.length) = front.length := by
    rw [List.length_append, List.length_cons]
    omega
  rw [setFromEnd, if_pos (by rw [List.length_append, List.length_cons]; omega), hindex,
    writeAt_done (by simp)]
  simp

/-- The turns that are left write the padding in front of what is already padded. -/
theorem base64Pad_eq (turns : Nat) (front old tail : Bytes) (h : old.length = turns) :
    base64Pad turns tail.length (front ++ old ++ tail) =
      .ok (front ++ List.replicate turns Radix64.padding ++ tail) := by
  induction turns generalizing old tail with
  | zero => rw [List.eq_nil_of_length_eq_zero h, base64Pad, List.replicate_zero]
  | succ turns ih =>
      have hne : old ≠ [] := List.ne_nil_of_length_eq_add_one h
      have hnext := ih old.dropLast (Radix64.padding :: tail) (by rw [List.length_dropLast, h]; rfl)
      have hsplit : front ++ old ++ tail =
          (front ++ old.dropLast) ++ old.getLast hne :: tail := by
        rw [List.append_cons, List.append_assoc front old.dropLast,
          List.dropLast_append_getLast hne]
      rw [base64Pad, hsplit, setFromEnd_eq, ok_bind]
      refine hnext.trans ?_
      rw [List.replicate_succ', List.append_cons, List.append_assoc front]

theorem base64Encode_eq (str : Bytes) : base64Encode str = .ok (Radix64.text str) := by
  have hloop := base64EncodeLoop_eq str []
  have hmods : cellAt mods (str.length % 3) = .ok (Radix64.missing str.length) := by
    have hlt : str.length % 3 < 3 := Nat.mod_lt _ (by decide)
    have htable : ∀ r < 3, mods[r]? = some ((3 - r) % 3) := by decide
    exact cellAt_eq (htable _ hlt)
  have hlast : ((Radix64.filled str).drop
      ((Radix64.filled str).length - Radix64.missing str.length)).length =
        Radix64.missing str.length := by
    rw [List.length_drop, Radix64.length_filled, Radix64.missing]
    omega
  have hpad := base64Pad_eq _ ((Radix64.filled str).take
    ((Radix64.filled str).length - Radix64.missing str.length)) _ [] hlast
  rw [List.take_append_drop, List.append_nil, List.append_nil, ← Radix64.text_eq_filled] at hpad
  simp only [List.nil_append, List.length_nil] at hloop
  rw [base64Encode, ← Radix64.length_filled, hloop, ok_bind, hmods, ok_bind]
  exact hpad

end Encode

section Decode

theorem putByte_done {olength n : Nat} (done : Bytes) (byte : UInt8)
    (h : olength = done.length + (n + 1)) :
    putByte olength byte (done.length, done ++ List.replicate (n + 1) 0) =
      .ok ((done ++ [byte]).length, done ++ [byte] ++ List.replicate n 0) := by
  rw [putByte, if_pos (show done.length < olength by omega), writeAt_done (by simp), ok_bind,
    pure_eq_ok, List.length_append]
  rfl

theorem putByte_full {olength : Nat} (done : Bytes) (byte : UInt8) (h : olength = done.length) :
    putByte olength byte (done.length, done) = .ok (done.length, done) :=
  if_neg (Nat.not_lt.mpr (Nat.le_of_eq h))

theorem toNat_joined {x y z w : Nat} (hx : x < 64) (hy : y < 64) (hz : z < 64) (hw : w < 64) :
    (((UInt8.ofNat x).toUInt32 <<< 18) + ((UInt8.ofNat y).toUInt32 <<< 12) +
      ((UInt8.ofNat z).toUInt32 <<< 6) + ((UInt8.ofNat w).toUInt32 <<< 0)).toNat =
        x * 262144 + y * 4096 + z * 64 + w := by
  have hvalue {v : Nat} (hv : v < 64) : (UInt8.ofNat v).toUInt32.toNat = v := by
    rw [UInt8.toNat_toUInt32, UInt8.toNat_ofNat']
    omega
  have hmoved (v : Nat) (hv : v < 64) (s : UInt32) (k : Nat) (hk : s.toNat = k) (hle : k ≤ 18) :
      ((UInt8.ofNat v).toUInt32 <<< s).toNat = v * 2 ^ k := by
    have hpow : 2 ^ k ≤ 2 ^ 18 := Nat.pow_le_pow_right (by decide) hle
    have hroom : v * 2 ^ k ≤ 64 * 2 ^ 18 := Nat.mul_le_mul (by omega) hpow
    rw [Bits.toNat_moved _ s k hk (by omega) (by rw [hvalue hv]; omega), hvalue hv]
  simp only [UInt32.toNat_add, hmoved x hx 18 18 rfl (by decide),
    hmoved y hy 12 12 rfl (by decide), hmoved z hz 6 6 rfl (by decide),
    hmoved w hw 0 0 rfl (by decide)]
  omega

/-- One turn of the loop: the characters of three bytes are replaced by the bytes, as far as
there is room for them. -/
theorem base64DecodeLoop_cons {c1 c2 c3 c4 a b c : UInt8}
    (h1 : sextet c1 = .ok (UInt8.ofNat (a.toNat / 4)).toUInt32)
    (h2 : sextet c2 = .ok (UInt8.ofNat (a.toNat % 4 * 16 + b.toNat / 16)).toUInt32)
    (h3 : sextet c3 = .ok (UInt8.ofNat (b.toNat % 16 * 4 + c.toNat / 64)).toUInt32)
    (h4 : sextet c4 = .ok (UInt8.ofNat (c.toNat % 64)).toUInt32) (olength : Nat) (str : Bytes)
    (out : Nat × Bytes) :
    base64DecodeLoop olength (c1 :: c2 :: c3 :: c4 :: str) out = (do
      let out ← putByte olength a out
      let out ← putByte olength b out
      let out ← putByte olength c out
      base64DecodeLoop olength str out) := by
  have ha := a.toNat_lt
  have hb := b.toNat_lt
  have hc := c.toNat_lt
  have hjoined := toNat_joined (x := a.toNat / 4) (y := a.toNat % 4 * 16 + b.toNat / 16)
    (z := b.toNat % 16 * 4 + c.toNat / 64) (w := c.toNat % 64) (by omega) (by omega) (by omega)
    (by omega)
  have hbyte (s : UInt32) (k : Nat) (hk : s.toNat = k) (hlt : k < 32) :=
    Bits.toNat_digit (((UInt8.ofNat (a.toNat / 4)).toUInt32 <<< 18) +
      ((UInt8.ofNat (a.toNat % 4 * 16 + b.toNat / 16)).toUInt32 <<< 12) +
      ((UInt8.ofNat (b.toNat % 16 * 4 + c.toNat / 64)).toUInt32 <<< 6) +
      ((UInt8.ofNat (c.toNat % 64)).toUInt32 <<< 0)) 0xFF s k 8 hk hlt rfl
  rw [hjoined] at hbyte
  simp only [base64DecodeLoop, h1, h2, h3, h4, ok_bind]
  congr 2
  · apply UInt8.toNat_inj.mp
    rw [UInt32.toNat_toUInt8, hbyte 16 16 rfl (by decide)]
    omega
  · funext out
    congr 2
    · apply UInt8.toNat_inj.mp
      rw [UInt32.toNat_toUInt8, hbyte 8 8 rfl (by decide)]
      omega
    · funext out
      congr 2
      apply UInt8.toNat_inj.mp
      rw [UInt32.toNat_toUInt8, hbyte 0 0 rfl (by decide)]
      omega

theorem putByte_three (done : Bytes) (a b c : UInt8) (room : Nat)
    (k : Nat × Bytes → Except Fault Bytes) :
    (do let out ← putByte (done.length + room) a (done.length, done ++ List.replicate room 0)
        let out ← putByte (done.length + room) b out
        let out ← putByte (done.length + room) c out
        k out) =
      k ((done ++ [a, b, c].take room).length,
        done ++ [a, b, c].take room ++ List.replicate (room - 3) 0) := by
  have hfull {m : Nat} (done' : Bytes) (byte : UInt8) (h : m = done'.length) :
      putByte m byte (done'.length, done' ++ List.replicate 0 0) = .ok (done'.length, done') := by
    rw [List.replicate_zero, List.append_nil, putByte_full done' byte h]
  match room with
  | 0 =>
      rw [Nat.add_zero, hfull done a rfl, ok_bind, putByte_full done b rfl, ok_bind,
        putByte_full done c rfl, ok_bind]
      simp
  | 1 =>
      rw [putByte_done done a rfl, ok_bind, hfull (done ++ [a]) b (by simp), ok_bind,
        putByte_full (done ++ [a]) c (by simp), ok_bind]
      simp
  | 2 =>
      rw [putByte_done done a rfl, ok_bind, putByte_done (done ++ [a]) b (by simp), ok_bind,
        hfull (done ++ [a] ++ [b]) c (by simp), ok_bind]
      simp
  | n + 3 =>
      have hroom (m : Nat) : m + (n + 3) = m + 1 + 1 + (n + 1) := by omega
      rw [putByte_done done a rfl, ok_bind, putByte_done (done ++ [a]) b (by simp; omega), ok_bind,
        putByte_done (done ++ [a] ++ [b]) c (by simp [hroom]), ok_bind]
      simp

/-- The four characters of a block stand for its sextets. -/
theorem sextet_block (a b c : UInt8) :
    sextet (Radix64.digit (a.toNat / 4)) = .ok (UInt8.ofNat (a.toNat / 4)).toUInt32 ∧
    sextet (Radix64.digit (a.toNat % 4 * 16 + b.toNat / 16))
      = .ok (UInt8.ofNat (a.toNat % 4 * 16 + b.toNat / 16)).toUInt32 ∧
    sextet (Radix64.digit (b.toNat % 16 * 4 + c.toNat / 64))
      = .ok (UInt8.ofNat (b.toNat % 16 * 4 + c.toNat / 64)).toUInt32 ∧
    sextet (Radix64.digit (c.toNat % 64)) = .ok (UInt8.ofNat (c.toNat % 64)).toUInt32 := by
  have ha := a.toNat_lt
  have hb := b.toNat_lt
  have hc := c.toNat_lt
  exact ⟨sextet_digit (by omega), sextet_digit (by omega), sextet_digit (by omega),
    sextet_digit (by omega)⟩

/-- The bytes come back one block after the other, behind those that are `done`. -/
theorem base64DecodeLoop_text (str done : Bytes) :
    base64DecodeLoop (done.length + str.length) (Radix64.text str)
        (done.length, done ++ List.replicate str.length 0) = .ok (done ++ str) := by
  induction str using Radix64.text.induct generalizing done with
  | case1 => simp [base64DecodeLoop, Radix64.text]
  | case2 a =>
      obtain ⟨h1, h2, -, -⟩ := sextet_block a 0 0
      refine (base64DecodeLoop_cons (b := 0) (c := 0) h1 h2 (sextet_padding rfl)
        (sextet_padding rfl) _ [] _).trans ?_
      rw [List.length_singleton, putByte_three, base64DecodeLoop]
      · simp
      · exact fun _ _ _ _ _ h => List.cons_ne_nil _ _ h.symm
  | case3 a b =>
      obtain ⟨h1, h2, h3, -⟩ := sextet_block a b 0
      refine (base64DecodeLoop_cons (c := 0) h1 h2 h3 (sextet_padding rfl) _ [] _).trans ?_
      rw [show [a, b].length = 2 from rfl, putByte_three, base64DecodeLoop]
      · simp
      · exact fun _ _ _ _ _ h => List.cons_ne_nil _ _ h.symm
  | case4 a b c str ih =>
      obtain ⟨h1, h2, h3, h4⟩ := sextet_block a b c
      have hnext := ih (done ++ [a, b, c])
      have hroom : (done ++ [a, b, c]).length + str.length = done.length + (str.length + 3) := by
        rw [List.length_append, show [a, b, c].length = 3 from rfl]
        omega
      rw [hroom] at hnext
      refine (base64DecodeLoop_cons h1 h2 h3 h4 _ (Radix64.text str) _).trans ?_
      rw [show (a :: b :: c :: str).length = str.length + 3 from rfl, putByte_three,
        Nat.add_sub_cancel, show [a, b, c].take (str.length + 3) = [a, b, c] by simp, hnext,
        List.append_assoc]
      rfl

theorem charFromEnd_last (front : Bytes) (c d : UInt8) :
    charFromEnd (front ++ [c, d]) 1 = .ok d := by
  rw [charFromEnd, if_pos (by simp)]
  exact cellAt_eq (by simp)

theorem charFromEnd_beforeLast (front : Bytes) (c d : UInt8) :
    charFromEnd (front ++ [c, d]) 2 = .ok c := by
  rw [charFromEnd, if_pos (by simp)]
  exact cellAt_eq (by simp)

theorem base64Decode_text {str : Bytes} (h : str ≠ []) :
    base64Decode (Radix64.text str) = .ok str := by
  obtain ⟨front, c, d, htext, hd, hc⟩ := Radix64.text_ends h
  have hlength := Radix64.length_text str
  have hmod : ¬ (Radix64.text str).length % 4 ≠ 0 := by omega
  have hlast : charFromEnd (Radix64.text str) 1 = .ok d := htext ▸ charFromEnd_last front c d
  have hbeforeLast : charFromEnd (Radix64.text str) 2 = .ok c :=
    htext ▸ charFromEnd_beforeLast front c d
  -- The padding that is counted makes up for the bytes of the last block that are missing.
  have holength : (let olength := (Radix64.text str).length / 4 * 3
      let olength := if d = Radix64.padding then olength - 1 else olength
      if c = Radix64.padding then olength - 1 else olength) = str.length := by
    have hpos : 0 < str.length := List.length_pos_iff.mpr h
    simp only [hd, hc, hlength, Radix64.missing]
    split <;> split <;> omega
  have hloop := base64DecodeLoop_text str []
  simp only [List.length_nil, Nat.zero_add, List.nil_append] at hloop
  simp only [base64Decode, if_neg hmod, hlast, hbeforeLast, ok_bind]
  exact holength ▸ hloop

/-- Decoding the text of no bytes looks at a character in front of it. -/
theorem base64Decode_nil : base64Decode [] = .error .outOfBounds := rfl

end Decode

/-- Encoding returns normally on every byte string; decoding the text returns normally and
gives the string back exactly when there was something to encode. -/
theorem base64_round_trip_iff (str : Bytes) :
    (∃ text, base64Encode str = .ok text ∧ base64Decode text = .ok str) ↔ str ≠ [] := by
  constructor
  · intro h hnil
    obtain ⟨text, hencode, hdecode⟩ := h
    rw [base64Encode_eq, hnil] at hencode
    cases hencode
    rw [Radix64.text, base64Decode_nil] at hdecode
    cases hdecode
  · intro h
    exact ⟨Radix64.text str, base64Encode_eq str, base64Decode_text h⟩

/-- The empty string is encoded to the empty text, and decoding that is out of range. -/
theorem base64_empty_fails :
    base64Encode [] = .ok [] ∧ base64Decode [] = .error .outOfBounds ∧
      ¬ ∃ text, base64Encode [] = .ok text ∧ base64Decode text = .ok [] := by
  refine ⟨rfl, rfl, ?_⟩
  intro h
  obtain ⟨text, hencode, hdecode⟩ := h
  cases hencode
  cases hdecode

end Encoding

end LibMsf
