import LibMsf.Base.Base64
import LibMsf.Base.Base64RoundTrip

/-!
The two Base64 encoders write the same text, and the decoder of `base/base64.h` reads it back
as long as it can count it.

Both encoders are compared with the plain text of the string. The decoder consumes the digits
of the text and stops at the padding; what it makes of them does not depend on how far it has
counted, so the counter is dealt with separately.
-/

namespace LibMsf

open Cxx

namespace Base64

section Digits

theorem digit_spec {v : Nat} (h : v < 64) :
    chars[v]? = some (Radix64.digit v) ∧ find (Radix64.digit v) = UInt8.ofNat v ∧
      Radix64.digit v ≠ '='.toUInt8 ∧ isBase64 (Radix64.digit v) = true := by
  have htable : ∀ k < 64, chars[k]? = some (Radix64.digit k) ∧
      find (Radix64.digit k) = UInt8.ofNat k ∧ Radix64.digit k ≠ '='.toUInt8 ∧
        isBase64 (Radix64.digit k) = true := by
    decide
  exact htable v h

theorem mapM_cellAt {l : List UInt8} (h : ∀ v ∈ l, v.toNat < 64) :
    l.mapM (fun v => cellAt chars v.toNat) = .ok (l.map (fun v => Radix64.digit v.toNat)) := by
  induction l with
  | nil => rfl
  | cons v l ih =>
      have hhead := cellAt_eq (digit_spec (h v List.mem_cons_self)).1
      have htail := ih (fun w hw => h w (List.mem_cons_of_mem v hw))
      rw [List.mapM_cons, hhead, ok_bind, htail, ok_bind]
      rfl

theorem toNat_sextets (block : Bytes) :
    (sextets block).map UInt8.toNat =
      Radix64.sextets (block.getD 0 0) (block.getD 1 0) (block.getD 2 0) := by
  have h0 := (block.getD 0 0).toNat_lt
  have h1 := (block.getD 1 0).toNat_lt
  have h2 := (block.getD 2 0).toNat_lt
  have hlast : (block.getD 2 0 &&& 0x3f).toNat = (block.getD 2 0).toNat % 2 ^ 6 := by
    rw [UInt8.toNat_and]
    exact Nat.and_two_pow_sub_one_eq_mod _ 6
  simp only [sextets, Radix64.sextets, List.map_cons, List.map_nil, UInt8.toNat_add,
    Bits.toNat_field (block.getD 0 0) 0xfc 2 2 6 rfl (by decide) rfl,
    Bits.toNat_raised (block.getD 0 0) 0x03 4 4 2 rfl (by decide) (by decide) rfl,
    Bits.toNat_field (block.getD 1 0) 0xf0 4 4 4 rfl (by decide) rfl,
    Bits.toNat_raised (block.getD 1 0) 0x0f 2 2 4 rfl (by decide) (by decide) rfl,
    Bits.toNat_field (block.getD 2 0) 0xc0 6 6 2 rfl (by decide) rfl, hlast, List.cons.injEq,
    and_true]
  refine ⟨?_, ?_, ?_⟩ <;> omega

theorem sextets_lt (block : Bytes) : ∀ v ∈ sextets block, v.toNat < 64 := by
  intro v hv
  have hmem : v.toNat ∈ (sextets block).map UInt8.toNat := List.mem_map_of_mem hv
  rw [toNat_sextets] at hmem
  exact Radix64.sextets_lt _ _ _ _ hmem

theorem map_sextets (block : Bytes) :
    (sextets block).map (fun v => Radix64.digit v.toNat) =
      Radix64.quad (block.getD 0 0) (block.getD 1 0) (block.getD 2 0) := by
  rw [Radix64.quad, ← toNat_sextets, List.map_map]
  rfl

end Digits

section Encode

theorem encodeLoop_block (a b c : UInt8) (bytes ret : Bytes) :
    encodeLoop (a :: b :: c :: bytes) [] ret = encodeLoop bytes [] (ret ++ Radix64.quad a b c) := by
  have hmap := mapM_cellAt (sextets_lt [a, b, c])
  rw [map_sextets] at hmap
  simp only [encodeLoop, List.nil_append, List.cons_append, List.length_cons, List.length_nil,
    Nat.reduceAdd, Nat.reduceEqDiff, if_false, if_true, hmap, ok_bind]
  rfl

theorem encodeRest_block {block : Bytes} (hpos : block ≠ []) (ret : Bytes) :
    encodeRest (block, ret) = .ok (ret ++
      (Radix64.quad (block.getD 0 0) (block.getD 1 0) (block.getD 2 0)).take (block.length + 1) ++
        List.replicate (3 - block.length) Radix64.padding) := by
  have hmap := mapM_cellAt (l := (sextets block).take (block.length + 1))
    (fun v hv => sextets_lt block v (List.mem_of_mem_take hv))
  rw [List.map_take, map_sextets] at hmap
  rw [encodeRest, if_pos (by simpa using hpos), hmap]
  rfl

/-- The text is written behind what `ret` holds already. -/
theorem encode_text (bytes ret : Bytes) :
    (encodeLoop bytes [] ret >>= encodeRest) = .ok (ret ++ Radix64.text bytes) := by
  induction bytes using Radix64.text.induct generalizing ret with
  | case1 => simp [encodeLoop, encodeRest, Radix64.text]
  | case2 a =>
      have hrest := encodeRest_block (List.cons_ne_nil a []) ret
      rw [List.append_assoc] at hrest
      exact hrest
  | case3 a b =>
      have hrest := encodeRest_block (List.cons_ne_nil a [b]) ret
      rw [List.append_assoc] at hrest
      exact hrest
  | case4 a b c bytes ih =>
      rw [encodeLoop_block, ih, Radix64.text, List.append_assoc]

theorem base64Encode_eq (bytes : Bytes) : base64Encode bytes = .ok (Radix64.text bytes) :=
  encode_text bytes []

end Encode

section Decode

/-- The characters that the decoder takes. -/
def accepts (c : UInt8) : Bool :=
  decide (c ≠ '='.toUInt8 ∧ isBase64 c)

theorem decodeLoop_cons (done rest : Bytes) (c : UInt8) (s : Bytes × Bytes) :
    decodeLoop (done ++ c :: rest) (rest.length + 1) done.length s =
      if accepts c then do
        let next ← asInt (done.length + 1)
        decodeLoop (done ++ c :: rest) rest.length next (takeChar s c)
      else .ok s := by
  have hcell : cellAt (done ++ c :: rest) (done.length : Int).toNat = .ok c :=
    cellAt_eq (by simp)
  simp only [decodeLoop, if_pos (Int.natCast_nonneg _), hcell, ok_bind, pure_eq_ok, accepts,
    decide_eq_true_eq]

/-- The decoder takes the characters up to the first that it does not accept, unless it loses
count of them. -/
theorem decodeLoop_eq (done rest : Bytes) (s : Bytes × Bytes) (h : done.length < 2 ^ 31) :
    decodeLoop (done ++ rest) rest.length done.length s =
      if done.length + (rest.takeWhile accepts).length < 2 ^ 31
      then .ok ((rest.takeWhile accepts).foldl takeChar s) else .error .overflow := by
  induction rest generalizing done s with
  | nil =>
      rw [List.takeWhile_nil, List.length_nil, Nat.add_zero, if_pos h]
      rfl
  | cons c rest ih =>
      rw [List.length_cons, decodeLoop_cons]
      by_cases haccepts : accepts c = true
      · rw [if_pos haccepts, List.takeWhile_cons_of_pos haccepts, List.length_cons,
          List.foldl_cons]
        by_cases hcount : done.length + 1 < 2 ^ 31
        · have hnext := ih (done ++ [c]) (takeChar s c) (by simpa using hcount)
          rw [List.append_assoc, List.length_append, List.length_singleton] at hnext
          rw [asInt_of (by omega) (by omega), ok_bind]
          refine Eq.trans hnext ?_
          rw [Nat.add_assoc, Nat.add_comm 1]
        · rw [asInt_overflow (by omega), error_bind, if_neg (by omega)]
      · rw [if_neg haccepts, List.takeWhile_cons_of_neg haccepts, List.length_nil, Nat.add_zero,
          if_pos h]
        rfl

/-- The digits of the text, without the padding. -/
def body : Bytes → Bytes
  | [] => []
  | [a] => (Radix64.quad a 0 0).take 2
  | [a, b] => (Radix64.quad a b 0).take 3
  | a :: b :: c :: bytes => Radix64.quad a b c ++ body bytes

theorem accepts_quad (a b c : UInt8) : ∀ d ∈ Radix64.quad a b c, accepts d = true := by
  intro d hd
  obtain ⟨v, hv, rfl⟩ := List.mem_map.mp hd
  have hspec := digit_spec (Radix64.sextets_lt a b c v hv)
  simp only [accepts, decide_eq_true_eq]
  exact hspec.2.2

theorem takeWhile_text (bytes : Bytes) : (Radix64.text bytes).takeWhile accepts = body bytes := by
  have hpadding : accepts Radix64.padding = false := rfl
  induction bytes using Radix64.text.induct with
  | case1 => rfl
  | case2 a =>
      have hdigits : ∀ d ∈ (Radix64.quad a 0 0).take 2, accepts d = true :=
        fun d hd => accepts_quad a 0 0 d (List.mem_of_mem_take hd)
      rw [Radix64.text, List.takeWhile_append_of_pos hdigits]
      simp [hpadding, body]
  | case3 a b =>
      have hdigits : ∀ d ∈ (Radix64.quad a b 0).take 3, accepts d = true :=
        fun d hd => accepts_quad a b 0 d (List.mem_of_mem_take hd)
      rw [Radix64.text, List.takeWhile_append_of_pos hdigits]
      simp [hpadding, body]
  | case4 a b c bytes ih =>
      rw [Radix64.text, List.takeWhile_append_of_pos (accepts_quad a b c), ih, body]

theorem length_body (bytes : Bytes) : (body bytes).length = (4 * bytes.length + 2) / 3 := by
  induction bytes using body.induct with
  | case1 | case2 a | case3 a b => simp [body]
  | case4 a b c bytes ih =>
      rw [body, List.length_append, Radix64.length_quad, ih]
      simp only [List.length_cons]
      omega

/-- The bytes of a block from its sextets; those that are missing matter to later bytes only. -/
theorem octets_eq (block : Bytes) {x y z w : Nat} (hy : y < 64)
    (h0 : find (block.getD 0 0) = UInt8.ofNat x) (h1 : find (block.getD 1 0) = UInt8.ofNat y)
    (h2 : find (block.getD 2 0) = UInt8.ofNat z) (h3 : find (block.getD 3 0) = UInt8.ofNat w) :
    octets block = [UInt8.ofNat (x * 4 + y / 16), UInt8.ofNat (y % 16 * 16 + z % 64 / 4),
      UInt8.ofNat (z % 4 * 64 + w)] := by
  have hvalue (v : Nat) : (UInt8.ofNat v).toNat = v % 256 := UInt8.toNat_ofNat' ..
  have hshift : (UInt8.ofNat x <<< 2).toNat = x * 4 % 256 := by
    rw [UInt8.toNat_shiftLeft, hvalue, Nat.shiftLeft_eq]
    change x % 256 * 4 % 256 = _
    omega
  simp only [octets, h0, h1, h2, h3, List.cons.injEq, and_true]
  refine ⟨?_, ?_, ?_⟩ <;> apply UInt8.toNat_inj.mp
  · rw [UInt8.toNat_add, hshift, Bits.toNat_field (UInt8.ofNat y) 0x30 4 4 2 rfl (by decide) rfl,
      hvalue, hvalue]
    omega
  · rw [UInt8.toNat_add,
      Bits.toNat_raised (UInt8.ofNat y) 0xf 4 4 4 rfl (by decide) (by decide) rfl,
      Bits.toNat_field (UInt8.ofNat z) 0x3c 2 2 4 rfl (by decide) rfl, hvalue, hvalue, hvalue]
    omega
  · rw [UInt8.toNat_add,
      Bits.toNat_raised (UInt8.ofNat z) 0x3 6 6 2 rfl (by decide) (by decide) rfl, hvalue, hvalue,
      hvalue]
    omega

theorem find_digit {v : Nat} (h : v < 64) : find (Radix64.digit v) = UInt8.ofNat v :=
  (digit_spec h).2.1

theorem octets_quad (a b c : UInt8) : octets (Radix64.quad a b c) = [a, b, c] := by
  have ha := a.toNat_lt
  have hb := b.toNat_lt
  have hc := c.toNat_lt
  rw [octets_eq (Radix64.quad a b c) (by omega) (find_digit (by omega))
    (find_digit (by omega)) (find_digit (by omega)) (find_digit (by omega))]
  simp only [List.cons.injEq, and_true]
  refine ⟨?_, ?_, ?_⟩ <;> apply UInt8.toNat_inj.mp <;> rw [UInt8.toNat_ofNat'] <;> omega

/-- A padding character is a zero that is not found; the bytes it spoils are not kept. -/
theorem take_octets_one (a : UInt8) : (octets ((Radix64.quad a 0 0).take 2)).take 1 = [a] := by
  have ha := a.toNat_lt
  have hzero : (0 : UInt8).toNat = 0 := rfl
  rw [octets_eq ((Radix64.quad a 0 0).take 2) (z := 255) (w := 255) (by omega)
    (find_digit (by omega)) (find_digit (by omega)) rfl rfl]
  simp only [List.take_succ_cons, List.take_zero, List.cons.injEq, and_true]
  apply UInt8.toNat_inj.mp
  rw [UInt8.toNat_ofNat']
  omega

theorem take_octets_two (a b : UInt8) :
    (octets ((Radix64.quad a b 0).take 3)).take 2 = [a, b] := by
  have ha := a.toNat_lt
  have hb := b.toNat_lt
  have hzero : (0 : UInt8).toNat = 0 := rfl
  rw [octets_eq ((Radix64.quad a b 0).take 3) (w := 255) (by omega)
    (find_digit (by omega)) (find_digit (by omega)) (find_digit (by omega)) rfl]
  simp only [List.take_succ_cons, List.take_zero, List.cons.injEq, and_true]
  refine ⟨?_, ?_⟩ <;> apply UInt8.toNat_inj.mp <;> rw [UInt8.toNat_ofNat'] <;> omega

theorem decode_body (bytes ret : Bytes) :
    decodeRest ((body bytes).foldl takeChar ([], ret)) = ret ++ bytes := by
  induction bytes using body.induct generalizing ret with
  | case1 => simp [body, decodeRest]
  | case2 a =>
      change ret ++ (octets ((Radix64.quad a 0 0).take 2)).take 1 = _
      rw [take_octets_one]
  | case3 a b =>
      change ret ++ (octets ((Radix64.quad a b 0).take 3)).take 2 = _
      rw [take_octets_two]
  | case4 a b c bytes ih =>
      have hblock : (Radix64.quad a b c).foldl takeChar ([], ret) =
          ([], ret ++ octets (Radix64.quad a b c)) := rfl
      rw [body, List.foldl_append, hblock, octets_quad, ih, List.append_assoc]
      rfl

theorem base64Decode_text (bytes : Bytes) :
    base64Decode (Radix64.text bytes) =
      if (4 * bytes.length + 2) / 3 < 2 ^ 31 then .ok bytes else .error .overflow := by
  have hloop := decodeLoop_eq [] (Radix64.text bytes) ([], []) (by decide)
  rw [takeWhile_text, length_body, List.nil_append, List.length_nil, Nat.zero_add] at hloop
  have hbody := decode_body bytes []
  rw [base64Decode]
  refine (congrArg (· >>= fun s => pure (decodeRest s)) hloop).trans ?_
  split
  · rw [ok_bind, hbody]
    rfl
  · rfl

end Decode

/-- The text is that of the other encoder, and decoding it gives the string back. -/
def Agrees (bytes : Bytes) : Prop :=
  base64Encode bytes = Encoding.base64Encode bytes ∧
    ∃ text, base64Encode bytes = .ok text ∧ base64Decode text = .ok bytes

theorem agrees_iff_counted (bytes : Bytes) :
    Agrees bytes ↔ (4 * bytes.length + 2) / 3 < 2 ^ 31 := by
  have hsame : base64Encode bytes = Encoding.base64Encode bytes := by
    rw [base64Encode_eq, Encoding.base64Encode_eq]
  constructor
  · intro h
    obtain ⟨-, text, hencode, hdecode⟩ := h
    rw [base64Encode_eq] at hencode
    cases hencode
    rw [base64Decode_text] at hdecode
    by_contra hlost
    rw [if_neg hlost] at hdecode
    cases hdecode
  · intro hcounted
    refine ⟨hsame, Radix64.text bytes, base64Encode_eq bytes, ?_⟩
    rw [base64Decode_text, if_pos hcounted]

/-- The two implementations agree exactly on the strings whose text has fewer than `2 ^ 31`
digits. -/
theorem agrees_iff_length (bytes : Bytes) : Agrees bytes ↔ bytes.length < 3 * 2 ^ 29 := by
  rw [agrees_iff_counted]
  omega

/-- A string of `3 * 2 ^ 29 + 1` zeros is shorter than `2 ^ 31`, and the decoder's counter
overflows before the end of its text. -/
theorem zeros_disagree :
    (List.replicate (3 * 2 ^ 29 + 1) (0 : UInt8)).length < 2 ^ 31 ∧
      ¬ Agrees (List.replicate (3 * 2 ^ 29 + 1) 0) := by
  rw [agrees_iff_counted, List.length_replicate]
  omega

end Base64

end LibMsf
