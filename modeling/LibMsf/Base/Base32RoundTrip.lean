import LibMsf.Base.Encoding
import LibMsf.Library.Bits

/-!
Base32 text decodes to what was encoded.

A missing byte counts as zero for the groups, and the groups that are replaced by padding
contribute to no byte that is kept; so all blocks, the short ones at the end included, come
back through the same equations between five bytes and eight groups.
-/

namespace LibMsf

open Cxx

namespace Encoding

section Groups

/-- The groups of a short block are those of the block filled up with zeros. -/
theorem spread_eq_full {str : Bytes} (hpos : 1 ≤ str.length) (hle : str.length ≤ 5) :
    spread str.length (fun k => str.getD k 0) = spread 5 (fun k => str.getD k 0) := by
  match str, hpos, hle with
  | [a], _, _ => simp [spread]
  | [a, b], _, _ => simp [spread]
  | [a, b, c], _, _ => simp [spread]
  | [a, b, c, d], _, _ => simp [spread]
  | [a, b, c, d, e], _, _ => rfl
  | _ :: _ :: _ :: _ :: _ :: _ :: _, _, hle =>
      simp only [List.length_cons] at hle
      omega

/-- A group of one field: the bits of a byte from `k` on. -/
theorem toNat_inner (x m s : UInt8) (k : Nat) (hk : s.toNat = k) (hlt : k < 8)
    (hm : m.toNat = (2 ^ 5 - 1) <<< k) : ((x &&& m) >>> s).toNat = x.toNat / 2 ^ k % 32 :=
  Bits.toNat_field x m s k 5 hk hlt hm

/-- A group of two fields: the low `w` bits of a byte above the high `v` bits of the next. -/
theorem toNat_straddling (x y mx my sx sy : UInt8) (v w : Nat) (hsum : v + w = 5) (hw : 0 < w)
    (hv : 0 < v) (hsx : sx.toNat = v) (hsy : sy.toNat = 8 - v) (hmx : mx.toNat = 2 ^ w - 1)
    (hmy : my.toNat = (2 ^ v - 1) <<< (8 - v)) :
    ((y &&& my) >>> sy ||| (x &&& mx) <<< sx).toNat =
      x.toNat % 2 ^ w * 2 ^ v + y.toNat / 2 ^ (8 - v) % 2 ^ v := by
  have hx := Bits.toNat_raised x mx sx v w hsx (by omega) hw hmx
  have hy := Bits.toNat_field y my sy (8 - v) v hsy (by omega) hmy
  rw [Bits.toNat_below _ v hx (by rw [hy]; exact Nat.mod_lt _ (Nat.two_pow_pos v)), hx, hy]

theorem toNat_spread (str : Nat → UInt8) :
    (spread 5 str).toList.map UInt8.toNat =
      [(str 0).toNat / 8 % 32, (str 0).toNat % 8 * 4 + (str 1).toNat / 64 % 4,
        (str 1).toNat / 2 % 32, (str 1).toNat % 2 * 16 + (str 2).toNat / 16 % 16,
        (str 2).toNat % 16 * 2 + (str 3).toNat / 128 % 2, (str 3).toNat / 4 % 32,
        (str 3).toNat % 4 * 8 + (str 4).toNat / 32 % 8, (str 4).toNat / 1 % 32] := by
  have h1 := toNat_inner (str 0) 0xF8 3 3 rfl (by decide) rfl
  have h2 := toNat_straddling (str 0) (str 1) 0x07 0xC0 2 6 2 3 rfl (by decide) (by decide) rfl
    rfl rfl rfl
  have h3 := toNat_inner (str 1) 0x3E 1 1 rfl (by decide) rfl
  have h4 := toNat_straddling (str 1) (str 2) 0x01 0xF0 4 4 4 1 rfl (by decide) (by decide) rfl
    rfl rfl rfl
  have h5 := toNat_straddling (str 2) (str 3) 0x0F 0x80 1 7 1 4 rfl (by decide) (by decide) rfl
    rfl rfl rfl
  have h6 := toNat_inner (str 3) 0x7C 2 2 rfl (by decide) rfl
  have h7 := toNat_straddling (str 3) (str 4) 0x03 0xE0 3 5 3 2 rfl (by decide) (by decide) rfl
    rfl rfl rfl
  have h8 := toNat_inner (str 4) 0x1F 0 0 rfl (by decide) rfl
  simp only [Groups.toList, spread, Nat.reduceLeDiff, if_true, List.map_cons, List.map_nil, h1, h2,
    h3, h4, h5, h6, h7, h8, Nat.reducePow, Nat.reduceSub]

/-- A byte of two groups: the low `w` bits of one above the bits of the next from `k` on. -/
theorem toNat_pair (x y mx my sx sy : UInt8) (k v w : Nat) (hsum : v + w ≤ 8) (hw : 0 < w)
    (hk : k < 8) (hsx : sx.toNat = v) (hsy : sy.toNat = k) (hmx : mx.toNat = 2 ^ w - 1)
    (hmy : my.toNat = (2 ^ v - 1) <<< k) :
    ((x &&& mx) <<< sx ||| (y &&& my) >>> sy).toNat =
      x.toNat % 2 ^ w * 2 ^ v + y.toNat / 2 ^ k % 2 ^ v := by
  have hx := Bits.toNat_raised x mx sx v w hsx (by omega) hw hmx
  have hy := Bits.toNat_field y my sy k v hsy hk hmy
  rw [Bits.toNat_above _ v hx (by rw [hy]; exact Nat.mod_lt _ (Nat.two_pow_pos v)), hx, hy]

/-- A byte of three groups, the middle one of them whole. -/
theorem toNat_triple (x y z mx mz sx sy sz : UInt8) (k v w : Nat) (hsum : v + w = 3) (hw : 0 < w)
    (hk : k < 8) (hsx : sx.toNat = v + 5) (hsy : sy.toNat = v) (hsz : sz.toNat = k)
    (hmx : mx.toNat = 2 ^ w - 1) (hmz : mz.toNat = (2 ^ v - 1) <<< k) :
    ((x &&& mx) <<< sx ||| (y &&& 0x1f) <<< sy ||| (z &&& mz) >>> sz).toNat =
      x.toNat % 2 ^ w * 2 ^ (v + 5) + y.toNat % 2 ^ 5 * 2 ^ v + z.toNat / 2 ^ k % 2 ^ v := by
  have hx := Bits.toNat_raised x mx sx (v + 5) w hsx (by omega) hw hmx
  have hy := Bits.toNat_raised y 0x1f sy v 5 hsy (by omega) (by omega) rfl
  have hz := Bits.toNat_field z mz sz k v hsz hk hmz
  have hpow : 2 ^ (v + 5) = 2 ^ 5 * 2 ^ v := by
    rw [Nat.pow_add, Nat.mul_comm]
  have hxy : ((x &&& mx) <<< sx ||| (y &&& 0x1f) <<< sy).toNat =
      x.toNat % 2 ^ w * 2 ^ (v + 5) + y.toNat % 2 ^ 5 * 2 ^ v := by
    have hlt : ((y &&& 0x1f) <<< sy).toNat < 2 ^ (v + 5) := by
      rw [hy, hpow]
      exact Nat.mul_lt_mul_of_pos_right (Nat.mod_lt _ (Nat.two_pow_pos 5)) (Nat.two_pow_pos v)
    rw [Bits.toNat_above _ (v + 5) hx hlt, hx, hy]
  have hmultiple : x.toNat % 2 ^ w * 2 ^ (v + 5) + y.toNat % 2 ^ 5 * 2 ^ v =
      (x.toNat % 2 ^ w * 2 ^ 5 + y.toNat % 2 ^ 5) * 2 ^ v := by
    rw [hpow, Nat.add_mul, Nat.mul_assoc]
  rw [Bits.toNat_above _ v (hxy.trans hmultiple)
    (by rw [hz]; exact Nat.mod_lt _ (Nat.two_pow_pos v)), hxy, hz]

theorem toNat_gather (n : Groups) :
    (gather n).map UInt8.toNat =
      [n.n1.toNat % 32 * 8 + n.n2.toNat / 4 % 8,
        n.n2.toNat % 4 * 64 + n.n3.toNat % 32 * 2 + n.n4.toNat / 16 % 2,
        n.n4.toNat % 16 * 16 + n.n5.toNat / 2 % 16,
        n.n5.toNat % 2 * 128 + n.n6.toNat % 32 * 4 + n.n7.toNat / 8 % 4,
        n.n7.toNat % 8 * 32 + n.n8.toNat % 32] := by
  have h1 := toNat_pair n.n1 n.n2 0x1f 0x1c 3 2 2 3 5 (by decide) (by decide) (by decide) rfl rfl
    rfl rfl
  have h2 := toNat_triple n.n2 n.n3 n.n4 0x03 0x10 6 1 4 4 1 2 rfl (by decide) (by decide) rfl
    rfl rfl rfl rfl
  have h3 := toNat_pair n.n4 n.n5 0x0f 0x1e 4 1 1 4 4 (by decide) (by decide) (by decide) rfl rfl
    rfl rfl
  have h4 := toNat_triple n.n5 n.n6 n.n7 0x01 0x18 7 2 3 3 2 1 rfl (by decide) (by decide) rfl
    rfl rfl rfl rfl
  have h5 : ((n.n7 &&& 0x07) <<< 5 ||| n.n8 &&& 0x1f).toNat =
      n.n7.toNat % 2 ^ 3 * 2 ^ 5 + n.n8.toNat % 2 ^ 5 := by
    have hx := Bits.toNat_raised n.n7 0x07 5 5 3 rfl (by decide) (by decide) rfl
    have hy : (n.n8 &&& 0x1f).toNat = n.n8.toNat % 2 ^ 5 := by
      rw [UInt8.toNat_and]
      exact Nat.and_two_pow_sub_one_eq_mod _ 5
    rw [Bits.toNat_above _ 5 hx (by rw [hy]; exact Nat.mod_lt _ (Nat.two_pow_pos 5)), hx, hy]
  simp only [gather, List.map_cons, List.map_nil, h1, h2, h3, h4, h5, Nat.reducePow,
    Nat.reduceAdd]

theorem gather_spread (str : Nat → UInt8) :
    gather (spread 5 str) = [str 0, str 1, str 2, str 3, str 4] := by
  have hgroups := toNat_spread str
  simp only [Groups.toList, List.map_cons, List.map_nil, List.cons.injEq, and_true] at hgroups
  obtain ⟨h1, h2, h3, h4, h5, h6, h7, h8⟩ := hgroups
  have hlt (k : Nat) : (str k).toNat < 256 := (str k).toNat_lt
  apply List.map_injective_iff.mpr (fun _ _ => UInt8.toNat_inj.mp)
  rw [toNat_gather, h1, h2, h3, h4, h5, h6, h7, h8]
  -- The equations are used up; omega would only carry them along.
  clear h1 h2 h3 h4 h5 h6 h7 h8
  have := hlt 0
  have := hlt 1
  have := hlt 2
  have := hlt 3
  have := hlt 4
  simp only [List.map_cons, List.map_nil, List.cons.injEq, and_true]
  refine ⟨?_, ?_, ?_, ?_, ?_⟩ <;> omega

/-- Padding replaces no group that a kept byte has bits in. -/
theorem take_gather_pad {block : Nat} (hpos : 1 ≤ block) (hle : block ≤ 5) (n : Groups) :
    (gather (pad block n)).take block = (gather n).take block := by
  match block, hpos, hle with
  | 1, _, _ | 2, _, _ | 3, _, _ | 4, _, _ | 5, _, _ => rfl

theorem spread_le (str : Nat → UInt8) : ∀ v ∈ (spread 5 str).toList, v ≤ 31 := by
  intro v hv
  have hmem : v.toNat ∈ (spread 5 str).toList.map UInt8.toNat := List.mem_map_of_mem hv
  have hlt (k : Nat) : (str k).toNat < 256 := (str k).toNat_lt
  rw [toNat_spread] at hmem
  have := hlt 0
  have := hlt 1
  have := hlt 2
  have := hlt 3
  have := hlt 4
  rw [UInt8.le_iff_toNat_le]
  change v.toNat ≤ 31
  simp only [List.mem_cons, List.not_mem_nil, or_false] at hmem
  omega

theorem spread_ne_padding (str : Nat → UInt8) : ∀ v ∈ (spread 5 str).toList, v ≠ 32 := by
  intro v hv heq
  exact absurd (spread_le str v hv) (by rw [heq]; decide)

end Groups

section Blocks

/-- The groups of a block of at most five bytes, padding included. -/
def encodedGroups (str : Bytes) : Groups :=
  pad str.length (spread 5 (fun k => str.getD k 0))

theorem length_gather (n : Groups) : (gather n).length = 5 := rfl

theorem pad_le {n : Groups} (h : ∀ v ∈ n.toList, v ≤ 31) (block : Nat) :
    ∀ v ∈ (pad block n).toList, v ≤ 32 := by
  have hgroup : ∀ v ∈ n.toList, v ≤ 32 := fun v hv => UInt8.le_trans (h v hv) (by decide)
  have hor {p : Prop} [Decidable p] {v : UInt8} (hv : v ∈ n.toList) :
      (if p then 32 else v) ≤ 32 := by
    split
    · exact UInt8.le_refl 32
    · exact hgroup v hv
  intro v hv
  simp only [Groups.toList, pad, List.mem_cons, List.not_mem_nil, or_false] at hv
  rcases hv with rfl | rfl | rfl | rfl | rfl | rfl | rfl | rfl
  · exact hgroup _ (by simp [Groups.toList])
  · exact hgroup _ (by simp [Groups.toList])
  all_goals exact hor (by simp [Groups.toList])

theorem gather_encodedGroups {str : Bytes} (hpos : 1 ≤ str.length) (hle : str.length ≤ 5) :
    (gather (encodedGroups str)).take str.length = str := by
  rw [encodedGroups, take_gather_pad hpos hle, gather_spread]
  match str, hpos, hle with
  | [_], _, _ | [_, _], _, _ | [_, _, _], _, _ | [_, _, _, _], _, _ | [_, _, _, _, _], _, _ => rfl
  | _ :: _ :: _ :: _ :: _ :: _ :: _, _, hle =>
      simp only [List.length_cons] at hle
      omega

/-- A string is full blocks and then at most one short block. -/
theorem block_induction {motive : Bytes → Prop} (nil : motive [])
    (short : ∀ str, 1 ≤ str.length → str.length < 5 → motive str)
    (full : ∀ block str, block.length = 5 → motive str → motive (block ++ str)) (str : Bytes) :
    motive str := by
  induction hlength : str.length using Nat.strong_induction_on generalizing str with
  | _ n ih =>
      by_cases hnil : str.length = 0
      · exact List.eq_nil_of_length_eq_zero hnil ▸ nil
      · by_cases hshort : str.length < 5
        · exact short str (by omega) hshort
        · rw [← List.take_append_drop 5 str]
          refine full _ _ (by simp; omega) (ih (str.length - 5) (by omega) _ (by simp))

end Blocks

section Alphabet

/-- The characters of Base32 text. -/
def InAlphabet (c : UInt8) : Prop :=
  ('A'.toUInt8 ≤ c ∧ c ≤ 'Z'.toUInt8) ∨ ('2'.toUInt8 ≤ c ∧ c ≤ '7'.toUInt8) ∨ c = '='.toUInt8

instance (c : UInt8) : Decidable (InAlphabet c) :=
  inferInstanceAs (Decidable (_ ∨ _))

def charOf (v : UInt8) : UInt8 :=
  base32.getD v.toNat 0

def spelled (n : Groups) : Bytes :=
  n.toList.map charOf

theorem length_spelled (n : Groups) : (spelled n).length = 8 := rfl

/-- The two tables are inverse on the values of groups and on the padding. -/
theorem charOf_spec {v : UInt8} (h : v ≤ 32) :
    base32[v.toNat]? = some (charOf v) ∧ base32Values[(charOf v).toNat]? = some v ∧
      charOf v < 0x80 ∧ InAlphabet (charOf v) := by
  have htable : ∀ k < 33, base32[(UInt8.ofNat k).toNat]? = some (charOf (UInt8.ofNat k)) ∧
      base32Values[(charOf (UInt8.ofNat k)).toNat]? = some (UInt8.ofNat k) ∧
      charOf (UInt8.ofNat k) < 0x80 ∧ InAlphabet (charOf (UInt8.ofNat k)) := by
    decide
  have hlt : v.toNat < 33 := Nat.lt_succ_of_le (UInt8.le_iff_toNat_le.mp h)
  simpa only [UInt8.ofNat_toNat] using htable v.toNat hlt

theorem lookup_base32 {v : UInt8} (h : v ≤ 32) : lookup base32 v = .ok (charOf v) := by
  simp only [lookup, (charOf_spec h).1]

theorem lookup_base32Values {v : UInt8} (h : v ≤ 32) :
    lookup base32Values (charOf v) = .ok v := by
  simp only [lookup, (charOf_spec h).2.1]

theorem mapM_lookup {l : List UInt8} (h : ∀ v ∈ l, v ≤ 32) :
    l.mapM (lookup base32) = .ok (l.map charOf) := by
  induction l with
  | nil => rfl
  | cons v l ih =>
      rw [List.mapM_cons, lookup_base32 (h v List.mem_cons_self), ok_bind,
        ih (fun w hw => h w (List.mem_cons_of_mem v hw)), ok_bind]
      rfl

end Alphabet

section Encode

theorem base32EncodeBlock_eq {str result : Bytes} {j : Nat} (hpos : 1 ≤ str.length)
    (hle : str.length ≤ 5) :
    base32EncodeBlock str j result = writeAt result j (spelled (encodedGroups str)) := by
  have hgroups := spread_le (fun k => str.getD k 0)
  simp only [base32EncodeBlock, spread_eq_full hpos hle, assertThat_of (And.intro hpos hle),
    assertThat_of hgroups, ok_bind, mapM_lookup (pad_le hgroups str.length)]
  rfl

/-- The text of a string: its blocks one after the other. -/
def encoded : Bytes → Bytes
  | [] => []
  | a :: b :: c :: d :: e :: str => spelled (encodedGroups [a, b, c, d, e]) ++ encoded str
  | str => spelled (encodedGroups str)

theorem encoded_short {str : Bytes} (hpos : 1 ≤ str.length) (hlt : str.length < 5) :
    encoded str = spelled (encodedGroups str) := by
  match str, hpos, hlt with
  | [_], _, _ | [_, _], _, _ | [_, _, _], _, _ | [_, _, _, _], _, _ => rfl
  | _ :: _ :: _ :: _ :: _ :: _, _, hlt =>
      simp only [List.length_cons] at hlt
      omega

theorem encoded_full {block : Bytes} (h : block.length = 5) (str : Bytes) :
    encoded (block ++ str) = spelled (encodedGroups block) ++ encoded str := by
  match block, h with
  | [_, _, _, _, _], _ => rfl

theorem length_encoded (str : Bytes) : (encoded str).length = 8 * ((str.length + 4) / 5) := by
  induction str using block_induction with
  | nil => rfl
  | short str hpos hlt =>
      rw [encoded_short hpos hlt, length_spelled]
      omega
  | full block str hblock ih =>
      rw [encoded_full hblock, List.length_append, length_spelled, ih, List.length_append, hblock]
      omega

theorem encoded_inAlphabet (str : Bytes) : ∀ c ∈ encoded str, InAlphabet c := by
  have hblock (block : Bytes) : ∀ c ∈ spelled (encodedGroups block), InAlphabet c := by
    intro c hc
    obtain ⟨v, hv, rfl⟩ := List.mem_map.mp hc
    exact (charOf_spec (pad_le (spread_le _) _ v hv)).2.2.2
  induction str using block_induction with
  | nil => exact fun c hc => absurd hc List.not_mem_nil
  | short str hpos hlt => exact encoded_short hpos hlt ▸ hblock str
  | full block str hlength ih =>
      intro c hc
      rw [encoded_full hlength, List.mem_append] at hc
      exact hc.elim (hblock block c) (ih c)

theorem base32EncodeLoop_eq (str done : Bytes) :
    base32EncodeLoop str done.length (done ++ List.replicate (encoded str).length 0) =
      .ok (done ++ encoded str) := by
  induction str using block_induction generalizing done with
  | nil => simp [base32EncodeLoop, encoded]
  | short str hpos hlt =>
      have hloop (j : Nat) (result : Bytes) :
          base32EncodeLoop str j result = base32EncodeBlock str j result := by
        match str, hpos, hlt with
        | [_], _, _ | [_, _], _, _ | [_, _, _], _, _ | [_, _, _, _], _, _ => rfl
        | _ :: _ :: _ :: _ :: _ :: _, _, hlt =>
            simp only [List.length_cons] at hlt
            omega
      rw [hloop, base32EncodeBlock_eq hpos (by omega), encoded_short hpos hlt,
        writeAt_done (by simp)]
      simp
  | full block str hblock ih =>
      have hloop (j : Nat) (result : Bytes) : base32EncodeLoop (block ++ str) j result =
          base32EncodeBlock block j result >>= base32EncodeLoop str (j + 8) := by
        match block, hblock with
        | [_, _, _, _, _], _ => rfl
      have hnext := ih (done ++ spelled (encodedGroups block))
      rw [List.length_append, length_spelled] at hnext
      rw [hloop, base32EncodeBlock_eq (by omega) (by omega), encoded_full hblock,
        writeAt_done (by simp), ok_bind, List.length_append, List.drop_replicate,
        Nat.add_sub_cancel_left, hnext, List.append_assoc]

theorem base32Encode_eq (str : Bytes) : base32Encode str = .ok (encoded str) := by
  have hlength : str.length / 5 * 8 + (if str.length % 5 ≠ 0 then 8 else 0) =
      (encoded str).length := by
    rw [length_encoded]
    split <;> omega
  have hloop := base32EncodeLoop_eq str []
  simp only [base32Encode, hlength]
  exact hloop

end Encode

section Decode

variable (ndebug : Bool)

theorem check_of {p : Prop} [Decidable p] (h : p) : check ndebug p = .ok () := by
  cases ndebug with
  | true => rfl
  | false => exact assertThat_of h

theorem base32DecodeLoop_spelled {n : Groups} (h1 : n.n1 ≤ 31) (h2 : n.n2 ≤ 31)
    (hle : ∀ v ∈ n.toList, v ≤ 32) (str : Bytes) (j : Nat) (result : Bytes) :
    base32DecodeLoop ndebug (spelled n ++ str) j result = (do
      let result ← writeAt result j (gather n)
      let result ← dropPadding ndebug n result
      base32DecodeLoop ndebug str (j + 5) result) := by
  have hascii : ∀ c ∈ spelled n, c < 0x80 := by
    intro c hc
    obtain ⟨v, hv, rfl⟩ := List.mem_map.mp hc
    exact (charOf_spec (hle v hv)).2.2.1
  have hnone : ¬ ∃ c ∈ spelled n, 0x80 ≤ c :=
    fun ⟨c, hc, hge⟩ => UInt8.not_lt.mpr hge (hascii c hc)
  have hread (v : UInt8) (hv : v ∈ n.toList) := lookup_base32Values (hle v hv)
  simp only [spelled, Groups.toList, List.map_cons, List.map_nil] at hascii hnone
  simp only [Groups.toList, List.forall_mem_cons, List.not_mem_nil, false_implies,
    implies_true, and_true] at hle hread
  obtain ⟨-, -, hrest⟩ := hle
  obtain ⟨r1, r2, r3, r4, r5, r6, r7, r8⟩ := hread
  have hlow : ¬ (n.n1 > 31 ∨ n.n2 > 31) := by
    simp only [gt_iff_lt, not_or, UInt8.not_lt]
    exact ⟨h1, h2⟩
  have hhigh : ¬ (n.n3 > 32 ∨ n.n4 > 32 ∨ n.n5 > 32 ∨ n.n6 > 32 ∨ n.n7 > 32 ∨ n.n8 > 32) := by
    simp only [gt_iff_lt, not_or, UInt8.not_lt]
    exact hrest
  simp only [spelled, Groups.toList, List.map_cons, List.map_nil, List.cons_append,
    List.nil_append, base32DecodeLoop, check_of ndebug hascii, ok_bind, if_neg hnone, r1, r2, r3,
    r4, r5, r6, r7, r8, check_of ndebug (And.intro h1 h2), if_neg hlow,
    check_of ndebug hrest, if_neg hhigh]

theorem shrink_append {l : Bytes} (h : l ≠ []) (front : Bytes) :
    shrink (front ++ l) = .ok (front ++ l.dropLast) := by
  rw [shrink, if_neg (by simp [h]), List.dropLast_append_of_ne_nil h]

/-- The padding of a block says how many of its five bytes are kept. -/
theorem dropPadding_pad {n : Groups} (h : ∀ v ∈ n.toList, v ≠ 32) {block : Nat}
    (hpos : 1 ≤ block) (hle : block ≤ 5) (front : Bytes) (m : Groups) :
    dropPadding ndebug (pad block n) (front ++ gather m) =
      .ok (front ++ (gather m).take block) := by
  simp only [Groups.toList, List.forall_mem_cons, List.not_mem_nil, false_implies,
    implies_true, and_true] at h
  obtain ⟨-, -, h3, h4, h5, h6, h7, h8⟩ := h
  match block, hpos, hle with
  | 1, _, _ | 2, _, _ | 3, _, _ | 4, _, _ | 5, _, _ =>
      simp [dropPadding, pad, gather, shrink_append, check_of, h3, h4, h5, h6, h7, h8]

/-- A block that was encoded keeps as many bytes as it had. -/
theorem dropPadding_encodedGroups {str : Bytes} (hpos : 1 ≤ str.length) (hle : str.length ≤ 5)
    (front : Bytes) :
    dropPadding ndebug (encodedGroups str) (front ++ gather (encodedGroups str)) =
      .ok (front ++ str) := by
  have hdrop := dropPadding_pad ndebug (spread_ne_padding (fun k => str.getD k 0)) hpos hle front
    (encodedGroups str)
  rwa [gather_encodedGroups hpos hle] at hdrop

/-- The bytes come back one block after the other, behind those that are `done`. -/
theorem base32DecodeLoop_encoded (str done : Bytes) :
    base32DecodeLoop ndebug (encoded str) done.length
        (done ++ List.replicate ((encoded str).length / 8 * 5) 0) = .ok (done ++ str) := by
  have hgroups (block : Bytes) := spread_le (fun k => block.getD k 0)
  have hturn (block rest : Bytes) := base32DecodeLoop_spelled ndebug
    (n := encodedGroups block) (hgroups block _ (by simp [Groups.toList, encodedGroups, pad]))
    (hgroups block _ (by simp [Groups.toList, encodedGroups, pad])) (pad_le (hgroups block) _) rest
  induction str using block_induction generalizing done with
  | nil => simp [base32DecodeLoop, encoded]
  | short str hpos hlt =>
      have hone := hturn str []
      rw [List.append_nil] at hone
      rw [encoded_short hpos hlt, hone, length_spelled, writeAt_done (by simp [length_gather]),
        ok_bind, List.drop_replicate, length_gather, Nat.sub_self, List.replicate_zero,
        List.append_nil, dropPadding_encodedGroups ndebug hpos (by omega), ok_bind]
      rfl
  | full block str hblock ih =>
      have hbytes : (gather (encodedGroups block)).take block.length = block :=
        gather_encodedGroups (by omega) (by omega)
      rw [List.take_of_length_le (by rw [length_gather]; omega)] at hbytes
      have hkept : (encodedGroups block).n8 ≠ 32 := by
        simp only [encodedGroups, hblock, pad]
        exact spread_ne_padding (fun k => block.getD k 0) _ (by simp [Groups.toList])
      have hnext := ih (done ++ block)
      rw [List.length_append, hblock] at hnext
      rw [encoded_full hblock, hturn, List.length_append, length_spelled,
        show (8 + (encoded str).length) / 8 * 5 = 5 + (encoded str).length / 8 * 5 by omega,
        writeAt_done (by simp [length_gather]), ok_bind, dropPadding, if_neg hkept, ok_bind,
        List.drop_replicate, length_gather, Nat.add_sub_cancel_left, hbytes, hnext,
        List.append_assoc]

end Decode

/-- Encoding and decoding return normally on every byte string, whether or not asserts are
compiled in, and decoding gives the string back. -/
theorem base32_round_trip (str : Bytes) :
    ∃ text, base32Encode str = .ok text ∧ text.length = 8 * ((str.length + 4) / 5) ∧
      (∀ c ∈ text, InAlphabet c) ∧ ∀ ndebug, base32Decode ndebug text = .ok str := by
  refine ⟨encoded str, base32Encode_eq str, length_encoded str, encoded_inAlphabet str, ?_⟩
  intro ndebug
  have hmod : (encoded str).length % 8 = 0 := by
    rw [length_encoded]
    omega
  have hloop := base32DecodeLoop_encoded ndebug str []
  simp only [base32Decode, check_of ndebug hmod, ok_bind, if_neg (not_not.mpr hmod)]
  exact hloop

end Encoding

end LibMsf
