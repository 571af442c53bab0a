import Mathlib

/-!
Fields of bits in bytes and words, as numbers.

Masking a contiguous range of bits and shifting it down is a division and a remainder;
masking the low bits and shifting them up is a remainder and a product; joining two ranges
that do not overlap is a sum. Bit-level packing then becomes linear arithmetic.
-/

namespace Bits

/-- What a table says of the bytes below a bound. -/
theorem byte_of_table {P : UInt8 → Prop} {bound : Nat} (htable : ∀ k < bound, P (UInt8.ofNat k))
    (v : UInt8) (hv : v.toNat < bound) : P v := by
  have hentry := htable v.toNat hv
  rw [UInt8.ofNat_toNat] at hentry
  exact hentry

theorem and_shiftRight {x m k w : Nat} (hm : m = (2 ^ w - 1) <<< k) :
    (x &&& m) >>> k = x / 2 ^ k % 2 ^ w := by
  rw [hm, Nat.shiftRight_and_distrib, Nat.shiftLeft_shiftRight, Nat.and_two_pow_sub_one_eq_mod,
    Nat.shiftRight_eq_div_pow]

theorem or_eq_add {x y q i : Nat} (hx : x = q * 2 ^ i) (hy : y < 2 ^ i) : x ||| y = x + y := by
  rw [hx, Nat.mul_comm]
  exact (Nat.two_pow_add_eq_or_of_lt hy q).symm

/-- A flag above a counter. -/
theorem and_flag {r o m : Nat} (hr : r < 2 ^ m) (ho : o ≤ 1) :
    (r + 2 ^ m * o) &&& 2 ^ m = 2 ^ m * o := by
  have hdiv : (r + 2 ^ m * o) / 2 ^ m = o := by
    rw [Nat.add_mul_div_left _ _ (Nat.two_pow_pos m), Nat.div_eq_of_lt hr, Nat.zero_add]
  rw [Nat.and_two_pow, Nat.testBit_eq_decide_div_mod_eq, hdiv, Nat.mul_comm]
  match o with
  | 0 => rfl
  | 1 => rfl

theorem and_counter {r o k m : Nat} (hr : r < 2 ^ k) (hkm : k ≤ m) :
    (r + 2 ^ m * o) &&& (2 ^ k - 1) = r := by
  have hsplit : 2 ^ m * o = 2 ^ k * (2 ^ (m - k) * o) := by
    rw [← Nat.mul_assoc, ← Nat.pow_add, Nat.add_sub_cancel' hkm]
  rw [Nat.and_two_pow_sub_one_eq_mod, hsplit, Nat.add_mul_mod_self_left, Nat.mod_eq_of_lt hr]

theorem toNat_field (x m s : UInt8) (k w : Nat) (hk : s.toNat = k) (hlt : k < 8)
    (hm : m.toNat = (2 ^ w - 1) <<< k) : ((x &&& m) >>> s).toNat = x.toNat / 2 ^ k % 2 ^ w := by
  rw [UInt8.toNat_shiftRight, UInt8.toNat_and, hk, Nat.mod_eq_of_lt hlt, and_shiftRight hm]

theorem toNat_raised (x m s : UInt8) (k w : Nat) (hk : s.toNat = k) (hle : w + k ≤ 8)
    (hw : 0 < w) (hm : m.toNat = 2 ^ w - 1) :
    ((x &&& m) <<< s).toNat = x.toNat % 2 ^ w * 2 ^ k := by
  have hlt : x.toNat % 2 ^ w * 2 ^ k < 2 ^ 8 := by
    calc x.toNat % 2 ^ w * 2 ^ k < 2 ^ w * 2 ^ k :=
          Nat.mul_lt_mul_of_pos_right (Nat.mod_lt _ (Nat.two_pow_pos w)) (Nat.two_pow_pos k)
      _ = 2 ^ (w + k) := (Nat.pow_add 2 w k).symm
      _ ≤ 2 ^ 8 := Nat.pow_le_pow_right (by omega) hle
  rw [UInt8.toNat_shiftLeft, UInt8.toNat_and, hm, Nat.and_two_pow_sub_one_eq_mod, hk,
    Nat.mod_eq_of_lt (show k < 8 by omega), Nat.shiftLeft_eq, Nat.mod_eq_of_lt hlt]

/-- Bits that lie above others are added to them. -/
theorem toNat_above {x y : UInt8} (q i : Nat) (hx : x.toNat = q * 2 ^ i) (hy : y.toNat < 2 ^ i) :
    (x ||| y).toNat = x.toNat + y.toNat := by
  rw [UInt8.toNat_or, or_eq_add hx hy]

theorem toNat_below {x y : UInt8} (q i : Nat) (hx : x.toNat = q * 2 ^ i) (hy : y.toNat < 2 ^ i) :
    (y ||| x).toNat = x.toNat + y.toNat := by
  rw [UInt8.or_comm, toNat_above q i hx hy]

theorem toNat_digit (x m s : UInt32) (k w : Nat) (hk : s.toNat = k) (hlt : k < 32)
    (hm : m.toNat = 2 ^ w - 1) : ((x >>> s) &&& m).toNat = x.toNat / 2 ^ k % 2 ^ w := by
  rw [UInt32.toNat_and, UInt32.toNat_shiftRight, hk, Nat.mod_eq_of_lt hlt, hm,
    Nat.and_two_pow_sub_one_eq_mod, Nat.shiftRight_eq_div_pow]

theorem toNat_moved (x s : UInt32) (k : Nat) (hk : s.toNat = k) (hlt : k < 32)
    (hx : x.toNat * 2 ^ k < 2 ^ 32) : (x <<< s).toNat = x.toNat * 2 ^ k := by
  rw [UInt32.toNat_shiftLeft, hk, Nat.mod_eq_of_lt hlt, Nat.shiftLeft_eq, Nat.mod_eq_of_lt hx]

end Bits
