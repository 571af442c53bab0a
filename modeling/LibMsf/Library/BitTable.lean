import Mathlib

/-!
A table of bytes as a set of bit positions.

Position `p` is bit `p % 8` of byte `p / 8`. Joining a byte with a shifted one adds one
position to the set; masking a byte with a shifted one tests for it.
-/

namespace BitTable

def Member (table : List UInt8) (p : Nat) : Prop :=
  ∃ cell, table[p / 8]? = some cell ∧ cell.toNat.testBit (p % 8) = true

theorem toNat_one_shiftLeft {r : UInt8} (h : r.toNat < 8) :
    ((1 : UInt8) <<< r).toNat = 2 ^ r.toNat := by
  have hlt : 2 ^ r.toNat < 2 ^ 8 := Nat.pow_lt_pow_right (by decide) h
  rw [UInt8.toNat_shiftLeft, Nat.mod_eq_of_lt h]
  change 1 <<< r.toNat % 2 ^ 8 = 2 ^ r.toNat
  rw [Nat.one_shiftLeft, Nat.mod_eq_of_lt hlt]

theorem testBit_or_shifted (cell : UInt8) {r : UInt8} (h : r.toNat < 8) (i : Nat) :
    (cell ||| 1 <<< r).toNat.testBit i = true ↔ cell.toNat.testBit i = true ∨ i = r.toNat := by
  rw [UInt8.toNat_or, toNat_one_shiftLeft h, Nat.testBit_or, Nat.testBit_two_pow, Bool.or_eq_true,
    decide_eq_true_eq]
  exact or_congr_right eq_comm

theorem and_shifted_eq_zero (cell : UInt8) {r : UInt8} (h : r.toNat < 8) :
    cell &&& 1 <<< r = 0 ↔ cell.toNat.testBit r.toNat = false := by
  have hzero : (0 : UInt8).toNat = 0 := rfl
  rw [← UInt8.toNat_inj, UInt8.toNat_and, toNat_one_shiftLeft h, hzero, Nat.and_two_pow]
  cases cell.toNat.testBit r.toNat with
  | true => simp
  | false => simp

theorem member_mark {table table' : List UInt8} {cell r : UInt8} {p : Nat}
    (hcell : table[p / 8]? = some cell) (hr : r.toNat = p % 8)
    (hmark : ∀ i, table'[i]? = if i = p / 8 then some (cell ||| 1 <<< r) else table[i]?) (q : Nat) :
    Member table' q ↔ Member table q ∨ q = p := by
  have hr8 : r.toNat < 8 := hr ▸ Nat.mod_lt p (by decide)
  unfold Member
  rw [hmark]
  by_cases hsame : q / 8 = p / 8
  · have hpos : q % 8 = r.toNat ↔ q = p := by omega
    rw [if_pos hsame, hsame, hcell]
    simp only [Option.some.injEq, exists_eq_left', testBit_or_shifted cell hr8, hpos]
  · have hne : q ≠ p := fun heq => hsame (by rw [heq])
    simp only [if_neg hsame, hne, or_false]

end BitTable
