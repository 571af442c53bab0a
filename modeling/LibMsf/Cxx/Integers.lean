import LibMsf.Cxx.Memory

/-!
Values of type `int`. Arithmetic whose result does not fit is not defined, so every
intermediate result of a modelled expression goes through `asInt`. Conversions between
integer types wrap; one from a floating value drops the fraction and is not defined when
what is left does not fit.
-/

namespace Cxx

def asInt (v : Int) : Except Fault Int :=
  if -2 ^ 31 ≤ v ∧ v < 2 ^ 31 then .ok v else .error .overflow

theorem asInt_of {v : Int} (hlow : -2 ^ 31 ≤ v) (hhigh : v < 2 ^ 31) : asInt v = .ok v :=
  if_pos ⟨hlow, hhigh⟩

theorem asInt_overflow {v : Int} (h : 2 ^ 31 ≤ v) : asInt v = .error .overflow :=
  if_neg (fun hfits => Int.not_lt.mpr h hfits.2)

/-- A signed value that becomes a `size_t`. -/
@[irreducible] def toSize (v : Int) : Nat :=
  (v % 2 ^ 64).toNat

theorem toSize_natCast {n : Nat} (h : n < 2 ^ 64) : toSize n = n := by
  unfold toSize
  omega

/-- A floating value that becomes a `uint32_t`. -/
def truncateUInt32 (r : ℚ) : Except Fault UInt32 :=
  if -1 < r ∧ r < 2 ^ 32 then .ok (.ofNat ⌊r⌋.toNat) else .error .overflow

/-- A `uint32_t` that becomes an `int`. -/
def signedUInt32 (u : UInt32) : Int :=
  if u.toNat < 2 ^ 31 then u.toNat else u.toNat - 2 ^ 32

theorem signedUInt32_of_lt {u : UInt32} (h : u.toNat < 2 ^ 31) : signedUInt32 u = u.toNat :=
  if_pos h

theorem signedUInt32_neg {u : UInt32} (h : 2 ^ 31 ≤ u.toNat) : signedUInt32 u < 0 := by
  have hlt := u.toNat_lt
  rw [signedUInt32, if_neg (Nat.not_lt.mpr h)]
  omega

theorem truncateUInt32_of_lt {r : ℚ} (hnonneg : 0 ≤ r) (hlt : r < 2 ^ 32) :
    ∃ u : UInt32, truncateUInt32 r = .ok u ∧ (u.toNat : Int) = ⌊r⌋ := by
  have hfloor : 0 ≤ ⌊r⌋ := Int.floor_nonneg.mpr hnonneg
  have hbound : ⌊r⌋ < 2 ^ 32 := Int.floor_lt.mpr (by exact_mod_cast hlt)
  have hsize : ⌊r⌋.toNat < UInt32.size := by
    rw [UInt32.size]
    omega
  refine ⟨_, if_pos ⟨neg_one_lt_zero.trans_le hnonneg, hlt⟩, ?_⟩
  rw [UInt32.toNat_ofNat_of_lt' hsize, Int.toNat_of_nonneg hfloor]

theorem truncateUInt32_overflow {r : ℚ} (hle : 2 ^ 32 ≤ r) :
    truncateUInt32 r = .error .overflow :=
  if_neg fun hfits => not_lt.mpr hle hfits.2

end Cxx
