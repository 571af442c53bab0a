import Mathlib

/-!
Steps of uneven height.

`height N r s` climbs by `N / s` on average, rounded down. Its inverse is again a division:
`height N r s q ≤ x` exactly when `q ≤ level N r s x`, so the level of `x` is the last step
that is not above `x`.
-/

namespace Staircase

def height (N r s q : Int) : Int := (N * q + r) / s

def level (N r s x : Int) : Int := (s * x + (s - 1 - r)) / N

variable {N r s q x : Int} (hN : 0 < N) (hs : 0 < s)

include hN hs

theorem height_le_iff : height N r s q ≤ x ↔ q ≤ level N r s x := by
  have hdown : height N r s q ≤ x ↔ N * q + r < s * (x + 1) := by
    rw [height, ← Int.lt_add_one_iff, Int.ediv_lt_iff_lt_mul hs, Int.mul_comm (x + 1)]
  have hup : q ≤ level N r s x ↔ N * q ≤ s * x + (s - 1 - r) := by
    rw [level, Int.le_ediv_iff_mul_le hN, Int.mul_comm]
  rw [hdown, hup, Int.mul_add, Int.mul_one]
  omega

theorem height_level_le : height N r s (level N r s x) ≤ x :=
  (height_le_iff hN hs).mpr (Int.le_refl _)

theorem lt_height_level : x < height N r s (level N r s x + 1) := by
  rw [← Int.not_le, height_le_iff hN hs]
  omega

theorem level_eq (hlow : height N r s q ≤ x) (hhigh : x < height N r s (q + 1)) :
    level N r s x = q := by
  have hle := (height_le_iff hN hs).mp hlow
  rw [← Int.not_le, height_le_iff hN hs] at hhigh
  omega

end Staircase
