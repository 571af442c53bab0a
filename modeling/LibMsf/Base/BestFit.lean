import LibMsf.Base.MallocSize

/-!
The class that `GetMemBlkIdx` looks up.

A size goes to the first class above it once it is rounded up, found with `upper_bound`. That
is the smallest class that holds the size as long as the rounded size is not itself the size of
a class. A size that fits exactly goes to the next class, and 2^30, which the test before the
search lets through, has no next class.
-/

namespace LibMsf

open Cxx

/-- A size rounded up to the default alignment. -/
def alignedSize (size : Nat) : Nat := (size + 7) / 8 * 8

/-- The index of the smallest class that holds the size. -/
def BestFit (idx : MemBlkIdx) (size : Nat) : Prop :=
  ∃ i, idx = .slab i ∧ size ≤ classSize i ∧ ∀ j, size ≤ classSize j → classSize i ≤ classSize j

theorem classSize_mono : ∀ i j : Fin 12, i ≤ j → classSize i ≤ classSize j := by
  decide

namespace MemPool

variable {pool : MemPool} {size : UInt32} {i : Fin 12}

/-- No class before the one that is found is above the rounded size. -/
theorem getMemBlkIdx_first (h : pool.getMemBlkIdx size = .slab i) {j : Fin 12}
    (hj : (roundup size pool.blkAlign).toNat < classSize j) : i ≤ j := by
  by_contra hlt
  have hbefore : (j : Nat) < upperBound memBlkSizeArray (roundup size pool.blkAlign) := by
    rw [← getMemBlkIdx_slab h]
    exact Fin.lt_def.mp (not_le.mp hlt)
  have hnot := List.not_of_lt_findIdx hbefore
  exact of_decide_eq_false hnot (UInt32.lt_iff_toNat_lt.mpr hj)

/-- With the default alignment, the class of a size up to 2^30 is the smallest one that holds
it just when no class has exactly the rounded size. -/
theorem getMemBlkIdx_bestFit_iff (pool : MemPool) (halign : pool.blkAlign = 8) (size : UInt32)
    (hpos : 1 ≤ size.toNat) (hle : size.toNat ≤ 2 ^ 30) :
    BestFit (pool.getMemBlkIdx size) (alignedSize size.toNat) ↔
      ∀ j, classSize j ≠ alignedSize size.toNat := by
  have hround : (roundup size pool.blkAlign).toNat = alignedSize size.toNat := by
    rw [halign]
    exact roundup_of_le (by decide) (show size.toNat + 8 ≤ 2 ^ 32 by omega)
  constructor
  · rintro ⟨i, hidx, -, hsmallest⟩ j hexact
    have habove := roundup_lt_classSize hidx
    have hbest := hsmallest j hexact.ge
    omega
  · intro hnone
    have hne : size ≠ 0 := by
      rintro rfl
      exact absurd hpos (by decide)
    have hbelow : size.toNat ≤ 2 ^ 30 - 8 := by
      have hlast : 2 ^ 30 ≠ alignedSize size.toNat := hnone 11
      rw [alignedSize] at hlast
      omega
    obtain ⟨i, hidx⟩ := getMemBlkIdx_of_le halign hne hbelow
    refine ⟨i, hidx, ?_, ?_⟩
    · exact (hround ▸ roundup_lt_classSize hidx).le
    · intro j hj
      have hlt := lt_of_le_of_ne hj (hnone j).symm
      exact classSize_mono i j (getMemBlkIdx_first hidx (hround ▸ hlt))

/-- 1000 bytes come from the class of 1024. -/
theorem getMemBlkIdx_bestFit_thousand :
    BestFit ((new PoolSession.pagedHeap).getMemBlkIdx 1000) 1000 :=
  (getMemBlkIdx_bestFit_iff (new PoolSession.pagedHeap) (by decide +kernel) 1000 (by decide)
    (by decide)).mpr (by decide)

/-- 32 bytes come from the class of 64, and 2^30 from none. -/
theorem exact_sizes_skip_their_class :
    (new PoolSession.pagedHeap).getMemBlkIdx 32 = .slab 1 ∧ alignedSize 32 = classSize 0 ∧
    (new PoolSession.pagedHeap).getMemBlkIdx (1024 * 1024 * 1024) = .max ∧
    alignedSize (2 ^ 30) = classSize 11 ∧
    ¬BestFit ((new PoolSession.pagedHeap).getMemBlkIdx 32) 32 ∧
    ¬BestFit ((new PoolSession.pagedHeap).getMemBlkIdx (1024 * 1024 * 1024)) (2 ^ 30) := by
  have hsmall : (new PoolSession.pagedHeap).getMemBlkIdx 32 = .slab 1 := by decide +kernel
  have hlarge : (new PoolSession.pagedHeap).getMemBlkIdx (1024 * 1024 * 1024) = .max := by
    decide +kernel
  refine ⟨hsmall, by decide, hlarge, by decide, ?_, ?_⟩
  · rintro ⟨i, hidx, -, hsmallest⟩
    cases hsmall.symm.trans hidx
    exact absurd (hsmallest 0 (by decide)) (by decide)
  · rintro ⟨i, hidx, -⟩
    cases hlarge.symm.trans hidx

end MemPool

end LibMsf
