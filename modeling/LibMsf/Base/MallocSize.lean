import LibMsf.Base.MemPoolConservation

/-!
The size of the blocks that `Malloc` returns.

The size is cut to 32 bits and rounded up in 32 bits before its class is looked up. As
long as nothing is cut off and nothing is carried, the class is the first one above the
rounded size. A size that is cut, or rounded past 2^32 and so to zero, gets a block that is
too small. This holds in every state that a pool reaches, with every alignment that `Init`
accepts.
-/

namespace LibMsf

open Cxx

/-- `kMemBlkSizeArray[idx]`. -/
def classSize (idx : Fin 12) : Nat :=
  (memBlkSizeArray.get ⟨idx, idx.isLt⟩).toNat

theorem classSize_le : ∀ idx, classSize idx ≤ 2 ^ 30 := by
  decide

theorem isPowerOf2_le {n : UInt32} (h : isPowerOf2 n = true) : n ≠ 0 ∧ n.toNat ≤ 2 ^ 31 := by
  obtain ⟨hne, hand⟩ : n ≠ 0 ∧ n &&& (n - 1) = 0 := by simpa [isPowerOf2] using h
  refine ⟨hne, Nat.not_lt.mp fun hlt => ?_⟩
  -- Above 2^31, the number and its predecessor share the highest bit.
  have hbound := n.toNat_lt
  have hsub : (n - 1).toNat = n.toNat - 1 :=
    UInt32.toNat_sub_of_le n 1 (UInt32.le_iff_toNat_le.mpr (show 1 ≤ n.toNat by omega))
  have hzero : n.toNat &&& (n.toNat - 1) = 0 := by
    rw [← hsub, ← UInt32.toNat_and, hand, UInt32.toNat_zero]
  have hbit : (n.toNat &&& (n.toNat - 1)).testBit 31 = true := by
    rw [Nat.testBit_and, Nat.testBit_eq_decide_div_mod_eq, Nat.testBit_eq_decide_div_mod_eq,
      Bool.and_eq_true, decide_eq_true_iff, decide_eq_true_iff]
    omega
  rw [hzero, Nat.zero_testBit] at hbit
  cases hbit

namespace MemPool

/-- The size of the blocks of the slab that a pointer belongs to. -/
def blockSizeAt (pool : MemPool) (ptr : Nat) : Option Nat :=
  pool.slabAddrMap[ptr]?.map fun idx => classSize (pool.slabs idx).blkIdx

/-- The block has room for the size. -/
def Holds (pool : MemPool) (ptr size : Nat) : Prop :=
  ∃ blockSize, pool.blockSizeAt ptr = some blockSize ∧ size ≤ blockSize

section Lookup

variable {pool : MemPool} {size : UInt32} {idx : Fin 12}

theorem getMemBlkIdx_slab (h : pool.getMemBlkIdx size = .slab idx) :
    (idx : Nat) = upperBound memBlkSizeArray (roundup size pool.blkAlign) := by
  simp only [getMemBlkIdx] at h
  split at h
  · cases h
  · split at h
    · cases h
    · simp only [MemBlkIdx.ofPosition] at h
      split at h
      · cases h
        rfl
      · cases h

/-- The class is one above the rounded size. -/
theorem roundup_lt_classSize (h : pool.getMemBlkIdx size = .slab idx) :
    (roundup size pool.blkAlign).toNat < classSize idx := by
  have hidx := getMemBlkIdx_slab h
  have hfound : upperBound memBlkSizeArray (roundup size pool.blkAlign) < 12 := hidx ▸ idx.isLt
  have hlt := List.findIdx_getElem (w := hfound)
  obtain rfl : idx = ⟨_, hfound⟩ := Fin.ext hidx
  exact UInt32.lt_iff_toNat_lt.mp (of_decide_eq_true hlt)

theorem classSize_of_roundup_zero (h : pool.getMemBlkIdx size = .slab idx)
    (hzero : roundup size pool.blkAlign = 0) : classSize idx = 32 := by
  have hidx := getMemBlkIdx_slab h
  rw [hzero] at hidx
  obtain rfl : idx = 0 := Fin.ext hidx
  rfl

end Lookup

section Labelled

variable {align : UInt32} {pool : MemPool}

theorem Labelled.updateSlab (h : Labelled align pool) {idx : Fin 12} {slab : MemSlab}
    (hclass : slab.blkIdx = idx) (hmapped : ∀ p ∈ slab.buffers, pool.slabAddrMap[p]? = some idx) :
    Labelled align (pool.updateSlab idx slab) := by
  refine ⟨h.align, fun other => ?_, fun other => ?_⟩
  · by_cases hother : other = idx
    · subst hother
      rw [updateSlab_same]
      exact hclass
    · rw [updateSlab_of_ne pool idx hother]
      exact h.own other
  · by_cases hother : other = idx
    · subst hother
      rw [updateSlab_same]
      exact hmapped
    · rw [updateSlab_of_ne pool idx hother]
      exact h.mapped other

theorem Labelled.malloc (h : Labelled align pool) (size : Nat) :
    Labelled align (pool.malloc size).2 := by
  cases hidx : pool.getMemBlkIdx (UInt32.ofNat size) with
  | max =>
      simp only [MemPool.malloc, hidx]
      exact h
  | zero =>
      simp only [MemPool.malloc, hidx]
      exact h
  | slab idx =>
      rw [malloc_slab hidx]
      cases hlist : (pool.slabs idx).freeBlkList with
      | nil =>
          simp only [MemSlab.allocBlkBuffer, hlist]
          exact h.updateSlab (h.own idx) (h.mapped idx)
      | cons blk rest =>
          simp only [MemSlab.allocBlkBuffer, hlist]
          refine h.updateSlab (h.own idx) fun p hp => h.mapped idx p ?_
          rw [MemSlab.buffers, hlist]
          exact List.mem_cons_of_mem _ hp

theorem Labelled.free (h : Labelled align pool) {stack : MemBlk} {ptr : Nat} {pool' : MemPool}
    (hfree : pool.free stack ptr = .ok pool') : Labelled align pool' := by
  simp only [MemPool.free] at hfree
  split at hfree
  · cases hfree
  · split at hfree
    · cases hfree
    · rename_i idx hmap
      cases hfree
      refine h.updateSlab (h.own idx) fun p hp => ?_
      rw [MemSlab.addFreeBlk_buffers] at hp
      cases List.mem_append.mp hp with
      | inl hold => exact h.mapped idx p hold
      | inr hnew =>
          rw [List.mem_singleton.mp hnew]
          exact hmap

/-- The block that is returned belongs to the class that was looked up. -/
theorem Labelled.blockSizeAt_malloc (h : Labelled align pool) {size ptr : Nat}
    (hmalloc : (pool.malloc size).1 = some ptr) :
    ∃ idx, pool.getMemBlkIdx (UInt32.ofNat size) = .slab idx ∧
      pool.blockSizeAt ptr = some (classSize idx) := by
  cases hidx : pool.getMemBlkIdx (UInt32.ofNat size) with
  | max =>
      simp only [MemPool.malloc, hidx] at hmalloc
      cases hmalloc
  | zero =>
      simp only [MemPool.malloc, hidx] at hmalloc
      cases hmalloc
  | slab idx =>
      rw [malloc_slab hidx] at hmalloc
      refine ⟨idx, rfl, ?_⟩
      have hfirst : ptr ∈ (pool.slabs idx).buffers := by
        cases hbuf : (pool.slabs idx).buffers with
        | nil =>
            rw [MemSlab.allocBlkBuffer_nil hbuf] at hmalloc
            cases hmalloc
        | cons p rest =>
            obtain ⟨slab', halloc, -⟩ := MemSlab.allocBlkBuffer_cons hbuf
            rw [halloc] at hmalloc
            cases hmalloc
            exact List.mem_cons_self
      rw [blockSizeAt, h.mapped idx ptr hfirst, Option.map_some, h.own]

/-- In a pool whose map is right: the block has room just when the size and the alignment
add up to at most 2^32. -/
theorem Labelled.holds_iff (h : Labelled align pool) (hpower : isPowerOf2 align = true)
    {size ptr : Nat} (hmalloc : (pool.malloc size).1 = some ptr) :
    pool.Holds ptr size ↔ size + align.toNat ≤ 2 ^ 32 := by
  obtain ⟨idx, hidx, hblock⟩ := h.blockSizeAt_malloc hmalloc
  obtain ⟨hne, hsmall⟩ := isPowerOf2_le hpower
  have hpos : 0 < align.toNat := Nat.pos_of_ne_zero fun hzero => hne (UInt32.toNat_inj.mp hzero)
  have hclass := classSize_le idx
  have hholds : pool.Holds ptr size ↔ size ≤ classSize idx := by
    rw [Holds, hblock]
    simp
  rw [hholds]
  by_cases hcut : size < 2 ^ 32
  · have hsize : (UInt32.ofNat size).toNat = size := UInt32.toNat_ofNat_of_lt' hcut
    by_cases hcarry : size + align.toNat ≤ 2 ^ 32
    · refine iff_of_true ?_ hcarry
      have hround := roundup_of_le hne (show (UInt32.ofNat size).toNat + _ ≤ _ by rwa [hsize])
      have hlt := roundup_lt_classSize hidx
      rw [h.align, hround, hsize] at hlt
      have hsplit := Nat.div_add_mod' (size + (align.toNat - 1)) align.toNat
      have hrest := Nat.mod_lt (size + (align.toNat - 1)) hpos
      omega
    · refine iff_of_false ?_ hcarry
      have hzero : roundup (UInt32.ofNat size) pool.blkAlign = 0 := by
        rw [h.align]
        exact roundup_wraps (by rw [hsize]; omega)
      rw [classSize_of_roundup_zero hidx hzero]
      omega
  · refine iff_of_false ?_ ?_
    · omega
    · omega

end Labelled

end MemPool

namespace PoolSession

def startAligned (heap : Heap) (align : UInt32) : PoolSession :=
  { pool := .newAligned heap align, held := [] }

theorem hand_pool (s : PoolSession) (pool : MemPool) (idx : MemBlkIdx) (ptr : Option Nat) :
    (s.hand pool idx ptr).pool = pool := by
  cases idx with
  | slab idx =>
      cases ptr with
      | none => rfl
      | some ptr => rfl
  | max => rfl
  | zero => rfl

theorem step_labelled {align : UInt32} (s : PoolSession) (op : PoolOp) (s' : PoolSession)
    (reply : Option Nat) (h : s.pool.Labelled align) (hstep : s.step op = .ok (s', reply)) :
    s'.pool.Labelled align := by
  cases op with
  | malloc size =>
      cases hstep
      rw [hand_pool]
      exact h.malloc size
  | free ptr stack =>
      obtain ⟨pool, hfree, hpool⟩ := bind_eq_ok.mp hstep
      cases hpool
      exact h.free hfree

/-- In every state that a pool with an accepted alignment reaches, a block that `Malloc`
returns has room for the size just when the size and the alignment add up to at most 2^32. -/
theorem malloc_holds_iff (heap : Heap) (distinct : heap.Distinct) (align : UInt32)
    (hpower : isPowerOf2 align = true) (hword : align % 8 = 0) (ops : List PoolOp)
    (s : PoolSession) (replies : List (Option Nat))
    (hrun : run (startAligned heap align) ops = .ok (s, replies)) (size ptr : Nat)
    (hmalloc : (s.pool.malloc size).1 = some ptr) :
    s.pool.Holds ptr size ↔ size + align.toNat ≤ 2 ^ 32 := by
  obtain ⟨calls, hstart⟩ := MemPool.newAligned_stocked distinct hpower hword
  have hend : s.pool.Labelled align :=
    Run.execute_carries step_labelled ops hstart.toLabelled hrun
  exact hend.holds_iff hpower hmalloc

/-- A block of 2048 bytes for 1025, in a pool aligned to 64 bytes. -/
theorem malloc_holds_kilobyte :
    ∃ s replies, run (startAligned pagedHeap 64) [.malloc 10] = .ok (s, replies) ∧
      (s.pool.malloc 1025).1 = some 204800 ∧ s.pool.Holds 204800 1025 := by
  refine ⟨_, _, rfl, by decide +kernel, ?_⟩
  exact (malloc_holds_iff pagedHeap pagedHeap_distinct 64 (by decide) (by decide) [.malloc 10] _ _
    rfl 1025 204800 (by decide +kernel)).mpr (by decide)

/-- A size that is rounded to zero and one that is cut to one byte get blocks of 32 bytes. -/
theorem huge_sizes_get_small_blocks :
    ((startAligned pagedHeap 8).pool.malloc 4294967295).1 = some 8192 ∧
    ((startAligned pagedHeap 8).pool.malloc 4294967297).1 = some 8192 ∧
    (startAligned pagedHeap 8).pool.blockSizeAt 8192 = some 32 ∧
    ¬(startAligned pagedHeap 8).pool.Holds 8192 4294967295 ∧
    ¬(startAligned pagedHeap 8).pool.Holds 8192 4294967297 := by
  have hsize : (startAligned pagedHeap 8).pool.blockSizeAt 8192 = some 32 := by decide +kernel
  refine ⟨by decide +kernel, by decide +kernel, hsize, ?_, ?_⟩
  · rintro ⟨blockSize, hblock, hle⟩
    cases hsize.symm.trans hblock
    omega
  · rintro ⟨blockSize, hblock, hle⟩
    cases hsize.symm.trans hblock
    omega

end PoolSession

end LibMsf
