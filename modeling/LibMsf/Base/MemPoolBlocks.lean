import LibMsf.Base.MemPool

/-!
What each operation of the slab allocator does to the blocks of a slab.

`Stocked` holds while `CreateSlab` runs, with any alignment: the free lists have no
repetitions and the map leads from each block to the slab it was created for. Then come
`Malloc` and `Free`: which sizes the default pool serves, and what the two do to one slab
while the others stay as they are.
-/

namespace LibMsf

open Cxx

/-- No two successful calls of `malloc` return the same address. -/
def Heap.Distinct (heap : Heap) : Prop :=
  ∀ i j, heap.malloc i ≠ 0 → heap.malloc i = heap.malloc j → i = j

theorem MemSlab.addFreeBlk_buffers (slab : MemSlab) (blk : MemBlk) :
    (slab.addFreeBlk blk).buffers = slab.buffers ++ [blk.buffer] := by
  simp only [addFreeBlk, buffers, List.map_append, List.map_cons, List.map_nil]

theorem MemSlab.allocBlkBuffer_nil {slab : MemSlab} (h : slab.buffers = []) :
    slab.allocBlkBuffer = (none, slab) := by
  have hlist : slab.freeBlkList = [] := List.map_eq_nil_iff.mp h
  simp only [allocBlkBuffer, hlist]

theorem MemSlab.allocBlkBuffer_cons {slab : MemSlab} {p : Nat} {rest : List Nat}
    (h : slab.buffers = p :: rest) :
    ∃ slab', slab.allocBlkBuffer = (some p, slab') ∧ slab'.buffers = rest := by
  obtain ⟨blk, blks, hlist, rfl, rfl⟩ := List.map_eq_cons_iff.mp h
  exact ⟨{ slab with freeBlkList := blks }, by simp only [allocBlkBuffer, hlist], rfl⟩

namespace MemPool

section Frame

variable (pool : MemPool) (idx : Fin 12)

@[simp] theorem updateSlab_same (slab : MemSlab) :
    (pool.updateSlab idx slab).slabs idx = slab := by
  simp only [updateSlab, Function.update_self]

@[simp] theorem updateSlab_of_ne {other : Fin 12} (h : other ≠ idx) (slab : MemSlab) :
    (pool.updateSlab idx slab).slabs other = pool.slabs other := by
  simp only [updateSlab, Function.update_of_ne h]

theorem registerBlk_buffers_same (blk : MemBlk) :
    ((pool.registerBlk idx blk).slabs idx).buffers = (pool.slabs idx).buffers ++ [blk.buffer] := by
  simp only [registerBlk, mapBufferAddr, updateSlab_same, MemSlab.addFreeBlk_buffers]

theorem registerBlk_buffers_of_ne {other : Fin 12} (h : other ≠ idx) (blk : MemBlk) :
    ((pool.registerBlk idx blk).slabs other).buffers = (pool.slabs other).buffers := by
  simp only [registerBlk, mapBufferAddr, updateSlab_of_ne pool idx h]

theorem registerBlk_map (blk : MemBlk) (hfresh : pool.slabAddrMap[blk.buffer]? = none)
    (p : Nat) :
    (pool.registerBlk idx blk).slabAddrMap[p]? =
      if blk.buffer = p then some idx else pool.slabAddrMap[p]? := by
  have hnot : blk.buffer ∉ pool.slabAddrMap := by
    simpa using hfresh
  simp only [registerBlk, mapBufferAddr, updateSlab, Std.ExtTreeMap.getElem?_insertIfNew,
    Std.ExtTreeMap.mem_insertIfNew, compare_eq_iff_eq, hnot, not_false_eq_true, and_true, or_false,
    not_true_eq_false, and_false, if_false]

end Frame

/-- Each slab knows its class, and the map leads from its free blocks to it. -/
structure Labelled (align : UInt32) (pool : MemPool) : Prop where
  align : pool.blkAlign = align
  own : ∀ idx, (pool.slabs idx).blkIdx = idx
  mapped : ∀ idx, ∀ p ∈ (pool.slabs idx).buffers, pool.slabAddrMap[p]? = some idx

/-- The pool while its slabs are being filled, after `calls` calls of `malloc`. -/
structure Stocked (align : UInt32) (heap : Heap) (calls : Nat) (pool : MemPool) : Prop
    extends Labelled align pool where
  nodup : ∀ idx, (pool.slabs idx).buffers.Nodup
  origin : ∀ p idx, pool.slabAddrMap[p]? = some idx → p ≠ 0 ∧ ∃ i < calls, heap.malloc i = p

section Creation

variable {align : UInt32} {heap : Heap} {calls : Nat} {pool : MemPool}

theorem Stocked.more (h : Stocked align heap calls pool) :
    Stocked align heap (calls + 1) pool where
  toLabelled := h.toLabelled
  nodup := h.nodup
  origin p idx hp := by
    obtain ⟨hne, i, hi, hmalloc⟩ := h.origin p idx hp
    exact ⟨hne, i, by omega, hmalloc⟩

theorem registerBlk_own (h : ∀ idx, (pool.slabs idx).blkIdx = idx) (idx : Fin 12) (blk : MemBlk)
    (other : Fin 12) : ((pool.registerBlk idx blk).slabs other).blkIdx = other := by
  by_cases hother : other = idx
  · subst hother
    simp only [registerBlk, mapBufferAddr, updateSlab_same]
    exact h other
  · simp only [registerBlk, mapBufferAddr, updateSlab_of_ne pool idx hother]
    exact h other

variable (distinct : heap.Distinct)

include distinct

theorem Stocked.register (h : Stocked align heap calls pool) (idx : Fin 12) {blk : MemBlk}
    (hbuffer : blk.buffer = heap.malloc calls) (hne : heap.malloc calls ≠ 0) :
    Stocked align heap (calls + 1) (pool.registerBlk idx blk) := by
  have hfresh : pool.slabAddrMap[blk.buffer]? = none := by
    cases hmap : pool.slabAddrMap[blk.buffer]? with
    | none => rfl
    | some other =>
        obtain ⟨-, i, hi, hmalloc⟩ := h.origin _ _ hmap
        have := distinct calls i hne (by rw [hmalloc, hbuffer])
        omega
  have hnew : ∀ other, blk.buffer ∉ (pool.slabs other).buffers := by
    intro other hmem
    rw [h.mapped other _ hmem] at hfresh
    cases hfresh
  refine ⟨⟨h.align, registerBlk_own h.own idx blk, ?_⟩, ?_, ?_⟩
  · intro other p hp
    rw [registerBlk_map pool idx blk hfresh]
    by_cases hother : other = idx
    · subst hother
      rw [registerBlk_buffers_same, List.mem_append, List.mem_singleton] at hp
      cases hp with
      | inl hold =>
          have hdiff : blk.buffer ≠ p := fun heq => hnew other (heq ▸ hold)
          rw [if_neg hdiff]
          exact h.mapped other p hold
      | inr hlast => rw [if_pos hlast.symm]
    · rw [registerBlk_buffers_of_ne pool idx hother] at hp
      have hdiff : blk.buffer ≠ p := fun heq => hnew other (heq ▸ hp)
      rw [if_neg hdiff]
      exact h.mapped other p hp
  · intro other
    by_cases hother : other = idx
    · subst hother
      rw [registerBlk_buffers_same]
      exact List.nodup_append_comm.mp (List.nodup_cons.mpr ⟨hnew other, h.nodup other⟩)
    · rw [registerBlk_buffers_of_ne pool idx hother]
      exact h.nodup other
  · intro p other hp
    rw [registerBlk_map pool idx blk hfresh] at hp
    by_cases heq : blk.buffer = p
    · subst heq
      exact ⟨by rwa [hbuffer], calls, by omega, hbuffer.symm⟩
    · rw [if_neg heq] at hp
      exact h.more.origin p other hp

theorem createBlks_stocked (idx : Fin 12) (n : Nat) (pool : MemPool) (calls : Nat)
    (h : Stocked align heap calls pool) :
    Stocked align heap (createBlks heap idx n pool calls).2
      (createBlks heap idx n pool calls).1 := by
  induction n generalizing pool calls with
  | zero => exact h
  | succ n ih =>
      by_cases hzero : heap.malloc calls = 0
      · simpa only [createBlks, if_pos hzero] using h.more
      · simpa only [createBlks, if_neg hzero] using
          ih _ (calls + 1) (h.register distinct idx rfl hzero)

theorem createSlabs_stocked (idxs : List (Fin 12)) (pool : MemPool) (calls : Nat)
    (h : Stocked align heap calls pool) :
    Stocked align heap (createSlabs heap idxs pool calls).2
      (createSlabs heap idxs pool calls).1 := by
  induction idxs generalizing pool calls with
  | nil => exact h
  | cons idx rest ih => exact ih _ _ (createBlks_stocked distinct idx _ pool calls h)

end Creation

theorem defaultMemSlab_buffers : ∀ idx, (defaultMemSlab idx).buffers = [] := by
  decide

theorem defaultMemSlab_own : ∀ idx, (defaultMemSlab idx).blkIdx = idx := by
  decide

theorem newAligned_stocked {heap : Heap} (distinct : heap.Distinct) {align : UInt32}
    (hpower : isPowerOf2 align = true) (hword : align % 8 = 0) :
    ∃ calls, Stocked align heap calls (newAligned heap align) := by
  have hne : align ≠ 0 := by
    rintro rfl
    cases hpower
  have hvalid : (!isPowerOf2 align || align % 8 != 0) = false := by
    rw [hpower, hword]
    rfl
  have hnew : newAligned heap align =
      createSlab heap { blkAlign := align, slabs := defaultMemSlab, slabAddrMap := ∅ } := by
    simp only [newAligned, init, if_neg hne, hvalid, Bool.false_eq_true, if_false]
  have hstart : Stocked align heap 0
      { blkAlign := align, slabs := defaultMemSlab, slabAddrMap := ∅ } := by
    refine ⟨⟨rfl, defaultMemSlab_own, ?_⟩, ?_, ?_⟩
    · intro idx p hp
      simp only [defaultMemSlab_buffers, List.not_mem_nil] at hp
    · intro idx
      simp only [defaultMemSlab_buffers, List.nodup_nil]
    · intro p idx hp
      simp at hp
  rw [hnew, createSlab]
  exact ⟨_, createSlabs_stocked distinct (List.finRange 12) _ 0 hstart⟩

theorem new_stocked {heap : Heap} (distinct : heap.Distinct) :
    ∃ calls, Stocked 8 heap calls (new heap) :=
  newAligned_stocked distinct (show isPowerOf2 8 = true by decide) (by decide)

section Roundup

variable {num align : UInt32}

/-- Without a carry out of 32 bits, the next multiple of the alignment. -/
theorem roundup_of_le (halign : align ≠ 0) (h : num.toNat + align.toNat ≤ 2 ^ 32) :
    (roundup num align).toNat = (num.toNat + (align.toNat - 1)) / align.toNat * align.toNat := by
  have hpos : 0 < align.toNat := Nat.pos_of_ne_zero fun hzero => halign (UInt32.toNat_inj.mp hzero)
  have hsub : (align - 1).toNat = align.toNat - 1 :=
    UInt32.toNat_sub_of_le align 1 (UInt32.le_iff_toNat_le.mpr hpos)
  have hadd : (num + (align - 1)).toNat = num.toNat + (align.toNat - 1) := by
    rw [UInt32.toNat_add, hsub]
    exact Nat.mod_eq_of_lt (by omega)
  have hle := Nat.div_mul_le_self (num.toNat + (align.toNat - 1)) align.toNat
  rw [roundup, UInt32.toNat_mul, UInt32.toNat_div, hadd]
  exact Nat.mod_eq_of_lt (by omega)

theorem roundup_wraps (h : 2 ^ 32 < num.toNat + align.toNat) : roundup num align = 0 := by
  have hnum := num.toNat_lt
  have halign := align.toNat_lt
  have hsub : (align - 1).toNat = align.toNat - 1 :=
    UInt32.toNat_sub_of_le align 1 (UInt32.le_iff_toNat_le.mpr (show 1 ≤ align.toNat by omega))
  have hadd : (num + (align - 1)).toNat = num.toNat + (align.toNat - 1) - 2 ^ 32 := by
    rw [UInt32.toNat_add, hsub]
    omega
  have hdiv : (num + (align - 1)) / align = 0 := by
    rw [← UInt32.toNat_inj, UInt32.toNat_div, hadd, UInt32.toNat_zero]
    exact Nat.div_eq_of_lt (by omega)
  rw [roundup, hdiv, UInt32.zero_mul]

end Roundup

theorem roundup_toNat (size : UInt32) (h : size.toNat ≤ 2 ^ 30 - 8) :
    (roundup size 8).toNat = (size.toNat + 7) / 8 * 8 :=
  roundup_of_le (by decide) (show size.toNat + 8 ≤ 2 ^ 32 by omega)

/-- With the default alignment a request is refused outright only when it is zero or
larger than `2 ^ 30 - 8` after the cut to 32 bits. -/
theorem getMemBlkIdx_of_le {pool : MemPool} (halign : pool.blkAlign = 8) {size : UInt32}
    (hpos : size ≠ 0) (hle : size.toNat ≤ 2 ^ 30 - 8) :
    ∃ idx, pool.getMemBlkIdx size = .slab idx := by
  have hround : (roundup size 8).toNat < 2 ^ 30 := by
    rw [roundup_toNat size hle]
    omega
  have hlt : roundup size 8 < 1024 * 1024 * 1024 := by
    rw [UInt32.lt_iff_toNat_lt]
    exact hround
  have hfound : upperBound memBlkSizeArray (roundup size 8) < 12 := by
    apply List.findIdx_lt_length_of_exists
    exact ⟨1024 * 1024 * 1024, by simp [memBlkSizeArray], by simpa using hlt⟩
  refine ⟨⟨_, hfound⟩, ?_⟩
  simp only [getMemBlkIdx, if_neg hpos, halign, if_neg (UInt32.lt_asymm hlt),
    MemBlkIdx.ofPosition, dif_pos hfound]

theorem malloc_slab {pool : MemPool} {size : Nat} {idx : Fin 12}
    (h : pool.getMemBlkIdx (UInt32.ofNat size) = .slab idx) :
    pool.malloc size = ((pool.slabs idx).allocBlkBuffer.1,
      pool.updateSlab idx (pool.slabs idx).allocBlkBuffer.2) := by
  simp only [malloc, h]

theorem malloc_none {pool : MemPool} (halign : pool.blkAlign = 8) {size : Nat}
    (h : (pool.malloc size).1 = none) :
    size = 0 ∨ 2 ^ 30 - 8 < size ∨
      ∃ idx, pool.getMemBlkIdx (UInt32.ofNat size) = .slab idx ∧ (pool.slabs idx).buffers = [] := by
  by_cases hzero : size = 0
  · exact .inl hzero
  · by_cases hlarge : 2 ^ 30 - 8 < size
    · exact .inr (.inl hlarge)
    · have htoNat : (UInt32.ofNat size).toNat = size :=
        UInt32.toNat_ofNat_of_lt' (show size < 2 ^ 32 by omega)
      have hpos : UInt32.ofNat size ≠ 0 := by
        intro heq
        rw [heq] at htoNat
        exact hzero htoNat.symm
      obtain ⟨idx, hidx⟩ := getMemBlkIdx_of_le halign hpos (by omega)
      refine .inr (.inr ⟨idx, hidx, ?_⟩)
      rw [malloc_slab hidx] at h
      cases hbuf : (pool.slabs idx).buffers with
      | nil => rfl
      | cons p rest =>
          obtain ⟨slab', halloc, -⟩ := MemSlab.allocBlkBuffer_cons hbuf
          rw [halloc] at h
          cases h

theorem free_mapped {pool : MemPool} {ptr : Nat} {idx : Fin 12} (hne : ptr ≠ 0)
    (hmap : pool.slabAddrMap[ptr]? = some idx) (stack : MemBlk) :
    pool.free stack ptr = .ok (pool.updateSlab idx
      ((pool.slabs idx).addFreeBlk { stack with buffer := ptr })) := by
  simp only [free, if_neg hne, hmap]

end MemPool

end LibMsf
