import LibMsf.Base.MemPoolBlocks

/-!
Block conservation of the slab allocator.

A session is a pool together with the pointers that its caller holds and the slab
each was handed out from; this second part is a record of the calls, not something
the pool stores. The blocks of a slab are those that `CreateSlab` put on its free
list. The results are for every list of calls in which the caller frees only
pointers it holds, whatever `malloc` returns as long as its blocks are distinct.
-/

namespace LibMsf

open Cxx

inductive PoolOp where
  | malloc (size : Nat)
  | free (ptr : Nat) (stack : MemBlk)

structure PoolSession where
  pool : MemPool
  held : List (Fin 12 × Nat)

namespace PoolSession

def start (heap : Heap) : PoolSession :=
  { pool := .new heap, held := [] }

def hand (s : PoolSession) (pool : MemPool) : MemBlkIdx → Option Nat → PoolSession
  | .slab idx, some ptr => { pool, held := (idx, ptr) :: s.held }
  | _, _ => { s with pool }

def step (s : PoolSession) : PoolOp → Except Fault (PoolSession × Option Nat)
  | .malloc size =>
      let r := s.pool.malloc size
      .ok (s.hand r.2 (s.pool.getMemBlkIdx (UInt32.ofNat size)) r.1, r.1)
  | .free ptr stack => do
      let pool ← s.pool.free stack ptr
      return ({ pool, held := s.held.eraseP (·.2 == ptr) }, none)

def run : PoolSession → List PoolOp → Except Fault (PoolSession × List (Option Nat)) :=
  Run.execute step

/-- The caller frees only what it holds. -/
def Owned (s : PoolSession) : PoolOp → Prop
  | .malloc _ => True
  | .free ptr _ => ptr ∈ s.held.map Prod.snd

def heldFrom (s : PoolSession) (idx : Fin 12) : List Nat :=
  (s.held.filter (·.1 = idx)).map Prod.snd

/-- The blocks that `CreateSlab` made for a slab. -/
def created (heap : Heap) (idx : Fin 12) : List Nat :=
  ((MemPool.new heap).slabs idx).buffers

structure Conserved (heap : Heap) (s : PoolSession) : Prop where
  partition : ∀ idx, ((s.pool.slabs idx).buffers ++ s.heldFrom idx).Perm (created heap idx)
  partition_nodup : ∀ idx, ((s.pool.slabs idx).buffers ++ s.heldFrom idx).Nodup
  held_nodup : (s.held.map Prod.snd).Nodup
  freed_returns : ∀ idx ptr, (idx, ptr) ∈ s.held → ∀ stack, ∃ pool,
    s.pool.free stack ptr = .ok pool ∧
    (pool.slabs idx).buffers = (s.pool.slabs idx).buffers ++ [ptr] ∧
    ∀ other, other ≠ idx → pool.slabs other = s.pool.slabs other
  null_only : ∀ size, (s.pool.malloc size).1 = none →
    size = 0 ∨ 2 ^ 30 - 8 < size ∨
      ∃ idx, s.pool.getMemBlkIdx (UInt32.ofNat size) = .slab idx ∧
        (s.pool.slabs idx).buffers = []

/-- What every call preserves. -/
structure Accounted (heap : Heap) (s : PoolSession) : Prop where
  align : s.pool.blkAlign = 8
  map_eq : s.pool.slabAddrMap = (MemPool.new heap).slabAddrMap
  partition : ∀ idx, ((s.pool.slabs idx).buffers ++ s.heldFrom idx).Perm (created heap idx)
  held_nodup : (s.held.map Prod.snd).Nodup

theorem mem_heldFrom {s : PoolSession} {idx : Fin 12} {ptr : Nat} :
    ptr ∈ s.heldFrom idx ↔ (idx, ptr) ∈ s.held := by
  simp [heldFrom]

section Accounted

variable {heap : Heap} {s : PoolSession}

theorem start_accounted (distinct : heap.Distinct) : Accounted heap (start heap) := by
  obtain ⟨calls, hstocked⟩ := MemPool.new_stocked distinct
  refine ⟨hstocked.align, rfl, ?_, List.nodup_nil⟩
  intro idx
  simp [start, heldFrom, created]

theorem Accounted.mapped (distinct : heap.Distinct) (h : Accounted heap s) {idx : Fin 12}
    {ptr : Nat} (hmem : ptr ∈ (s.pool.slabs idx).buffers ++ s.heldFrom idx) :
    s.pool.slabAddrMap[ptr]? = some idx ∧ ptr ≠ 0 := by
  obtain ⟨calls, hstocked⟩ := MemPool.new_stocked distinct
  have hmap := hstocked.mapped idx ptr ((h.partition idx).mem_iff.mp hmem)
  rw [h.map_eq]
  exact ⟨hmap, (hstocked.origin ptr idx hmap).1⟩

theorem Accounted.partition_nodup (distinct : heap.Distinct) (h : Accounted heap s)
    (idx : Fin 12) : ((s.pool.slabs idx).buffers ++ s.heldFrom idx).Nodup := by
  obtain ⟨calls, hstocked⟩ := MemPool.new_stocked distinct
  exact (h.partition idx).nodup_iff.mpr (hstocked.nodup idx)

theorem Accounted.held_mapped (distinct : heap.Distinct) (h : Accounted heap s) {idx : Fin 12}
    {ptr : Nat} (hmem : (idx, ptr) ∈ s.held) :
    s.pool.slabAddrMap[ptr]? = some idx ∧ ptr ≠ 0 :=
  h.mapped distinct (List.mem_append_right _ (mem_heldFrom.mpr hmem))

/-- A block on a free list is not held, whichever slab it might have come from. -/
theorem Accounted.free_not_held (distinct : heap.Distinct) (h : Accounted heap s) {idx : Fin 12}
    {ptr : Nat} (hfree : ptr ∈ (s.pool.slabs idx).buffers) : ptr ∉ s.held.map Prod.snd := by
  intro hheld
  obtain ⟨⟨other, ptr'⟩, hmem, rfl⟩ := List.mem_map.mp hheld
  have hidx := (h.mapped distinct (List.mem_append_left _ hfree)).1
  rw [(h.held_mapped distinct hmem).1] at hidx
  cases hidx
  exact (List.nodup_append.mp (h.partition_nodup distinct idx)).2.2 ptr' hfree ptr'
    (mem_heldFrom.mpr hmem) rfl

theorem malloc_accounted (distinct : heap.Distinct) (h : Accounted heap s) (size : Nat) :
    ∃ s' r, s.step (.malloc size) = .ok (s', r) ∧ Accounted heap s' := by
  refine ⟨_, _, rfl, ?_⟩
  cases hidx : s.pool.getMemBlkIdx (UInt32.ofNat size) with
  | max =>
      simp only [MemPool.malloc, hidx, hand]
      exact h
  | zero =>
      simp only [MemPool.malloc, hidx, hand]
      exact h
  | slab idx =>
      rw [MemPool.malloc_slab hidx]
      cases hbuf : (s.pool.slabs idx).buffers with
      | nil =>
          rw [MemSlab.allocBlkBuffer_nil hbuf]
          simp only [hand, MemPool.updateSlab, Function.update_eq_self]
          exact h
      | cons ptr rest =>
          obtain ⟨slab', halloc, hrest⟩ := MemSlab.allocBlkBuffer_cons hbuf
          rw [halloc]
          refine ⟨h.align, h.map_eq, ?_, ?_⟩
          · intro other
            have hpart := h.partition other
            by_cases hother : other = idx
            · subst hother
              rw [hbuf] at hpart
              simp only [hand, MemPool.updateSlab_same, hrest, heldFrom, List.filter_cons,
                decide_true, if_true, List.map_cons]
              exact List.perm_middle.trans hpart
            · simpa only [hand, MemPool.updateSlab_of_ne _ _ hother, heldFrom, List.filter_cons,
                decide_eq_true_eq, Ne.symm hother, if_false] using hpart
          · have hfree : ptr ∈ (s.pool.slabs idx).buffers := by
              rw [hbuf]
              exact List.mem_cons_self
            exact List.nodup_cons.mpr ⟨h.free_not_held distinct hfree, h.held_nodup⟩

theorem heldFrom_eraseP (distinct : heap.Distinct) (h : Accounted heap s) {idx : Fin 12}
    {ptr : Nat} (hmem : (idx, ptr) ∈ s.held) :
    s.held.Perm ((idx, ptr) :: s.held.eraseP (·.2 == ptr)) := by
  obtain ⟨⟨other, ptr'⟩, before, after, -, hptr, hsplit, herase⟩ :=
    List.exists_of_eraseP hmem (p := (·.2 == ptr)) (beq_self_eq_true ptr)
  obtain rfl : ptr' = ptr := eq_of_beq hptr
  have hother : (other, ptr') ∈ s.held := by
    rw [hsplit]
    exact List.mem_append_right _ List.mem_cons_self
  have hidx := (h.held_mapped distinct hmem).1
  rw [(h.held_mapped distinct hother).1] at hidx
  cases hidx
  rw [herase, hsplit]
  exact List.perm_middle

theorem free_accounted (distinct : heap.Distinct) (h : Accounted heap s) {ptr : Nat}
    (hheld : ptr ∈ s.held.map Prod.snd) (stack : MemBlk) :
    ∃ s' r, s.step (.free ptr stack) = .ok (s', r) ∧ Accounted heap s' := by
  obtain ⟨⟨idx, ptr'⟩, hmem, rfl⟩ := List.mem_map.mp hheld
  obtain ⟨hmap, hne⟩ := h.held_mapped distinct hmem
  have hperm := heldFrom_eraseP distinct h hmem
  refine ⟨_, _, by simp only [step, MemPool.free_mapped hne hmap, ok_bind, pure_eq_ok]; rfl, ?_⟩
  refine ⟨h.align, h.map_eq, ?_, ?_⟩
  · intro other
    have hpart := h.partition other
    have hfrom := (hperm.filter (·.1 = other)).map Prod.snd
    by_cases hother : other = idx
    · subst hother
      simp only [List.filter_cons, decide_true, if_true, List.map_cons] at hfrom
      simp only [MemPool.updateSlab_same, MemSlab.addFreeBlk_buffers, List.append_assoc]
      exact (hfrom.symm.append_left _).trans hpart
    · simp only [List.filter_cons, decide_eq_true_eq, Ne.symm hother, if_false] at hfrom
      simp only [MemPool.updateSlab_of_ne _ _ hother]
      exact (hfrom.symm.append_left _).trans hpart
  · exact h.held_nodup.sublist (List.Sublist.map _ List.eraseP_sublist)

theorem step_accounted (distinct : heap.Distinct) (op : PoolOp) (h : Accounted heap s)
    (hown : s.Owned op) : ∃ s' r, s.step op = .ok (s', r) ∧ Accounted heap s' := by
  cases op with
  | malloc size => exact malloc_accounted distinct h size
  | free ptr stack => exact free_accounted distinct h hown stack

theorem Accounted.conserved (distinct : heap.Distinct) (h : Accounted heap s) :
    Conserved heap s := by
  refine ⟨h.partition, h.partition_nodup distinct, h.held_nodup, ?_, ?_⟩
  · intro idx ptr hmem stack
    obtain ⟨hmap, hne⟩ := h.held_mapped distinct hmem
    refine ⟨_, MemPool.free_mapped hne hmap stack, ?_, ?_⟩
    · rw [MemPool.updateSlab_same, MemSlab.addFreeBlk_buffers]
    · intro other hother
      exact MemPool.updateSlab_of_ne _ _ hother _
  · intro size hnull
    exact MemPool.malloc_none h.align hnull

end Accounted

/-- Every list of calls by a caller that frees only what it holds runs to its end and
leaves each slab's blocks divided between its free list and the caller. -/
theorem run_conserved (heap : Heap) (distinct : heap.Distinct) (ops : List PoolOp)
    (hown : Run.Guarded step Owned (start heap) ops) :
    ∃ s replies, run (start heap) ops = .ok (s, replies) ∧ Conserved heap s := by
  obtain ⟨s, replies, hrun, hacc⟩ := Run.execute_invariant
    (fun s op h hop => step_accounted distinct op h hop) ops (start heap)
    (start_accounted distinct) hown
  exact ⟨s, replies, hrun, hacc.conserved distinct⟩

/-- A heap that hands out addresses 8 KiB apart. -/
def pagedHeap : Heap :=
  { malloc := fun i => 8192 * (i + 1), record := fun _ => ⟨0, 0, 0, 0, 0⟩ }

theorem pagedHeap_distinct : pagedHeap.Distinct := by
  intro i j _ h
  simp only [pagedHeap] at h
  omega

theorem run_conserved_paged :
    ∃ s replies, run (start pagedHeap) [.malloc 10, .free 8192 ⟨7, 7, 7, 7, 7⟩, .malloc 10] =
      .ok (s, replies) ∧ Conserved pagedHeap s := by
  refine run_conserved pagedHeap pagedHeap_distinct _ ⟨trivial, ?_⟩
  intro s' o h
  cases h
  refine ⟨by simp only [Owned]; decide +kernel, ?_⟩
  intro s' o h
  exact ⟨trivial, fun _ _ _ => trivial⟩

end PoolSession

end LibMsf
