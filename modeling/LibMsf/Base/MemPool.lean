import LibMsf.Library.Run

/-!
The slab allocator of `base/mem_pool.h` and `base/mem_pool.cc`.

A pool has the twelve slabs of `kDefaultMemSlab` and a map from the address of each
block to its slab; a slab's address is its position. Both constructors start with
`flags_ == 0`, so `CreateSlab` takes its blocks from `malloc`, which is a parameter,
as is what uninitialised block records hold. The block counters that nothing reads
(`padding_`, `used_blk_nr_`, `used_blk_list_`) are left out.
-/

namespace LibMsf

open Cxx

def memBlkSizeArray : List UInt32 :=
  [32, 64, 128, 256, 512, 1024, 2048, 4096, 8096, 1024 * 1024 * 1, 1024 * 1024 * 2,
    1024 * 1024 * 1024]

inductive MemBlkIdx where
  | slab (idx : Fin 12)
  | max
  | zero
deriving DecidableEq, Repr

/-- The cast `(MemBlkIdx)idx` of a position in `kMemBlkSizeArray` or its end. -/
def MemBlkIdx.ofPosition (idx : Nat) : MemBlkIdx :=
  if h : idx < 12 then .slab ⟨idx, h⟩ else .max

/-- `MSF_ROUNDUP` at `uint32_t`. -/
def roundup (num align : UInt32) : UInt32 :=
  (num + (align - 1)) / align * align

/-- `std::upper_bound` on an ascending array: the first position whose value exceeds `v`. -/
def upperBound (values : List UInt32) (v : UInt32) : Nat :=
  values.findIdx (v < ·)

def isPowerOf2 (n : UInt32) : Bool :=
  n != 0 && (n &&& (n - 1)) == 0

structure MemBlk where
  blkIdx : UInt32
  refCnt : UInt32
  usedSize : UInt32
  magic : UInt32
  buffer : Nat
deriving DecidableEq, Repr

structure MemSlab where
  blkIdx : Fin 12
  minBlkNr : Nat
  maxBlkNr : Nat
  growBlkNr : Nat
  freeBlkList : List MemBlk
deriving Repr

namespace MemSlab

def new (blkIdx : Fin 12) (minBlkNr maxBlkNr growBlkNr : Nat) : MemSlab :=
  { blkIdx, minBlkNr, maxBlkNr, growBlkNr, freeBlkList := [] }

def addFreeBlk (slab : MemSlab) (blk : MemBlk) : MemSlab :=
  { slab with freeBlkList := slab.freeBlkList ++ [blk] }

/-- The buffer of the first free block, or `none` for `nullptr`. -/
def allocBlkBuffer (slab : MemSlab) : Option Nat × MemSlab :=
  match slab.freeBlkList with
  | [] => (none, slab)
  | blk :: rest => (some blk.buffer, { slab with freeBlkList := rest })

def buffers (slab : MemSlab) : List Nat :=
  slab.freeBlkList.map MemBlk.buffer

end MemSlab

def defaultMemSlab : Fin 12 → MemSlab :=
  ![.new 0 4 1024 8, .new 1 4 1024 8,
    .new 2 4 1024 8, .new 3 4 1024 8,
    .new 4 4 1024 8, .new 5 4 1024 8,
    .new 6 4 1024 8, .new 7 4 1024 8,
    .new 8 4 1024 8, .new 9 0 1024 8,
    .new 10 0 1024 8, .new 11 0 1 0]

structure MemPool where
  blkAlign : UInt32
  slabs : Fin 12 → MemSlab
  slabAddrMap : Std.ExtTreeMap Nat (Fin 12)

/-- What the pool finds outside: the address that the `i`-th call of `malloc` returns,
zero when it fails, and the contents of the record that is filled at that call. -/
structure Heap where
  malloc : Nat → Nat
  record : Nat → MemBlk

namespace MemPool

/-- `std::map::insert` keeps an entry that is already there. -/
def mapBufferAddr (pool : MemPool) (idx : Fin 12) (buffer : Nat) : MemPool :=
  { pool with slabAddrMap := pool.slabAddrMap.insertIfNew buffer idx }

def updateSlab (pool : MemPool) (idx : Fin 12) (slab : MemSlab) : MemPool :=
  { pool with slabs := Function.update pool.slabs idx slab }

/-- The block joins the free list and is entered in the map, twice. -/
def registerBlk (pool : MemPool) (idx : Fin 12) (blk : MemBlk) : MemPool :=
  let pool := pool.updateSlab idx ((pool.slabs idx).addFreeBlk blk)
  (pool.mapBufferAddr idx blk.buffer).mapBufferAddr idx blk.buffer

/-- The inner loop of `CreateSlab` for one slab, with the number of `malloc` calls made. -/
def createBlks (heap : Heap) (idx : Fin 12) : Nat → MemPool → Nat → MemPool × Nat
  | 0, pool, calls => (pool, calls)
  | n + 1, pool, calls =>
      let buffer := heap.malloc calls
      if buffer = 0 then (pool, calls + 1)
      else
        let blkIdx := UInt32.ofNat (pool.slabs idx).blkIdx
        let blk : MemBlk := { heap.record calls with blkIdx, buffer }
        createBlks heap idx n (pool.registerBlk idx blk) (calls + 1)

def createSlabs (heap : Heap) : List (Fin 12) → MemPool → Nat → MemPool × Nat
  | [], pool, calls => (pool, calls)
  | idx :: rest, pool, calls =>
      let created := createBlks heap idx (pool.slabs idx).minBlkNr pool calls
      createSlabs heap rest created.1 created.2

def createSlab (heap : Heap) (pool : MemPool) : MemPool :=
  (createSlabs heap (List.finRange 12) pool 0).1

/-- `false` when the alignment is refused; the pool is then left without blocks. -/
def init (heap : Heap) (pool : MemPool) : MemPool × Bool :=
  if pool.blkAlign = 0 then (createSlab heap { pool with blkAlign := 8 }, true)
  else if !isPowerOf2 pool.blkAlign || pool.blkAlign % 8 != 0 then (pool, false)
  else (createSlab heap pool, true)

/-- The constructor with an alignment; its result of `Init` is ignored. -/
def newAligned (heap : Heap) (blkAlign : UInt32) : MemPool :=
  (init heap { blkAlign, slabs := defaultMemSlab, slabAddrMap := ∅ }).1

def new (heap : Heap) : MemPool :=
  newAligned heap 8

def getMemBlkIdx (pool : MemPool) (size : UInt32) : MemBlkIdx :=
  if size = 0 then .zero
  else
    let alignSize := roundup size pool.blkAlign
    if 1024 * 1024 * 1024 < alignSize then .max
    else .ofPosition (upperBound memBlkSizeArray alignSize)

/-- `size_t` is cut to `uint32_t` on the way to `GetMemBlkIdx`. -/
def malloc (pool : MemPool) (size : Nat) : Option Nat × MemPool :=
  match pool.getMemBlkIdx (UInt32.ofNat size) with
  | .max => (none, pool)
  | .zero => (none, pool)
  | .slab idx =>
      let taken := (pool.slabs idx).allocBlkBuffer
      (taken.1, pool.updateSlab idx taken.2)

/-- `container_of` takes the address of the local `p` for that of a block record, so
every field but the buffer is whatever the stack holds there. -/
def free (pool : MemPool) (stack : MemBlk) (ptr : Nat) : Except Fault MemPool :=
  if ptr = 0 then .error .aborted
  else
    match pool.slabAddrMap[ptr]? with
    | none => .error .aborted
    | some idx =>
        .ok (pool.updateSlab idx ((pool.slabs idx).addFreeBlk { stack with buffer := ptr }))

end MemPool

end LibMsf
