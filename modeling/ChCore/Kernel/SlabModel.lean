import ChCore.Lib.ByteMem
import ChCore.Lib.Runs
import ChCore.Kernel.BuddyModel

/-!
# `kmalloc` and the slab allocator

`kernel/mm/slab.c` and `kernel/mm/kmalloc.c`. A slab is a chunk of 2 MiB that
is cut into slots of one size. Its first slot holds the header

    offset 0: free_list_head    offset 8: next_slab    offset 16: order

and a free slot holds the pointer to the next free one, so both live in the
memory that is handed out. Memory is a function from addresses to bytes, and
the null pointer is address `0`.
-/

namespace ChCore.Kernel

open Lib.ByteMem Function Lib.Runs

/-- `SLAB_INIT_SIZE`. -/
def slabInitSize : Nat := 2 * 1024 * 1024

/-- `SLAB_MIN_ORDER`. -/
def slabMinOrder : Nat := 5

/-- `SLAB_MAX_ORDER`. -/
def slabMaxOrder : Nat := 11

/-- A pointer in memory. -/
def load64 (mem : Mem) (addr : Nat) : Nat := load mem addr 8

def store64 (mem : Mem) (addr value : Nat) : Mem := store mem addr 8 value

/-- `slab->next_slab`. -/
def nextSlab (mem : Mem) (slab : Nat) : Nat := load64 mem (slab + 8)

/-- `slab->order`. -/
def slabOrder (mem : Mem) (slab : Nat) : Nat := load mem (slab + 16) 4

/-- The pool, the memory, and the array `slabs`. -/
structure KmState where
  pool : PhysMemPool
  mem : Mem
  slabs : Nat → Nat

/-- The loop of `size_to_order` and of `size_to_page_order`; a number of 64
bits is halved at most 64 times. -/
def orderLoop : Nat → Nat → Nat → Nat
  | 0, _, order => order
  | rounds + 1, tmp, order =>
    if tmp > 1 then orderLoop rounds (tmp / 2) (order + 1) else order

/-- `size_to_order`. -/
def sizeToOrder (size : Nat) : Nat := let order := orderLoop 64 size 0
  if size > 2 ^ order then order + 1 else order

/-- `order_to_size`. -/
def orderToSize (order : Nat) : Nat := 2 ^ order

/-- `size_to_page_order`. -/
def sizeToPageOrder (size : Nat) : Nat :=
  let pgNum := u64 (size + (buddyPageSize - 1)) / buddyPageSize
  let order := orderLoop 64 pgNum 0
  if pgNum > 2 ^ order then order + 1 else order

/-- `get_pages` with the one pool of this board. -/
def getPages (pool : PhysMemPool) (order : Nat) : Exec (PhysMemPool × Nat) := do
  match ← buddyGetPages pool order with
  | (pool, none) => return (pool, 0)
  | (pool, some page) =>
    let addr ← pageToVirt pool page
    return (pool, addr)

/-- `page->slab = addr`. -/
def PhysMemPool.setSlab (pool : PhysMemPool) (page addr : Nat) : PhysMemPool :=
  { pool with
    pageMetadata := update pool.pageMetadata page
      { pool.pageMetadata page with slab := addr } }

/-- The loop of `alloc_slab_memory`, with the pages that are left. -/
def setSlabLoop (addr : Nat) : Nat → Nat → PhysMemPool → Exec PhysMemPool
  | 0, _, pool => .ok pool
  | rounds + 1, i, pool => do
    let page ← virtToPage pool (u64 (addr + i * buddyPageSize))
    setSlabLoop addr rounds (i + 1) (pool.setSlab page addr)

/-- `alloc_slab_memory`. -/
def allocSlabMemory (pool : PhysMemPool) (size : Nat) : Exec (PhysMemPool × Nat) := do
  let order := sizeToOrder (size / buddyPageSize)
  let (pool, addr) ← getPages pool order
  let _ ← virtToPage pool addr
  let pool ← setSlabLoop addr (orderToSize order) 0 pool
  return (pool, addr)

/-- The loop of `init_slab_cache` that links the slots, and the end of the
list behind it. -/
def linkSlots (objSize : Nat) : Nat → Nat → Mem → Mem
  | 0, slot, mem => store64 mem slot 0
  | rounds + 1, slot, mem =>
    linkSlots objSize rounds (u64 (slot + objSize)) (store64 mem slot (u64 (slot + objSize)))

/-- `init_slab_cache`. -/
def initSlabCache (s : KmState) (order size : Nat) : Exec (KmState × Nat) := do
  let (pool, addr) ← allocSlabMemory s.pool size
  let objSize := orderToSize order
  let cnt := size / objSize - 1
  let slot := u64 (addr + objSize)
  let mem := store64 s.mem addr slot
  let mem := store64 mem (addr + 8) 0
  let mem := store mem (addr + 16) 4 order
  let mem := linkSlots objSize (cnt - 1) slot mem
  return ({ s with pool, mem }, addr)

/-- The first slot is taken off the free list of a slab. -/
def takeSlot (mem : Mem) (slab : Nat) : Mem × Nat := let firstSlot := load64 mem slab
  (store64 mem slab (load64 mem firstSlot), firstSlot)

/-- The loop of `_alloc_in_slab_nolock` over the slabs behind the first one.
Each slab has pages of its own, so there are no more rounds than pages. -/
def findSlab (mem : Mem) : Nat → Nat → Exec (Option Nat)
  | 0, slab => if slab = 0 then .ok none else .error .bug
  | rounds + 1, slab =>
    if slab = 0 then .ok none
    else if load64 mem slab ≠ 0 then .ok (some slab)
    else findSlab mem rounds (nextSlab mem slab)

/-- `_alloc_in_slab_nolock`. The call that follows the creation of a slab finds
a slot in it. -/
def allocInSlabNolock : Nat → KmState → Nat → Nat → Exec (KmState × Nat)
  | 0, _, _, _ => .error .bug
  | depth + 1, s, slabHeader, order =>
    if load64 s.mem slabHeader ≠ 0 then
      let (mem, slot) := takeSlot s.mem slabHeader
      .ok ({ s with mem }, slot)
    else do
      match ← findSlab s.mem s.pool.poolPhysPageNum (nextSlab s.mem slabHeader) with
      | some slab =>
        let (mem, slot) := takeSlot s.mem slab
        return ({ s with mem }, slot)
      | none =>
        let (s, newSlab) ← initSlabCache s order slabInitSize
        let mem := store64 s.mem (newSlab + 8) slabHeader
        let slabs := update s.slabs order newSlab
        allocInSlabNolock depth { s with mem, slabs } newSlab order

/-- The slot size `alloc_in_slab` chooses, as an order. -/
def slotOrder (size : Nat) : Nat := let order := sizeToOrder size
  if order < slabMinOrder then slabMinOrder else order

/-- `alloc_in_slab`. -/
def allocInSlab (s : KmState) (size : Nat) : Exec (KmState × Nat) :=
  if size > orderToSize slabMaxOrder then .error .bug
  else
    let order := slotOrder size
    if s.slabs order = 0 then .error .nullDeref
    else allocInSlabNolock 2 s (s.slabs order) order

/-- `free_in_slab`. -/
def freeInSlab (s : KmState) (addr : Nat) : Exec KmState := do
  let page ← virtToPage s.pool addr
  let slab := (s.pool.pageMetadata page).slab
  let mem := store64 s.mem addr (load64 s.mem slab)
  return { s with mem := store64 mem slab addr }

/-- The orders that `init_slab` goes through. -/
def slabOrders : List Nat := (List.range (slabMaxOrder + 1 - slabMinOrder)).map (· + slabMinOrder)

/-- One round of the loop of `init_slab`. -/
def initSlabStep (s : KmState) (order : Nat) : Exec KmState := do
  let (s, slab) ← initSlabCache s order slabInitSize
  return { s with slabs := update s.slabs order slab }

/-- `init_slab`. -/
def initSlab (s : KmState) : Exec KmState := run initSlabStep s slabOrders

/-- The order of the pages that `kmalloc` asks for when it asks for pages. -/
def kmallocOrder (size : Nat) : Nat := if size ≤ buddyPageSize then 0 else sizeToPageOrder size

/-- `kmalloc`. -/
def kmalloc (s : KmState) (size : Nat) : Exec (KmState × Nat) :=
  if size ≤ orderToSize slabMaxOrder then allocInSlab s size
  else do
    let (pool, addr) ← getPages s.pool (kmallocOrder size)
    return ({ s with pool }, addr)

/-- `kfree`. -/
def kfree (s : KmState) (ptr : Nat) : Exec KmState := do
  let page ← virtToPage s.pool ptr
  if (s.pool.pageMetadata page).slab ≠ 0 then freeInSlab s ptr
  else
    let pool ← buddyFreePages s.pool page
    return { s with pool }

end ChCore.Kernel
