import ChCore.Kernel.Base

/-!
# The buddy system (`kernel/mm/buddy.c`)

A pointer to a `struct page` is the index of that page in the
`page_metadata` array of the pool, so `page + i` is `page + i` here too.
`global_mem` has one pool on this board (`PHYS_MEM_POOL_SIZE` is 1), which is
the pool every function below works on.

A free list is the list of the pages linked into it, the page behind
`free_list.next` first. `list_add` puts a page at the front, and `list_del`
takes a page out of the list its `node` is linked into.
-/

namespace ChCore.Kernel

/-- `BUDDY_PAGE_SIZE`. -/
def buddyPageSize : Nat := 0x1000

/-- `BUDDY_PAGE_SIZE_ORDER`. -/
def buddyPageSizeOrder : Nat := 12

/-- `BUDDY_MAX_ORDER`: the supported orders are `[0, BUDDY_MAX_ORDER)`. -/
def buddyMaxOrder : Nat := 14

/-- `struct page`, the metadata of one physical page. Its `node` is kept in
the free list it is linked into. -/
structure Page where
  allocated : Nat
  order : Nat
  /-- The slab this page belongs to; `0` is `NULL`. -/
  slab : Nat
  /-- The back pointer to the pool is set. -/
  pool : Bool
  deriving DecidableEq, Repr

/-- `struct free_list`. -/
structure FreeList where
  freeList : List Nat
  nrFree : Nat
  deriving DecidableEq, Repr

/-- `struct phys_mem_pool`. -/
structure PhysMemPool where
  poolStartAddr : Nat
  poolMemSize : Nat
  poolPhysPageNum : Nat
  pageMetadata : Nat → Page
  freeLists : Nat → FreeList

namespace PhysMemPool

/-- The first address after the pool, as the code computes it. -/
def endAddr (pool : PhysMemPool) : Nat := u64 (pool.poolStartAddr + pool.poolMemSize)

/-- `list_add(&page->node, &pool->free_lists[order].free_list)`. -/
def listAdd (pool : PhysMemPool) (page order : Nat) : PhysMemPool :=
  { pool with
    freeLists := fun k =>
      if k = order then
        { pool.freeLists k with
          freeList := page :: (pool.freeLists k).freeList }
      else pool.freeLists k }

/-- `list_del(&page->node)`. -/
def listDel (pool : PhysMemPool) (page : Nat) : PhysMemPool :=
  { pool with
    freeLists := fun k =>
      { pool.freeLists k with
        freeList := (pool.freeLists k).freeList.erase page } }

/-- `pool->free_lists[order].nr_free = f(pool->free_lists[order].nr_free)`. -/
def updNrFree (pool : PhysMemPool) (order : Nat) (f : Nat → Nat) : PhysMemPool :=
  { pool with
    freeLists := fun k =>
      if k = order then
        { pool.freeLists k with nrFree := f (pool.freeLists k).nrFree }
      else pool.freeLists k }

/-- The loop of `set_free_page` and `set_alloc_page`: the `1 << order` pages
from `start_page` on get the order and the flag. -/
def setPages (pool : PhysMemPool) (startPage order flag : Nat) : PhysMemPool :=
  { pool with
    pageMetadata := fun p =>
      if startPage ≤ p ∧ p < startPage + 2 ^ order then
        { pool.pageMetadata p with order := order, allocated := flag }
      else pool.pageMetadata p }

end PhysMemPool

/-- `set_free_page`. -/
def setFreePage (pool : PhysMemPool) (startPage order : Nat) : PhysMemPool :=
  pool.setPages startPage order 0

/-- `set_alloc_page`. -/
def setAllocPage (pool : PhysMemPool) (startPage order : Nat) : PhysMemPool :=
  pool.setPages startPage order 1

/-- `page_to_virt`. -/
def pageToVirt (pool : PhysMemPool) (page : Nat) : Exec Nat := if (pool.pageMetadata page).pool then
    .ok (u64 (page * buddyPageSize + pool.poolStartAddr))
  else .error .bug

/-- `virt_to_page`. -/
def virtToPage (pool : PhysMemPool) (addr : Nat) : Exec Nat :=
  if pool.poolStartAddr ≤ addr ∧ addr < pool.endAddr then
    .ok ((addr - pool.poolStartAddr) / buddyPageSize)
  else .error .bug

/-- `get_buddy_chunk`; `none` is the null pointer. -/
def getBuddyChunk (pool : PhysMemPool) (chunk : Nat) : Exec (Option Nat) := do
  let chunkAddr ← pageToVirt pool chunk
  let order := (pool.pageMetadata chunk).order
  let buddyChunkAddr := chunkAddr ^^^ (1 <<< (order + buddyPageSizeOrder))
  if buddyChunkAddr < pool.poolStartAddr ∨ pool.endAddr ≤ buddyChunkAddr then
    return none
  else
    let page ← virtToPage pool buddyChunkAddr
    return some page

/-- The body of the loop of `split_page`: one chunk becomes its two halves. -/
def splitOnce (pool : PhysMemPool) (page : Nat) : PhysMemPool :=
  let order := (pool.pageMetadata page).order
  let secondPage := page + 2 ^ (order - 1)
  let pool := setFreePage pool page (order - 1)
  let pool := pool.listDel page
  let pool := pool.listAdd page (order - 1)
  let pool := setFreePage pool secondPage (order - 1)
  let pool := pool.listAdd secondPage (order - 1)
  let pool := pool.updNrFree order (· - 1)
  pool.updNrFree (order - 1) (· + 2)

/-- The loop of `split_page`. The order of the chunk drops in every round, so
that order bounds the rounds; running out of it is the shift by a negative
amount that the code would then do. -/
def splitLoop : Nat → PhysMemPool → Nat → Nat → Exec (PhysMemPool × Nat)
  | 0, pool, order, page =>
    if (pool.pageMetadata page).order = order then .ok (pool, page)
    else .error .bug
  | rounds + 1, pool, order, page =>
    if (pool.pageMetadata page).order = order then .ok (pool, page)
    else splitLoop rounds (splitOnce pool page) order page

/-- `split_page`. -/
def splitPage (pool : PhysMemPool) (order page : Nat) : Exec (PhysMemPool × Nat) :=
  splitLoop (pool.pageMetadata page).order pool order page

/-- The loop of `buddy_get_pages` from `match_order` on, with the number of
rounds that are left before `match_order` passes `BUDDY_MAX_ORDER`. The last
round reads one element behind the array of free lists. -/
def getLoop (pool : PhysMemPool) (order : Nat) : Nat → Nat → Exec (PhysMemPool × Option Nat)
  | 0, _ => .ok (pool, none)
  | rounds + 1, matchOrder =>
    if buddyMaxOrder ≤ matchOrder then .error .outOfBounds
    else if 0 < (pool.freeLists matchOrder).nrFree then
      match (pool.freeLists matchOrder).freeList with
      | [] => .error .nullDeref
      | first :: _ => do
        let (pool, targetPage) ← splitPage pool order first
        let targetOrder := (pool.pageMetadata targetPage).order
        let pool := setAllocPage pool targetPage targetOrder
        let pool := pool.updNrFree targetOrder (· - 1)
        let pool := pool.listDel targetPage
        return (pool, some targetPage)
    else getLoop pool order rounds (matchOrder + 1)

/-- `buddy_get_pages`. -/
def buddyGetPages (pool : PhysMemPool) (order : Nat) : Exec (PhysMemPool × Option Nat) :=
  getLoop pool order (buddyMaxOrder + 1 - order) order

/-- The loop of `merge_page`. The order of the chunk grows in every round and
the loop returns at `BUDDY_MAX_ORDER - 1` at the latest, so that many rounds
are never used up. -/
def mergeLoop : Nat → PhysMemPool → Nat → Exec (PhysMemPool × Nat)
  | 0, _, _ => .error .bug
  | rounds + 1, pool, itPage => do
    let order := (pool.pageMetadata itPage).order
    match ← getBuddyChunk pool itPage with
    | none => return (pool, itPage)
    | some buddyPage =>
      let buddy := pool.pageMetadata buddyPage
      if buddy.allocated = 1 ∨ buddy.order ≠ order ∨ buddyMaxOrder - 1 ≤ order then
        return (pool, itPage)
      else
        let pool := pool.listDel buddyPage
        let pool := pool.updNrFree buddy.order (· - 1)
        let itPage := if itPage < buddyPage then itPage else buddyPage
        let pool := setFreePage pool itPage ((pool.pageMetadata itPage).order + 1)
        mergeLoop rounds pool itPage

/-- `merge_page`. -/
def mergePage (pool : PhysMemPool) (page : Nat) : Exec (PhysMemPool × Nat) :=
  mergeLoop buddyMaxOrder pool page

/-- `buddy_free_pages`. -/
def buddyFreePages (pool : PhysMemPool) (page : Nat) : Exec PhysMemPool := do
  let pool := setFreePage pool page (pool.pageMetadata page).order
  let (pool, page) ← mergePage pool page
  let order := (pool.pageMetadata page).order
  let pool := pool.listAdd page order
  return pool.updNrFree order (· + 1)

/-- The pool before the last loop of `init_buddy`: empty free lists, and every
page an allocated chunk of order `0`. -/
def initPool (startAddr pageNum : Nat) : PhysMemPool where
  poolStartAddr := startAddr
  poolMemSize := u64 (pageNum * buddyPageSize)
  poolPhysPageNum := pageNum
  pageMetadata := fun p =>
    if p < pageNum then ⟨1, 0, 0, true⟩ else ⟨0, 0, 0, false⟩
  freeLists := fun _ => ⟨[], 0⟩

/-- The last loop of `init_buddy`: free the pages from `pageIdx` on. `page_idx` is
an `int`, so this is the loop for pools with fewer than `2 ^ 31` pages, that is
8 TiB. -/
def freeLoop : Nat → PhysMemPool → Nat → Exec PhysMemPool
  | 0, pool, _ => .ok pool
  | rounds + 1, pool, pageIdx => do
    let pool ← buddyFreePages pool pageIdx
    freeLoop rounds pool (pageIdx + 1)

/-- `init_buddy`. -/
def initBuddy (startAddr pageNum : Nat) : Exec PhysMemPool :=
  freeLoop pageNum (initPool startAddr pageNum) 0

/-- `get_free_mem_size_from_buddy`. -/
def getFreeMemSizeFromBuddy (pool : PhysMemPool) : Nat :=
  ((List.range buddyMaxOrder).map fun order =>
    (pool.freeLists order).nrFree * (buddyPageSize * 2 ^ order)).sum

end ChCore.Kernel
