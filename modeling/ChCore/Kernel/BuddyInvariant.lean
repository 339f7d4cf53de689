import ChCore.Lib.Dyadic
import ChCore.Kernel.BuddyModel

/-!
# The partition invariant of the buddy system

Pages are numbered by *frames*: page `p` of a pool is frame `base + p`, where
`base` is the frame of the first address. The metadata of the pages is a
labelling of frames by an order and an allocated flag, and the invariant says
that this labelling is coherent, so that it is a partition of the pool into
chunks, and that the free lists hold exactly the free chunks.

While `merge_page` runs, the chunk in its hands is marked free but is on no
list yet. `PoolInv pool loose` names that one exception.
-/

namespace ChCore.Kernel

open Lib.Dyadic

namespace PhysMemPool

/-- The frame of the first page. -/
def base (pool : PhysMemPool) : Nat := pool.poolStartAddr / buddyPageSize

/-- The mark of a frame: order and allocated flag of its page. -/
def label (pool : PhysMemPool) (x : Nat) : Option (Nat × Nat) :=
  if pool.base ≤ x ∧ x < pool.base + pool.poolPhysPageNum then
    some ((pool.pageMetadata (x - pool.base)).order, (pool.pageMetadata (x - pool.base)).allocated)
  else none

lemma label_frame (pool : PhysMemPool) {p : Nat} (h : p < pool.poolPhysPageNum) :
    pool.label (pool.base + p) =
    some ((pool.pageMetadata p).order, (pool.pageMetadata p).allocated) := by
  simp [label, h]

lemma label_some {pool : PhysMemPool} {x k a : Nat} (h : pool.label x = some (k, a)) :
    ∃ p, p < pool.poolPhysPageNum ∧ x = pool.base + p ∧ (pool.pageMetadata p).order = k ∧
    (pool.pageMetadata p).allocated = a := by
  unfold label at h
  split at h
  · next hx =>
      simp only [Option.some.injEq, Prod.mk.injEq] at h
      exact ⟨x - pool.base, by omega, by omega, h.1, h.2⟩
  · simp at h

end PhysMemPool

/-- Page `p` is the head of a chunk of order `k` with allocated flag `a`. -/
structure IsChunk (pool : PhysMemPool) (p k a : Nat) : Prop where
  lt : p < pool.poolPhysPageNum
  order : (pool.pageMetadata p).order = k
  allocated : (pool.pageMetadata p).allocated = a
  aligned : 2 ^ k ∣ pool.base + p

variable {pool : PhysMemPool}

lemma IsChunk.isHead {p k a : Nat} (h : IsChunk pool p k a) :
    IsHead pool.label (pool.base + p) k a := by
  refine ⟨?_, h.aligned⟩
  rw [pool.label_frame h.lt, h.order, h.allocated]

/-- The address space around a pool, as `init_buddy` sets it up. -/
structure Geometry (pool : PhysMemPool) : Prop where
  aligned : buddyPageSize ∣ pool.poolStartAddr
  size : pool.poolMemSize = pool.poolPhysPageNum * buddyPageSize
  fits : pool.poolStartAddr + pool.poolMemSize < 2 ^ 64

/-- The invariant of a pool; `loose` is the free chunk that is on no list. -/
structure PoolInv (pool : PhysMemPool) (loose : Option Nat) : Prop where
  geometry : Geometry pool
  backPtr : ∀ p, p < pool.poolPhysPageNum → (pool.pageMetadata p).pool = true
  coherent : Coherent pool.label
  orderLt : ∀ p, p < pool.poolPhysPageNum → (pool.pageMetadata p).order < buddyMaxOrder
  flag : ∀ p, p < pool.poolPhysPageNum → (pool.pageMetadata p).allocated ≤ 1
  memFree : ∀ k, k < buddyMaxOrder → ∀ p, p ∈ (pool.freeLists k).freeList ↔
      IsChunk pool p k 0 ∧ loose ≠ some p
  nodup : ∀ k, k < buddyMaxOrder → (pool.freeLists k).freeList.Nodup
  nrFree : ∀ k, k < buddyMaxOrder → (pool.freeLists k).nrFree = (pool.freeLists k).freeList.length

/-- The part of a pool that no function of the buddy system changes after
`init_buddy`. -/
structure SameShape (pool pool' : PhysMemPool) : Prop where
  start : pool'.poolStartAddr = pool.poolStartAddr
  size : pool'.poolMemSize = pool.poolMemSize
  num : pool'.poolPhysPageNum = pool.poolPhysPageNum
  slab : ∀ p, (pool'.pageMetadata p).slab = (pool.pageMetadata p).slab
  backPtr : ∀ p, (pool'.pageMetadata p).pool = (pool.pageMetadata p).pool

lemma SameShape.refl (pool : PhysMemPool) : SameShape pool pool :=
  ⟨rfl, rfl, rfl, fun _ => rfl, fun _ => rfl⟩

variable {pool' : PhysMemPool}

lemma SameShape.trans {pool'' : PhysMemPool} (h : SameShape pool pool')
    (h' : SameShape pool' pool'') : SameShape pool pool'' where
  start := h'.start.trans h.start
  size := h'.size.trans h.size
  num := h'.num.trans h.num
  slab := fun p => (h'.slab p).trans (h.slab p)
  backPtr := fun p => (h'.backPtr p).trans (h.backPtr p)

lemma SameShape.geometry (h : SameShape pool pool') (hg : Geometry pool) : Geometry pool' where
  aligned := by rw [h.start]; exact hg.aligned
  size := by rw [h.size, h.num]; exact hg.size
  fits := by rw [h.start, h.size]; exact hg.fits

lemma SameShape.base (h : SameShape pool pool') : pool'.base = pool.base := by
  simp only [PhysMemPool.base, h.start]

/-! ## The list operations leave the metadata alone -/

namespace PhysMemPool

@[simp] lemma listAdd_pageMetadata (pool : PhysMemPool) (p k : Nat) :
    (pool.listAdd p k).pageMetadata = pool.pageMetadata := rfl

@[simp] lemma listDel_pageMetadata (pool : PhysMemPool) (p : Nat) :
    (pool.listDel p).pageMetadata = pool.pageMetadata := rfl

@[simp] lemma updNrFree_pageMetadata (pool : PhysMemPool) (k : Nat)
    (f : Nat → Nat) : (pool.updNrFree k f).pageMetadata = pool.pageMetadata :=
  rfl

@[simp] lemma setPages_freeLists (pool : PhysMemPool) (p k a : Nat) :
    (pool.setPages p k a).freeLists = pool.freeLists := rfl

lemma listAdd_shape (pool : PhysMemPool) (p k : Nat) : SameShape pool (pool.listAdd p k) :=
  ⟨rfl, rfl, rfl, fun _ => rfl, fun _ => rfl⟩

lemma listDel_shape (pool : PhysMemPool) (p : Nat) : SameShape pool (pool.listDel p) :=
  ⟨rfl, rfl, rfl, fun _ => rfl, fun _ => rfl⟩

lemma updNrFree_shape (pool : PhysMemPool) (k : Nat) (f : Nat → Nat) :
    SameShape pool (pool.updNrFree k f) :=
  ⟨rfl, rfl, rfl, fun _ => rfl, fun _ => rfl⟩

lemma setPages_shape (pool : PhysMemPool) (p k a : Nat) : SameShape pool (pool.setPages p k a) := by
  refine ⟨rfl, rfl, rfl, ?_, ?_⟩ <;> intro q <;> unfold setPages <;> dsimp only <;> split <;> rfl

end PhysMemPool

/-- Chunks depend only on the shape and the metadata. -/
lemma isChunk_congr (h : SameShape pool pool')
    (hm : pool'.pageMetadata = pool.pageMetadata) (p k a : Nat) :
    IsChunk pool' p k a ↔ IsChunk pool p k a := by
  constructor
  · intro hc
    exact ⟨h.num ▸ hc.lt, hm ▸ hc.order, hm ▸ hc.allocated, h.base ▸ hc.aligned⟩
  · intro hc
    exact ⟨h.num ▸ hc.lt, hm ▸ hc.order, hm ▸ hc.allocated, h.base ▸ hc.aligned⟩

lemma label_congr (h : SameShape pool pool') (hm : pool'.pageMetadata = pool.pageMetadata) :
    pool'.label = pool.label := by
  funext x
  simp only [PhysMemPool.label, h.base, h.num, hm]

end ChCore.Kernel
