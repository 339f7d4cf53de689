import ChCore.Kernel.BuddyRuns

/-!
# The free lists do not depend on the history

When no two buddies are free, the free chunks are as large as they can be. A
pool without allocated chunks is then cut in one way only: the order of the chunk
around a page is the largest order whose block around the page lies in the pool.
So the free lists after any history that ends with nothing allocated are those
that `init_buddy` made.
-/

namespace ChCore.Kernel

open Lib.Dyadic Lib.Runs

/-- The address of a page of the pool. -/
def PhysMemPool.addr (pool : PhysMemPool) (p : Nat) : Nat := pool.poolStartAddr + p * buddyPageSize

/-- No two chunks of one order below 13 whose addresses differ only in the bit of
their size are both on the free list. -/
def NoFreeBuddies (pool : PhysMemPool) : Prop := ∀ k, k < 13 → ∀ p ∈ (pool.freeLists k).freeList,
    ∀ q ∈ (pool.freeLists k).freeList,
    pool.addr q ≠ pool.addr p ^^^ 1 <<< (k + buddyPageSizeOrder)

/-- The free lists of every order hold the same chunks. -/
def SameFreeLists (pool pool' : PhysMemPool) : Prop := ∀ k, k < buddyMaxOrder → ∀ p,
    p ∈ (pool'.freeLists k).freeList ↔ p ∈ (pool.freeLists k).freeList

/-! ## Buddies -/

variable {pool : PhysMemPool}

lemma Geometry.addr_eq (h : Geometry pool) (p : Nat) : pool.addr p = 4096 * (pool.base + p) := by
  have hstart := h.start_eq
  unfold PhysMemPool.addr buddyPageSize
  omega

/-- Chunks on the free lists are merged with their buddies. -/
lemma Merged.noFreeBuddies (h : Merged pool none) (hinv : PoolInv pool none) :
    NoFreeBuddies pool := by
  intro k hk p hp q hq haddr
  have hlt : k < buddyMaxOrder := Nat.lt_succ_of_lt hk
  have hchunkP : IsChunk pool p k 0 := ((hinv.memFree k hlt p).1 hp).1
  have hchunkQ : IsChunk pool q k 0 := ((hinv.memFree k hlt q).1 hq).1
  have hbuddy : pool.base + q = buddy k (pool.base + p) := by
    rw [hinv.geometry.addr_eq, hinv.geometry.addr_eq, frame_xor] at haddr
    omega
  have hlabel : pool.label (buddy k (pool.base + p)) = some (k, 0) := by
    rw [← hbuddy]
    exact hchunkQ.isHead.1
  obtain ⟨r, hr, _⟩ := h (pool.base + p) k (Nat.succ_lt_succ hk) hchunkP.isHead.1 hlabel
  cases hr

/-! ## Pools without allocated chunks -/

section

variable {pool pool' : PhysMemPool}

/-- A pool whose pages are all free. -/
structure AllFree (pool : PhysMemPool) : Prop where
  inv : PoolInv pool none
  merged : Merged pool none
  free : ∀ p k, ¬ IsChunk pool p k 1

variable {x k : Nat}

/-- Every frame of such a pool lies in a free chunk. -/
lemma AllFree.label_free (h : AllFree pool) {a : Nat}
    (hx : pool.label x = some (k, a)) : a = 0 := by
  have ⟨hhead, _⟩ := existsUnique_head h.inv.coherent hx
  obtain ⟨p, hp, hbase, horder, hflag⟩ := PhysMemPool.label_some hhead.1
  have hchunk : IsChunk pool p k a := ⟨hp, horder, hflag, hbase ▸ hhead.2⟩
  have hle := h.inv.flag p hp
  have hne : a ≠ 1 := by
    rintro rfl
    exact h.free p k hchunk
  omega

lemma label_isSome_congr (hshape : SameShape pool pool') {l : Nat × Nat}
    (hx : pool'.label x = some l) : ∃ m, pool.label x = some m := by
  have ⟨p, hp, hbase, _, _⟩ := PhysMemPool.label_some hx
  rw [hshape.base] at hbase
  rw [hbase, pool.label_frame (hshape.num ▸ hp)]
  exact ⟨_, rfl⟩

/-- The chunk around a frame is at least as large as in another such pool. -/
lemma AllFree.order_le (h : AllFree pool) (h' : AllFree pool')
    (hshape : SameShape pool pool') {l : Nat} (hx : pool.label x = some (k, 0))
    (hx' : pool'.label x = some (l, 0)) : l ≤ k := by
  have ⟨p, hp, _, horder, _⟩ := PhysMemPool.label_some hx'
  have hl : l < buddyMaxOrder := horder ▸ h'.inv.orderLt p hp
  have hblock : ∀ y, y / 2 ^ l = x / 2 ^ l → ∃ j, pool.label y = some (j, 0) := by
    intro y hy
    have ⟨⟨j, a⟩, hlabel⟩ := label_isSome_congr hshape (h'.inv.coherent x l 0 hx' y hy)
    rw [h.label_free hlabel] at hlabel
    exact ⟨j, hlabel⟩
  exact h.merged.le_order h.inv.coherent hl hblock k x rfl hx

lemma SameShape.symm (h : SameShape pool pool') : SameShape pool' pool where
  start := h.start.symm
  size := h.size.symm
  num := h.num.symm
  slab := fun p => (h.slab p).symm
  backPtr := fun p => (h.backPtr p).symm

lemma AllFree.label_eq (h : AllFree pool) (h' : AllFree pool')
    (hshape : SameShape pool pool') (hx : pool'.label x = some (k, 0)) :
    pool.label x = some (k, 0) := by
  have ⟨⟨l, a⟩, hl⟩ := label_isSome_congr hshape hx
  rw [h.label_free hl] at hl
  have hle := h.order_le h' hshape hl hx
  have hge := h'.order_le h hshape.symm hx hl
  rw [hl, le_antisymm hge hle]

lemma AllFree.chunk (h : AllFree pool) (h' : AllFree pool')
    (hshape : SameShape pool pool') {p : Nat} (hp : IsChunk pool' p k 0) : IsChunk pool p k 0 := by
  have hlabel := h.label_eq h' hshape hp.isHead.1
  rw [hshape.base, pool.label_frame (hshape.num ▸ hp.lt)] at hlabel
  injection hlabel with hmark
  exact {
    lt := hshape.num ▸ hp.lt
    order := congrArg Prod.fst hmark
    allocated := congrArg Prod.snd hmark
    aligned := hshape.base ▸ hp.aligned }

/-- **Confluence.** The free lists of a pool without allocated chunks are
determined by its address and its size. -/
theorem AllFree.sameFreeLists (h : AllFree pool) (h' : AllFree pool')
    (hshape : SameShape pool pool') : SameFreeLists pool pool' := by
  intro k hk p
  rw [h'.inv.memFree k hk p, h.inv.memFree k hk p]
  constructor
  · rintro ⟨hp, hloose⟩
    exact ⟨h.chunk h' hshape hp, hloose⟩
  · rintro ⟨hp, hloose⟩
    exact ⟨h'.chunk h hshape.symm hp, hloose⟩

end

/-! ## Runs -/

/-- What a run keeps: the partition, merged buddies, and the pool's range. -/
structure MergedInv (pool : PhysMemPool) (s : BuddyState) : Prop where
  inv : BuddyInv s
  merged : Merged s.pool none
  shape : SameShape pool s.pool

variable {s : BuddyState}

lemma MergedInv.getPages {order : Nat} (h : MergedInv pool s)
    (hfree : ∃ c ∈ s.freeChunks, order ≤ c.order) :
    ∃ s', buddyStep s (.getPages order) = .ok s' ∧ MergedInv pool s' := by
  obtain ⟨s', hstep, hinv, hshape⟩ := h.inv.getPages hfree
  refine ⟨s', hstep, hinv, ?_, h.shape.trans hshape⟩
  -- the step is the one of the specification, which also says that buddies
  -- stay merged
  obtain ⟨c, hc, hle⟩ := hfree
  obtain ⟨hchunk, hzero⟩ := (mem_freeChunks h.inv.pool c).1 hc
  have hlt : c.order < buddyMaxOrder := hchunk.order ▸ h.inv.pool.orderLt c.head hchunk.lt
  rw [hzero] at hchunk
  obtain ⟨pool', p, hget, hres⟩ := buddyGetPages_spec h.inv.pool ⟨c.order, c.head, hle, hlt, hchunk⟩
  rw [buddyStep, hget] at hstep
  rw [← Except.ok.inj hstep]
  exact hres.merged h.merged

lemma MergedInv.freePages {page : Nat} (h : MergedInv pool s)
    (hlive : ∃ order, (page, order) ∈ s.live) :
    ∃ s', buddyStep s (.freePages page) = .ok s' ∧ MergedInv pool s' := by
  obtain ⟨s', hstep, hinv, hshape⟩ := h.inv.freePages hlive
  refine ⟨s', hstep, hinv, ?_, h.shape.trans hshape⟩
  obtain ⟨order, hmem⟩ := hlive
  obtain ⟨pool', hfree, _, _, _, hmerged⟩ :=
    buddyFreePages_spec h.inv.pool ((h.inv.live page order).1 hmem)
  rw [buddyStep, hfree] at hstep
  rw [← Except.ok.inj hstep]
  exact hmerged h.merged

lemma MergedInv.step {op : BuddyOp} (h : MergedInv pool s) (hen : BuddyEnabled s op) :
    ∃ s', buddyStep s op = .ok s' ∧ MergedInv pool s' := by
  cases op with
  | getPages order => exact h.getPages hen.2
  | freePages page => exact h.freePages hen

lemma MergedInv.allFree (h : MergedInv pool s) (hnone : s.live = []) : AllFree s.pool where
  inv := h.inv.pool
  merged := h.merged
  free := by
    intro p k hp
    have hlive := (h.inv.live p k).2 hp
    rw [hnone] at hlive
    exact List.not_mem_nil hlive

/-- After `init_buddy` on a pool that ends at a 64-bit address, and after every
sequence of calls that clients may make, no two buddies are free; and when
everything has been freed again, the free lists hold what they held at first. -/
theorem buddy_free_lists_restored (startAddr pageNum : Nat) (haligned : buddyPageSize ∣ startAddr)
    (hend : startAddr + pageNum * buddyPageSize < 2 ^ 64) :
    ∃ pool, initBuddy startAddr pageNum = .ok pool ∧
      ∀ ops, Admissible buddyStep BuddyEnabled ⟨pool, []⟩ ops →
        ∃ s, run buddyStep ⟨pool, []⟩ ops = .ok s ∧ NoFreeBuddies s.pool ∧
          (s.live = [] → SameFreeLists pool s.pool) := by
  have hrange : PoolRange startAddr pageNum := ⟨haligned, hend⟩
  obtain ⟨pool, hinit, hinv, _⟩ := buddyInv_init hrange
  obtain ⟨pool1, hinit1, _, _, _, hmerged⟩ := initBuddy_spec hrange
  obtain rfl : pool = pool1 := Except.ok.inj (hinit.symm.trans hinit1)
  have hfirst : MergedInv pool ⟨pool, []⟩ := ⟨hinv, hmerged, SameShape.refl pool⟩
  refine ⟨pool, hinit, fun ops hadm => ?_⟩
  obtain ⟨s, hrun, hs⟩ := run_total (fun _ _ h hen => MergedInv.step h hen) ops _ hfirst hadm
  refine ⟨s, hrun, hs.merged.noFreeBuddies hs.inv.pool, fun hnone => ?_⟩
  exact (hfirst.allFree rfl).sameFreeLists (hs.allFree hnone) hs.shape

theorem buddy_free_lists_restored_five_pages : ∃ pool, initBuddy 0x3000 5 = .ok pool ∧
      ∃ s, run buddyStep ⟨pool, []⟩ fivePages = .ok s ∧ NoFreeBuddies s.pool ∧
        SameFreeLists pool s.pool := by
  obtain ⟨pool, hinit, hall⟩ := buddy_free_lists_restored 0x3000 5 (by decide) (by decide)
  obtain ⟨hadm, hlive⟩ := fivePages_runs hinit
  obtain ⟨s, hrun, hno, hsame⟩ := hall fivePages hadm
  rw [hrun] at hlive
  exact ⟨pool, hinit, s, hrun, hno, hsame (Option.some.inj hlive)⟩

end ChCore.Kernel
