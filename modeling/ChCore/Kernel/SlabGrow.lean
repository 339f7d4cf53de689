import ChCore.Kernel.SlabOps
import ChCore.Lib.Heaps

/-!
# A new slab

`init_slab_cache` takes a chunk from the buddy system, marks its pages, and
links the slots behind the header into the free list.
-/

namespace ChCore.Kernel

open Function List PhysMemPool Nat Lib.ByteMem Lib.Dyadic Lib.Heaps Lib.Intervals Lib.LinkedList

/-! ## The pages of the slab -/

/-- The `slab` field of the pages `[lo, lo + n)` is written. -/
def PhysMemPool.setSlabs (pool : PhysMemPool) (lo n addr : Nat) : PhysMemPool :=
  { pool with
    pageMetadata := fun q =>
      if lo ≤ q ∧ q < lo + n then { pool.pageMetadata q with slab := addr }
      else pool.pageMetadata q }

section

variable (pool : PhysMemPool) (lo n addr : Nat)

@[simp] lemma setSlabs_order (q : Nat) : ((pool.setSlabs lo n addr).pageMetadata q).order =
    (pool.pageMetadata q).order := by
  unfold setSlabs
  dsimp only
  split <;> rfl

@[simp] lemma setSlabs_allocated (q : Nat) :
    ((pool.setSlabs lo n addr).pageMetadata q).allocated = (pool.pageMetadata q).allocated := by
  unfold setSlabs
  dsimp only
  split <;> rfl

@[simp] lemma setSlabs_backPtr (q : Nat) : ((pool.setSlabs lo n addr).pageMetadata q).pool =
    (pool.pageMetadata q).pool := by
  unfold setSlabs
  dsimp only
  split <;> rfl

lemma setSlabs_slab (q : Nat) : ((pool.setSlabs lo n addr).pageMetadata q).slab =
    if lo ≤ q ∧ q < lo + n then addr else (pool.pageMetadata q).slab := by
  unfold setSlabs
  dsimp only
  split <;> rfl

lemma label_setSlabs : (pool.setSlabs lo n addr).label = pool.label := by
  funext x
  unfold label
  rw [setSlabs_order, setSlabs_allocated]
  rfl

lemma isChunk_setSlabs (p k a : Nat) :
    IsChunk (pool.setSlabs lo n addr) p k a ↔ IsChunk pool p k a := by
  constructor
  · intro h
    exact ⟨h.lt, by simpa using h.order, by simpa using h.allocated, h.aligned⟩
  · intro h
    exact ⟨h.lt, by simpa using h.order, by simpa using h.allocated, h.aligned⟩

/-- The buddy system does not look at the `slab` fields. -/
lemma PoolInv.setSlabs {pool : PhysMemPool} {loose : Option Nat}
    (h : PoolInv pool loose) (lo n addr : Nat) : PoolInv (pool.setSlabs lo n addr) loose where
  geometry := ⟨h.geometry.aligned, h.geometry.size, h.geometry.fits⟩
  backPtr := by
    intro p hp
    rw [setSlabs_backPtr]
    exact h.backPtr p hp
  coherent := by
    rw [label_setSlabs]
    exact h.coherent
  orderLt := by
    intro p hp
    rw [setSlabs_order]
    exact h.orderLt p hp
  flag := by
    intro p hp
    rw [setSlabs_allocated]
    exact h.flag p hp
  memFree := by
    intro k hk p
    rw [isChunk_setSlabs]
    exact h.memFree k hk p
  nodup := h.nodup
  nrFree := h.nrFree

lemma Merged.setSlabs {pool : PhysMemPool} {hand : Option Nat}
    (h : Merged pool hand) (lo n addr : Nat) : Merged (pool.setSlabs lo n addr) hand := by
  intro x k
  rw [label_setSlabs]
  exact h x k

end

lemma setSlab_setSlabs (pool : PhysMemPool) (lo n addr : Nat) :
    (pool.setSlab lo addr).setSlabs (lo + 1) n addr = pool.setSlabs lo (n + 1) addr := by
  unfold setSlabs setSlab
  congr 1
  funext q
  dsimp only
  by_cases hq : q = lo
  · subst hq
    rw [update_self, if_neg (by omega), if_pos (by omega)]
  rw [update_of_ne hq]
  by_cases hin : lo + 1 ≤ q ∧ q < lo + 1 + n
  · rw [if_pos hin, if_pos (by omega)]
  · rw [if_neg hin, if_neg (by omega)]

/-- The loop of `alloc_slab_memory`. -/
lemma setSlabLoop_spec (p addr rounds : Nat) : ∀ (pool : PhysMemPool) (i : Nat), Geometry pool →
    addr = pool.addrOf p → p + i + rounds ≤ pool.poolPhysPageNum →
    setSlabLoop addr rounds i pool = .ok (pool.setSlabs (p + i) rounds addr) := by
  induction rounds with
  | zero =>
    intro pool i _ _ _
    have hsame : pool.setSlabs (p + i) 0 addr = pool := by
      unfold setSlabs
      have hfun : (fun q => if p + i ≤ q ∧ q < p + i + 0 then
          { pool.pageMetadata q with slab := addr }
          else pool.pageMetadata q) = pool.pageMetadata := by
        funext q
        exact if_neg (by omega)
      rw [hfun]
    rw [setSlabLoop, hsame]
  | succ rounds ih =>
    intro pool i hg haddr hin
    have hlt := hg.end_eq.2
    have hpage := @virtToPage_eq pool (p + i) hg 0 (by omega) (by decide)
    have hval : u64 (addr + i * buddyPageSize) = 4096 * (pool.base + (p + i)) + 0 := by
      have hsum : addr + i * buddyPageSize = 4096 * (pool.base + (p + i)) + 0 := by
        rw [haddr]
        unfold addrOf buddyPageSize
        omega
      rw [hsum]
      exact u64_of_lt (by omega)
    rw [setSlabLoop, hval, hpage, ok_bind,
      ih (pool.setSlab (p + i) addr) (i + 1) ⟨hg.aligned, hg.size, hg.fits⟩
        haddr (show p + (i + 1) + rounds ≤ pool.poolPhysPageNum by omega),
      ← add_assoc, setSlab_setSlabs]

variable {pool : PhysMemPool} {order : Nat}

/-- `get_pages` when a free chunk is large enough. -/
lemma getPages_spec (h : PoolInv pool none)
    (hfree : ∃ j q, order ≤ j ∧ j < buddyMaxOrder ∧ IsChunk pool q j 0) :
    ∃ pool' p, getPages pool order = .ok (pool', pool'.addrOf p) ∧
    Allocated pool pool' order p := by
  obtain ⟨pool', p, hrun, hres⟩ := buddyGetPages_spec h hfree
  have hp : IsChunk pool' p order 1 := (hres.live p order).2 (.inr ⟨rfl, rfl⟩)
  refine ⟨pool', p, ?_, hres⟩
  rw [getPages, hrun, ok_bind]
  dsimp only
  rw [pageToVirt_eq hres.inv.geometry hp.lt (hres.inv.backPtr p hp.lt)]
  rfl

lemma sizeToOrder_slab : sizeToOrder (slabInitSize / buddyPageSize) = slabChunkOrder := by decide

/-- `alloc_slab_memory` for a slab. -/
lemma allocSlabMemory_spec (h : PoolInv pool none)
    (hfree : ∃ j q, slabChunkOrder ≤ j ∧ j < buddyMaxOrder ∧ IsChunk pool q j 0) :
    ∃ pool1 p, Allocated pool pool1 slabChunkOrder p ∧ allocSlabMemory pool slabInitSize =
    .ok (pool1.setSlabs p (2 ^ slabChunkOrder) (pool1.addrOf p), pool1.addrOf p) := by
  obtain ⟨pool1, p, hget, hres⟩ := getPages_spec h hfree
  have hp : IsChunk pool1 p slabChunkOrder 1 := (hres.live p _).2 (.inr ⟨rfl, rfl⟩)
  have hpage := @virtToPage_eq pool1 p hres.inv.geometry 0 hp.lt (by decide)
  have hloop := setSlabLoop_spec p (pool1.addrOf p) (2 ^ slabChunkOrder) pool1 0
    hres.inv.geometry rfl (hp.inside hres.inv.coherent)
  refine ⟨pool1, p, hres, ?_⟩
  simp only [allocSlabMemory, sizeToOrder_slab, hget, ok_bind]
  rw [show pool1.addrOf p = 4096 * (pool1.base + p) + 0 from rfl, hpage, ok_bind]
  show (setSlabLoop (pool1.addrOf p) (2 ^ slabChunkOrder) 0 pool1 >>= _) = _
  rw [hloop]
  rfl

/-! ## The free list of the slab -/

/-- The loop of `init_slab_cache`. -/
lemma linkSlots_spec (size rounds : Nat) (hsize : 8 ≤ size) :
    ∀ (slot : Nat) (mem : Mem), slot ≠ 0 → slot + rounds * size + size ≤ 2 ^ 64 →
    Linked (load64 (linkSlots size rounds slot mem)) slot
    ((List.range (rounds + 1)).map fun i => slot + i * size) ∧
    ∀ x, x < slot ∨ slot + rounds * size + 8 ≤ x → linkSlots size rounds slot mem x = mem x := by
  induction rounds with
  | zero =>
    intro slot mem hne _
    constructor
    · show Linked _ slot [slot + 0 * size]
      rw [zero_mul, add_zero]
      refine linked_cons.2 ⟨rfl, hne, ?_⟩
      exact load64_store64 (by decide)
    · intro x hx
      apply store_of_outside
      omega
  | succ rounds ih =>
    intro slot mem hne hfits
    rw [succ_mul] at hfits
    have hnext : u64 (slot + size) = slot + size := u64_of_lt (by omega)
    obtain ⟨hlinked, hframe⟩ := ih (slot + size)
      (store64 mem slot (slot + size)) (by omega) (by omega)
    rw [linkSlots, hnext]
    constructor
    · rw [range_succ_eq_map, map_cons, map_map]
      refine linked_cons.2 ⟨by omega, by omega, ?_⟩
      have hlink : load64 (linkSlots size rounds (slot + size)
          (store64 mem slot (slot + size))) (slot + 0 * size) =
          slot + size := by
        have hload : load64 (linkSlots size rounds (slot + size)
            (store64 mem slot (slot + size))) slot =
            load64 (store64 mem slot (slot + size)) slot :=
          load_congr 8 fun x hlo hhi => hframe x (by omega)
        rw [zero_mul, add_zero, hload, load64_store64 (by omega)]
      rw [hlink]
      have hlist : (fun i => slot + i * size) ∘ Nat.succ = fun i => slot + size + i * size := by
        funext i
        show slot + (i + 1) * size = _
        rw [succ_mul]
        omega
      rw [hlist]
      exact hlinked
    · intro x hx
      rw [succ_mul] at hx
      rw [hframe x (by omega)]
      apply store_of_outside
      omega

/-- What `init_slab_cache` makes. -/
structure NewSlab (s s' : KmState) (order slab : Nat) (free : List Nat) : Prop where
  slabs : s'.slabs = s.slabs
  chunk : ∃ pool1 p, Allocated s.pool pool1 slabChunkOrder p ∧ slab = pool1.addrOf p ∧
    s'.pool = pool1.setSlabs p (2 ^ slabChunkOrder) slab
  next : nextSlab s'.mem slab = 0
  header : slabOrder s'.mem slab = order
  linked : Linked (load64 s'.mem) (load64 s'.mem slab) free
  slots : ∀ x, x ∈ free ↔ ∃ i, i ≠ 0 ∧ i < slotCount order ∧ x = slab + i * 2 ^ order
  nonempty : free ≠ []
  nodup : free.Nodup
  frame : ∀ x, x < slab ∨ slab + 2 ^ 21 ≤ x → s'.mem x = s.mem x

lemma slotCount_mul (ho : order ≤ slabMaxOrder) : slotCount order * 2 ^ order = 2 ^ 21 := by
  rw [slotCount, ← pow_add]
  congr 1
  unfold slabMaxOrder at ho
  omega

lemma slabInitSize_div (ho : order ≤ slabMaxOrder) :
    slabInitSize / 2 ^ order = slotCount order := by
  rw [show slabInitSize = 2 ^ 21 from rfl, ← slotCount_mul ho,
    Nat.mul_div_cancel _ (Nat.two_pow_pos order)]

/-- The stores of `init_slab_cache` to the header. -/
lemma initHeader_spec (mem : Mem) {slab slot : Nat} (hslot : slot < 2 ^ 64)
    (ho : order ≤ slabMaxOrder) :
    let mem' := store (store64 (store64 mem slab slot) (slab + 8) 0) (slab + 16) 4 order
    load64 mem' slab = slot ∧ nextSlab mem' slab = 0 ∧ slabOrder mem' slab = order ∧
      ∀ x, x < slab ∨ slab + 32 ≤ x → mem' x = mem x := by
  intro mem'
  refine ⟨?_, ?_, ?_, ?_⟩
  · show load _ slab 8 = slot
    rw [load_store_of_apart (Or.inl (by omega)), store64, load_store_of_apart (Or.inl (by omega))]
    exact load64_store64 hslot
  · show load _ (slab + 8) 8 = 0
    rw [load_store_of_apart (Or.inl (by omega))]
    exact load64_store64 (by decide)
  · apply load_store_of_lt
    unfold slabMaxOrder at ho
    calc order < 256 := by omega
      _ ≤ 256 ^ 4 := by decide
  intro x hx
  show store _ _ _ _ x = mem x
  rw [store_of_outside _ _ _ _ _ (by omega), store64,
    store_of_outside _ _ _ _ _ (by omega), store64,
    store_of_outside _ _ _ _ _ (by omega)]

/-- `init_slab_cache`. -/
lemma initSlabCache_spec {s : KmState} (h : PoolInv s.pool none)
    (hfree : ∃ j q, slabChunkOrder ≤ j ∧ j < buddyMaxOrder ∧ IsChunk s.pool q j 0)
    (hlo : slabMinOrder ≤ order) (hhi : order ≤ slabMaxOrder) :
    ∃ s' slab free, initSlabCache s order slabInitSize = .ok (s', slab) ∧
    NewSlab s s' order slab free := by
  obtain ⟨pool1, p, hres, halloc⟩ := allocSlabMemory_spec h hfree
  have hp : IsChunk pool1 p slabChunkOrder 1 := (hres.live p _).2 (.inr ⟨rfl, rfl⟩)
  have haddr : pool1.addrOf p + 2 ^ 21 < 2 ^ 64 := hres.inv.addr_lt hp
  have hsmall : 32 ≤ 2 ^ order := by
    calc 32 = 2 ^ slabMinOrder := rfl
      _ ≤ 2 ^ order := Nat.pow_le_pow_right (by decide) hlo
  have htwo : 2 ≤ slotCount order := by
    unfold slotCount slabMaxOrder at *
    calc 2 = 2 ^ 1 := rfl
      _ ≤ 2 ^ (21 - order) := Nat.pow_le_pow_right (by decide) (by omega)
  obtain ⟨n, hn⟩ : ∃ n, slotCount order = n + 2 := ⟨slotCount order - 2, by omega⟩
  have hall := slotCount_mul hhi
  rw [hn, add_mul] at hall
  generalize hslab : pool1.addrOf p = slab at *
  have hslot : u64 (slab + 2 ^ order) = slab + 2 ^ order := u64_of_lt (by omega)
  obtain ⟨hhead, hnext, horder, hframe⟩ := @initHeader_spec order s.mem
    slab (slab + 2 ^ order) (by omega) hhi
  generalize hmem1 : store (store64 (store64 s.mem slab (slab + 2 ^ order))
    (slab + 8) 0) (slab + 16) 4 order = mem1 at *
  obtain ⟨hlinked, hrest⟩ := linkSlots_spec (2 ^ order) n (by omega)
    (slab + 2 ^ order) mem1 (by omega) (by omega)
  generalize hmem2 : linkSlots (2 ^ order) n (slab + 2 ^ order) mem1 = mem2 at *
  -- the loop does not touch the header
  have hheader : SameOn mem1 mem2 slab 32 := fun x _ _ => hrest x (Or.inl (by omega))
  refine ⟨⟨pool1.setSlabs p (2 ^ slabChunkOrder) slab, mem2, s.slabs⟩, slab,
    (List.range (n + 1)).map fun i => slab + 2 ^ order + i * 2 ^ order, ?_, ?_⟩
  · simp only [initSlabCache, halloc, ok_bind, orderToSize, slabInitSize_div hhi, hn, hslot, hmem1]
    rw [show n + 2 - 1 - 1 = n by omega, hmem2]
    rfl
  exact {
    slabs := rfl
    chunk := ⟨pool1, p, hres, hslab.symm, rfl⟩
    next := (hheader.load (by omega) (by omega)).trans hnext
    header := (hheader.load (by omega) (by omega)).trans horder
    linked := by
      have hload : load64 mem2 slab = slab + 2 ^ order :=
        (hheader.load le_rfl (by omega)).trans hhead
      rw [hload]
      exact hlinked
    slots := by
      intro x
      rw [mem_map]
      constructor
      · intro hx
        obtain ⟨i, hi, rfl⟩ := hx
        refine ⟨i + 1, by omega, ?_, ?_⟩
        · rw [mem_range] at hi
          omega
        rw [succ_mul]
        omega
      · intro hx
        obtain ⟨i, hne, hi, rfl⟩ := hx
        obtain ⟨j, rfl⟩ : ∃ j, i = j + 1 := ⟨i - 1, by omega⟩
        refine ⟨j, mem_range.2 (by omega), ?_⟩
        rw [succ_mul]
        omega
    nonempty := by
      rw [Ne, map_eq_nil_iff, range_eq_nil]
      omega
    nodup := by
      apply nodup_range.map
      intro i j hij
      have hmul : i * 2 ^ order = j * 2 ^ order := add_left_cancel hij
      exact eq_of_mul_eq_mul_right (by omega) hmul
    frame := by
      intro x hx
      show mem2 x = s.mem x
      rw [hrest x (by omega), hframe x (by omega)]
  }

/-! ## The invariant with the new slab -/

/-- A new chunk shares no page with the chunks that were allocated before. -/
lemma Allocated.outside {pool' : PhysMemPool} {p q l : Nat}
    (h : Allocated pool pool' order p) (hq : IsChunk pool q l 1) :
    IsChunk pool' q l 1 ∧ q ≠ p ∧ ∀ r, q ≤ r → r < q + 2 ^ l → ¬ (p ≤ r ∧ r < p + 2 ^ order) := by
  have hq' : IsChunk pool' q l 1 := (h.live q l).2 (.inl hq)
  have hp : IsChunk pool' p order 1 := (h.live p order).2 (.inr ⟨rfl, rfl⟩)
  have hne : q ≠ p := by
    rintro rfl
    exact h.fresh l hq
  refine ⟨hq', hne, ?_⟩
  intro r hlo hhi hin
  have hc : (Chunk.mk q l 1).Covers r := ⟨hlo, hhi⟩
  have hd : (Chunk.mk p order 1).Covers r := hin
  exact hne (Chunk.mk.inj (h.inv.chunk_unique hq' hp hc hd)).1

section

variable {s s' : KmState} {chain free : Nat → List Nat} {order slab : Nat}
  {slots : List Nat} (h : SlabInv s chain free)
  (hnew : NewSlab s s' order slab slots)

include hnew

lemma NewSlab.addrOf_eq (p : Nat) : s'.pool.addrOf p = s.pool.addrOf p := by
  obtain ⟨pool1, _, hres, _, hpool⟩ := hnew.chunk
  have hbase := hres.shape.base
  rw [hpool]
  show 4096 * (pool1.base + p) = _
  rw [hbase]
  rfl

/-- A chunk that was allocated before stays, and its pages keep their mark. -/
lemma NewSlab.old_chunk {q l : Nat} (hq : IsChunk s.pool q l 1) : IsChunk s'.pool q l 1 ∧
    (∀ r, q ≤ r → r < q + 2 ^ l → (s'.pool.pageMetadata r).slab = (s.pool.pageMetadata r).slab) ∧
    Apart (s.pool.addrOf q) (2 ^ l * 4096) slab (2 ^ 21) := by
  obtain ⟨pool1, p, hres, hslab, hpool⟩ := hnew.chunk
  obtain ⟨hq', hne, hout⟩ := hres.outside hq
  have hp : IsChunk pool1 p slabChunkOrder 1 := (hres.live p _).2 (.inr ⟨rfl, rfl⟩)
  refine ⟨?_, ?_, ?_⟩
  · rw [hpool, isChunk_setSlabs]
    exact hq'
  · intro r hlo hhi
    rw [hpool, setSlabs_slab, if_neg (hout r hlo hhi), hres.shape.slab]
  have hapart := hres.inv.chunks_apart hq' hp hne
  have haddr : pool1.addrOf q = s.pool.addrOf q := by
    unfold addrOf
    rw [hres.shape.base]
  rw [hslab, ← haddr]
  exact hapart

include h

/-- The cells that were there before stay, outside of the new slab. -/
lemma SlabInv.old_cell {y n : Nat} (hy : Cell s.pool chain y n) :
    Cell s'.pool (update chain order (slab :: chain order)) y n ∧ Apart y n slab (2 ^ 21) := by
  cases hy with
  | @slot order' slab' i hslab' hi =>
    obtain ⟨q, hq, rfl, hlo, hhi⟩ := h.slot_inside hslab' hi
    obtain ⟨_, _, hapart⟩ := hnew.old_chunk hq
    exact ⟨Cell.slot (mem_update_cons.2 (.inr hslab')) hi, hapart.mono hlo hhi⟩
  | @chunk q k hq hno =>
    obtain ⟨hq', hpages, hapart⟩ := hnew.old_chunk hq
    refine ⟨?_, hapart⟩
    rw [← hnew.addrOf_eq]
    refine Cell.chunk hq' ?_
    rw [hpages q le_rfl (Nat.lt_add_of_pos_right (Nat.two_pow_pos k)), hno]

/-- The new slab is none of the slabs there were. -/
lemma SlabInv.new_not_mem {order' slab' : Nat} (hslab' : slab' ∈ chain order') :
    slab' ≠ slab ∧ Apart slab' 32 slab (2 ^ 21) := by
  have hcell : Cell s.pool chain slab' (2 ^ order') := Cell.header hslab'
  have hsize := h.cell_size hcell
  have hapart := (h.old_cell hnew hcell).2.mono le_rfl (Nat.add_le_add_left hsize _)
  refine ⟨?_, hapart⟩
  rintro rfl
  exact hapart slab' le_rfl (by omega) le_rfl (by omega)

/-- **A slab is added** in front of the slabs of its order. -/
theorem SlabInv.addSlab (hlo : slabMinOrder ≤ order) (hhi : order ≤ slabMaxOrder) (mem' : Mem)
    (hmem : ∀ x, x < slab + 8 ∨ slab + 16 ≤ x → mem' x = s'.mem x)
    (hnext : nextSlab mem' slab = s.slabs order) :
    SlabInv ⟨s'.pool, mem', update s.slabs order slab⟩ (update chain order (slab :: chain order))
    (update free slab slots) ∧ ∀ y n, Cell s.pool chain y n → SameOn s.mem mem' y n := by
  obtain ⟨pool1, p, hres, hslab, hpool⟩ := hnew.chunk
  obtain ⟨pool', mem1, slabs1⟩ := s'
  obtain rfl : pool' = _ := hpool
  have hp : IsChunk pool1 p slabChunkOrder 1 := (hres.live p _).2 (.inr ⟨rfl, rfl⟩)
  have hne : slab ≠ 0 := by
    have hbase := hres.shape.base
    have hstart := h.start
    rw [hslab]
    unfold addrOf
    omega
  have hsmall : 32 ≤ 2 ^ order := by
    calc 32 = 2 ^ slabMinOrder := rfl
      _ ≤ 2 ^ order := Nat.pow_le_pow_right (by decide) hlo
  -- nothing outside of the new slab changes
  have hframe : ∀ y n, Apart y n slab (2 ^ 21) → SameOn s.mem mem' y n := by
    intro y n hapart x hxlo hxhi
    have hout : x < slab ∨ slab + 2 ^ 21 ≤ x := by
      by_contra hin
      exact hapart x hxlo hxhi (by omega) (by omega)
    rw [hmem x (by omega), hnew.frame x hout]
  have hold : ∀ y n, Cell s.pool chain y n → SameOn s.mem mem' y n :=
    fun y n hy => hframe y n (h.old_cell hnew hy).2
  have hheader : ∀ order' slab', slab' ∈ chain order' → SameOn s.mem mem' slab' 32 :=
    fun order' slab' hslab' => hframe _ _ (h.new_not_mem hnew hslab').2
  refine ⟨?_, hold⟩
  exact {
    pool := hres.inv.setSlabs _ _ _
    start := by
      show 0 < pool1.base
      rw [hres.shape.base]
      exact h.start
    linked := by
      intro order' hlo' hhi'
      have hlinked : Linked (nextSlab mem') (s.slabs order') (chain order') :=
        (h.linked order' hlo' hhi').congr fun slab' hslab' =>
          (hheader order' slab' hslab').load (by omega) (by omega)
      show Linked (nextSlab mem') (update s.slabs order slab order') _
      by_cases ho : order' = order
      · subst ho
        rw [update_self, update_self]
        refine linked_cons.2 ⟨rfl, hne, ?_⟩
        rw [hnext]
        exact hlinked
      · rw [update_of_ne ho, update_of_ne ho]
        exact hlinked
    slab := by
      intro order' slab' hslab'
      -- the slabs of the new state are the new one and the old ones
      rcases mem_update_cons.1 hslab' with ⟨rfl, rfl⟩ | hslab'
      · rw [update_self]
        exact {
          range := ⟨hlo, hhi⟩
          chunk := by
            refine ⟨p, ?_, hslab, fun q hqlo hqhi => ?_⟩
            · rw [isChunk_setSlabs]
              exact hp
            · rw [setSlabs_slab, if_pos ⟨hqlo, hqhi⟩]
          header := by
            have hsame : slabOrder mem' slab' = slabOrder mem1 slab' :=
              load_congr 4 fun x hxlo hxhi => hmem x (by omega)
            exact hsame.trans hnew.header
          linked := by
            have hhead : load64 mem' slab' = load64 mem1 slab' :=
              load_congr 8 fun x hxlo hxhi => hmem x (by omega)
            show Linked (load64 mem') (load64 mem' slab') slots
            rw [hhead]
            apply hnew.linked.congr
            intro x hx
            obtain ⟨i, hi0, hi, rfl⟩ := (hnew.slots x).1 hx
            have hge := mul_le_mul_right (2 ^ order') (one_le_iff_ne_zero.2 hi0)
            exact load_congr 8 fun z hzlo hzhi => hmem z (by omega)
          slots := fun x hx => (hnew.slots x).1 hx
          nodup := hnew.nodup
        }
      · have hok := h.slab order' slab' hslab'
        have hsame := hheader order' slab' hslab'
        rw [update_of_ne (h.new_not_mem hnew hslab').1]
        have hframe := hok.frame hsame fun x hx => by
          have hcell := h.free_cell hslab' hx
          have hsize := h.cell_size hcell
          exact (hold x _ hcell).load le_rfl (by omega)
        refine ⟨hok.range, ?_, hframe.header, hframe.linked, hok.slots, hok.nodup⟩
        obtain ⟨q, hq, hqs, hpages⟩ := hok.chunk
        obtain ⟨hq', hpages', _⟩ := hnew.old_chunk hq
        refine ⟨q, hq', ?_, ?_⟩
        · rw [hqs]
          exact (hnew.addrOf_eq q).symm
        intro r hrlo hrhi
        exact (hpages' r hrlo hrhi).trans (hpages r hrlo hrhi)
    nodup := by
      intro order'
      by_cases ho : order' = order
      · subst ho
        rw [update_self]
        refine nodup_cons.2 ⟨?_, h.nodup order'⟩
        intro hin
        exact (h.new_not_mem hnew hin).1 rfl
      · rw [update_of_ne ho]
        exact h.nodup order'
    owner := by
      intro q hq hqs
      dsimp only at hqs ⊢
      rw [setSlabs_slab] at hqs ⊢
      by_cases hin : p ≤ q ∧ q < p + 2 ^ slabChunkOrder
      · rw [if_pos hin]
        refine ⟨order, p, ?_, hslab, hin⟩
        rw [update_self]
        exact mem_cons_self
      rw [if_neg hin, hres.shape.slab] at hqs ⊢
      obtain ⟨order', q', hin', haddr, hrange⟩ := h.owner q (hres.shape.num ▸ hq) hqs
      refine ⟨order', q', mem_update_cons.2 (.inr hin'), ?_, hrange⟩
      exact haddr.trans (hnew.addrOf_eq q').symm
  }

end

end ChCore.Kernel
