import ChCore.Lib.LinkedList
import ChCore.Kernel.BuddyRuns
import ChCore.Kernel.SlabModel

/-!
# The invariant of the slab allocator

The allocated memory is cut into *cells*: the slots of the slabs, the first of
which hold the headers, and the chunks of the buddy system that are no slabs.
Two cells are the same or have no byte in common (`SlabInv.cell_apart`), so all
that is left to say about headers, free slots and blocks is that they are
different cells.
-/

namespace ChCore.Kernel

open Lib.ByteMem PhysMemPool Nat Lib.Dyadic Lib.Intervals Lib.LinkedList

/-- The address of a page. -/
def PhysMemPool.addrOf (pool : PhysMemPool) (p : Nat) : Nat := 4096 * (pool.base + p)

/-- The order of the chunk of a slab. -/
def slabChunkOrder : Nat := 9

/-- The slots of a slab, the header included. -/
def slotCount (order : Nat) : Nat := 2 ^ (21 - order)

/-- The cells of the allocated memory; `chain order` are the slabs with slots
of `2 ^ order` bytes. -/
inductive Cell (pool : PhysMemPool) (chain : Nat → List Nat) : Nat → Nat → Prop
  | slot {order slab i : Nat} (hslab : slab ∈ chain order)
    (hi : i < slotCount order) :
    Cell pool chain (slab + i * 2 ^ order) (2 ^ order)
  | chunk {p k : Nat} (hp : IsChunk pool p k 1)
    (hslab : (pool.pageMetadata p).slab = 0) :
    Cell pool chain (pool.addrOf p) (2 ^ k * 4096)

/-- Slab `slab` with slots of `2 ^ order` bytes, of which `free` are free. -/
structure SlabOk (s : KmState) (order slab : Nat) (free : List Nat) : Prop where
  range : slabMinOrder ≤ order ∧ order ≤ slabMaxOrder
  chunk : ∃ p, IsChunk s.pool p slabChunkOrder 1 ∧ slab = s.pool.addrOf p ∧
    ∀ q, p ≤ q → q < p + 2 ^ slabChunkOrder → (s.pool.pageMetadata q).slab = slab
  header : slabOrder s.mem slab = order
  linked : Linked (load64 s.mem) (load64 s.mem slab) free
  slots : ∀ x ∈ free, ∃ i, i ≠ 0 ∧ i < slotCount order ∧ x = slab + i * 2 ^ order
  nodup : free.Nodup

/-- The header and the free slots stay as they are. -/
lemma SlabOk.frame {s : KmState} {order slab : Nat} {free : List Nat} {mem' : Mem}
    (h : SlabOk s order slab free) (hsame : SameOn s.mem mem' slab 32)
    (hfree : ∀ x ∈ free, load64 mem' x = load64 s.mem x) :
    SlabOk { s with mem := mem' } order slab free :=
  { h with
    header := (hsame.load (by omega) (by omega)).trans h.header
    linked := by
      have hhead : load64 mem' slab = load64 s.mem slab := hsame.load le_rfl (by omega)
      show Linked (load64 mem') (load64 mem' slab) free
      rw [hhead]
      exact h.linked.congr hfree }

/-- The invariant, with the slabs of each order and the free slots of each
slab. -/
structure SlabInv (s : KmState) (chain free : Nat → List Nat) : Prop where
  pool : PoolInv s.pool none
  start : 0 < s.pool.base
  linked : ∀ order, slabMinOrder ≤ order → order ≤ slabMaxOrder →
    Linked (nextSlab s.mem) (s.slabs order) (chain order)
  slab : ∀ order slab, slab ∈ chain order → SlabOk s order slab (free slab)
  nodup : ∀ order, (chain order).Nodup
  owner : ∀ q, q < s.pool.poolPhysPageNum → (s.pool.pageMetadata q).slab ≠ 0 →
    ∃ order p, (s.pool.pageMetadata q).slab ∈ chain order ∧
      (s.pool.pageMetadata q).slab = s.pool.addrOf p ∧
      p ≤ q ∧ q < p + 2 ^ slabChunkOrder

/-! ## Chunks -/

section

variable {pool : PhysMemPool} {p q k l : Nat}

lemma addrOf_inj (h : pool.addrOf p = pool.addrOf q) : p = q := by
  unfold addrOf at h
  omega

/-- The chunks of the pool have no byte in common. -/
lemma PoolInv.chunks_apart (h : PoolInv pool none)
    (hp : IsChunk pool p k 1) (hq : IsChunk pool q l 1) (hne : p ≠ q) :
    Apart (pool.addrOf p) (2 ^ k * 4096) (pool.addrOf q) (2 ^ l * 4096) := by
  intro x hplo hphi hqlo hqhi
  unfold addrOf at *
  have hc : (Chunk.mk p k 1).Covers (x / 4096 - pool.base) := by
    constructor
    · show p ≤ x / 4096 - pool.base
      omega
    · show x / 4096 - pool.base < p + 2 ^ k
      omega
  have hd : (Chunk.mk q l 1).Covers (x / 4096 - pool.base) := by
    constructor
    · show q ≤ x / 4096 - pool.base
      omega
    · show x / 4096 - pool.base < q + 2 ^ l
      omega
  exact hne (Chunk.mk.inj (h.chunk_unique hp hq hc hd)).1

/-- A chunk ends below the end of the address space. -/
lemma PoolInv.addr_lt (h : PoolInv pool none) (hp : IsChunk pool p k 1) :
    pool.addrOf p + 2 ^ k * 4096 < 2 ^ 64 := by
  have hin := hp.inside h.coherent
  have hend := h.geometry.end_eq.2
  unfold addrOf
  omega

end

/-! ## Cells -/

lemma slot_end {order i : Nat} (ho : order ≤ slabMaxOrder)
    (hi : i < slotCount order) : i * 2 ^ order + 2 ^ order ≤ 2 ^ 21 := by
  have hle : (i + 1) * 2 ^ order ≤ slotCount order * 2 ^ order := mul_le_mul_right _ hi
  have hall : slotCount order * 2 ^ order = 2 ^ 21 := by
    rw [slotCount, ← pow_add]
    congr 1
    unfold slabMaxOrder at ho
    omega
  rw [succ_mul, hall] at hle
  exact hle

/-- A header is the first cell of its slab. -/
lemma Cell.header {pool : PhysMemPool} {chain : Nat → List Nat}
    {order slab : Nat} (hslab : slab ∈ chain order) : Cell pool chain slab (2 ^ order) := by
  have hpos : 0 < slotCount order := Nat.two_pow_pos _
  have hcell : Cell pool chain (slab + 0 * 2 ^ order) (2 ^ order) := Cell.slot hslab hpos
  rwa [zero_mul, add_zero] at hcell

section

variable {s : KmState} {chain free : Nat → List Nat} (h : SlabInv s chain free)

include h

variable {order slab : Nat}

lemma SlabInv.slab_ne_zero (hslab : slab ∈ chain order) : slab ≠ 0 := by
  obtain ⟨p, _, hp, _⟩ := (h.slab order slab hslab).chunk
  have hstart := h.start
  rw [hp]
  unfold addrOf
  omega

variable {order' : Nat}

lemma SlabInv.order_unique (hslab : slab ∈ chain order) (hslab' : slab ∈ chain order') :
    order = order' := by
  rw [← (h.slab order slab hslab).header, (h.slab order' slab hslab').header]

variable {i : Nat}

/-- A slot lies in the chunk of its slab. -/
lemma SlabInv.slot_inside (hslab : slab ∈ chain order) (hi : i < slotCount order) :
    ∃ p, IsChunk s.pool p slabChunkOrder 1 ∧ slab = s.pool.addrOf p ∧
    s.pool.addrOf p ≤ slab + i * 2 ^ order ∧
    slab + i * 2 ^ order + 2 ^ order ≤ s.pool.addrOf p + 2 ^ slabChunkOrder * 4096 := by
  have hok := h.slab order slab hslab
  obtain ⟨p, hchunk, hp, _⟩ := hok.chunk
  have hend := slot_end hok.range.2 hi
  refine ⟨p, hchunk, hp, ?_, ?_⟩
  · omega
  rw [← hp]
  unfold slabChunkOrder
  omega

variable {slab' : Nat}

/-- Different slabs have no byte in common. -/
lemma SlabInv.slabs_apart (hslab : slab ∈ chain order)
    (hslab' : slab' ∈ chain order') (hne : slab ≠ slab') : Apart slab (2 ^ 21) slab' (2 ^ 21) := by
  obtain ⟨p, hchunk, rfl, _⟩ := (h.slab order slab hslab).chunk
  obtain ⟨q, hchunk', rfl, _⟩ := (h.slab order' slab' hslab').chunk
  apply h.pool.chunks_apart hchunk hchunk'
  rintro rfl
  exact hne rfl

/-- A slot is in one slab, at one place. -/
lemma SlabInv.slot_unique {j : Nat} (hslab : slab ∈ chain order)
    (hslab' : slab' ∈ chain order') (hi : i < slotCount order) (hj : j < slotCount order')
    (heq : slab + i * 2 ^ order = slab' + j * 2 ^ order') :
    slab = slab' ∧ order = order' ∧ i = j := by
  have hiend := slot_end (h.slab order slab hslab).range.2 hi
  have hjend := slot_end (h.slab order' slab' hslab').range.2 hj
  have hpos := Nat.two_pow_pos order
  have hpos' := Nat.two_pow_pos order'
  have hsame : slab = slab' := by
    by_contra hne
    exact h.slabs_apart hslab hslab' hne (slab + i * 2 ^ order) (by omega)
      (by omega) (by omega) (by omega)
  subst hsame
  obtain rfl := h.order_unique hslab hslab'
  refine ⟨rfl, rfl, ?_⟩
  exact eq_of_mul_eq_mul_right hpos (add_left_cancel heq)

/-- A slot and a chunk that is no slab. -/
lemma SlabInv.slot_chunk_apart {p k : Nat} (hslab : slab ∈ chain order)
    (hi : i < slotCount order) (hp : IsChunk s.pool p k 1)
    (hno : (s.pool.pageMetadata p).slab = 0) :
    Apart (slab + i * 2 ^ order) (2 ^ order) (s.pool.addrOf p) (2 ^ k * 4096) := by
  obtain ⟨q, hchunk, hq, hlo, hhi⟩ := h.slot_inside hslab hi
  have hne : q ≠ p := by
    rintro rfl
    obtain ⟨r, _, hr, hpages⟩ := (h.slab order slab hslab).chunk
    obtain rfl := addrOf_inj (hq.symm.trans hr)
    have := hpages q le_rfl (Nat.lt_add_of_pos_right (by decide))
    rw [hno] at this
    exact h.slab_ne_zero hslab this.symm
  exact (h.pool.chunks_apart hchunk hp hne).mono hlo hhi

variable {x n : Nat}

/-- **Cells.** Two cells are the same or have no byte in common. -/
theorem SlabInv.cell_apart {y m : Nat} (hx : Cell s.pool chain x n)
    (hy : Cell s.pool chain y m) (hne : x ≠ y) : Apart x n y m := by
  cases hx with
  | @slot order slab i hslab hi =>
    cases hy with
    | @slot order' slab' j hslab' hj =>
      by_cases hsame : slab = slab'
      · subst hsame
        obtain rfl := h.order_unique hslab hslab'
        have hij : i ≠ j := by
          rintro rfl
          exact hne rfl
        intro z h1 h2 h3 h4
        rcases lt_or_gt_of_ne hij with hlt | hlt
        · have := mul_le_mul_right (2 ^ order) (succ_le_of_lt hlt)
          rw [succ_mul] at this
          omega
        have := mul_le_mul_right (2 ^ order) (succ_le_of_lt hlt)
        rw [succ_mul] at this
        omega
      · have hiend := slot_end (h.slab order slab hslab).range.2 hi
        have hjend := slot_end (h.slab order' slab' hslab').range.2 hj
        have hapart := h.slabs_apart hslab hslab' hsame
        intro z h1 h2 h3 h4
        exact hapart z (by omega) (by omega) (by omega) (by omega)
    | chunk hp hno => exact h.slot_chunk_apart hslab hi hp hno
  | @chunk p k hp hno =>
    cases hy with
    | slot hslab hj => exact (h.slot_chunk_apart hslab hj hp hno).symm
    | @chunk q l hq _ =>
      apply h.pool.chunks_apart hp hq
      rintro rfl
      exact hne rfl

lemma SlabInv.free_cell (hslab : slab ∈ chain order) (hx : x ∈ free slab) :
    Cell s.pool chain x (2 ^ order) := by
  obtain ⟨i, _, hi, rfl⟩ := (h.slab order slab hslab).slots x hx
  exact Cell.slot hslab hi

/-- No free slot is a header. -/
lemma SlabInv.free_ne_header (hslab : slab ∈ chain order) (hx : x ∈ free slab)
    (hslab' : slab' ∈ chain order') : x ≠ slab' := by
  obtain ⟨i, hne, hi, rfl⟩ := (h.slab order slab hslab).slots x hx
  intro heq
  have hpos : 0 < slotCount order' := Nat.two_pow_pos _
  exact hne (h.slot_unique hslab hslab' hi hpos (by omega)).2.2

/-- A free slot is free in one slab only. -/
lemma SlabInv.free_unique (hslab : slab ∈ chain order)
    (hslab' : slab' ∈ chain order') (hx : x ∈ free slab) (hx' : x ∈ free slab') : slab = slab' := by
  obtain ⟨i, _, hi, hxi⟩ := (h.slab order slab hslab).slots x hx
  obtain ⟨j, _, hj, hxj⟩ := (h.slab order' slab' hslab').slots x hx'
  exact (h.slot_unique hslab hslab' hi hj (hxi.symm.trans hxj)).1

/-- Cells have room for a header. -/
lemma SlabInv.cell_size (hx : Cell s.pool chain x n) : 32 ≤ n := by
  cases hx with
  | @slot order slab i hslab _ =>
    have ho := (h.slab order slab hslab).range.1
    calc 32 = 2 ^ slabMinOrder := rfl
      _ ≤ 2 ^ order := Nat.pow_le_pow_right (by decide) ho
  | @chunk p k _ _ =>
    have := Nat.two_pow_pos k
    omega

/-- A cell lies in the pool and ends below the end of the address space. -/
lemma SlabInv.cell_inside (hx : Cell s.pool chain x n) : s.pool.poolStartAddr ≤ x ∧
    x + n ≤ s.pool.poolStartAddr + s.pool.poolMemSize ∧
    s.pool.poolStartAddr + s.pool.poolMemSize < 2 ^ 64 := by
  have hg := h.pool.geometry
  have hstart := hg.start_eq
  have hsize := hg.size
  have hfits := hg.fits
  unfold buddyPageSize at hsize
  cases hx with
  | @slot order slab i hslab hi =>
    obtain ⟨p, hchunk, hp, hlo, hhi⟩ := h.slot_inside hslab hi
    have hin := hchunk.inside h.pool.coherent
    unfold addrOf at hlo hhi
    omega
  | @chunk p k hp _ =>
    have hin := hp.inside h.pool.coherent
    unfold addrOf
    omega

end

end ChCore.Kernel
