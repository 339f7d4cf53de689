import ChCore.Kernel.KmallocOps

/-!
# Histories of `kmalloc` and `kfree`

The allocator together with the blocks that clients hold. Clients write into
their blocks as they like. Whatever the history, the blocks are apart from each
other and from all that the allocator keeps in memory.
-/

namespace ChCore.Kernel

open Function List Nat Lib.ByteMem Lib.Dyadic Lib.Heaps Lib.Intervals Lib.LinkedList Lib.Runs

/-- A block that a client holds, and the size it asked for. -/
structure Block where
  addr : Nat
  size : Nat
  deriving DecidableEq, Repr

structure KmSystem where
  km : KmState
  live : List Block

inductive KmOp
  | kmalloc (size : Nat)
  | kfree (ptr : Nat)
  /-- A client writes a byte of the block at `ptr`. -/
  | write (ptr off : Nat) (byte : UInt8)

def kmStep (s : KmSystem) : KmOp → Exec KmSystem
  | .kmalloc size => do
    let (km, addr) ← kmalloc s.km size
    return ⟨km, ⟨addr, size⟩ :: s.live⟩
  | .kfree ptr => do
    let km ← kfree s.km ptr
    return ⟨km, s.live.filter fun b => b.addr ≠ ptr⟩
  | .write ptr off byte =>
    .ok { s with km := { s.km with
      mem := Function.update s.km.mem (ptr + off) byte } }

/-! ## What the allocator keeps in memory -/

namespace KmState

/-- The mark of the page around an address. -/
def pageSlab (s : KmState) (addr : Nat) : Nat := (s.pool.pageMetadata
    ((addr - s.pool.poolStartAddr) / buddyPageSize)).slab

/-- The bytes of the block at `addr`. -/
def blockSize (s : KmState) (addr : Nat) : Nat :=
  if s.pageSlab addr ≠ 0 then 2 ^ slabOrder s.mem (s.pageSlab addr)
  else 2 ^ (s.pool.pageMetadata
    ((addr - s.pool.poolStartAddr) / buddyPageSize)).order * buddyPageSize

/-- `slab` is the header of a slab with slots of `2 ^ order` bytes. -/
def IsSlab (s : KmState) (order slab : Nat) : Prop := slabMinOrder ≤ order ∧ order ≤ slabMaxOrder ∧
    ∃ l, Linked (nextSlab s.mem) (s.slabs order) l ∧ slab ∈ l

/-- `x` is a free slot of `2 ^ order` bytes. -/
def IsFreeSlot (s : KmState) (order x : Nat) : Prop := ∃ slab, s.IsSlab order slab ∧
    ∃ l, Linked (load64 s.mem) (load64 s.mem slab) l ∧ x ∈ l

/-- The buddy system has a free chunk of `order` or larger. -/
def HasChunk (s : KmState) (order : Nat) : Prop :=
  ∃ j q, order ≤ j ∧ j < buddyMaxOrder ∧ IsChunk s.pool q j 0

/-- The memory of block `b` and its extent are the same in both states. -/
def BlockKept (s s' : KmState) (b : Block) : Prop := s'.blockSize b.addr = s.blockSize b.addr ∧
    SameOn s.mem s'.mem b.addr (s.blockSize b.addr)

/-- What is free after `kfree ptr` is what was free before and the block. -/
structure ReleasesExactly (s s' : KmState) (ptr : Nat) : Prop where
  slot : s.pageSlab ptr ≠ 0 → (∀ order x, s'.IsFreeSlot order x ↔
      s.IsFreeSlot order x ∨ (x = ptr ∧ 2 ^ order = s.blockSize ptr)) ∧
    ∀ p k, IsChunk s'.pool p k 1 ↔ IsChunk s.pool p k 1
  chunk : s.pageSlab ptr = 0 → (∀ order x, s'.IsFreeSlot order x ↔ s.IsFreeSlot order x) ∧
    ∀ p k, IsChunk s'.pool p k 1 ↔ IsChunk s.pool p k 1 ∧ s.pool.addrOf p ≠ ptr

end KmState

/-- `sizeof(slab_header_t)`. -/
def slabHeaderSize : Nat := 24

/-- **The blocks of clients.** -/
structure BlocksOk (s : KmSystem) : Prop where
  inside : ∀ b ∈ s.live, s.km.pool.poolStartAddr ≤ b.addr ∧ b.addr + s.km.blockSize b.addr ≤
      s.km.pool.poolStartAddr + s.km.pool.poolMemSize
  large : ∀ b ∈ s.live, b.size ≤ s.km.blockSize b.addr
  apart : s.live.Pairwise fun b c =>
    Apart b.addr (s.km.blockSize b.addr) c.addr (s.km.blockSize c.addr)
  headers : ∀ b ∈ s.live, ∀ order slab, s.km.IsSlab order slab →
    Apart b.addr (s.km.blockSize b.addr) slab slabHeaderSize
  slots : ∀ b ∈ s.live, ∀ order x, s.km.IsFreeSlot order x →
    Apart b.addr (s.km.blockSize b.addr) x (2 ^ order)

/-- There is memory for a block of `size` bytes. -/
def HasRoom (s : KmState) (size : Nat) : Prop := (size ≤ orderToSize slabMaxOrder ∧
    ((∃ x, s.IsFreeSlot (slotOrder size) x) ∨ s.HasChunk slabChunkOrder)) ∨
  (orderToSize slabMaxOrder < size ∧ size ≤ 2 ^ 13 * buddyPageSize ∧ s.HasChunk (kmallocOrder size))

/-- There is memory for two blocks of `size` bytes. -/
def HasRoomTwice (s : KmState) (size : Nat) : Prop := (size ≤ orderToSize slabMaxOrder ∧
    ((∃ x y, x ≠ y ∧ s.IsFreeSlot (slotOrder size) x ∧
      s.IsFreeSlot (slotOrder size) y) ∨ s.HasChunk slabChunkOrder)) ∨
  (orderToSize slabMaxOrder < size ∧ size ≤ 2 ^ 13 * buddyPageSize ∧
    TwoChunks s.pool (kmallocOrder size))

/-- The calls that clients may make. Whenever memory is requested from the
buddy system, it has a chunk. -/
def KmEnabled (s : KmSystem) : KmOp → Prop
  | .kmalloc size => 0 < size ∧ size ≤ 2 ^ 13 * buddyPageSize ∧
    (size ≤ orderToSize slabMaxOrder → (∀ x, ¬ s.km.IsFreeSlot (slotOrder size) x) →
      s.km.HasChunk slabChunkOrder) ∧
    (orderToSize slabMaxOrder < size → s.km.HasChunk (kmallocOrder size))
  | .kfree ptr => ∃ b ∈ s.live, b.addr = ptr
  | .write ptr off _ => ∃ b ∈ s.live, b.addr = ptr ∧ off < b.size

/-- What a call does. -/
def KmStepOk (s s' : KmSystem) : KmOp → Prop
  | .kmalloc size => ∃ addr, kmalloc s.km size = .ok (s'.km, addr) ∧
    addr ≠ 0 ∧ s'.live = ⟨addr, size⟩ :: s.live ∧
    ∀ b ∈ s.live, s.km.BlockKept s'.km b
  | .kfree ptr => s'.live = (s.live.filter fun b => b.addr ≠ ptr) ∧
    s.km.ReleasesExactly s'.km ptr ∧ ∀ b ∈ s'.live, s.km.BlockKept s'.km b
  | .write ptr _ _ => s'.live = s.live ∧
    ∀ b ∈ s.live, b.addr ≠ ptr → s.km.BlockKept s'.km b

/-! ## The invariant of a history -/

/-- Clients hold blocks, each one once. -/
structure KmInv (s : KmSystem) (chain free : Nat → List Nat) : Prop where
  slab : SlabInv s.km chain free
  ready : Ready chain
  block : ∀ b ∈ s.live, ∃ n, b.size ≤ n ∧ IsBlock s.km.pool chain free b.addr n
  nodup : (s.live.map Block.addr).Nodup

section

variable {s : KmState} {chain free : Nat → List Nat} (h : SlabInv s chain free)

include h

variable {order : Nat}

lemma SlabInv.isSlab_iff {slab : Nat} : s.IsSlab order slab ↔ slab ∈ chain order := by
  constructor
  · intro hslab
    obtain ⟨hlo, hhi, l, hl, hmem⟩ := hslab
    rwa [hl.unique (h.linked order hlo hhi)] at hmem
  · intro hslab
    have hrange := (h.slab order slab hslab).range
    exact ⟨hrange.1, hrange.2, _, h.linked order hrange.1 hrange.2, hslab⟩

lemma SlabInv.isFreeSlot_iff {x : Nat} :
    s.IsFreeSlot order x ↔ ∃ slab ∈ chain order, x ∈ free slab := by
  constructor
  · intro hx
    obtain ⟨slab, hslab, l, hl, hmem⟩ := hx
    rw [h.isSlab_iff] at hslab
    rw [hl.unique (h.slab order slab hslab).linked] at hmem
    exact ⟨slab, hslab, hmem⟩
  · intro hx
    obtain ⟨slab, hslab, hmem⟩ := hx
    exact ⟨slab, h.isSlab_iff.2 hslab, _, (h.slab order slab hslab).linked, hmem⟩

lemma SlabInv.pageSlab_slot {slab i : Nat} (hslab : slab ∈ chain order) (hi : i < slotCount order) :
    s.pageSlab (slab + i * 2 ^ order) = slab := by
  obtain ⟨page, hpage, hmark⟩ := h.page_of_slot hslab hi
  unfold KmState.pageSlab
  rw [(virtToPage_inv hpage).2.2, hmark]

lemma SlabInv.page_chunk (p : Nat) :
    (s.pool.addrOf p - s.pool.poolStartAddr) / buddyPageSize = p := by
  rw [h.pool.geometry.start_eq]
  unfold PhysMemPool.addrOf buddyPageSize
  omega

/-- The extent that is computed for a block is the one of its cell. -/
lemma SlabInv.blockSize_eq {x n : Nat} (hx : Cell s.pool chain x n) : s.blockSize x = n := by
  cases hx with
  | @slot order slab i hslab hi =>
    unfold KmState.blockSize
    rw [h.pageSlab_slot hslab hi, if_pos (h.slab_ne_zero hslab), (h.slab order slab hslab).header]
  | @chunk p k hp hno =>
    unfold KmState.blockSize KmState.pageSlab
    rw [h.page_chunk p, if_neg (not_not.2 hno), hp.order]
    rfl

/-- **`kmalloc`** returns a new block. -/
lemma kmalloc_block (hready : Ready chain) {size : Nat} (hroom : HasRoom s size) :
    ∃ s' x n chain' free', kmalloc s size = .ok (s', x) ∧ size ≤ n ∧
    NewBlock s s' chain free chain' free' x n ∧ (HasRoom s' size ↔ HasRoomTwice s size) := by
  unfold kmalloc
  rcases hroom with ⟨hsmall, hslot⟩ | ⟨hlarge, hle, hchunk⟩
  · have hmem : (∀ slab ∈ chain (slotOrder size), free slab = []) → s.HasChunk slabChunkOrder := by
      intro hempty
      rcases hslot with ⟨x, hx⟩ | hchunk
      · obtain ⟨slab, hslab, hin⟩ := h.isFreeSlot_iff.1 hx
        rw [hempty slab hslab] at hin
        cases hin
      · exact hchunk
    obtain ⟨s', x, chain', free', hrun, hblock, hleft⟩ := h.allocInSlab hready hsmall hmem
    refine ⟨s', x, _, chain', free', ?_, (slotOrder_spec hsmall).2.2, hblock, ?_⟩
    · rw [if_pos hsmall, hrun]
    unfold HasRoom HasRoomTwice
    simp only [hsmall, true_and, not_lt.2 hsmall, false_and, or_false,
      h.isFreeSlot_iff, hblock.inv.isFreeSlot_iff]
    rcases hleft with ⟨hempty, hsome⟩ | ⟨hpool, hx, hothers⟩
    · exact ⟨fun _ => .inr (hmem hempty), fun _ => .inl hsome⟩
    simp only [hothers, KmState.HasChunk, hpool]
    refine or_congr_left ?_
    constructor
    · rintro ⟨y, hy, hne⟩
      exact ⟨y, x, hne, hy, hx⟩
    · rintro ⟨y, z, hne, hy, hz⟩
      by_cases hyx : y = x
      · exact ⟨z, hz, fun hzx => hne (hyx.trans hzx.symm)⟩
      · exact ⟨y, hy, hyx⟩
  · obtain ⟨pool', p, hrun, hres⟩ := getPages_spec h.pool hchunk
    refine ⟨_, _, _, chain, free, ?_, (kmallocOrder_spec (by omega) hle).2, h.allocChunk hres, ?_⟩
    · rw [if_neg (not_le.2 hlarge), hrun]
      rfl
    unfold HasRoom HasRoomTwice
    simp only [hlarge, hle, true_and, not_le.2 hlarge, false_and, false_or]
    exact hres.left

end

variable {s : KmSystem} {chain free : Nat → List Nat}

lemma NewBlock.blockSize_eq {s s' : KmState} {chain' free' : Nat → List Nat} {x n : Nat}
    (h : NewBlock s s' chain free chain' free' x n) : s'.blockSize x = n :=
  h.inv.blockSize_eq h.block.cell

lemma NewBlock.ne_zero {s s' : KmState} {chain' free' : Nat → List Nat} {x n : Nat}
    (h : NewBlock s s' chain free chain' free' x n) : x ≠ 0 := by
  have hin := h.inv.cell_inside h.block.cell
  have hstart := h.inv.start
  rw [h.inv.pool.geometry.start_eq] at hin
  omega

/-- Memory may be requested when there is some. -/
lemma kmEnabled_kmalloc {size : Nat} :
    KmEnabled s (.kmalloc size) ↔ 0 < size ∧ HasRoom s.km size := by
  simp only [KmEnabled, HasRoom]
  refine and_congr_right fun _ => ?_
  rcases Nat.lt_or_ge (orderToSize slabMaxOrder) size with hlarge | hsmall
  · simp [hlarge, not_le.2 hlarge]
  · have hle : size ≤ 2 ^ 13 * buddyPageSize := le_trans hsmall (by decide)
    simp only [hsmall, not_lt.2 hsmall, hle, true_and, forall_const, false_imp_iff, and_true,
      false_and, or_false]
    rw [or_iff_not_imp_left, not_exists]

lemma KmInv.blocksOk (h : KmInv s chain free) : BlocksOk s where
  inside := by
    intro b hb
    obtain ⟨n, _, hblock⟩ := h.block b hb
    have hin := h.slab.cell_inside hblock.cell
    rw [h.slab.blockSize_eq hblock.cell]
    exact ⟨hin.1, hin.2.1⟩
  large := by
    intro b hb
    obtain ⟨n, hle, hblock⟩ := h.block b hb
    rwa [h.slab.blockSize_eq hblock.cell]
  apart := by
    apply (pairwise_map.1 h.nodup).imp_of_mem
    intro b c hb hc hne
    obtain ⟨n, _, hblock⟩ := h.block b hb
    obtain ⟨m, _, hblock'⟩ := h.block c hc
    rw [h.slab.blockSize_eq hblock.cell, h.slab.blockSize_eq hblock'.cell]
    exact h.slab.cell_apart hblock.cell hblock'.cell hne
  headers := by
    intro b hb order slab hslab
    obtain ⟨n, _, hblock⟩ := h.block b hb
    rw [h.slab.isSlab_iff] at hslab
    rw [h.slab.blockSize_eq hblock.cell]
    have hcell : Cell s.km.pool chain slab (2 ^ order) := Cell.header hslab
    have hsize := h.slab.cell_size hcell
    have hapart := h.slab.cell_apart hcell hblock.cell (Ne.symm (hblock.notHeader _ _ hslab))
    exact (hapart.mono le_rfl (by unfold slabHeaderSize; omega)).symm
  slots := by
    intro b hb order x hx
    obtain ⟨n, _, hblock⟩ := h.block b hb
    obtain ⟨slab, hslab, hmem⟩ := h.slab.isFreeSlot_iff.1 hx
    rw [h.slab.blockSize_eq hblock.cell]
    apply h.slab.cell_apart hblock.cell (h.slab.free_cell hslab hmem)
    intro heq
    exact hblock.notFree _ _ hslab (heq ▸ hmem)

/-! ## Steps -/

/-- A block that stays a block and keeps its bytes. -/
lemma SlabInv.blockKept {s s' : KmState} {chain' free' : Nat → List Nat}
    (h : SlabInv s chain free) (h' : SlabInv s' chain' free') {b : Block}
    {n : Nat} (hb : Cell s.pool chain b.addr n)
    (hb' : Cell s'.pool chain' b.addr n) (hsame : SameOn s.mem s'.mem b.addr n) :
    s.BlockKept s' b := by
  unfold KmState.BlockKept
  rw [h.blockSize_eq hb, h'.blockSize_eq hb']
  exact ⟨rfl, hsame⟩

lemma KmInv.kmalloc (h : KmInv s chain free) {size : Nat} (hen : KmEnabled s (.kmalloc size)) :
    ∃ s' chain' free', kmStep s (.kmalloc size) = .ok s' ∧
    KmInv s' chain' free' ∧ KmStepOk s s' (.kmalloc size) := by
  obtain ⟨km, x, n, chain', free', hrun, hsize, hnew, _⟩ :=
    kmalloc_block h.slab h.ready (kmEnabled_kmalloc.1 hen).2
  have hkept : ∀ b ∈ s.live, ∃ m, b.size ≤ m ∧ IsBlock s.km.pool chain free b.addr m ∧
      IsBlock km.pool chain' free' b.addr m ∧ SameOn s.km.mem km.mem b.addr m := by
    intro b hb
    obtain ⟨m, hm, hblock⟩ := h.block b hb
    obtain ⟨hblock', hsame⟩ := hnew.kept _ _ hblock
    exact ⟨m, hm, hblock, hblock', hsame⟩
  refine ⟨⟨km, ⟨x, size⟩ :: s.live⟩, chain', free', ?_, ?_, ?_⟩
  · rw [kmStep, hrun]
    rfl
  · exact {
      slab := hnew.inv
      ready := hnew.ready h.ready
      block := by
        intro b hb
        rcases mem_cons.1 hb with rfl | hb
        · exact ⟨n, hsize, hnew.block⟩
        obtain ⟨m, hm, _, hblock', _⟩ := hkept b hb
        exact ⟨m, hm, hblock'⟩
      nodup := by
        rw [map_cons, nodup_cons]
        refine ⟨?_, h.nodup⟩
        intro hin
        obtain ⟨b, hb, heq⟩ := mem_map.1 hin
        obtain ⟨m, _, hblock, _⟩ := hkept b hb
        rw [show b.addr = x from heq] at hblock
        exact hnew.fresh m hblock
    }
  · refine ⟨x, hrun, hnew.ne_zero, rfl, fun b hb => ?_⟩
    obtain ⟨m, _, hblock, hblock', hsame⟩ := hkept b hb
    exact h.slab.blockKept hnew.inv hblock.cell hblock'.cell hsame

/-- The free slots and chunks after `kfree`. -/
lemma SlabInv.releasesExactly {s s' : KmState} {free' : Nat → List Nat}
    {x : Nat} (h : SlabInv s chain free) (h' : SlabInv s' chain free')
    (hrel : Released s chain free x s' free') : s.ReleasesExactly s' x := by
  cases hrel with
  | @slot order slab i hslab hi hx hpool hfree =>
    subst hx
    have hsize : s.blockSize (slab + i * 2 ^ order) = 2 ^ order :=
      h.blockSize_eq (Cell.slot hslab hi)
    have hmark := h.pageSlab_slot hslab hi
    refine ⟨fun _ => ⟨?_, fun p k => by rw [hpool]⟩, fun hzero => ?_⟩
    · intro order' y
      rw [h'.isFreeSlot_iff, h.isFreeSlot_iff, hsize, hfree]
      constructor
      · intro hy
        obtain ⟨slab', hslab', hin⟩ := hy
        rcases mem_update_cons.1 hin with ⟨rfl, heq⟩ | hin
        · obtain rfl := h.order_unique hslab hslab'
          exact .inr ⟨heq, rfl⟩
        · exact .inl ⟨slab', hslab', hin⟩
      · intro hy
        rcases hy with ⟨slab', hslab', hin⟩ | ⟨rfl, hpow⟩
        · exact ⟨slab', hslab', mem_update_cons.2 (.inr hin)⟩
        obtain rfl := Nat.pow_right_injective (le_refl 2) hpow
        exact ⟨slab, hslab, mem_update_cons.2 (.inl ⟨rfl, rfl⟩)⟩
    · rw [hmark] at hzero
      exact absurd hzero (h.slab_ne_zero hslab)
  | @chunk p k hp hno hx hchunks hfree =>
    subst hx hfree
    refine ⟨fun hne => ?_, fun _ => ⟨?_, ?_⟩⟩
    · unfold KmState.pageSlab at hne
      rw [h.page_chunk p] at hne
      exact absurd hno hne
    · intro order y
      rw [h'.isFreeSlot_iff, h.isFreeSlot_iff]
    intro q l
    rw [hchunks]
    constructor
    · intro hq
      exact ⟨hq.1, fun heq => hq.2 (addrOf_inj heq)⟩
    · intro hq
      exact ⟨hq.1, fun heq => hq.2 (by rw [heq])⟩

lemma KmInv.kfree (h : KmInv s chain free) {ptr : Nat} (hen : KmEnabled s (.kfree ptr)) :
    ∃ s' chain' free', kmStep s (.kfree ptr) = .ok s' ∧
    KmInv s' chain' free' ∧ KmStepOk s s' (.kfree ptr) := by
  obtain ⟨b, hb, rfl⟩ := hen
  obtain ⟨n, _, hblock⟩ := h.block b hb
  obtain ⟨km, free', hrun, hinv, hrel, _, hblocks, hsame⟩ := h.slab.kfree hblock
  have hlive : ∀ c ∈ s.live.filter (fun c => c.addr ≠ b.addr),
      ∃ m, c.size ≤ m ∧ IsBlock s.km.pool chain free c.addr m ∧
        IsBlock km.pool chain free' c.addr m ∧ c.addr ≠ b.addr := by
    intro c hc
    obtain ⟨hmem, hne⟩ := mem_filter.1 hc
    replace hne : c.addr ≠ b.addr := of_decide_eq_true hne
    obtain ⟨m, hm, hcblock⟩ := h.block c hmem
    exact ⟨m, hm, hcblock, (hblocks _ _).2 ⟨hcblock, hne⟩, hne⟩
  refine ⟨⟨km, s.live.filter fun c => c.addr ≠ b.addr⟩, chain, free', ?_, ?_, ?_⟩
  · rw [kmStep, hrun]
    rfl
  · exact {
      slab := hinv
      ready := h.ready
      block := by
        intro c hc
        obtain ⟨m, hm, _, hcblock, _⟩ := hlive c hc
        exact ⟨m, hm, hcblock⟩
      nodup := (filter_sublist.map Block.addr).nodup h.nodup
    }
  · refine ⟨rfl, h.slab.releasesExactly hinv hrel, ?_⟩
    intro c hc
    obtain ⟨m, _, hcblock, hcblock', hne⟩ := hlive c hc
    exact h.slab.blockKept hinv hcblock.cell hcblock'.cell (hsame _ _ hcblock hne)

/-- Memory changes outside of headers and free slots. -/
lemma SlabInv.setMem {s : KmState} (h : SlabInv s chain free) {mem' : Mem}
    (hheader : ∀ order slab, slab ∈ chain order → SameOn s.mem mem' slab 32)
    (hslot : ∀ order slab, slab ∈ chain order → ∀ x ∈ free slab, SameOn s.mem mem' x 32) :
    SlabInv { s with mem := mem' } chain free where
  pool := h.pool
  start := h.start
  linked := by
    intro order hlo hhi
    apply (h.linked order hlo hhi).congr
    intro slab hslab
    exact (hheader order slab hslab).load (by omega) (by omega)
  slab := by
    intro order slab hslab
    exact (h.slab order slab hslab).frame (hheader order slab hslab) fun x hx =>
      (hslot order slab hslab x hx).load le_rfl (by omega)
  nodup := h.nodup
  owner := h.owner

lemma KmInv.write (h : KmInv s chain free) {ptr off : Nat} {byte : UInt8}
    (hen : KmEnabled s (.write ptr off byte)) :
    ∃ s' chain' free', kmStep s (.write ptr off byte) = .ok s' ∧
    KmInv s' chain' free' ∧ KmStepOk s s' (.write ptr off byte) := by
  obtain ⟨b, hb, rfl, hoff⟩ := hen
  obtain ⟨n, hn, hblock⟩ := h.block b hb
  -- the byte is in the cell of the block
  have hsame : ∀ y m, Cell s.km.pool chain y m → y ≠ b.addr →
      SameOn s.km.mem (update s.km.mem (b.addr + off) byte) y m := by
    intro y m hy hne z hlo hhi
    apply update_of_ne
    rintro rfl
    exact h.slab.cell_apart hy hblock.cell hne _ hlo hhi (by omega) (by omega)
  have hinv : SlabInv { s.km with mem := update s.km.mem (b.addr + off) byte } chain free := by
    apply h.slab.setMem
    · intro order slab hslab z hlo hhi
      have hcell : Cell s.km.pool chain slab (2 ^ order) := Cell.header hslab
      have hsize := h.slab.cell_size hcell
      exact hsame _ _ hcell (Ne.symm (hblock.notHeader _ _ hslab)) z hlo (by omega)
    intro order slab hslab x hx z hlo hhi
    have hcell := h.slab.free_cell hslab hx
    have hsize := h.slab.cell_size hcell
    refine hsame _ _ hcell ?_ z hlo (by omega)
    rintro rfl
    exact hblock.notFree _ _ hslab hx
  refine ⟨_, chain, free, rfl, ⟨hinv, h.ready, h.block, h.nodup⟩, rfl, ?_⟩
  intro c hc hne
  obtain ⟨m, _, hcblock⟩ := h.block c hc
  exact h.slab.blockKept hinv hcblock.cell hcblock.cell (hsame _ _ hcblock.cell hne)

/-- Every call that clients may make returns, and keeps the invariant. -/
lemma kmStep_spec (h : KmInv s chain free) {op : KmOp} (hen : KmEnabled s op) :
    ∃ s' chain' free', kmStep s op = .ok s' ∧ KmInv s' chain' free' ∧ KmStepOk s s' op := by
  cases op with
  | kmalloc size => exact h.kmalloc hen
  | kfree ptr => exact h.kfree hen
  | write ptr off byte => exact h.write hen

/-! ## Initialising -/

/-- The buddy system has a chunk for a slab. -/
def RoomForSlab (s : KmState) (_ : Nat) : Prop := s.HasChunk slabChunkOrder

/-- One round of `init_slab`. -/
lemma SlabInv.initSlabStep {s : KmState} (h : SlabInv s chain free)
    {order : Nat} (hlo : slabMinOrder ≤ order) (hhi : order ≤ slabMaxOrder)
    (hnone : chain order = []) (hroom : s.HasChunk slabChunkOrder) :
    ∃ s' slab slots, ChCore.Kernel.initSlabStep s order = .ok s' ∧
    (∃ s1, NewSlab s s1 order slab slots ∧ s'.pool = s1.pool) ∧
    SlabInv s' (update chain order [slab]) (update free slab slots) := by
  obtain ⟨s1, slab, slots, hrun, hnew⟩ := initSlabCache_spec h.pool hroom hlo hhi
  have hzero : s.slabs order = 0 := by
    have hlinked := h.linked order hlo hhi
    rw [hnone] at hlinked
    exact hlinked
  obtain ⟨hinv, _⟩ := h.addSlab hnew hlo hhi s1.mem (fun _ _ => rfl) (hnew.next.trans hzero.symm)
  rw [hnone] at hinv
  refine ⟨⟨s1.pool, s1.mem, update s.slabs order slab⟩, slab, slots, ?_, ⟨s1, hnew, rfl⟩, hinv⟩
  rw [ChCore.Kernel.initSlabStep, hrun, ← hnew.slabs]
  rfl

/-- `init_slab` makes a slab for every order it goes through. -/
lemma initSlab_run (orders : List Nat) :
    ∀ (s : KmState) (chain free : Nat → List Nat), SlabInv s chain free →
    (∀ order ∈ orders, slabMinOrder ≤ order ∧ order ≤ slabMaxOrder ∧
    chain order = []) → orders.Nodup → Admissible initSlabStep RoomForSlab s orders →
    ∃ s' chain' free', run initSlabStep s orders = .ok s' ∧ SlabInv s' chain' free' ∧
    (∀ order ∈ orders, chain' order ≠ []) ∧
    ∀ order, order ∉ orders → chain' order = chain order := by
  induction orders with
  | nil =>
    intro s chain free h _ _ _
    exact ⟨s, chain, free, rfl, h, fun _ hin => absurd hin not_mem_nil, fun _ _ => rfl⟩
  | cons order orders ih =>
    intro s chain free h horders hnodup hadm
    obtain ⟨hlo, hhi, hnone⟩ := horders order mem_cons_self
    obtain ⟨hnot, hnodup⟩ := nodup_cons.1 hnodup
    obtain ⟨s1, slab, slots, hstep, _, h₁⟩ := h.initSlabStep hlo hhi hnone hadm.1
    have hrest : ∀ order' ∈ orders, slabMinOrder ≤ order' ∧ order' ≤ slabMaxOrder ∧
        update chain order [slab] order' = [] := by
      intro order' hin
      have hne : order' ≠ order := by
        rintro rfl
        exact hnot hin
      rw [update_of_ne hne]
      exact horders order' (mem_cons_of_mem _ hin)
    obtain ⟨s', chain', free', hrun, h', hsome, hsame⟩ :=
      ih s1 _ _ h₁ hrest hnodup (hadm.2 s1 hstep)
    refine ⟨s', chain', free', ?_, h', ?_, ?_⟩
    · rw [run_cons_ok orders hstep]
      exact hrun
    · intro order' hin
      rcases mem_cons.1 hin with rfl | hin
      · rw [hsame _ hnot, update_self]
        exact cons_ne_nil _ _
      · exact hsome order' hin
    · intro order' hin
      rw [mem_cons, not_or] at hin
      rw [hsame _ hin.2, update_of_ne hin.1]

/-- Before `init_slab` there are no slabs. -/
lemma slabInv_init {startAddr pageNum : Nat} {pool : PhysMemPool}
    (hpos : startAddr ≠ 0) (haligned : buddyPageSize ∣ startAddr) (hinv : PoolInv pool none)
    (hshape : SameShape (initPool startAddr pageNum) pool) (mem : Mem) :
    SlabInv ⟨pool, mem, fun _ => 0⟩ (fun _ => []) (fun _ => []) where
  pool := hinv
  start := by
    show 0 < pool.base
    rw [hshape.base]
    exact div_pos (le_of_dvd (pos_of_ne_zero hpos) haligned) (by decide)
  linked := fun _ _ _ => rfl
  slab := fun _ _ hslab => absurd hslab not_mem_nil
  nodup := fun _ => nodup_nil
  owner := by
    intro q _ hq
    have hzero : (pool.pageMetadata q).slab = 0 := by
      rw [hshape.slab]
      unfold initPool
      dsimp only
      split <;> rfl
    exact absurd hzero hq

lemma mem_slabOrders {order : Nat} :
    order ∈ slabOrders ↔ slabMinOrder ≤ order ∧ order ≤ slabMaxOrder := by
  simp only [slabOrders, mem_map, mem_range, slabMinOrder, slabMaxOrder]
  constructor
  · intro h
    obtain ⟨i, hi, rfl⟩ := h
    omega
  · intro h
    exact ⟨order - 5, by omega, by omega⟩

/-- **`init_slab`** makes the allocator ready, if there is memory for the slabs. -/
lemma initSlab_spec {s : KmState} (h : SlabInv s (fun _ => []) (fun _ => []))
    (hroom : Admissible initSlabStep RoomForSlab s slabOrders) :
    ∃ km chain free, initSlab s = .ok km ∧ SlabInv km chain free ∧ Ready chain := by
  obtain ⟨km, chain, free, hrun, hkm, hsome, _⟩ := initSlab_run slabOrders _ _ _ h
    (fun order hin => ⟨(mem_slabOrders.1 hin).1, (mem_slabOrders.1 hin).2, rfl⟩)
    (by decide) hroom
  exact ⟨km, chain, free, hrun, hkm, fun order hlo hhi =>
    hsome order (mem_slabOrders.2 ⟨hlo, hhi⟩)⟩

/-! ## Whole histories -/

/-- **Blocks are separate.** After `init_buddy` and `init_slab`, every history
of calls that clients may make runs to its end; then the blocks of clients are
large enough, inside the pool, and apart from each other, from the headers and
from the free slots, and every further call returns and touches no other
block. -/
theorem kmalloc_blocks_separate (startAddr pageNum : Nat)
    (hpos : startAddr ≠ 0) (hstart : startAddr < 2 ^ 64)
    (haligned : buddyPageSize ∣ startAddr)
    (hinverse : AddrInverse (initPool startAddr pageNum)) (mem : Mem) :
    ∃ pool, initBuddy startAddr pageNum = .ok pool ∧
      (Admissible initSlabStep RoomForSlab ⟨pool, mem, fun _ => 0⟩ slabOrders →
        ∃ km, initSlab ⟨pool, mem, fun _ => 0⟩ = .ok km ∧
          ∀ ops, Admissible kmStep KmEnabled ⟨km, []⟩ ops →
            ∃ s, run kmStep ⟨km, []⟩ ops = .ok s ∧ BlocksOk s ∧ ∀ op, KmEnabled s op →
                ∃ s', kmStep s op = .ok s' ∧ KmStepOk s s' op) := by
  have hrange := poolRange_of_addrInverse hstart haligned hinverse
  obtain ⟨pool, hinit, hinv, hshape, _⟩ := initBuddy_spec hrange
  refine ⟨pool, hinit, ?_⟩
  intro hroom
  obtain ⟨km, chain, free, hrun, hslab, hready⟩ :=
    initSlab_spec (slabInv_init hpos haligned hinv hshape mem) hroom
  refine ⟨km, hrun, ?_⟩
  intro ops hadm
  have hkm : KmInv ⟨km, []⟩ chain free :=
    { slab := hslab
      ready := hready
      block := fun b hb => absurd hb not_mem_nil
      nodup := nodup_nil }
  have hstep : ∀ s op, (∃ chain free, KmInv s chain free) → KmEnabled s op →
      ∃ s', kmStep s op = .ok s' ∧ ∃ chain free, KmInv s' chain free := by
    intro s op hs hen
    obtain ⟨chain, free, hs⟩ := hs
    obtain ⟨s', chain', free', hrun', hs', _⟩ := kmStep_spec hs hen
    exact ⟨s', hrun', chain', free', hs'⟩
  obtain ⟨s, hops, chain', free', hs⟩ := run_total hstep ops ⟨km, []⟩ ⟨chain, free, hkm⟩ hadm
  refine ⟨s, hops, hs.blocksOk, ?_⟩
  intro op hen
  obtain ⟨s', _, _, hrun', _, hok⟩ := kmStep_spec hs hen
  exact ⟨s', hrun', hok⟩

/-! A pool that is large enough for `init_slab`. -/

/-- With fewer allocated slabs than blocks of their size, a free chunk is large
enough for one more. -/
lemma hasChunk_of_length_lt {s : KmState} (h : PoolInv s.pool none)
    (hmerged : Merged s.pool none) (hbase : 2 ^ slabChunkOrder ∣ s.pool.base)
    {slabs : List Nat} {n : Nat}
    (hlive : ∀ q l, IsChunk s.pool q l 1 → q ∈ slabs ∧ l = slabChunkOrder)
    (hn : n * 2 ^ slabChunkOrder ≤ s.pool.poolPhysPageNum)
    (hlen : slabs.length < n) : s.HasChunk slabChunkOrder := by
  -- a block that is not the place of a slab
  obtain ⟨i, hi, hnot⟩ : ∃ i < n, i * 2 ^ slabChunkOrder ∉ slabs := by
    by_contra hall
    have hsub : (List.range n).map (· * 2 ^ slabChunkOrder) ⊆ slabs := by
      intro q hq
      obtain ⟨i, hi, rfl⟩ := mem_map.1 hq
      by_contra hno
      exact hall ⟨i, mem_range.1 hi, hno⟩
    have hnodup : ((List.range n).map (· * 2 ^ slabChunkOrder)).Nodup :=
      nodup_range.map fun i j hij =>
        eq_of_mul_eq_mul_right (by decide) hij
    have hle := (subperm_of_subset hnodup hsub).length_le
    rw [length_map, length_range] at hle
    omega
  have hal : 2 ^ slabChunkOrder ∣ s.pool.base + i * 2 ^ slabChunkOrder :=
    dvd_add hbase (dvd_mul_left _ _)
  have hend : i * 2 ^ slabChunkOrder + 2 ^ slabChunkOrder ≤ s.pool.poolPhysPageNum := by
    have := mul_le_mul_right (2 ^ slabChunkOrder) (succ_le_of_lt hi)
    rw [succ_mul] at this
    omega
  -- all its pages are in free chunks
  have hfree : ∀ r, i * 2 ^ slabChunkOrder ≤ r → r < i * 2 ^ slabChunkOrder + 2 ^ slabChunkOrder →
      ∃ c : Chunk, IsChunk s.pool c.head c.order 0 ∧ c.Covers r := by
    intro r hlo hhi
    obtain ⟨c, hc, hcov⟩ := h.exists_chunk (show r < _ by omega)
    have hflag := h.flag c.head hc.lt
    rw [hc.allocated] at hflag
    rcases le_one_iff_eq_zero_or_eq_one.1 hflag with h0 | h1
    · rw [h0] at hc
      exact ⟨c, hc, hcov⟩
    rw [h1] at hc
    obtain ⟨hin, horder⟩ := hlive _ _ hc
    have hdiv := (hc.mem_iff r).2 hcov
    rw [horder] at hdiv
    have hr : (s.pool.base + r) / 2 ^ slabChunkOrder =
        (s.pool.base + i * 2 ^ slabChunkOrder) / 2 ^ slabChunkOrder :=
      (div_eq_iff_of_dvd hal).2 (by omega)
    have heq := (Nat.div_left_inj (horder ▸ hc.aligned) hal).1 (hdiv.symm.trans hr)
    rw [add_left_cancel heq] at hin
    exact absurd hin hnot
  have hlabel : ∀ r (c : Chunk), IsChunk s.pool c.head c.order 0 → c.Covers r →
      s.pool.label (s.pool.base + r) = some (c.order, 0) :=
    fun r c hc hcov => hc.frame h.coherent ((hc.mem_iff r).2 hcov)
  obtain ⟨c, hc, hcov⟩ := hfree (i * 2 ^ slabChunkOrder) le_rfl
    (Nat.lt_add_of_pos_right (by decide))
  refine ⟨c.order, c.head, ?_, hc.order ▸ h.orderLt _ hc.lt, hc⟩
  apply hmerged.le_order h.coherent (a := s.pool.base + i * 2 ^ slabChunkOrder)
    (by decide) _ c.order _ rfl (hlabel _ c hc hcov)
  intro x hx
  have hx' := (div_eq_iff_of_dvd hal).1 hx
  obtain ⟨d, hd, hdcov⟩ := hfree (x - s.pool.base) (by omega) (by omega)
  have := hlabel _ d hd hdcov
  rw [show s.pool.base + (x - s.pool.base) = x by omega] at this
  exact ⟨d.order, this⟩

/-- `init_slab` has enough memory in a pool with more than seven such blocks,
and a free chunk is left. -/
lemma admissible_initSlab (orders : List Nat) (n : Nat) :
    ∀ (s : KmState) (chain free : Nat → List Nat) (slabs : List Nat),
    SlabInv s chain free → Merged s.pool none → 2 ^ slabChunkOrder ∣ s.pool.base →
    n * 2 ^ slabChunkOrder ≤ s.pool.poolPhysPageNum →
    (∀ q l, IsChunk s.pool q l 1 → q ∈ slabs ∧ l = slabChunkOrder) →
    slabs.length + orders.length < n →
    (∀ order ∈ orders, slabMinOrder ≤ order ∧ order ≤ slabMaxOrder ∧
    chain order = []) → orders.Nodup →
    Admissible initSlabStep RoomForSlab s orders ∧ ∀ s', run initSlabStep s orders = .ok s' →
    s'.HasChunk slabChunkOrder := by
  induction orders with
  | nil =>
    intro s chain free slabs h hmerged hbase hn hlive hlen _ _
    refine ⟨trivial, ?_⟩
    intro s' hs'
    cases hs'
    exact hasChunk_of_length_lt h.pool hmerged hbase hlive hn hlen
  | cons order orders ih =>
    intro s chain free slabs h hmerged hbase hn hlive hlen horders hnodup
    rw [length_cons] at hlen
    have hroom := hasChunk_of_length_lt h.pool hmerged hbase hlive hn (by omega)
    obtain ⟨hlo, hhi, hnone⟩ := horders order mem_cons_self
    obtain ⟨hnot, hnodup⟩ := nodup_cons.1 hnodup
    obtain ⟨s1, slab, slots, hstep, ⟨s2, hnew, hpool⟩, h₁⟩ := h.initSlabStep hlo hhi hnone hroom
    obtain ⟨pool1, p, hres, _, hpool2⟩ := hnew.chunk
    have hpool1 := hpool.trans hpool2
    have hrest := ih s1 _ _ (p :: slabs) h₁
      (by rw [hpool1]; exact (hres.merged hmerged).setSlabs _ _ _)
      (by
        rw [hpool1]
        show _ ∣ pool1.base
        rw [hres.shape.base]
        exact hbase)
      (by
        rw [hpool1]
        show _ ≤ pool1.poolPhysPageNum
        rw [hres.shape.num]
        exact hn)
      (by
        intro q l hq
        rw [hpool1, isChunk_setSlabs, hres.live] at hq
        rcases hq with hq | ⟨rfl, rfl⟩
        · exact ⟨mem_cons_of_mem _ (hlive q l hq).1, (hlive q l hq).2⟩
        · exact ⟨mem_cons_self, rfl⟩)
      (by rw [length_cons]; omega)
      (by
        intro order' hin
        have hne : order' ≠ order := by
          rintro rfl
          exact hnot hin
        rw [update_of_ne hne]
        exact horders order' (mem_cons_of_mem _ hin)) hnodup
    constructor
    · refine ⟨hroom, ?_⟩
      intro s' hs'
      rw [hstep] at hs'
      cases hs'
      exact hrest.1
    · intro s' hs'
      rw [run_cons_ok orders hstep] at hs'
      exact hrest.2 s' hs'

/-- Booting with 32 MiB of memory. The slabs are made and a chunk is left. -/
lemma boot_32MiB : ∃ pool km, initBuddy 0x2000000 8192 = .ok pool ∧
    Admissible initSlabStep RoomForSlab ⟨pool, fun _ => 0, fun _ => 0⟩ slabOrders ∧
    initSlab ⟨pool, fun _ => 0, fun _ => 0⟩ = .ok km ∧
    (∃ chain free, SlabInv km chain free ∧ Ready chain) ∧ km.HasChunk slabChunkOrder := by
  have hrange : PoolRange 0x2000000 8192 := ⟨by decide, by decide⟩
  obtain ⟨pool, hinit, hinv, hshape, hnone, hmerged⟩ := initBuddy_spec hrange
  have hslab := slabInv_init (by decide) (by decide) hinv hshape fun _ => 0
  obtain ⟨hadm, hleft⟩ := admissible_initSlab slabOrders 16 _ _ _ [] hslab hmerged (by
      show _ ∣ pool.base
      rw [hshape.base]
      decide)
    (by
      show _ ≤ pool.poolPhysPageNum
      rw [hshape.num]
      decide)
    (fun q l hq => absurd hq (hnone q l)) (by decide)
    (fun order hin => ⟨(mem_slabOrders.1 hin).1, (mem_slabOrders.1 hin).2, rfl⟩)
    (by decide)
  obtain ⟨km, chain, free, hrun, hready⟩ := initSlab_spec hslab hadm
  exact ⟨pool, km, hinit, hadm, hrun, ⟨chain, free, hready⟩, hleft km hrun⟩

/-- With 32 MiB of memory a client gets two slots, writes to one and frees it. -/
theorem kmalloc_blocks_separate_slots : ∃ pool km p s, initBuddy 0x2000000 8192 = .ok pool ∧
      initSlab ⟨pool, fun _ => 0, fun _ => 0⟩ = .ok km ∧
      run kmStep ⟨km, []⟩ [.kmalloc 32, .kmalloc 32, .write p 31 1, .kfree p] = .ok s ∧
      BlocksOk s := by
  have hrange : PoolRange 0x2000000 8192 := ⟨by decide, by decide⟩
  obtain ⟨pool, hinit, hall⟩ := kmalloc_blocks_separate 0x2000000 8192
    (by decide) (by decide) (by decide) hrange.addrInverse (fun _ => 0)
  obtain ⟨pool', km, hinit', hadm, hslab', ⟨chain, free, hinv, hready⟩, hchunk⟩ := boot_32MiB
  rw [hinit] at hinit'
  cases hinit'
  obtain ⟨km', hslab, hops⟩ := hall hadm
  rw [hslab] at hslab'
  cases hslab'
  have hroom : HasRoom km 32 := .inl ⟨by decide, .inr hchunk⟩
  obtain ⟨km1, p, _, _, _, hkm1, _, _, htwice⟩ := kmalloc_block hinv hready hroom
  have hfirst : kmStep ⟨km, []⟩ (.kmalloc 32) = .ok ⟨km1, [⟨p, 32⟩]⟩ := by
    rw [kmStep, hkm1]
    rfl
  have hen : KmEnabled ⟨km, []⟩ (.kmalloc 32) := kmEnabled_kmalloc.2 ⟨by decide, hroom⟩
  have hen1 : KmEnabled ⟨km1, [⟨p, 32⟩]⟩ (.kmalloc 32) :=
    kmEnabled_kmalloc.2 ⟨by decide, htwice.2 (.inl ⟨by decide, .inr hchunk⟩)⟩
  obtain ⟨s1, hrun1, -, hnext⟩ := hops [.kmalloc 32] ⟨hen, fun _ _ => trivial⟩
  rw [run_cons_ok _ hfirst] at hrun1
  cases hrun1
  obtain ⟨s2, hsecond, q, -, -, hlive, -⟩ := hnext _ hen1
  have hmem : ⟨p, 32⟩ ∈ s2.live := hlive ▸ mem_cons_of_mem _ mem_cons_self
  obtain ⟨s, hrun, hok, -⟩ := hops [.kmalloc 32, .kmalloc 32, .write p 31 1, .kfree p]
    ⟨hen, fun s' hs' => by
      rw [hfirst] at hs'
      cases hs'
      refine ⟨hen1, fun s' hs' => ?_⟩
      rw [hsecond] at hs'
      cases hs'
      refine ⟨⟨⟨p, 32⟩, hmem, rfl, show 31 < 32 by decide⟩, fun s3 hs3 => ?_⟩
      cases hs3
      exact ⟨⟨⟨p, 32⟩, hmem, rfl⟩, fun _ _ => trivial⟩⟩
  exact ⟨pool, km, p, s, hinit, hslab, hrun, hok⟩

end ChCore.Kernel
