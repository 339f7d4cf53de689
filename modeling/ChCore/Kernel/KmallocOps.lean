import Mathlib.Data.Nat.Log
import ChCore.Kernel.SlabGrow

/-!
# `kmalloc` and `kfree`

One specification for each: `kmalloc` returns a new block that is large enough,
`kfree` takes the block it is given away, and neither changes a byte of any
other block.
-/

namespace ChCore.Kernel

open Function List Nat Lib.ByteMem Lib.Dyadic Lib.Heaps Lib.Intervals Lib.LinkedList

/-! ## Sizes -/

lemma orderLoop_eq (rounds : Nat) : ∀ tmp order, tmp < 2 ^ (rounds + 1) →
    orderLoop rounds tmp order = order + Nat.log 2 tmp := by
  induction rounds with
  | zero =>
    intro tmp order h
    rw [orderLoop, log_of_lt (by omega), add_zero]
  | succ rounds ih =>
    intro tmp order h
    by_cases htmp : tmp > 1
    · have hlog : Nat.log 2 tmp = Nat.log 2 (tmp / 2) + 1 := log_of_one_lt_of_le (by decide) htmp
      rw [orderLoop, if_pos htmp, ih _ _ (by omega), hlog]
      omega
    · rw [orderLoop, if_neg htmp, log_of_lt (by omega), add_zero]

/-- The order that is chosen for `n`, in slots and in pages. -/
lemma order_spec {n order : Nat} (hpos : 0 < n) (hlt : n < 2 ^ 64)
    (horder : order = if n > 2 ^ orderLoop 64 n 0 then orderLoop 64 n 0 + 1 else orderLoop 64 n 0) :
    n ≤ 2 ^ order ∧ ∀ k, n ≤ 2 ^ k → order ≤ k := by
  have hloop : orderLoop 64 n 0 = Nat.log 2 n := by rw [orderLoop_eq 64 n 0 (by omega), zero_add]
  have hlow : 2 ^ Nat.log 2 n ≤ n := pow_log_le_self 2 (by omega)
  have hhigh : n < 2 ^ (Nat.log 2 n + 1) := lt_pow_succ_log_self (by decide) n
  by_cases hgt : n > 2 ^ orderLoop 64 n 0
  · rw [horder, if_pos hgt, hloop]
    refine ⟨le_of_lt hhigh, ?_⟩
    intro k hk
    rw [hloop] at hgt
    exact (Nat.pow_lt_pow_iff_right (by decide)).1 (lt_of_lt_of_le hgt hk)
  rw [horder, if_neg hgt, hloop]
  rw [hloop] at hgt
  refine ⟨by omega, ?_⟩
  intro k hk
  exact (Nat.pow_le_pow_iff_right (by decide)).1 (le_trans hlow hk)

lemma slotOrder_spec {size : Nat} (hle : size ≤ orderToSize slabMaxOrder) :
    slabMinOrder ≤ slotOrder size ∧ slotOrder size ≤ slabMaxOrder ∧ size ≤ 2 ^ slotOrder size := by
  rcases Nat.eq_zero_or_pos size with rfl | hpos
  · decide
  unfold orderToSize at hle
  have hlt : size < 2 ^ 64 := lt_of_le_of_lt hle (by decide)
  obtain ⟨hsize, hmin⟩ := @order_spec size (sizeToOrder size) hpos hlt rfl
  have horder : sizeToOrder size ≤ slabMaxOrder := hmin _ hle
  unfold slotOrder
  dsimp only
  by_cases hlow : sizeToOrder size < slabMinOrder
  · rw [if_pos hlow]
    refine ⟨le_rfl, by decide, le_trans hsize ?_⟩
    exact Nat.pow_le_pow_right (by decide) (le_of_lt hlow)
  · rw [if_neg hlow]
    exact ⟨by omega, horder, hsize⟩

lemma le_pages_mul (size : Nat) : size ≤ (size + 4095) / 4096 * 4096 := by omega

lemma kmallocOrder_spec {size : Nat} (hpos : 0 < size) (hle : size ≤ 2 ^ 13 * buddyPageSize) :
    kmallocOrder size < buddyMaxOrder ∧ size ≤ 2 ^ kmallocOrder size * 4096 := by
  unfold kmallocOrder
  by_cases hone : size ≤ buddyPageSize
  · rw [if_pos hone]
    refine ⟨by decide, ?_⟩
    unfold buddyPageSize at hone
    omega
  rw [if_neg hone]
  unfold buddyPageSize at hone hle
  have hround : u64 (size + (buddyPageSize - 1)) / buddyPageSize = (size + 4095) / 4096 := by
    rw [u64_of_lt (by unfold buddyPageSize; omega)]
    rfl
  obtain ⟨hsize, hmin⟩ := @order_spec ((size + 4095) / 4096)
    (sizeToPageOrder size) (by omega) (by omega)
    (by rw [sizeToPageOrder, hround])
  have hmax : sizeToPageOrder size ≤ 13 := hmin 13 (by omega)
  refine ⟨lt_of_le_of_lt hmax (by decide), ?_⟩
  calc size ≤ (size + 4095) / 4096 * 4096 := le_pages_mul size
    _ ≤ 2 ^ sizeToPageOrder size * 4096 := mul_le_mul_right _ hsize

/-! ## Looking for a slab with a free slot -/

lemma findSlab_spec (mem : Mem) (rounds : Nat) :
    ∀ p l, Linked (nextSlab mem) p l → l.length ≤ rounds → (∃ slab ∈ l, load64 mem slab ≠ 0 ∧
    findSlab mem rounds p = .ok (some slab)) ∨
    ((∀ slab ∈ l, load64 mem slab = 0) ∧ findSlab mem rounds p = .ok none) := by
  induction rounds with
  | zero =>
    intro p l hl hlen
    obtain rfl := length_eq_zero_iff.1 (le_zero.1 hlen)
    refine .inr ⟨fun slab hslab => absurd hslab not_mem_nil, ?_⟩
    rw [findSlab, if_pos (linked_nil.1 hl)]
  | succ rounds ih =>
    intro p l hl hlen
    by_cases hp : p = 0
    · subst hp
      obtain rfl := hl.nil_of_zero
      refine .inr ⟨fun slab hslab => absurd hslab not_mem_nil, ?_⟩
      rw [findSlab, if_pos rfl]
    obtain ⟨l', rfl, hrest⟩ := hl.cons_of_ne hp
    by_cases hhead : load64 mem p ≠ 0
    · refine .inl ⟨p, mem_cons_self, hhead, ?_⟩
      rw [findSlab, if_neg hp, if_pos hhead]
    rw [findSlab, if_neg hp, if_neg hhead]
    rw [length_cons] at hlen
    rcases ih _ l' hrest (by omega) with ⟨slab, hslab, hroom, hrun⟩ | ⟨hnone, hrun⟩
    · exact .inl ⟨slab, mem_cons_of_mem _ hslab, hroom, hrun⟩
    refine .inr ⟨?_, hrun⟩
    intro slab hslab
    rcases mem_cons.1 hslab with rfl | hslab
    · exact not_ne_iff.1 hhead
    · exact hnone slab hslab

/-! ## Allocating -/

/-- The result `x` of an allocation: a new block, and every other block is left
as it is. -/
structure NewBlock (s s' : KmState) (chain free chain' free' : Nat → List Nat)
    (x n : Nat) : Prop where
  inv : SlabInv s' chain' free'
  ready : Ready chain → Ready chain'
  block : IsBlock s'.pool chain' free' x n
  fresh : ∀ m, ¬ IsBlock s.pool chain free x m
  kept : ∀ y m, IsBlock s.pool chain free y m →
    IsBlock s'.pool chain' free' y m ∧ SameOn s.mem s'.mem y m

section

variable {s : KmState} {chain free : Nat → List Nat} (h : SlabInv s chain free)

include h

/-- There are no more slabs than pages. -/
lemma SlabInv.chain_length (order : Nat) : (chain order).length ≤ s.pool.poolPhysPageNum := by
  have hsub : chain order ⊆ (List.range s.pool.poolPhysPageNum).map s.pool.addrOf := by
    intro slab hslab
    obtain ⟨p, hp, rfl, _⟩ := (h.slab order slab hslab).chunk
    exact mem_map.2 ⟨p, mem_range.2 hp.lt, rfl⟩
  have hle := (subperm_of_subset (h.nodup order) hsub).length_le
  rwa [length_map, length_range] at hle

variable {order : Nat}

/-- A slot is taken from a slab. -/
lemma SlabInv.allocSlot {slab : Nat} (hslab : slab ∈ chain order) (hhead : load64 s.mem slab ≠ 0) :
    ∃ mem' x free', ChCore.Kernel.takeSlot s.mem slab = (mem', x) ∧ x ∈ free slab ∧
    (∀ order' y, (∃ slab' ∈ chain order', y ∈ free' slab') ↔
    (∃ slab' ∈ chain order', y ∈ free slab') ∧ y ≠ x) ∧
    NewBlock s { s with mem := mem' } chain free chain free' x (2 ^ order) := by
  obtain ⟨mem', x, l, hrun, hfree, hinv, hsame⟩ := h.takeSlot hslab hhead
  have hx : x ∈ free slab := by
    rw [hfree]
    exact mem_cons_self
  have hnodup := (h.slab order slab hslab).nodup
  rw [hfree] at hnodup
  have hsub : ∀ order' slab', slab' ∈ chain order' →
      ∀ y ∈ update free slab l slab', y ∈ free slab' ∧ y ≠ x := by
    intro order' slab' hslab' y hy
    by_cases hne : slab' = slab
    · rw [hne, update_self] at hy
      rw [hne, hfree]
      refine ⟨mem_cons_of_mem _ hy, ?_⟩
      rintro rfl
      exact (nodup_cons.1 hnodup).1 hy
    rw [update_of_ne hne] at hy
    refine ⟨hy, ?_⟩
    rintro rfl
    exact hne (h.free_unique hslab' hslab hy hx)
  refine ⟨mem', x, update free slab l, hrun, hx, ?_, ?_⟩
  · intro order' y
    constructor
    · rintro ⟨slab', hslab', hy⟩
      obtain ⟨hold, hne⟩ := hsub order' slab' hslab' y hy
      exact ⟨⟨slab', hslab', hold⟩, hne⟩
    · rintro ⟨⟨slab', hslab', hy⟩, hne⟩
      refine ⟨slab', hslab', ?_⟩
      by_cases heq : slab' = slab
      · rw [heq, hfree] at hy
        rw [heq, update_self]
        exact (mem_cons.1 hy).resolve_left hne
      · rw [update_of_ne heq]
        exact hy
  exact {
    inv := hinv
    ready := id
    block :=
      { cell := h.free_cell hslab hx
        notHeader := fun _ _ hslab' => h.free_ne_header hslab hx hslab'
        notFree := fun _ _ hslab' hin => (hsub _ _ hslab' x hin).2 rfl }
    fresh := fun m hblock => hblock.notFree _ _ hslab hx
    kept := by
      intro y m hy
      refine ⟨⟨hy.cell, hy.notHeader, ?_⟩, ?_⟩
      · intro order' slab' hslab' hin
        exact hy.notFree _ _ hslab' (hsub _ _ hslab' y hin).1
      · exact hsame y m hy.cell (hy.notHeader _ _ hslab)
  }

/-- Blocks stay when a slab is added, and none of them is in it. -/
lemma SlabInv.keepBlock {s' : KmState} {slab : Nat} {slots : List Nat}
    (hnew : NewSlab s s' order slab slots) (ho : order ≤ slabMaxOrder)
    {y m : Nat} (hy : IsBlock s.pool chain free y m) :
    IsBlock s'.pool (update chain order (slab :: chain order))
    (update free slab slots) y m ∧ Apart y m slab (2 ^ 21) := by
  obtain ⟨hcell, hapart⟩ := h.old_cell hnew hy.cell
  have hsize := h.cell_size hy.cell
  have hout : ∀ i, i < slotCount order → y ≠ slab + i * 2 ^ order := by
    intro i hi heq
    have hend := slot_end ho hi
    have hpos := Nat.two_pow_pos order
    exact hapart y le_rfl (by omega) (by omega) (by omega)
  refine ⟨⟨hcell, ?_, ?_⟩, hapart⟩
  · intro order' slab' hslab'
    rcases mem_update_cons.1 hslab' with ⟨-, rfl⟩ | hold
    · have := hout 0 (Nat.two_pow_pos _)
      rwa [zero_mul, add_zero] at this
    · exact hy.notHeader _ _ hold
  intro order' slab' hslab'
  by_cases hne : slab' = slab
  · rw [hne, update_self]
    intro hin
    obtain ⟨i, _, hi, heq⟩ := (hnew.slots y).1 hin
    exact hout i hi heq
  rw [update_of_ne hne]
  rcases mem_update_cons.1 hslab' with ⟨-, heq⟩ | hold
  · exact absurd heq hne
  · exact hy.notFree _ _ hold

/-- A slab is added and a slot taken from it. -/
lemma SlabInv.growAlloc (hlo : slabMinOrder ≤ order)
    (hhi : order ≤ slabMaxOrder) (hhead : s.slabs order < 2 ^ 64)
    (hroom : ∃ j q, slabChunkOrder ≤ j ∧ j < buddyMaxOrder ∧ IsChunk s.pool q j 0) :
    ∃ s1 slab mem' x chain' free', initSlabCache s order slabInitSize = .ok (s1, slab) ∧
    load64 (store64 s1.mem (slab + 8) (s.slabs order)) slab ≠ 0 ∧
    ChCore.Kernel.takeSlot (store64 s1.mem (slab + 8) (s.slabs order)) slab = (mem', x) ∧
    (∃ y, ∃ slab' ∈ chain' order, y ∈ free' slab') ∧
    NewBlock s ⟨s1.pool, mem', update s1.slabs order slab⟩ chain free
    chain' free' x (2 ^ order) := by
  obtain ⟨s1, slab, slots, hinit, hnew⟩ := initSlabCache_spec h.pool hroom hlo hhi
  obtain ⟨hinv, hsame⟩ := h.addSlab hnew hlo hhi (store64 s1.mem (slab + 8) (s.slabs order))
    (fun x hx => store_of_outside _ _ _ _ _ (by omega)) (load64_store64 hhead)
  have hslab : slab ∈ update chain order (slab :: chain order) order := by
    rw [update_self]
    exact mem_cons_self
  have hfirst : load64 (store64 s1.mem (slab + 8) (s.slabs order)) slab ≠ 0 := by
    intro hzero
    have hlinked := (hinv.slab order slab hslab).linked
    rw [update_self] at hlinked
    dsimp only at hlinked
    rw [hzero] at hlinked
    exact hnew.nonempty hlinked.nil_of_zero
  obtain ⟨mem', x, free', htake, hx, hleft, hblock⟩ := hinv.allocSlot hslab hfirst
  refine ⟨s1, slab, mem', x, update chain order (slab :: chain order), free', hinit, hfirst,
    htake, ?_, ?_⟩
  · -- the slab has two slots at least
    have hcount : 2 < slotCount order := by
      unfold slotCount
      unfold slabMaxOrder at hhi
      exact lt_of_lt_of_le (by decide) (Nat.pow_le_pow_right (show 0 < 2 by decide)
          (show 10 ≤ 21 - order by omega))
    have hslots : ∀ i, i ≠ 0 → i < slotCount order →
        ∃ slab' ∈ update chain order (slab :: chain order) order,
          slab + i * 2 ^ order ∈ update free slab slots slab' := by
      intro i hi0 hi
      refine ⟨slab, hslab, ?_⟩
      rw [update_self]
      exact (hnew.slots _).2 ⟨i, hi0, hi, rfl⟩
    have hpos := Nat.two_pow_pos order
    by_cases hx1 : slab + 1 * 2 ^ order = x
    · refine ⟨slab + 2 * 2 ^ order, (hleft order _).2 ⟨hslots 2 (by decide) hcount, ?_⟩⟩
      omega
    · exact ⟨_, (hleft order _).2 ⟨hslots 1 (by decide) (by omega), hx1⟩⟩
  rw [hnew.slabs]
  exact {
    inv := hblock.inv
    ready := by
      intro hready
      apply hblock.ready
      intro order' hlo' hhi'
      by_cases ho : order' = order
      · rw [ho, update_self]
        exact cons_ne_nil _ _
      rw [update_of_ne ho]
      exact hready order' hlo' hhi'
    block := hblock.block
    fresh := by
      intro m hold
      -- the slot is in the new slab, and no block is
      have hsize := h.cell_size hold.cell
      have hapart := (h.keepBlock hnew hhi hold).2
      rw [update_self] at hx
      obtain ⟨i, _, hi, rfl⟩ := (hnew.slots x).1 hx
      have hend := slot_end hhi hi
      have hpos := Nat.two_pow_pos order
      exact hapart _ le_rfl (by omega) (by omega) (by omega)
    kept := by
      intro y m hy
      obtain ⟨hy', hsame'⟩ := hblock.kept y m (h.keepBlock hnew hhi hy).1
      exact ⟨hy', (hsame y m hy.cell).trans hsame'⟩
  }

/-- `alloc_in_slab` takes a slot of a slab, or makes a slab when there is none
with a free slot. -/
lemma SlabInv.allocInSlab_cases (hready : Ready chain) {size : Nat}
    (hle : size ≤ orderToSize slabMaxOrder) :
    (∃ slab ∈ chain (slotOrder size), load64 s.mem slab ≠ 0 ∧ ChCore.Kernel.allocInSlab s size =
    .ok ({ s with mem := (ChCore.Kernel.takeSlot s.mem slab).1 },
          (ChCore.Kernel.takeSlot s.mem slab).2)) ∨
    ((∀ slab ∈ chain (slotOrder size), free slab = []) ∧ s.slabs (slotOrder size) < 2 ^ 64 ∧
      ChCore.Kernel.allocInSlab s size = do
        let (s1, slab) ← initSlabCache s (slotOrder size) slabInitSize
        allocInSlabNolock 1
          { s1 with
            mem := store64 s1.mem (slab + 8) (s.slabs (slotOrder size))
            slabs := update s1.slabs (slotOrder size) slab }
          slab (slotOrder size)) := by
  obtain ⟨hlo, hhi, _⟩ := slotOrder_spec hle
  generalize horder : slotOrder size = order at *
  have hlinked := h.linked order hlo hhi
  have hne : s.slabs order ≠ 0 := by
    intro hzero
    rw [hzero] at hlinked
    exact hready order hlo hhi hlinked.nil_of_zero
  obtain ⟨rest, hchain, hrest⟩ := hlinked.cons_of_ne hne
  have hmem : s.slabs order ∈ chain order := by
    rw [hchain]
    exact mem_cons_self
  have hlen : rest.length ≤ s.pool.poolPhysPageNum := by
    have := h.chain_length order
    rw [hchain, length_cons] at this
    omega
  have hunf : ChCore.Kernel.allocInSlab s size = allocInSlabNolock 2 s (s.slabs order) order := by
    unfold ChCore.Kernel.allocInSlab
    rw [if_neg (by omega), horder]
    exact if_neg hne
  rw [hunf, allocInSlabNolock]
  by_cases hhead : load64 s.mem (s.slabs order) ≠ 0
  · refine .inl ⟨_, hmem, hhead, ?_⟩
    rw [if_pos hhead]
  rw [if_neg hhead]
  rcases findSlab_spec s.mem _ _ rest hrest hlen with
    ⟨slab, hslab, hslabroom, hfind⟩ | ⟨hnone, hfind⟩
  · refine .inl ⟨slab, ?_, hslabroom, ?_⟩
    · rw [hchain]
      exact mem_cons_of_mem _ hslab
    rw [hfind, ok_bind]
    rfl
  refine .inr ⟨?_, ?_, ?_⟩
  · intro slab hslab
    have hzero : load64 s.mem slab = 0 := by
      rw [hchain] at hslab
      rcases mem_cons.1 hslab with rfl | hslab
      · exact not_ne_iff.1 hhead
      · exact hnone slab hslab
    have hlist := (h.slab order slab hslab).linked
    rw [hzero] at hlist
    exact hlist.nil_of_zero
  · have hcell : Cell s.pool chain (s.slabs order) (2 ^ order) := Cell.header hmem
    have := h.cell_inside hcell
    omega
  · rw [hfind, ok_bind]

/-- `alloc_in_slab`. The buddy system is asked for memory when no slab of the
order has a free slot. -/
lemma SlabInv.allocInSlab (hready : Ready chain) {size : Nat}
    (hle : size ≤ orderToSize slabMaxOrder)
    (hroom : (∀ slab ∈ chain (slotOrder size), free slab = []) →
    ∃ j q, slabChunkOrder ≤ j ∧ j < buddyMaxOrder ∧ IsChunk s.pool q j 0) :
    ∃ s' x chain' free', ChCore.Kernel.allocInSlab s size = .ok (s', x) ∧
    NewBlock s s' chain free chain' free' x (2 ^ slotOrder size) ∧
    (((∀ slab ∈ chain (slotOrder size), free slab = []) ∧
    ∃ y, ∃ slab ∈ chain' (slotOrder size), y ∈ free' slab) ∨ s'.pool = s.pool ∧
    (∃ slab ∈ chain (slotOrder size), x ∈ free slab) ∧
    ∀ y, (∃ slab ∈ chain' (slotOrder size), y ∈ free' slab) ↔
    (∃ slab ∈ chain (slotOrder size), y ∈ free slab) ∧ y ≠ x) := by
  obtain ⟨hlo, hhi, _⟩ := slotOrder_spec hle
  rcases h.allocInSlab_cases hready hle with ⟨slab, hslab, hhead, hrun⟩ | ⟨hempty, hlt, hrun⟩
  · obtain ⟨mem', x, free', htake, hx, hleft, hblock⟩ := h.allocSlot hslab hhead
    rw [htake] at hrun
    exact ⟨_, x, chain, free', hrun, hblock, Or.inr ⟨rfl, ⟨slab, hslab, hx⟩, hleft _⟩⟩
  obtain ⟨s1, slab, mem', x, chain', free', hinit, hfirst, htake, hleft,
    hblock⟩ := h.growAlloc hlo hhi hlt (hroom hempty)
  refine ⟨_, x, chain', free', ?_, hblock, Or.inl ⟨hempty, hleft⟩⟩
  rw [hrun, hinit, ok_bind]
  dsimp only
  rw [allocInSlabNolock, if_pos hfirst]
  dsimp only
  rw [htake]

end

/-! ## Chunks that are no slabs -/

lemma SameShape.addrOf {pool pool' : PhysMemPool} (h : SameShape pool pool')
    (p : Nat) : pool'.addrOf p = pool.addrOf p := by
  unfold PhysMemPool.addrOf
  rw [h.base]

section

variable {s : KmState} {chain free : Nat → List Nat} (h : SlabInv s chain free)

include h

/-- The buddy system changes, and the slabs stay allocated. -/
lemma SlabInv.setPool {pool' : PhysMemPool} (hinv : PoolInv pool' none)
    (hshape : SameShape s.pool pool')
    (hkeep : ∀ order slab p, slab ∈ chain order → slab = s.pool.addrOf p →
    IsChunk s.pool p slabChunkOrder 1 → IsChunk pool' p slabChunkOrder 1) :
    SlabInv { s with pool := pool' } chain free where
  pool := hinv
  start := by
    show 0 < pool'.base
    rw [hshape.base]
    exact h.start
  linked := h.linked
  slab := by
    intro order slab hslab
    have hok := h.slab order slab hslab
    exact {
      range := hok.range
      chunk := by
        obtain ⟨p, hp, hps, hpages⟩ := hok.chunk
        refine ⟨p, hkeep order slab p hslab hps hp, ?_, ?_⟩
        · rw [hps]
          exact (hshape.addrOf p).symm
        intro q hlo hhi
        show (pool'.pageMetadata q).slab = slab
        rw [hshape.slab]
        exact hpages q hlo hhi
      header := hok.header
      linked := hok.linked
      slots := hok.slots
      nodup := hok.nodup
    }
  nodup := h.nodup
  owner := by
    intro q hq hqs
    replace hq : q < pool'.poolPhysPageNum := hq
    replace hqs : (pool'.pageMetadata q).slab ≠ 0 := hqs
    rw [hshape.num] at hq
    rw [hshape.slab] at hqs
    obtain ⟨order, p, hin, hp, hrange⟩ := h.owner q hq hqs
    refine ⟨order, p, ?_, ?_, hrange⟩
    · show (pool'.pageMetadata q).slab ∈ _
      rw [hshape.slab]
      exact hin
    show (pool'.pageMetadata q).slab = pool'.addrOf p
    rw [hshape.slab, hshape.addrOf]
    exact hp

variable {p k : Nat}

/-- A chunk that is no slab does not start at a slot. -/
lemma SlabInv.chunk_ne_slot {order slab i : Nat} (hp : IsChunk s.pool p k 1)
    (hno : (s.pool.pageMetadata p).slab = 0) (hslab : slab ∈ chain order)
    (hi : i < slotCount order) : s.pool.addrOf p ≠ slab + i * 2 ^ order := by
  intro heq
  have hpos := Nat.two_pow_pos order
  have hpos' := Nat.two_pow_pos k
  exact h.slot_chunk_apart hslab hi hp hno (s.pool.addrOf p) (by omega) (by omega) le_rfl (by omega)

/-- Such a chunk is a block. -/
lemma SlabInv.chunk_block (hp : IsChunk s.pool p k 1) (hno : (s.pool.pageMetadata p).slab = 0) :
    IsBlock s.pool chain free (s.pool.addrOf p) (2 ^ k * 4096) where
  cell := Cell.chunk hp hno
  notHeader := by
    intro order slab hslab heq
    exact h.chunk_ne_slot hp hno hslab (Nat.two_pow_pos _) (by rw [heq, zero_mul, add_zero])
  notFree := by
    intro order slab hslab hin
    obtain ⟨i, _, hi, heq⟩ := (h.slab order slab hslab).slots _ hin
    exact h.chunk_ne_slot hp hno hslab hi heq

/-- A new chunk from the buddy system. -/
lemma SlabInv.allocChunk {pool' : PhysMemPool} (hres : Allocated s.pool pool' k p) :
    NewBlock s { s with pool := pool' } chain free chain free (pool'.addrOf p) (2 ^ k * 4096) := by
  have hp : IsChunk pool' p k 1 := (hres.live p k).2 (.inr ⟨rfl, rfl⟩)
  have hinv : SlabInv { s with pool := pool' } chain free :=
    h.setPool hres.inv hres.shape fun _ _ _ _ _ hq => (hres.outside hq).1
  -- its pages were in no slab
  have hno : (pool'.pageMetadata p).slab = 0 := by
    by_contra hne
    rw [hres.shape.slab] at hne
    obtain ⟨order, q, hin, hq, hlo, hhi⟩ := h.owner p (hres.shape.num ▸ hp.lt) hne
    obtain ⟨q', hchunk, hq', _⟩ := (h.slab order _ hin).chunk
    obtain rfl := addrOf_inj (hq.symm.trans hq')
    exact (hres.outside hchunk).2.2 p hlo hhi ⟨le_rfl, Nat.lt_add_of_pos_right (Nat.two_pow_pos k)⟩
  exact {
    inv := hinv
    ready := id
    block := hinv.chunk_block hp hno
    fresh := by
      intro m hold
      generalize hx : pool'.addrOf p = x at hold
      cases hold.cell with
      | slot hslab hi => exact hinv.chunk_ne_slot hp hno hslab hi hx
      | @chunk q l hq _ =>
        rw [hres.shape.addrOf] at hx
        obtain rfl := addrOf_inj hx
        exact hres.fresh l hq
    kept := by
      intro y m hy
      refine ⟨⟨?_, hy.notHeader, hy.notFree⟩, SameOn.refl _ _ _⟩
      cases hy.cell with
      | slot hslab hi => exact Cell.slot hslab hi
      | @chunk q l hq hqno =>
        rw [← hres.shape.addrOf]
        refine Cell.chunk (hres.outside hq).1 ?_
        rw [hres.shape.slab, hqno]
  }

/-! ## Freeing -/

/-- The page of an address in a slab, and its mark. -/
lemma SlabInv.page_of_slot {order slab i : Nat} (hslab : slab ∈ chain order)
    (hi : i < slotCount order) : ∃ page, virtToPage s.pool (slab + i * 2 ^ order) = .ok page ∧
    (s.pool.pageMetadata page).slab = slab := by
  obtain ⟨p, hp, hps, hpages⟩ := (h.slab order slab hslab).chunk
  have hin := hp.inside h.pool.coherent
  have hend := slot_end (h.slab order slab hslab).range.2 hi
  have hpos := Nat.two_pow_pos order
  unfold slabChunkOrder at hin hpages
  have hpage := @virtToPage_eq s.pool (p + i * 2 ^ order / 4096)
    h.pool.geometry (i * 2 ^ order % 4096) (by omega)
    (mod_lt _ (by decide))
  have haddr : 4096 * (s.pool.base + (p + i * 2 ^ order / 4096)) +
      i * 2 ^ order % 4096 = slab + i * 2 ^ order := by
    rw [hps]
    unfold PhysMemPool.addrOf
    omega
  rw [haddr] at hpage
  exact ⟨_, hpage, hpages _ (by omega) (by omega)⟩

/-- What `kfree` releases: a slot of a slab, or a chunk of the buddy system. -/
inductive Released (s : KmState) (chain free : Nat → List Nat) (x : Nat)
    (s' : KmState) (free' : Nat → List Nat) : Prop
  | slot {order slab i : Nat} (hslab : slab ∈ chain order)
    (hi : i < slotCount order) (hx : x = slab + i * 2 ^ order)
    (hpool : s'.pool = s.pool)
    (hfree : free' = Function.update free slab (x :: free slab))
  | chunk {p k : Nat} (hp : IsChunk s.pool p k 1)
    (hno : (s.pool.pageMetadata p).slab = 0) (hx : x = s.pool.addrOf p)
    (hchunks : ∀ q l, IsChunk s'.pool q l 1 ↔ IsChunk s.pool q l 1 ∧ q ≠ p)
    (hfree : free' = free)

/-- **`kfree`** of a block releases that block. -/
theorem SlabInv.kfree {x n : Nat} (hx : IsBlock s.pool chain free x n) :
    ∃ s' free', ChCore.Kernel.kfree s x = .ok s' ∧ SlabInv s' chain free' ∧
    Released s chain free x s' free' ∧ SameShape s.pool s'.pool ∧
    (∀ y m, IsBlock s'.pool chain free' y m ↔ IsBlock s.pool chain free y m ∧ y ≠ x) ∧
    ∀ y m, IsBlock s.pool chain free y m → y ≠ x → SameOn s.mem s'.mem y m := by
  cases hx.cell with
  | @slot order slab i hslab hi =>
    obtain ⟨page, hpage, hmark⟩ := h.page_of_slot hslab hi
    obtain ⟨hinv, hsame⟩ := h.putSlot hslab hi hx
    refine ⟨_, _, ?_, hinv, Released.slot hslab hi rfl rfl rfl, SameShape.refl _, ?_, ?_⟩
    · simp only [ChCore.Kernel.kfree, freeInSlab, hpage, ok_bind, hmark]
      rw [if_pos (h.slab_ne_zero hslab)]
      rfl
    · intro y m
      constructor
      · intro hy
        refine ⟨⟨hy.cell, hy.notHeader, ?_⟩, ?_⟩
        · intro order' slab' hslab' hin
          exact hy.notFree _ _ hslab' (mem_update_cons.2 (.inr hin))
        intro heq
        exact hy.notFree _ _ hslab (mem_update_cons.2 (.inl ⟨rfl, heq⟩))
      · intro hy
        refine ⟨hy.1.cell, hy.1.notHeader, ?_⟩
        intro order' slab' hslab' hin
        rcases mem_update_cons.1 hin with ⟨_, heq⟩ | hold
        · exact hy.2 heq
        · exact hy.1.notFree _ _ hslab' hold
    · intro y m hy hne
      exact hsame y m hy.cell (hy.notHeader _ _ hslab) hne
  | @chunk p k hp hno =>
    have hpage := @virtToPage_eq s.pool p h.pool.geometry 0 hp.lt (by decide)
    obtain ⟨pool', hrun, hinv, hshape, hchunks, _⟩ := buddyFreePages_spec h.pool hp
    have hkeep : ∀ order slab q, slab ∈ chain order →
        slab = s.pool.addrOf q → IsChunk s.pool q slabChunkOrder 1 →
        IsChunk pool' q slabChunkOrder 1 := by
      intro order slab q hslab hq hchunk
      refine (hchunks _ _).2 ⟨hchunk, ?_⟩
      rintro rfl
      exact hx.notHeader _ _ hslab hq.symm
    have hinv' := h.setPool hinv hshape hkeep
    refine ⟨{ s with pool := pool' }, free, ?_, hinv',
      Released.chunk hp hno rfl hchunks rfl, hshape, ?_,
      fun _ _ _ _ => SameOn.refl _ _ _⟩
    · unfold ChCore.Kernel.kfree
      rw [show s.pool.addrOf p = 4096 * (s.pool.base + p) + 0 from rfl, hpage,
        ok_bind, if_neg (not_not.2 hno), hrun]
      rfl
    intro y m
    constructor
    · intro hy
      cases hy.cell with
      | @slot order slab i hslab hi =>
        exact ⟨⟨Cell.slot hslab hi, hy.notHeader, hy.notFree⟩,
          Ne.symm (h.chunk_ne_slot hp hno hslab hi)⟩
      | @chunk q l hq hqno =>
        obtain ⟨hq', hne⟩ := (hchunks q l).1 hq
        replace hqno : (pool'.pageMetadata q).slab = 0 := hqno
        rw [hshape.slab] at hqno
        have haddr : ({ s with pool := pool' } : KmState).pool.addrOf q =
            s.pool.addrOf q := hshape.addrOf q
        rw [haddr]
        refine ⟨h.chunk_block hq' hqno, ?_⟩
        intro heq
        exact hne (addrOf_inj heq)
    · intro hy
      obtain ⟨hy, hne⟩ := hy
      refine ⟨?_, hy.notHeader, hy.notFree⟩
      cases hy.cell with
      | slot hslab hi => exact Cell.slot hslab hi
      | @chunk q l hq hqno =>
        rw [← hshape.addrOf]
        refine Cell.chunk ((hchunks q l).2 ⟨hq, ?_⟩) ?_
        · rintro rfl
          exact hne rfl
        · rw [hshape.slab, hqno]

end

end ChCore.Kernel
