import ChCore.Kernel.SlabInvariant

/-!
# The slab allocator keeps the invariant

A *block* is a cell that is neither a header nor a free slot. The functions of
the slab allocator write to headers, to free slots and to new slabs, so they
change no byte of a block.
-/

namespace ChCore.Kernel

open Lib.ByteMem Function Lib.Dyadic Lib.Intervals Lib.LinkedList

/-- The cell `[x, x + n)` is in the hands of a client. -/
structure IsBlock (pool : PhysMemPool) (chain free : Nat → List Nat) (x n : Nat) : Prop where
  cell : Cell pool chain x n
  notHeader : ∀ order slab, slab ∈ chain order → x ≠ slab
  notFree : ∀ order slab, slab ∈ chain order → x ∉ free slab

/-- Every order has a slab. -/
def Ready (chain : Nat → List Nat) : Prop :=
  ∀ order, slabMinOrder ≤ order → order ≤ slabMaxOrder → chain order ≠ []

lemma sameOn_store {m : Mem} {a k v x n : Nat} (h : Apart a k x n) :
    SameOn m (store m a k v) x n := by
  intro y hlo hhi
  apply store_of_outside
  by_contra hno
  exact h y (by omega) (by omega) hlo hhi

lemma load64_lt (m : Mem) (a : Nat) : load64 m a < 2 ^ 64 := load_lt 8 m a

lemma load64_store64 {m : Mem} {a v : Nat} (h : v < 2 ^ 64) :
    load64 (store64 m a v) a = v := load_store_of_lt h

/-! ## Free lists -/

/-- A store to the head of the free list leaves the rest of the header. -/
lemma header_store (mem : Mem) (slab v : Nat) :
    nextSlab (store64 mem slab v) slab = nextSlab mem slab ∧
    slabOrder (store64 mem slab v) slab = slabOrder mem slab :=
  ⟨load_store_of_apart (Or.inr le_rfl), load_store_of_apart (Or.inr (by omega))⟩

section

variable {s : KmState} {chain free : Nat → List Nat} (h : SlabInv s chain free)

include h

/-- A store into a cell leaves the other cells as they are. -/
lemma SlabInv.sameOn_store {x n y m a k v : Nat}
    (hx : Cell s.pool chain x n) (hy : Cell s.pool chain y m) (hne : x ≠ y)
    (hlo : x ≤ a) (hhi : a + k ≤ x + n) (mem : Mem) : SameOn mem (store mem a k v) y m :=
  ChCore.Kernel.sameOn_store ((h.cell_apart hx hy hne).mono hlo hhi)

variable {order slab : Nat}

/-- The free list of a slab changes. Only the header and the slot `t` of the
slab are written to. -/
lemma SlabInv.setFree {t : Nat} {mem' : Mem} {l' : List Nat} (hslab : slab ∈ chain order)
    (ht : ∀ order' slab', slab' ∈ chain order' → t ≠ slab')
    (htfree : ∀ order' slab', slab' ∈ chain order' → slab' ≠ slab → t ∉ free slab')
    (hmem : ∀ y n, Cell s.pool chain y n → y ≠ slab → y ≠ t → SameOn s.mem mem' y n)
    (hnext : nextSlab mem' slab = nextSlab s.mem slab)
    (horder : slabOrder mem' slab = slabOrder s.mem slab)
    (hlinked : Linked (load64 mem') (load64 mem' slab) l')
    (hslots : ∀ x ∈ l', ∃ i, i ≠ 0 ∧ i < slotCount order ∧ x = slab + i * 2 ^ order)
    (hnodup : l'.Nodup) : SlabInv { s with mem := mem' } chain (update free slab l') := by
  have hother : ∀ order' slab', slab' ∈ chain order' → slab' ≠ slab →
      SameOn s.mem mem' slab' 32 := by
    intro order' slab' hslab' hne y hlo hhi
    have hcell : Cell s.pool chain slab' (2 ^ order') := Cell.header hslab'
    have hsize := h.cell_size hcell
    exact hmem _ _ hcell hne (Ne.symm (ht _ _ hslab')) y hlo (by omega)
  exact {
    pool := h.pool
    start := h.start
    linked := by
      intro order' hlo hhi
      apply (h.linked order' hlo hhi).congr
      intro slab' hslab'
      by_cases hne : slab' = slab
      · rw [hne]
        exact hnext
      · exact (hother order' slab' hslab' hne).load (by omega) (by omega)
    slab := by
      intro order' slab' hslab'
      have hok := h.slab order' slab' hslab'
      by_cases hne : slab' = slab
      · subst hne
        obtain rfl := h.order_unique hslab hslab'
        rw [update_self]
        exact {
          range := hok.range
          chunk := hok.chunk
          header := horder.trans hok.header
          linked := hlinked
          slots := hslots
          nodup := hnodup
        }
      · rw [update_of_ne hne]
        refine hok.frame (hother order' slab' hslab' hne) fun x hx => ?_
        have hcell := h.free_cell hslab' hx
        have hsize := h.cell_size hcell
        have hxt : x ≠ t := by
          rintro rfl
          exact htfree _ _ hslab' hne hx
        exact (hmem x _ hcell (h.free_ne_header hslab' hx hslab) hxt).load le_rfl (by omega)
    nodup := h.nodup
    owner := h.owner
  }

/-- A slot is taken off a free list that is not empty. -/
lemma SlabInv.takeSlot (hslab : slab ∈ chain order) (hhead : load64 s.mem slab ≠ 0) :
    ∃ mem' x l, ChCore.Kernel.takeSlot s.mem slab = (mem', x) ∧ free slab = x :: l ∧
    SlabInv { s with mem := mem' } chain (update free slab l) ∧
      ∀ y n, Cell s.pool chain y n → y ≠ slab → SameOn s.mem mem' y n := by
  have hok := h.slab order slab hslab
  obtain ⟨l, hfree, hrest⟩ := hok.linked.cons_of_ne hhead
  have hx : load64 s.mem slab ∈ free slab := by
    rw [hfree]
    exact List.mem_cons_self
  have hcell : Cell s.pool chain slab (2 ^ order) := Cell.header hslab
  have hsize := h.cell_size hcell
  have hsame : ∀ y n, Cell s.pool chain y n → y ≠ slab → SameOn s.mem
        (store64 s.mem slab (load64 s.mem (load64 s.mem slab))) y n :=
    fun y n hy hne => h.sameOn_store hcell hy (Ne.symm hne) le_rfl (by omega) _
  refine ⟨_, _, l, rfl, hfree, ?_, hsame⟩
  obtain ⟨hnext, horder⟩ := header_store s.mem slab (load64 s.mem (load64 s.mem slab))
  have hsub : ∀ y ∈ l, y ∈ free slab := by
    intro y hy
    rw [hfree]
    exact List.mem_cons_of_mem _ hy
  apply h.setFree hslab (fun _ _ hslab' => h.free_ne_header hslab hx hslab')
  · intro order' slab' hslab' hne hx'
    exact hne (h.free_unique hslab' hslab hx' hx)
  · exact fun y n hy hne _ => hsame y n hy hne
  · exact hnext
  · exact horder
  · rw [load64_store64 (load64_lt _ _)]
    apply hrest.congr
    intro y hy
    have hcelly := h.free_cell hslab (hsub y hy)
    exact (hsame y _ hcelly (h.free_ne_header hslab (hsub y hy) hslab)).load le_rfl (by omega)
  · exact fun y hy => hok.slots y (hsub y hy)
  · have hnodup := hok.nodup
    rw [hfree] at hnodup
    exact (List.nodup_cons.1 hnodup).2

/-- A slot is put back on the free list of its slab. -/
lemma SlabInv.putSlot {i : Nat} (hslab : slab ∈ chain order) (hi : i < slotCount order)
    (hblock : IsBlock s.pool chain free (slab + i * 2 ^ order) (2 ^ order)) :
    let x := slab + i * 2 ^ order
    let mem' := store64 (store64 s.mem x (load64 s.mem slab)) slab x
    SlabInv { s with mem := mem' } chain (update free slab (x :: free slab)) ∧
      ∀ y n, Cell s.pool chain y n → y ≠ slab → y ≠ x → SameOn s.mem mem' y n := by
  intro x mem'
  have hok := h.slab order slab hslab
  have hcell : Cell s.pool chain slab (2 ^ order) := Cell.header hslab
  have hsize := h.cell_size hcell
  have hxs : x ≠ slab := hblock.notHeader _ _ hslab
  have hsame : ∀ y n, Cell s.pool chain y n → y ≠ slab → y ≠ x → SameOn s.mem mem' y n := by
    intro y n hy hne hnex
    have hslot : SameOn s.mem (store64 s.mem x (load64 s.mem slab)) y n :=
      h.sameOn_store hblock.cell hy (Ne.symm hnex) le_rfl (by omega) _
    exact hslot.trans (h.sameOn_store hcell hy (Ne.symm hne) le_rfl (by omega) _)
  refine ⟨?_, hsame⟩
  -- what the first store leaves of the header
  have hfirst : SameOn s.mem (store64 s.mem x (load64 s.mem slab)) slab (2 ^ order) :=
    h.sameOn_store hblock.cell hcell hxs le_rfl (by omega) _
  obtain ⟨hnext, horder⟩ := header_store (store64 s.mem x (load64 s.mem slab)) slab x
  have hlt : x < 2 ^ 64 := by
    have := h.cell_inside hblock.cell
    omega
  apply h.setFree hslab (fun _ _ hslab' => hblock.notHeader _ _ hslab')
  · exact fun _ _ hslab' _ => hblock.notFree _ _ hslab'
  · exact hsame
  · exact hnext.trans (hfirst.load (by omega) (by omega))
  · exact horder.trans (hfirst.load (by omega) (by omega))
  · rw [load64_store64 hlt]
    refine linked_cons.2 ⟨rfl, ?_, ?_⟩
    · have := h.slab_ne_zero hslab
      show slab + i * 2 ^ order ≠ 0
      omega
    -- the slot holds the old head of the list
    have hxnext : load64 mem' x = load64 s.mem slab := by
      have hsamex : SameOn (store64 s.mem x (load64 s.mem slab)) mem' x (2 ^ order) :=
        h.sameOn_store hcell hblock.cell (Ne.symm hxs) le_rfl (by omega) _
      rw [show load64 mem' x = _ from hsamex.load le_rfl (by omega)]
      exact load64_store64 (load64_lt _ _)
    rw [hxnext]
    apply hok.linked.congr
    intro y hy
    have hcelly := h.free_cell hslab hy
    have hyx : y ≠ x := by
      rintro rfl
      exact hblock.notFree _ _ hslab hy
    exact (hsame y _ hcelly (h.free_ne_header hslab hy hslab) hyx).load le_rfl (by omega)
  · intro y hy
    rcases List.mem_cons.1 hy with rfl | hy
    · refine ⟨i, ?_, hi, rfl⟩
      rintro rfl
      apply hxs
      show slab + 0 * 2 ^ order = slab
      omega
    · exact hok.slots y hy
  · exact List.nodup_cons.2 ⟨hblock.notFree _ _ hslab, hok.nodup⟩

end

end ChCore.Kernel
