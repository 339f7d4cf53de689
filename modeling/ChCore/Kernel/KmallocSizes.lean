import ChCore.Kernel.KmallocRuns

/-!
# Which sizes `kmalloc` serves

The rounding of `size_to_page_order` wraps for sizes in the last page of the
64-bit numbers, and then one page is asked for. Below that, a request that is
too large for the buddy system gives null, and a request of a size that it
supports needs a free chunk: without one `buddy_get_pages` reads behind the
array of free lists.

`sys_transfer_caps` takes the size of its two arrays from a signed count that
the caller chooses, and looks at neither the count nor the pointers.
-/

namespace ChCore.Kernel

open Lib.ByteMem Nat

/-! ## The code with its integer types -/

/-- `1 << order` on an `int`, as it is compared with a `u64`. From 31 on the
result is undefined; `wide` is what the machine makes of it. -/
def shiftOne (wide : Nat → Nat) (order : Nat) : Nat := if order < 31 then 2 ^ order else wide order

/-- `size_to_page_order`, with the shift on an `int`. -/
def sizeToPageOrderInt (wide : Nat → Nat) (size : Nat) : Nat :=
  let pgNum := u64 (size + (buddyPageSize - 1)) / buddyPageSize
  let order := orderLoop 64 pgNum 0
  if pgNum > shiftOne wide order then order + 1 else order

/-- `kmalloc`, with the shift on an `int`. -/
def kmallocInt (wide : Nat → Nat) (s : KmState) (size : Nat) : Exec (KmState × Nat) :=
  if size ≤ orderToSize slabMaxOrder then allocInSlab s size
  else do
    let order := if size ≤ buddyPageSize then 0
      else sizeToPageOrderInt wide size
    let (pool, addr) ← getPages s.pool order
    return ({ s with pool }, addr)

/-- The allocator in a state that its calls can leave. -/
def KmReady (s : KmState) : Prop := ∃ chain free, SlabInv s chain free ∧ Ready chain

/-- `kmalloc` returns null or a block of `size` bytes. -/
def KmallocServes (wide : Nat → Nat) (s : KmState) (size : Nat) : Prop :=
  ∃ s' addr, kmallocInt wide s size = .ok (s', addr) ∧ (addr = 0 ∨ size ≤ s'.blockSize addr)

/-! ## `sys_transfer_caps` -/

/-- `sizeof(int) * nr_caps`, as a `size_t`. -/
def transferSize (nrCaps : Int) : Nat := (4 * nrCaps % 2 ^ 64).toNat

/-- The two temporary arrays. -/
inductive TransferArray
  | srcCaps
  | dstCaps
  deriving DecidableEq, Repr

/-- `len` bytes from `off` on of one of the arrays. -/
structure TransferAccess where
  array : TransferArray
  off : Nat
  len : Nat
  deriving DecidableEq, Repr

/-- The accesses of `sys_transfer_caps` to its arrays: `copy_from_user`, the
loop over the capabilities, and `copy_to_user`. -/
def transferAccesses (nrCaps : Int) : List TransferAccess := ⟨.srcCaps, 0, transferSize nrCaps⟩ ::
    ((List.range nrCaps.toNat).flatMap fun i =>
      [⟨.srcCaps, 4 * i, 4⟩, ⟨.dstCaps, 4 * i, 4⟩]) ++
    [⟨.dstCaps, 0, transferSize nrCaps⟩]

/-- The allocations of `sys_transfer_caps`. -/
def transferArrays (wide : Nat → Nat) (s : KmState) (nrCaps : Int) :
    Exec (KmState × Nat × Nat) := do
  let (s, srcCaps) ← kmallocInt wide s (transferSize nrCaps)
  let (s, dstCaps) ← kmallocInt wide s (transferSize nrCaps)
  return (s, srcCaps, dstCaps)

/-- Both arrays exist, and every access stays inside. -/
def TransferFits (wide : Nat → Nat) (s : KmState) (nrCaps : Int) : Prop :=
  ∃ s' src dst, transferArrays wide s nrCaps = .ok (s', src, dst) ∧ src ≠ 0 ∧ dst ≠ 0 ∧
    ∀ a ∈ transferAccesses nrCaps, a.off + a.len ≤ s'.blockSize (match a.array with
        | .srcCaps => src
        | .dstCaps => dst)

/-! ## The order of a request -/

variable {size : Nat}

/-- The order of a request is the least one that is large enough. -/
lemma kmallocOrder_le_iff {k : Nat} (hlo : orderToSize slabMaxOrder < size)
    (hhi : size + (buddyPageSize - 1) < 2 ^ 64) :
    kmallocOrder size ≤ k ↔ size ≤ 2 ^ k * buddyPageSize := by
  have hpow := Nat.two_pow_pos k
  unfold kmallocOrder
  by_cases hone : size ≤ buddyPageSize
  · rw [if_pos hone]
    refine ⟨fun _ => le_trans hone ?_, fun _ => zero_le k⟩
    exact Nat.le_mul_of_pos_left _ hpow
  rw [if_neg hone]
  have hround : u64 (size + (buddyPageSize - 1)) / buddyPageSize = (size + 4095) / 4096 := by
    rw [u64_of_lt hhi]
    rfl
  unfold buddyPageSize at hhi hone ⊢
  obtain ⟨hsize, hmin⟩ := @order_spec ((size + 4095) / 4096)
    (sizeToPageOrder size) (by omega) (by omega)
    (by rw [sizeToPageOrder, hround])
  constructor
  · intro hle
    have hmono := Nat.pow_le_pow_right (show 0 < 2 by decide) hle
    omega
  · intro hle
    exact hmin k (by omega)

/-- The sizes for which the rounding wraps. -/
lemma kmallocOrder_wrapped (hlt : size < 2 ^ 64)
    (hwrap : 2 ^ 64 ≤ size + (buddyPageSize - 1)) : kmallocOrder size = 0 := by
  have hround : u64 (size + (buddyPageSize - 1)) / buddyPageSize = 0 := by
    unfold u64 buddyPageSize at *
    omega
  unfold kmallocOrder
  rw [if_neg (by unfold buddyPageSize at *; omega), sizeToPageOrder, hround]
  decide

/-- Where the shift is undefined, the order is behind the free lists in any
case. -/
lemma sizeToPageOrderInt_cases (wide : Nat → Nat) (size : Nat) :
    sizeToPageOrderInt wide size = sizeToPageOrder size ∨
    31 ≤ sizeToPageOrderInt wide size ∧ 31 ≤ sizeToPageOrder size := by
  unfold sizeToPageOrderInt sizeToPageOrder shiftOne
  dsimp only
  by_cases hsmall : orderLoop 64 (u64 (size + (buddyPageSize - 1)) / buddyPageSize) 0 < 31
  · rw [if_pos hsmall]
    exact .inl rfl
  rw [if_neg hsmall]
  refine .inr ⟨?_, ?_⟩ <;> split_ifs <;> omega

lemma getPages_behind (pool : PhysMemPool) {order : Nat}
    (h : buddyMaxOrder < order) : getPages pool order = .ok (pool, 0) := by
  unfold getPages buddyGetPages
  rw [show buddyMaxOrder + 1 - order = 0 by omega]
  rfl

/-- The undefined shift makes no difference. -/
lemma kmallocInt_eq (wide : Nat → Nat) (s : KmState) (size : Nat) :
    kmallocInt wide s size = kmalloc s size := by
  unfold kmallocInt kmalloc kmallocOrder
  by_cases hsmall : size ≤ orderToSize slabMaxOrder
  · rw [if_pos hsmall, if_pos hsmall]
  rw [if_neg hsmall, if_neg hsmall]
  by_cases hone : size ≤ buddyPageSize
  · simp only [if_pos hone]
  simp only [if_neg hone]
  rcases sizeToPageOrderInt_cases wide size with heq | ⟨hint, hnat⟩
  · rw [heq]
  have hmax : buddyMaxOrder < 31 := by decide
  rw [getPages_behind _ (by omega), getPages_behind _ (by omega)]

/-! ## When `kmalloc` returns a block -/

/-- A size behind the orders of the buddy system, that still can be rounded
up. -/
def TooLarge (size : Nat) : Prop :=
  2 ^ 14 * buddyPageSize < size ∧ size + (buddyPageSize - 1) < 2 ^ 64

section

variable {s : KmState} {chain free : Nat → List Nat}
  (h : SlabInv s chain free) (hready : Ready chain) {size : Nat}

lemma kmalloc_tooLarge (hlarge : TooLarge size) : kmalloc s size = .ok (s, 0) := by
  obtain ⟨hlo, hhi⟩ := hlarge
  have hslab : orderToSize slabMaxOrder < size := lt_of_le_of_lt (by decide) hlo
  have horder : buddyMaxOrder < kmallocOrder size := by
    rw [← not_le, kmallocOrder_le_iff hslab hhi]
    exact not_le.2 hlo
  rw [kmalloc, if_neg (not_le.2 hslab), getPages_behind _ horder]
  rfl

include h in
lemma getPages_error {order : Nat} (hle : order ≤ buddyMaxOrder) (hnone : ¬ s.HasChunk order) :
    getPages s.pool order = .error .outOfBounds := by
  rw [getPages, buddyGetPages_none h.pool hnone, if_pos hle]
  rfl

include h hready in
/-- Without room a request that the buddy system may support fails. -/
lemma kmalloc_error (hle : size ≤ 2 ^ 14 * buddyPageSize) (hroom : ¬ HasRoom s size) :
    kmalloc s size = .error .outOfBounds := by
  by_cases hsmall : size ≤ orderToSize slabMaxOrder
  · rw [kmalloc, if_pos hsmall]
    rcases h.allocInSlab_cases hready hsmall with ⟨slab, hslab, hhead, _⟩ | ⟨_, _, hrun⟩
    · obtain ⟨_, x, _, _, hx, _⟩ := h.allocSlot hslab hhead
      exact absurd (.inl ⟨hsmall, Or.inl ⟨x, h.isFreeSlot_iff.2 ⟨slab, hslab, hx⟩⟩⟩) hroom
    have hnone : ¬ s.HasChunk slabChunkOrder := fun hchunk =>
      hroom (.inl ⟨hsmall, Or.inr hchunk⟩)
    have herr := getPages_error h (show slabChunkOrder ≤ buddyMaxOrder by
      decide) hnone
    rw [hrun, initSlabCache, allocSlabMemory, sizeToOrder_slab, herr]
    rfl
  have hlarge : orderToSize slabMaxOrder < size := not_le.1 hsmall
  have hround : size + (buddyPageSize - 1) < 2 ^ 64 := by
    unfold buddyPageSize at *
    omega
  have horder : kmallocOrder size ≤ buddyMaxOrder := (kmallocOrder_le_iff hlarge hround).2 hle
  rw [kmalloc, if_neg hsmall, getPages_error h horder]
  · rfl
  rintro ⟨j, q, hj, hlt, hq⟩
  refine hroom (.inr ⟨hlarge, ?_, j, q, hj, hlt, hq⟩)
  refine (kmallocOrder_le_iff hlarge hround).1 (le_trans hj ?_)
  exact le_of_lt_succ hlt

include h in
/-- A size that wraps gives one page. -/
lemma kmalloc_wrapped (hlt : size < 2 ^ 64) (hwrap : 2 ^ 64 ≤ size + (buddyPageSize - 1)) :
    kmalloc s size = .error .outOfBounds ∨ ∃ s' x, kmalloc s size = .ok (s', x) ∧
    NewBlock s s' chain free chain free x buddyPageSize := by
  have hlarge : ¬ size ≤ orderToSize slabMaxOrder := by
    unfold buddyPageSize at hwrap
    have : orderToSize slabMaxOrder = 2048 := rfl
    omega
  rw [kmalloc, if_neg hlarge, kmallocOrder_wrapped hlt hwrap]
  by_cases hchunk : s.HasChunk 0
  · obtain ⟨pool', p, hrun, hres⟩ := getPages_spec h.pool hchunk
    refine .inr ⟨_, _, ?_, h.allocChunk hres⟩
    rw [hrun]
    rfl
  · left
    rw [getPages_error h (zero_le _) hchunk]
    rfl

end

variable {s s' : KmState} {chain free : Nat → List Nat} {x : Nat}

/-- The four outcomes of a call: a block, null, no block, and one page. -/
lemma kmallocServes_iff (wide : Nat → Nat) (h : KmReady s) (hlt : size < 2 ^ 64) :
    KmallocServes wide s size ↔ HasRoom s size ∨ TooLarge size := by
  obtain ⟨chain, free, hinv, hready⟩ := h
  unfold KmallocServes
  rw [kmallocInt_eq]
  by_cases hroom : HasRoom s size
  · obtain ⟨s', x, n, chain', free', hrun, hn, hblock, _⟩ := kmalloc_block hinv hready hroom
    refine ⟨fun _ => .inl hroom, fun _ => ⟨s', x, hrun, Or.inr ?_⟩⟩
    rw [hblock.blockSize_eq]
    exact hn
  by_cases hlarge : TooLarge size
  · exact ⟨fun _ => .inr hlarge, fun _ => ⟨s, 0, kmalloc_tooLarge hlarge, Or.inl rfl⟩⟩
  refine iff_of_false ?_ (not_or.2 ⟨hroom, hlarge⟩)
  rintro ⟨s', x, hrun, hserve⟩
  by_cases hle : size ≤ 2 ^ 14 * buddyPageSize
  · rw [kmalloc_error hinv hready hle hroom] at hrun
    cases hrun
  have hwrap : 2 ^ 64 ≤ size + (buddyPageSize - 1) :=
    not_lt.1 fun hround => hlarge ⟨not_le.1 hle, hround⟩
  rcases kmalloc_wrapped hinv hlt hwrap with herr | ⟨s1, y, hok, hblock⟩
  · rw [herr] at hrun
    cases hrun
  rw [hok] at hrun
  cases hrun
  rcases hserve with hzero | hbytes
  · exact hblock.ne_zero hzero
  rw [hblock.blockSize_eq] at hbytes
  unfold buddyPageSize at *
  omega

/-! ## The arrays of `sys_transfer_caps` -/

variable {nrCaps : Int}

lemma transferSize_of_nonneg (h : 0 ≤ nrCaps) (hlt : nrCaps < 2 ^ 31) :
    transferSize nrCaps = 4 * nrCaps.toNat := by
  unfold transferSize
  omega

lemma transferSize_lt (nrCaps : Int) : transferSize nrCaps < 2 ^ 64 := by
  unfold transferSize
  omega

/-- The copies need the whole arrays, and the loop no more. -/
lemma transferAccesses_inside (hlt : nrCaps < 2 ^ 31) {size : TransferArray → Nat} :
    (∀ a ∈ transferAccesses nrCaps, a.off + a.len ≤ size a.array) ↔
    ∀ array, transferSize nrCaps ≤ size array := by
  simp only [transferAccesses, List.cons_append, List.mem_cons,
    List.mem_append, List.mem_flatMap, List.mem_range, List.not_mem_nil,
    or_false]
  constructor
  · intro hall array
    cases array with
    | srcCaps =>
      have := hall _ (Or.inl rfl)
      rwa [zero_add] at this
    | dstCaps =>
      have := hall _ (Or.inr (Or.inr rfl))
      rwa [zero_add] at this
  · rintro hsize a (rfl | ⟨i, hi, hin⟩ | rfl)
    · rw [zero_add]
      exact hsize .srcCaps
    · have hnonneg : 0 ≤ nrCaps := by omega
      have hbytes := hsize a.array
      rw [transferSize_of_nonneg hnonneg hlt] at hbytes
      have hrange : a.off = 4 * i ∧ a.len = 4 := by
        rcases hin with rfl | rfl
        · exact ⟨rfl, rfl⟩
        · exact ⟨rfl, rfl⟩
      omega
    · rw [zero_add]
      exact hsize .dstCaps

lemma hasRoom_of_twice (h : SlabInv s chain free) (htwice : HasRoomTwice s size) :
    HasRoom s size := by
  rcases htwice with ⟨hsmall, hslots⟩ | ⟨hlarge, hle, hchunks⟩
  · exact .inl ⟨hsmall, hslots.imp_left fun ⟨x, _, _, hx, _⟩ => ⟨x, hx⟩⟩
  refine .inr ⟨hlarge, hle, ?_⟩
  rcases hchunks with ⟨j, q, hj, hlt, hq⟩ | ⟨q, _, _, hq, _⟩
  · exact ⟨j, q, le_of_lt hj, hlt, hq⟩
  · exact ⟨_, q, le_rfl, hq.order ▸ h.pool.orderLt q hq.lt, hq⟩

lemma HasRoom.size_le (h : HasRoom s size) : size ≤ 2 ^ 13 * buddyPageSize := by
  rcases h with ⟨hsmall, _⟩ | ⟨_, hle, _⟩
  · exact le_trans hsmall (by decide)
  · exact hle

/-- What a pointer that is not null can be. -/
lemma kmalloc_nonnull (h : SlabInv s chain free) (hready : Ready chain)
    (hlt : size < 2 ^ 64) (hrun : kmalloc s size = .ok (s', x)) (hx : x ≠ 0) :
    HasRoom s size ∨ 2 ^ 13 * buddyPageSize < size ∧
    NewBlock s s' chain free chain free x buddyPageSize := by
  by_cases hroom : HasRoom s size
  · exact .inl hroom
  right
  have hle : ¬ size ≤ 2 ^ 14 * buddyPageSize := by
    intro hle
    rw [kmalloc_error h hready hle hroom] at hrun
    cases hrun
  have hwrap : 2 ^ 64 ≤ size + (buddyPageSize - 1) := by
    by_contra hround
    rw [kmalloc_tooLarge ⟨not_le.1 hle, not_le.1 hround⟩] at hrun
    cases hrun
    exact hx rfl
  rcases kmalloc_wrapped h hlt hwrap with herr | ⟨s1, y, hok, hblock⟩
  · rw [herr] at hrun
    cases hrun
  rw [hok] at hrun
  cases hrun
  unfold buddyPageSize at hle ⊢
  exact ⟨by omega, hblock⟩

/-- Two blocks of the same size. -/
lemma kmalloc_twice (h : SlabInv s chain free) (hready : Ready chain) (hlt : size < 2 ^ 64) :
    (∃ s1 src s2 dst, kmalloc s size = .ok (s1, src) ∧
    kmalloc s1 size = .ok (s2, dst) ∧ src ≠ 0 ∧ dst ≠ 0 ∧
    size ≤ s2.blockSize src ∧ size ≤ s2.blockSize dst) ↔ HasRoomTwice s size := by
  constructor
  · rintro ⟨s1, src, s2, dst, hfirst, hsecond, hsrc, hdst, _, hbytes⟩
    rcases kmalloc_nonnull h hready hlt hfirst hsrc with hroom | ⟨hbig, hblock⟩
    · obtain ⟨t, x, n, chain', free', hrun, _, hblock, htwice⟩ := kmalloc_block h hready hroom
      rw [hfirst] at hrun
      cases hrun
      rcases kmalloc_nonnull hblock.inv (hblock.ready hready) hlt hsecond hdst
        with hroom' | ⟨hbig, _⟩
      · exact htwice.1 hroom'
      · exact absurd hroom.size_le (not_le.2 hbig)
    rcases kmalloc_nonnull hblock.inv (hblock.ready hready) hlt hsecond hdst
      with hroom' | ⟨_, hblock'⟩
    · exact absurd hroom'.size_le (not_le.2 hbig)
    rw [hblock'.blockSize_eq] at hbytes
    unfold buddyPageSize at hbig hbytes
    omega
  · intro htwice
    obtain ⟨s1, src, n, chain', free', hfirst, hn, hblock, hiff⟩ :=
      kmalloc_block h hready (hasRoom_of_twice h htwice)
    obtain ⟨s2, dst, m, chain'', free'', hsecond, hm, hblock', _⟩ :=
      kmalloc_block hblock.inv (hblock.ready hready) (hiff.2 htwice)
    refine ⟨s1, src, s2, dst, hfirst, hsecond, hblock.ne_zero, hblock'.ne_zero, ?_, ?_⟩
    · rw [hblock'.inv.blockSize_eq (hblock'.kept _ _ hblock.block).1.cell]
      exact hn
    rw [hblock'.blockSize_eq]
    exact hm

lemma transferFits_iff (wide : Nat → Nat) (h : KmReady s)
    (hlo : -2 ^ 31 ≤ nrCaps) (hhi : nrCaps < 2 ^ 31) :
    TransferFits wide s nrCaps ↔ 0 ≤ nrCaps ∧ HasRoomTwice s (transferSize nrCaps) := by
  obtain ⟨chain, free, hinv, hready⟩ := h
  have htwice := kmalloc_twice hinv hready (transferSize_lt nrCaps)
  have hinside := fun s' src dst => @transferAccesses_inside nrCaps hhi
    fun array => KmState.blockSize s' (match array with
      | .srcCaps => src
      | .dstCaps => dst)
  have hfits : TransferFits wide s nrCaps ↔ HasRoomTwice s (transferSize nrCaps) := by
    rw [← htwice]
    unfold TransferFits transferArrays
    simp only [kmallocInt_eq]
    constructor
    · rintro ⟨s', src, dst, hrun, hsrc, hdst, hall⟩
      obtain ⟨⟨s1, x⟩, hfirst, hrest⟩ := bind_eq_ok.1 hrun
      obtain ⟨⟨s2, y⟩, hsecond, hend⟩ := bind_eq_ok.1 hrest
      cases hend
      have hsize := (hinside s2 x y).1 hall
      exact ⟨s1, x, s2, y, hfirst, hsecond, hsrc, hdst, hsize .srcCaps, hsize .dstCaps⟩
    · rintro ⟨s1, src, s2, dst, hfirst, hsecond, hsrc, hdst, hs, hd⟩
      refine ⟨s2, src, dst, ?_, hsrc, hdst, (hinside s2 src dst).2 ?_⟩
      · rw [hfirst, ok_bind]
        dsimp only
        rw [hsecond]
        rfl
      intro array
      cases array with
      | srcCaps => exact hs
      | dstCaps => exact hd
  rw [hfits]
  refine ⟨fun hroom => ⟨?_, hroom⟩, fun hroom => hroom.2⟩
  -- the size of a negative count is far too large
  have hle := (hasRoom_of_twice hinv hroom).size_le
  unfold transferSize buddyPageSize at hle
  omega

/-! ## The result -/

/-- `kmalloc` returns null or a block that is large enough exactly when there is
memory for the size, or the size is behind the orders of the buddy system and
can still be rounded up. The arrays of `sys_transfer_caps` are large enough
exactly when the count is not negative and there is memory for both. -/
theorem kmalloc_sizes (wide : Nat → Nat) (s : KmState) (h : KmReady s) : (∀ size, size < 2 ^ 64 →
      (KmallocServes wide s size ↔ HasRoom s size ∨ TooLarge size)) ∧
    ∀ nrCaps : Int, -2 ^ 31 ≤ nrCaps → nrCaps < 2 ^ 31 → (TransferFits wide s nrCaps ↔
        0 ≤ nrCaps ∧ HasRoomTwice s (transferSize nrCaps)) :=
  ⟨fun _ hlt => kmallocServes_iff wide h hlt, fun _ hlo hhi => transferFits_iff wide h hlo hhi⟩

/-- After booting with 32 MiB the allocator is ready and a chunk is left. -/
lemma exists_kmReady : ∃ km, KmReady km ∧ km.HasChunk slabChunkOrder := by
  obtain ⟨_, km, _, _, _, hready, hchunk⟩ := boot_32MiB
  exact ⟨km, hready, hchunk⟩

/-- Then there are blocks of 100 bytes, and arrays for three capabilities. -/
theorem kmalloc_sizes_after_boot : ∃ s, KmReady s ∧ KmallocServes (fun _ => 0) s 100 ∧
      TransferFits (fun _ => 0) s 3 := by
  obtain ⟨s, hready, hchunk⟩ := exists_kmReady
  obtain ⟨hserves, hfits⟩ := kmalloc_sizes (fun _ => 0) s hready
  exact ⟨s, hready, (hserves 100 (by decide)).2 (Or.inl (.inl ⟨by decide, Or.inr hchunk⟩)),
    (hfits 3 (by decide) (by decide)).2 ⟨by decide, Or.inl ⟨by decide, Or.inr hchunk⟩⟩⟩

/-- But a count of -1 asks for `2 ^ 64 - 4` bytes, and gets one page. -/
theorem kmalloc_wraps : ∃ s s' addr, KmReady s ∧ transferSize (-1) = 2 ^ 64 - 4 ∧
      kmallocInt (fun _ => 0) s (2 ^ 64 - 4) = .ok (s', addr) ∧ addr ≠ 0 ∧
      s'.blockSize addr = 4096 ∧ ¬ KmallocServes (fun _ => 0) s (2 ^ 64 - 4) ∧
      ¬ TransferFits (fun _ => 0) s (-1) := by
  obtain ⟨s, hready, hchunk⟩ := exists_kmReady
  obtain ⟨chain, free, hinv, _⟩ := id hready
  have hpage : s.HasChunk 0 := by
    obtain ⟨j, q, _, hlt, hq⟩ := hchunk
    exact ⟨j, q, zero_le j, hlt, hq⟩
  have hserves := @kmallocServes_iff (2 ^ 64 - 4) s (fun _ => 0) hready (by decide)
  have hfits := @transferFits_iff s (-1) (fun _ => 0) hready (by decide) (by decide)
  rcases @kmalloc_wrapped s chain free hinv (2 ^ 64 - 4) (by decide) (by decide)
    with herr | ⟨s', x, hrun, hblock⟩
  · obtain ⟨pool', p, hget, _⟩ := getPages_spec hinv.pool hpage
    have hslab : ¬ 2 ^ 64 - 4 ≤ orderToSize slabMaxOrder := by decide
    rw [kmalloc, if_neg hslab, kmallocOrder_wrapped (by decide) (by decide), hget] at herr
    cases herr
  refine ⟨s, s', x, hready, by decide, ?_, hblock.ne_zero, hblock.blockSize_eq, ?_, ?_⟩
  · rw [kmallocInt_eq, hrun]
  · rw [hserves]
    rintro (hroom | hlarge)
    · exact absurd hroom.size_le (by decide)
    · exact absurd hlarge.2 (by decide)
  · rw [hfits]
    exact fun hboth => absurd hboth.1 (by decide)

end ChCore.Kernel
