import ChCore.Kernel.BuddyMerged

/-!
# Specifications of the functions of the buddy system

One specification for each function of `buddy.c`: that it returns, that the
invariant holds afterwards, and which chunks are allocated then. The loops
are inductions on their rounds, with the moves of `BuddySteps` as the step.
-/

namespace ChCore.Kernel

open Lib.Dyadic PhysMemPool Nat

/-! ## Addresses -/

variable {pool : PhysMemPool}

lemma Geometry.start_eq (h : Geometry pool) : pool.poolStartAddr = 4096 * pool.base := by
  have := Nat.mul_div_cancel' h.aligned
  simpa only [base, buddyPageSize] using this.symm

lemma Geometry.end_eq (h : Geometry pool) :
    pool.endAddr = 4096 * (pool.base + pool.poolPhysPageNum) ∧
    4096 * (pool.base + pool.poolPhysPageNum) < 2 ^ 64 := by
  have hs := h.start_eq
  have hz := h.size
  have hf := h.fits
  unfold buddyPageSize at hz
  have hsum : pool.poolStartAddr + pool.poolMemSize =
      4096 * (pool.base + pool.poolPhysPageNum) := by omega
  rw [hsum] at hf
  refine ⟨?_, hf⟩
  rw [endAddr, hsum, u64_of_lt hf]

variable {p : Nat}

/-- `page_to_virt` of a page of the pool is the address of its frame. -/
lemma pageToVirt_eq (h : Geometry pool) (hp : p < pool.poolPhysPageNum)
    (hback : (pool.pageMetadata p).pool = true) :
    pageToVirt pool p = .ok (4096 * (pool.base + p)) := by
  have hs := h.start_eq
  have he := h.end_eq.2
  have haddr : p * buddyPageSize + pool.poolStartAddr = 4096 * (pool.base + p) := by
    unfold buddyPageSize
    omega
  rw [pageToVirt, if_pos hback, haddr, u64_of_lt (by omega)]

/-- `virt_to_page` of an address in a frame of the pool is the page of that
frame. -/
lemma virtToPage_eq (h : Geometry pool) {off : Nat}
    (hp : p < pool.poolPhysPageNum) (hoff : off < 4096) :
    virtToPage pool (4096 * (pool.base + p) + off) = .ok p := by
  have hs := h.start_eq
  have he := h.end_eq.1
  have hin : pool.poolStartAddr ≤ 4096 * (pool.base + p) + off ∧
      4096 * (pool.base + p) + off < pool.endAddr := by omega
  rw [virtToPage, if_pos hin]
  congr 1
  unfold buddyPageSize
  omega

lemma virtToPage_inv {addr : Nat} (h : virtToPage pool addr = .ok p) :
    pool.poolStartAddr ≤ addr ∧ addr < pool.endAddr ∧
    (addr - pool.poolStartAddr) / buddyPageSize = p := by
  unfold virtToPage at h
  by_cases hin : pool.poolStartAddr ≤ addr ∧ addr < pool.endAddr
  · rw [if_pos hin, Except.ok.injEq] at h
    exact ⟨hin.1, hin.2, h⟩
  rw [if_neg hin] at h
  exact absurd h (by simp)

/-- On addresses of frames the exclusive or with the size of a chunk is the
buddy of the frame. -/
lemma frame_xor (f k : Nat) :
    (4096 * f) ^^^ (1 <<< (k + buddyPageSizeOrder)) = 4096 * buddy k f := by
  have h1 : 4096 * f = f <<< 12 := by
    rw [shiftLeft_eq]
    omega
  have h2 : 1 <<< (k + buddyPageSizeOrder) = (2 ^ k) <<< 12 := by
    rw [shiftLeft_eq, shiftLeft_eq, buddyPageSizeOrder, pow_add]
    omega
  rw [h1, h2, ← shiftLeft_xor_distrib, ← buddy, shiftLeft_eq]
  omega

variable {k : Nat}

/-- `get_buddy_chunk` returns the page of the buddy frame, or null when that
frame is not in the pool. -/
lemma getBuddyChunk_spec (h : Geometry pool) (hp : p < pool.poolPhysPageNum)
    (hback : (pool.pageMetadata p).pool = true) (ho : (pool.pageMetadata p).order = k) :
    (getBuddyChunk pool p = .ok none ∧ ∀ q, q < pool.poolPhysPageNum →
    pool.base + q ≠ buddy k (pool.base + p)) ∨
    ∃ q, q < pool.poolPhysPageNum ∧ pool.base + q = buddy k (pool.base + p) ∧
    getBuddyChunk pool p = .ok (some q) := by
  have hs := h.start_eq
  have he := h.end_eq.1
  have hunf : getBuddyChunk pool p = if 4096 * buddy k (pool.base + p) < pool.poolStartAddr ∨
          pool.endAddr ≤ 4096 * buddy k (pool.base + p) then .ok none
      else (virtToPage pool (4096 * buddy k (pool.base + p))).map some := by
    unfold getBuddyChunk
    rw [pageToVirt_eq h hp hback]
    simp only [bind, Except.bind, ho, frame_xor]
    split
    · rfl
    · cases virtToPage pool (4096 * buddy k (pool.base + p)) <;> rfl
  by_cases hout : 4096 * buddy k (pool.base + p) < pool.poolStartAddr ∨
      pool.endAddr ≤ 4096 * buddy k (pool.base + p)
  · left
    refine ⟨by rw [hunf, if_pos hout], ?_⟩
    intro q hq hb
    rw [← hb] at hout
    omega
  right
  refine ⟨buddy k (pool.base + p) - pool.base, by omega, by omega, ?_⟩
  have hq : buddy k (pool.base + p) - pool.base < pool.poolPhysPageNum := by omega
  have hv := @virtToPage_eq _ _ h 0 hq (by decide)
  rw [show 4096 * (pool.base + (buddy k (pool.base + p) - pool.base)) + 0 =
    4096 * buddy k (pool.base + p) by omega] at hv
  rw [hunf, if_neg hout, hv]
  rfl

/-! ## Freeing -/

/-- The loop of `merge_page` returns, with a loose chunk again. -/
lemma mergeLoop_spec (rounds : Nat) : ∀ (pool : PhysMemPool) (p k : Nat), PoolInv pool (some p) →
    IsChunk pool p k 0 → buddyMaxOrder ≤ rounds + k →
    ∃ pool' p' k', mergeLoop rounds pool p = .ok (pool', p') ∧
    PoolInv pool' (some p') ∧ IsChunk pool' p' k' 0 ∧ SameShape pool pool' ∧
    (∀ q l, IsChunk pool' q l 1 ↔ IsChunk pool q l 1) ∧
    (Merged pool (some p) → Merged pool' none) := by
  induction rounds with
  | zero =>
    intro pool p k h hp hk
    have := hp.order ▸ h.orderLt p hp.lt
    omega
  | succ rounds ih =>
    intro pool p k h hp hk
    have hkt : k < buddyMaxOrder := hp.order ▸ h.orderLt p hp.lt
    have hstop : mergeLoop (rounds + 1) pool p = .ok (pool, p) → (k + 1 < buddyMaxOrder →
          pool.label (buddy k (pool.base + p)) ≠ some (k, 0)) →
        ∃ pool' p' k', mergeLoop (rounds + 1) pool p = .ok (pool', p') ∧
          PoolInv pool' (some p') ∧ IsChunk pool' p' k' 0 ∧
          SameShape pool pool' ∧
          (∀ q l, IsChunk pool' q l 1 ↔ IsChunk pool q l 1) ∧
          (Merged pool (some p) → Merged pool' none) :=
      fun heq hbad => ⟨pool, p, k, heq, h, hp, SameShape.refl pool,
        fun _ _ => Iff.rfl, fun hmerged => hmerged.done h.coherent hp hbad⟩
    rcases getBuddyChunk_spec h.geometry hp.lt (h.backPtr p hp.lt) hp.order
      with ⟨hnone, hout⟩ | ⟨q, hq, hbuddy, hsome⟩
    · apply hstop
      · simp only [mergeLoop, hnone, bind, Except.bind, pure, Except.pure]
      intro _ hlabel
      obtain ⟨q, hq, hbq, _⟩ := label_some hlabel
      exact hout q hq hbq.symm
    by_cases hbad : (pool.pageMetadata q).allocated = 1 ∨
        (pool.pageMetadata q).order ≠ k ∨ buddyMaxOrder - 1 ≤ k
    · apply hstop
      · simp only [mergeLoop, hsome, bind, Except.bind, pure, Except.pure, hp.order, if_pos hbad]
      intro hlt hlabel
      rw [← hbuddy, pool.label_frame hq] at hlabel
      simp only [Option.some.injEq, Prod.mk.injEq] at hlabel
      omega
    -- the buddy is a free chunk of the same order
    have hqc : IsChunk pool q k 0 := by
      have hflag := h.flag q hq
      refine ⟨hq, by omega, by omega, ?_⟩
      rw [hbuddy]
      exact dvd_buddy hp.aligned
    rw [hqc.order] at hbad
    have hmin : (if p < q then p else q) = min p q := by
      rw [min_def]
      split <;> split <;> omega
    have hmo : (pool.pageMetadata (min p q)).order = k := by
      rcases le_total p q with hle | hle
      · rw [min_eq_left hle, hp.order]
      · rw [min_eq_right hle, hqc.order]
    obtain ⟨hinv, hchunk, hlive⟩ := h.merge hp hqc hbuddy (by omega)
    obtain ⟨pool', p', k', heq, hinv', hchunk', hshape', hlive',
      hmerged'⟩ := ih _ _ _ hinv hchunk (by omega)
    refine ⟨pool', p', k', ?_, hinv', hchunk', ?_, ?_, ?_⟩
    · rw [← heq]
      simp only [mergeLoop, hsome, bind, Except.bind, hp.order,
        if_neg hbad, hqc.order, hmin, listDel_pageMetadata,
        updNrFree_pageMetadata, hmo]
    · refine SameShape.trans ?_ hshape'
      refine SameShape.trans ?_ (setPages_shape _ _ _ _)
      exact (pool.listDel_shape q).trans (updNrFree_shape _ _ _)
    · intro r l
      rw [hlive', hlive]
    · intro hmerged
      exact hmerged' (hmerged.merge h.coherent hp hqc hbuddy)

/-- `buddy_free_pages` on the head of an allocated chunk. -/
lemma buddyFreePages_spec (h : PoolInv pool none) (hp : IsChunk pool p k 1) :
    ∃ pool', buddyFreePages pool p = .ok pool' ∧ PoolInv pool' none ∧ SameShape pool pool' ∧
    (∀ q l, IsChunk pool' q l 1 ↔ IsChunk pool q l 1 ∧ q ≠ p) ∧
    (Merged pool none → Merged pool' none) := by
  obtain ⟨hinv, hchunk, hlive⟩ := h.markFree hp
  obtain ⟨pool', p', k', heq, hinv', hchunk', hshape', hlive', hmerged'⟩ :=
    mergeLoop_spec buddyMaxOrder _ p k hinv hchunk (by omega)
  have hlink : SameShape pool' ((pool'.listAdd p' k').updNrFree k' (· + 1)) :=
    (pool'.listAdd_shape p' k').trans (updNrFree_shape _ _ _)
  refine ⟨(pool'.listAdd p' k').updNrFree k' (· + 1), ?_, hinv'.link hchunk', ?_, ?_, ?_⟩
  · simp only [buddyFreePages, mergePage, hp.order, heq, bind, Except.bind,
      pure, Except.pure, hchunk'.order]
  · exact ((pool.setPages_shape p k 0).trans hshape').trans hlink
  · intro q l
    rw [isChunk_congr hlink rfl, hlive', hlive]
  intro hmerged
  exact (hmerged' (hmerged.markFree h.coherent hp)).congr hlink rfl

/-! ## Allocating -/

/-- What a split leaves: the other free chunks, and the second half. -/
lemma PoolInv.split_free (h : PoolInv pool none) (hp : IsChunk pool p (k + 1) 0) :
    (∀ q l, q ≠ p → IsChunk pool q l 0 → IsChunk (splitOnce pool p) q l 0) ∧
    IsChunk (splitOnce pool p) (p + 2 ^ k) k 0 := by
  have hchunk := isChunk_splitOnce h hp
  constructor
  · intro q l hne hq
    refine (hchunk q l 0).2 (.inr ⟨hq, fun hin => hne ?_⟩)
    exact (hp.eq_of_inside h.coherent hq hin).1
  · exact (hchunk _ k 0).2 (.inl ⟨Or.inr rfl, rfl, rfl⟩)

/-- The loop of `split_page` returns the page it was given, as a free chunk of
the order that was asked for. -/
lemma splitLoop_spec (rounds : Nat) : ∀ (pool : PhysMemPool) (order p k : Nat), PoolInv pool none →
    IsChunk pool p k 0 → order ≤ k → k ≤ rounds + order →
    ∃ pool', splitLoop rounds pool order p = .ok (pool', p) ∧
    PoolInv pool' none ∧ IsChunk pool' p order 0 ∧ SameShape pool pool' ∧
    (∀ q l, IsChunk pool' q l 1 ↔ IsChunk pool q l 1) ∧
    (Merged pool (some p) → Merged pool' (some p)) ∧ (k = order → pool' = pool) ∧
    (∀ q l, q ≠ p → IsChunk pool q l 0 → IsChunk pool' q l 0) ∧
    (order < k → ∃ q l, q ≠ p ∧ order ≤ l ∧ IsChunk pool' q l 0) := by
  induction rounds with
  | zero =>
    intro pool order p k h hp hle hk
    have heq : k = order := by omega
    subst heq
    refine ⟨pool, ?_, h, hp, SameShape.refl pool, fun _ _ => Iff.rfl, id,
      fun _ => rfl, fun _ _ _ hq => hq, fun hlt => by omega⟩
    rw [splitLoop, if_pos hp.order]
  | succ rounds ih =>
    intro pool order p k h hp hle hk
    by_cases heq : k = order
    · subst heq
      refine ⟨pool, ?_, h, hp, SameShape.refl pool, fun _ _ => Iff.rfl, id,
        fun _ => rfl, fun _ _ _ hq => hq, fun hlt => by omega⟩
      rw [splitLoop, if_pos hp.order]
    obtain ⟨j, rfl⟩ : ∃ j, k = j + 1 := ⟨k - 1, by omega⟩
    obtain ⟨hinv, hchunk, hlive⟩ := h.split hp
    obtain ⟨hothers, hhalf⟩ := h.split_free hp
    obtain ⟨pool', hrun, hinv', hchunk', hshape', hlive', hmerged', _,
      hothers', _⟩ := ih _ order p j hinv hchunk (by omega) (by omega)
    have hpos := Nat.two_pow_pos j
    refine ⟨pool', ?_, hinv', hchunk', (splitOnce_shape pool p).trans hshape', ?_, ?_,
      fun heq' => absurd heq' heq,
      fun q l hne hq => hothers' q l hne (hothers q l hne hq), fun _ => ?_⟩
    · rw [splitLoop, if_neg (by rw [hp.order]; exact heq), hrun]
    · intro q l
      rw [hlive', hlive]
    · intro hmerged
      exact hmerged' (hmerged.split h hp)
    · exact ⟨p + 2 ^ j, j, by omega, by omega, hothers' _ _ (by omega) hhalf⟩

/-- The free chunks are enough for two of `order`. -/
def TwoChunks (pool : PhysMemPool) (order : Nat) : Prop :=
  (∃ j q, order < j ∧ j < buddyMaxOrder ∧ IsChunk pool q j 0) ∨
    ∃ q r, q ≠ r ∧ IsChunk pool q order 0 ∧ IsChunk pool r order 0

/-- What `buddy_get_pages` gives back: a chunk of the order asked for that was
not allocated before. -/
structure Allocated (pool pool' : PhysMemPool) (order p : Nat) : Prop where
  inv : PoolInv pool' none
  shape : SameShape pool pool'
  fresh : ∀ l, ¬ IsChunk pool p l 1
  live : ∀ q l, IsChunk pool' q l 1 ↔ IsChunk pool q l 1 ∨ (q = p ∧ l = order)
  merged : Merged pool none → Merged pool' none
  left : (∃ j q, order ≤ j ∧ j < buddyMaxOrder ∧ IsChunk pool' q j 0) ↔ TwoChunks pool order

variable {order : Nat}

/-- A chunk of `order` is left after taking one, when there were enough for
two. -/
lemma left_iff {pool' : PhysMemPool} {m : Nat} (hom : order ≤ m)
    (hp : IsChunk pool p m 0) (hmt : m < buddyMaxOrder)
    (hbelow : ∀ j q, order ≤ j → j < m → ¬ IsChunk pool q j 0)
    (hinv : PoolInv pool' none) (hsame : m = order → pool' = pool)
    (hothers : ∀ q l, q ≠ p → IsChunk pool q l 0 → IsChunk pool' q l 0)
    (hhalf : order < m → ∃ q l, q ≠ p ∧ order ≤ l ∧ IsChunk pool' q l 0) :
    (∃ j q, order ≤ j ∧ j < buddyMaxOrder ∧ IsChunk pool' q j 0 ∧ q ≠ p) ↔
    TwoChunks pool order := by
  constructor
  · rintro ⟨j, q, hle, hlt, hq, hne⟩
    rcases lt_or_eq_of_le hom with hsplit | rfl
    · exact .inl ⟨m, p, hsplit, hmt, hp⟩
    rw [hsame rfl] at hq
    rcases lt_or_eq_of_le hle with hlarge | rfl
    · exact .inl ⟨j, q, hlarge, hlt, hq⟩
    · exact .inr ⟨q, p, hne, hq, hp⟩
  · intro htwo
    rcases lt_or_eq_of_le hom with hsplit | rfl
    · obtain ⟨q, l, hne, hle, hq⟩ := hhalf hsplit
      exact ⟨l, q, hle, hq.order ▸ hinv.orderLt q hq.lt, hq, hne⟩
    rcases htwo with ⟨j, q, hlarge, hlt, hq⟩ | ⟨q, r, hqr, hq, hr⟩
    · refine ⟨j, q, le_of_lt hlarge, hlt, ?_, ?_⟩
      · rw [hsame rfl]
        exact hq
      rintro rfl
      have := hq.order.symm.trans hp.order
      omega
    rw [hsame rfl]
    by_cases hqp : q = p
    · refine ⟨order, r, le_rfl, hmt, hr, ?_⟩
      rintro rfl
      exact hqr hqp
    · exact ⟨order, q, le_rfl, hmt, hq, hqp⟩

/-- The loop of `buddy_get_pages` finds a chunk if a list it still visits has
one. -/
lemma getLoop_spec (h : PoolInv pool none) (order : Nat) (rounds : Nat) :
    ∀ m, order ≤ m → m + rounds = buddyMaxOrder + 1 →
    (∀ j q, order ≤ j → j < m → ¬ IsChunk pool q j 0) →
    (∃ j q, m ≤ j ∧ j < buddyMaxOrder ∧ IsChunk pool q j 0) →
    ∃ pool' p, getLoop pool order rounds m = .ok (pool', some p) ∧
    Allocated pool pool' order p := by
  induction rounds with
  | zero =>
    rintro m _ hm _ ⟨j, q, hmj, hj, _⟩
    omega
  | succ rounds ih =>
    rintro m hom hm hbelow ⟨j, q, hmj, hj, hq⟩
    have hmt : m < buddyMaxOrder := by omega
    by_cases hpos : 0 < (pool.freeLists m).nrFree
    · cases hlist : (pool.freeLists m).freeList with
      | nil =>
        rw [h.nrFree m hmt, hlist] at hpos
        simp at hpos
      | cons p rest =>
        have hp : IsChunk pool p m 0 := ((h.memFree m hmt p).1 (by rw [hlist]; simp)).1
        obtain ⟨pool', hrun, hinv', hchunk', hshape', hlive', hmerged', hsame, hothers, hhalf⟩ :=
          splitLoop_spec m pool order p m h hp hom (by omega)
        obtain ⟨hinv'', hlive''⟩ := hinv'.allocate hchunk'
        have hfree'' := hinv'.allocate_free hchunk'
        refine ⟨((setAllocPage pool' p order).updNrFree order
          (· - 1)).listDel p, p, ?_, hinv'', ?_, ?_, ?_, ?_, ?_⟩
        · rw [getLoop, if_neg (by omega), if_pos hpos, hlist]
          simp only [splitPage, hp.order, hrun, bind, Except.bind, pure, Except.pure, hchunk'.order]
        · refine SameShape.trans hshape' ?_
          refine SameShape.trans ?_ (listDel_shape _ _)
          exact (pool'.setPages_shape p order 1).trans (updNrFree_shape _ _ _)
        · intro l hl
          have := (hlive' p l).2 hl
          exact absurd (this.allocated.symm.trans hchunk'.allocated) (by decide)
        · intro r l
          rw [hlive'', hlive']
        · intro hmerged
          exact (hmerged' (hmerged.of_none _)).allocate hinv'.coherent hchunk'
        · simp only [hfree'']
          exact left_iff hom hp hmt hbelow hinv' hsame hothers hhalf
    · have hnone : ∀ r, ¬ IsChunk pool r m 0 := by
        intro r hr
        have hmem : r ∈ (pool.freeLists m).freeList := (h.memFree m hmt r).2 ⟨hr, by simp⟩
        rw [h.nrFree m hmt] at hpos
        exact hpos (List.length_pos_of_mem hmem)
      have hne : j ≠ m := by
        rintro rfl
        exact hnone q hq
      obtain ⟨pool', p, hrun, hres⟩ := ih (m + 1) (by omega) (by omega) (by
          intro j' q' hlo hhi
          rcases lt_or_eq_of_le (le_of_lt_succ hhi) with hlt | rfl
          · exact hbelow j' q' hlo hlt
          · exact hnone q')
        ⟨j, q, by omega, hj, hq⟩
      refine ⟨pool', p, ?_, hres⟩
      rw [getLoop, if_neg (by omega), if_neg hpos, hrun]

/-- Without a chunk that is large enough the loop reads behind the array. -/
lemma getLoop_error (h : PoolInv pool none) (order : Nat) (rounds : Nat) :
    ∀ m, m + rounds = buddyMaxOrder → (∀ j q, m ≤ j → j < buddyMaxOrder → ¬ IsChunk pool q j 0) →
    getLoop pool order (rounds + 1) m = .error .outOfBounds := by
  induction rounds with
  | zero =>
    intro m hm _
    rw [getLoop, if_pos (by omega)]
  | succ rounds ih =>
    intro m hm hnone
    have hmt : m < buddyMaxOrder := by omega
    have hempty : (pool.freeLists m).freeList = [] := by
      apply List.eq_nil_iff_forall_not_mem.2
      intro r hr
      exact hnone m r (le_refl m) hmt ((h.memFree m hmt r).1 hr).1
    have hzero : ¬ 0 < (pool.freeLists m).nrFree := by
      rw [h.nrFree m hmt, hempty]
      simp
    rw [getLoop, if_neg (by omega), if_neg hzero]
    exact ih (m + 1) (by omega) fun j q hlo hhi =>
      hnone j q (by omega) hhi

/-- `buddy_get_pages` when some free chunk is large enough. -/
lemma buddyGetPages_spec (h : PoolInv pool none)
    (hfree : ∃ j q, order ≤ j ∧ j < buddyMaxOrder ∧ IsChunk pool q j 0) :
    ∃ pool' p, buddyGetPages pool order = .ok (pool', some p) ∧ Allocated pool pool' order p := by
  obtain ⟨j, q, hle, hlt, hq⟩ := hfree
  exact getLoop_spec h order _ order le_rfl (by omega)
    (fun j q hlo hhi => by omega) ⟨j, q, hle, hlt, hq⟩

/-- `buddy_get_pages` when no free chunk is large enough: it reads behind the
array of free lists, unless the order is behind it. -/
lemma buddyGetPages_none (h : PoolInv pool none)
    (hnone : ¬ ∃ j q, order ≤ j ∧ j < buddyMaxOrder ∧ IsChunk pool q j 0) :
    buddyGetPages pool order = if order ≤ buddyMaxOrder then .error .outOfBounds
    else .ok (pool, none) := by
  unfold buddyGetPages
  by_cases hle : order ≤ buddyMaxOrder
  · rw [if_pos hle, show buddyMaxOrder + 1 - order = buddyMaxOrder - order + 1 by omega]
    exact getLoop_error h order _ order (by omega) fun j q hlo hhi hq => hnone ⟨j, q, hlo, hhi, hq⟩
  rw [if_neg hle, show buddyMaxOrder + 1 - order = 0 by omega]
  rfl

/-! ## Initialising -/

/-- The address range of a pool that `init_buddy` is given. -/
structure PoolRange (startAddr pageNum : Nat) : Prop where
  aligned : buddyPageSize ∣ startAddr
  fits : startAddr + pageNum * buddyPageSize < 2 ^ 64

/-- Before its last loop `init_buddy` has every page as an allocated chunk. -/
lemma initPool_inv {startAddr pageNum : Nat} (h : PoolRange startAddr pageNum) :
    PoolInv (initPool startAddr pageNum) none ∧ ∀ p k, IsChunk (initPool startAddr pageNum) p k 1 ↔
    p < pageNum ∧ k = 0 := by
  have hsize : u64 (pageNum * buddyPageSize) = pageNum * buddyPageSize :=
    u64_of_lt (lt_of_le_of_lt (le_add_left _ _) h.fits)
  have hpage : ∀ p, p < pageNum →
      (initPool startAddr pageNum).pageMetadata p = ⟨1, 0, 0, true⟩ := by
    intro p hp
    simp [initPool, hp]
  have hlab : ∀ x k a, (initPool startAddr pageNum).label x = some (k, a) → k = 0 ∧ a = 1 := by
    intro x k a hx
    obtain ⟨p, hp, _, ho, hf⟩ := label_some hx
    rw [hpage p hp] at ho hf
    exact ⟨ho.symm, hf.symm⟩
  constructor
  · exact {
      geometry := ⟨h.aligned, hsize, by
        simpa only [initPool, hsize] using h.fits⟩
      backPtr := fun p hp => by rw [hpage p hp]
      coherent := by
        intro x k a hx y hy
        obtain ⟨rfl, rfl⟩ := hlab x k a hx
        simp only [Nat.pow_zero, Nat.div_one] at hy
        rw [hy, hx]
      orderLt := fun p hp => by rw [hpage p hp]; decide
      flag := fun p hp => by rw [hpage p hp]
      memFree := by
        intro k _ p
        constructor
        · intro hmem
          simp [initPool] at hmem
        · rintro ⟨hc, _⟩
          have := hc.allocated
          rw [hpage p hc.lt] at this
          exact absurd this (by decide)
      nodup := fun k _ => List.nodup_nil
      nrFree := fun k _ => rfl
    }
  · intro p k
    constructor
    · intro hc
      have := hc.order
      rw [hpage p hc.lt] at this
      exact ⟨hc.lt, this.symm⟩
    · rintro ⟨hp, rfl⟩
      exact ⟨hp, by rw [hpage p hp], by rw [hpage p hp], by simp⟩

/-- The last loop of `init_buddy`: from page `i` on every page is still an
allocated chunk of order `0`, and it is freed in its turn. -/
lemma freeLoop_spec (rounds : Nat) : ∀ (pool : PhysMemPool) (i : Nat), PoolInv pool none →
    i + rounds = pool.poolPhysPageNum →
    (∀ p k, IsChunk pool p k 1 ↔ i ≤ p ∧ p < pool.poolPhysPageNum ∧ k = 0) →
    ∃ pool', freeLoop rounds pool i = .ok pool' ∧ PoolInv pool' none ∧
    SameShape pool pool' ∧ (∀ p k, ¬ IsChunk pool' p k 1) ∧
    (Merged pool none → Merged pool' none) := by
  induction rounds with
  | zero =>
    intro pool i h hi hlive
    refine ⟨pool, rfl, h, SameShape.refl pool, ?_, id⟩
    intro p k hc
    have := (hlive p k).1 hc
    omega
  | succ rounds ih =>
    intro pool i h hi hlive
    have hc : IsChunk pool i 0 1 := (hlive i 0).2 ⟨le_refl i, by omega, rfl⟩
    obtain ⟨pool', hrun, hinv', hshape', hlive', hmerged'⟩ := buddyFreePages_spec h hc
    obtain ⟨pool'', hrun', hinv'', hshape'', hnone, hmerged''⟩ :=
      ih pool' (i + 1) hinv' (by rw [hshape'.num]; omega) (by
        intro p k
        rw [hlive', hlive, hshape'.num]
        constructor <;> intro <;> omega)
    refine ⟨pool'', ?_, hinv'', hshape'.trans hshape'', hnone,
      fun hmerged => hmerged'' (hmerged' hmerged)⟩
    simp only [freeLoop, hrun, bind, Except.bind, hrun']

/-- `init_buddy` returns a pool in which everything is free. -/
lemma initBuddy_spec {startAddr pageNum : Nat} (h : PoolRange startAddr pageNum) :
    ∃ pool, initBuddy startAddr pageNum = .ok pool ∧ PoolInv pool none ∧
    SameShape (initPool startAddr pageNum) pool ∧
    (∀ p k, ¬ IsChunk pool p k 1) ∧ Merged pool none := by
  obtain ⟨hinv, hlive⟩ := initPool_inv h
  obtain ⟨pool, hrun, hinv', hshape, hnone, hmerged⟩ :=
    freeLoop_spec pageNum _ 0 hinv (zero_add _) (by
      intro p k
      rw [hlive]
      show _ ↔ 0 ≤ p ∧ p < pageNum ∧ k = 0
      constructor <;> intro <;> omega)
  refine ⟨pool, hrun, hinv', hshape, hnone, hmerged ?_⟩
  -- no page is free before the loop
  intro x k _ hx
  obtain ⟨p, hp, _, _, hflag⟩ := label_some hx
  have hpage : p < pageNum := hp
  simp only [initPool, if_pos hpage] at hflag
  cases hflag

end ChCore.Kernel
