import ChCore.Kernel.BuddyInvariant

/-!
# What the steps of the buddy system do to the partition

Each function of `buddy.c` is a sequence of four moves on the partition: mark
a chunk free, merge two free buddies, split a free chunk, mark a free chunk
allocated. Each move has one lemma here, which says that the invariant is
kept and which chunks there are afterwards.
-/

namespace ChCore.Kernel

open Lib.Dyadic List PhysMemPool

/-! ## Chunks of a coherent pool -/

variable {pool : PhysMemPool} {p q k l a : Nat}

/-- A chunk that starts inside another one is that chunk. -/
lemma IsChunk.eq_of_inside (hcoh : Coherent pool.label) {b : Nat}
    (hp : IsChunk pool p k a) (hq : IsChunk pool q l b)
    (h : (pool.base + q) / 2 ^ k = (pool.base + p) / 2 ^ k) : q = p ∧ l = k ∧ b = a := by
  obtain ⟨h1, h2, h3⟩ := head_eq_of_common hcoh hp.isHead hq.isHead h rfl
  exact ⟨by omega, h2.symm, h3.symm⟩

/-- Every frame of a chunk is a page of the pool with the chunk's mark. -/
lemma IsChunk.frame (hcoh : Coherent pool.label) {x : Nat}
    (hp : IsChunk pool p k a) (hx : x / 2 ^ k = (pool.base + p) / 2 ^ k) :
    pool.label x = some (k, a) :=
  hcoh _ k a hp.isHead.1 x hx

/-- Membership in a chunk, in page numbers. -/
lemma IsChunk.mem_iff (hp : IsChunk pool p k a) (q : Nat) :
    (pool.base + q) / 2 ^ k = (pool.base + p) / 2 ^ k ↔ p ≤ q ∧ q < p + 2 ^ k := by
  rw [div_eq_iff_of_dvd hp.aligned]
  omega

/-- A chunk lies inside the pool. -/
lemma IsChunk.inside (hcoh : Coherent pool.label) (hp : IsChunk pool p k a) :
    p + 2 ^ k ≤ pool.poolPhysPageNum := by
  have hpos := Nat.two_pow_pos k
  have hlast := hp.frame hcoh (x := pool.base + (p + 2 ^ k - 1)) ((hp.mem_iff _).2 (by omega))
  obtain ⟨q, hq, hbq, _⟩ := label_some hlast
  omega

/-- The mark of a page inside a chunk. -/
lemma IsChunk.page (hcoh : Coherent pool.label) (hp : IsChunk pool p k a)
    (hle : p ≤ q) (hlt : q < p + 2 ^ k) :
    (pool.pageMetadata q).order = k ∧ (pool.pageMetadata q).allocated = a := by
  have hl := hp.frame hcoh ((hp.mem_iff q).2 ⟨hle, hlt⟩)
  have hin := hp.inside hcoh
  rw [pool.label_frame (by omega)] at hl
  simpa only [Option.some.injEq, Prod.mk.injEq] using hl

/-! ## Rewriting the metadata of a block -/

section

variable {pool : PhysMemPool} {s k : Nat}
  (hal : 2 ^ k ∣ pool.base + s) (hin : s + 2 ^ k ≤ pool.poolPhysPageNum)

include hal in
/-- Inside the block the pages get the new mark, outside they keep theirs. -/
lemma setPages_page (a q : Nat) : (pool.setPages s k a).pageMetadata q =
    if (pool.base + q) / 2 ^ k = (pool.base + s) / 2 ^ k then
    { pool.pageMetadata q with order := k, allocated := a } else pool.pageMetadata q := by
  have hmem : (pool.base + q) / 2 ^ k = (pool.base + s) / 2 ^ k ↔ s ≤ q ∧ q < s + 2 ^ k := by
    rw [div_eq_iff_of_dvd hal]
    omega
  simp only [setPages, hmem]

include hal hin in
lemma label_setPages (a x : Nat) : (pool.setPages s k a).label x =
    if x / 2 ^ k = (pool.base + s) / 2 ^ k then some (k, a) else pool.label x := by
  have hbase : (pool.setPages s k a).base = pool.base := rfl
  have hnum : (pool.setPages s k a).poolPhysPageNum = pool.poolPhysPageNum := rfl
  by_cases hx : x / 2 ^ k = (pool.base + s) / 2 ^ k
  · have hx' := (div_eq_iff_of_dvd hal).1 hx
    have hrange : pool.base ≤ x ∧ x < pool.base + pool.poolPhysPageNum := by omega
    have hback : pool.base + (x - pool.base) = x := by omega
    rw [label, hbase, hnum, if_pos hrange, if_pos hx, setPages_page hal, hback, if_pos hx]
  rw [if_neg hx, label, label, hbase, hnum]
  by_cases hrange : pool.base ≤ x ∧ x < pool.base + pool.poolPhysPageNum
  · have hback : pool.base + (x - pool.base) = x := by omega
    rw [if_pos hrange, if_pos hrange, setPages_page hal, hback, if_neg hx]
  · rw [if_neg hrange, if_neg hrange]

include hal hin in
/-- The chunks after rewriting a block: the block itself, and the old chunks
that start outside it. -/
lemma isChunk_setPages (a q l b : Nat) : IsChunk (pool.setPages s k a) q l b ↔
    (q = s ∧ l = k ∧ b = a) ∨ (IsChunk pool q l b ∧
    (pool.base + q) / 2 ^ k ≠ (pool.base + s) / 2 ^ k) := by
  have hbase : (pool.setPages s k a).base = pool.base := rfl
  have hpos := Nat.two_pow_pos k
  by_cases hq : (pool.base + q) / 2 ^ k = (pool.base + s) / 2 ^ k
  · have hpage := setPages_page hal a q
    rw [if_pos hq] at hpage
    constructor
    · intro hc
      have ho := hc.order
      have hf := hc.allocated
      rw [hpage] at ho hf
      dsimp only at ho hf
      subst ho hf
      have halq := hc.aligned
      rw [hbase] at halq
      have := (Nat.div_left_inj halq hal).1 hq
      exact .inl ⟨by omega, rfl, rfl⟩
    · rintro (⟨rfl, rfl, rfl⟩ | ⟨_, hne⟩)
      · refine ⟨?_, ?_, ?_, hal⟩
        · show q < pool.poolPhysPageNum
          omega
        · rw [hpage]
        · rw [hpage]
      · exact absurd hq hne
  · have hpage := setPages_page hal a q
    rw [if_neg hq] at hpage
    constructor
    · intro hc
      refine .inr ⟨⟨hc.lt, ?_, ?_, hc.aligned⟩, hq⟩
      · rw [← hpage]; exact hc.order
      · rw [← hpage]; exact hc.allocated
    · rintro (⟨rfl, _, _⟩ | ⟨hc, _⟩)
      · exact absurd rfl hq
      refine ⟨hc.lt, ?_, ?_, hc.aligned⟩
      · rw [hpage]; exact hc.order
      · rw [hpage]; exact hc.allocated

include hal hin in
/-- Rewriting a block that is a union of chunks keeps the pool coherent. -/
lemma coherent_setPages (hcoh : Coherent pool.label) (hunion : ∀ x l b, pool.label x = some (l, b) →
    x / 2 ^ k = (pool.base + s) / 2 ^ k → l ≤ k) (a : Nat) :
    Coherent (pool.setPages s k a).label := by
  refine Coherent.relabel (fun x => x / 2 ^ k = (pool.base + s) / 2 ^ k) hcoh ?_ ?_ ?_
  · intro x y l b hx hl hy
    exact (div_eq_of_le (hunion x l b hl hx) hy).trans hx
  · intro x hx
    rw [label_setPages hal hin, if_neg hx]
  intro x y l b hx hl hy
  rw [label_setPages hal hin, if_pos hx] at hl
  simp only [Option.some.injEq, Prod.mk.injEq] at hl
  obtain ⟨rfl, rfl⟩ := hl
  rw [label_setPages hal hin, if_pos (hy.trans hx)]

end

/-- The two metadata bounds after rewriting a block. -/
lemma setPages_bounds {s : Nat} (hk : k < buddyMaxOrder) (ha : a ≤ 1)
    (ho : ∀ p, p < pool.poolPhysPageNum → (pool.pageMetadata p).order < buddyMaxOrder)
    (hf : ∀ p, p < pool.poolPhysPageNum → (pool.pageMetadata p).allocated ≤ 1)
    (p : Nat) (hp : p < pool.poolPhysPageNum) :
    ((pool.setPages s k a).pageMetadata p).order < buddyMaxOrder ∧
    ((pool.setPages s k a).pageMetadata p).allocated ≤ 1 := by
  unfold setPages
  dsimp only
  split
  · exact ⟨hk, ha⟩
  · exact ⟨ho p hp, hf p hp⟩

/-- The invariant after rewriting a block and relinking the lists: what is
left to show is that the new lists hold the new free chunks. -/
lemma PoolInv.of_setPages {pool' : PhysMemPool} {loose loose' : Option Nat}
    (h : PoolInv pool loose) {s : Nat} (hal : 2 ^ k ∣ pool.base + s)
    (hin : s + 2 ^ k ≤ pool.poolPhysPageNum) (hk : k < buddyMaxOrder) (ha : a ≤ 1)
    (hunion : ∀ x l b, pool.label x = some (l, b) → x / 2 ^ k = (pool.base + s) / 2 ^ k → l ≤ k)
    (hshape : SameShape pool pool')
    (hmeta : pool'.pageMetadata = (pool.setPages s k a).pageMetadata)
    (hmem : ∀ l, l < buddyMaxOrder → ∀ p, p ∈ (pool'.freeLists l).freeList ↔
    IsChunk (pool.setPages s k a) p l 0 ∧ loose' ≠ some p)
    (hnodup : ∀ l, l < buddyMaxOrder → (pool'.freeLists l).freeList.Nodup)
    (hnr : ∀ l, l < buddyMaxOrder →
    (pool'.freeLists l).nrFree = (pool'.freeLists l).freeList.length) : PoolInv pool' loose' := by
  have hshape' : SameShape (pool.setPages s k a) pool' := by
    refine ⟨hshape.start, hshape.size, hshape.num, ?_, ?_⟩ <;> intro p <;> rw [hmeta]
  exact {
    geometry := hshape.geometry h.geometry
    backPtr := fun p hp => by
      rw [hshape.backPtr]
      exact h.backPtr p (hshape.num ▸ hp)
    coherent := by
      rw [label_congr hshape' hmeta]
      exact coherent_setPages hal hin h.coherent hunion a
    orderLt := fun p hp => by
      rw [hmeta]
      exact (setPages_bounds hk ha h.orderLt h.flag p (hshape.num ▸ hp)).1
    flag := fun p hp => by
      rw [hmeta]
      exact (setPages_bounds hk ha h.orderLt h.flag p (hshape.num ▸ hp)).2
    memFree := fun l hl p => by rw [hmem l hl p, isChunk_congr hshape' hmeta]
    nodup := hnodup
    nrFree := hnr
  }

/-! ## Taking a chunk off its list -/

/-- What a free list looks like after a free chunk has been unlinked. -/
lemma PoolInv.erase_spec {loose : Option Nat} (h : PoolInv pool loose)
    (hp : IsChunk pool p k 0) (hloose : loose ≠ some p) (hl : l < buddyMaxOrder) :
    ((pool.freeLists l).freeList.erase p).Nodup ∧ (∀ q, q ∈ (pool.freeLists l).freeList.erase p ↔
    q ≠ p ∧ q ∈ (pool.freeLists l).freeList) ∧
    ((pool.freeLists l).freeList.erase p).length = if l = k then (pool.freeLists l).nrFree - 1
    else (pool.freeLists l).nrFree := by
  have hnd := h.nodup l hl
  refine ⟨hnd.erase p, fun q => hnd.mem_erase_iff, ?_⟩
  rw [h.nrFree l hl]
  by_cases hlk : l = k
  · subst hlk
    have hmem : p ∈ (pool.freeLists l).freeList := (h.memFree l hl p).2 ⟨hp, hloose⟩
    rw [if_pos rfl, length_erase_of_mem hmem]
  have hmem : p ∉ (pool.freeLists l).freeList := by
    intro hmem
    exact hlk (((h.memFree l hl p).1 hmem).1.order.symm.trans hp.order)
  rw [if_neg hlk, erase_of_not_mem hmem]

/-! ## The four moves -/

/-- Every mark inside a chunk is the chunk's own. -/
lemma IsChunk.order_le (hcoh : Coherent pool.label) (hp : IsChunk pool p k a)
    (x l b : Nat) (hx : pool.label x = some (l, b))
    (hin : x / 2 ^ k = (pool.base + p) / 2 ^ k) : l ≤ k := by
  rw [hp.frame hcoh hin] at hx
  simp only [Option.some.injEq, Prod.mk.injEq] at hx
  omega

/-- A chunk with another flag starts outside the chunk `p`. -/
lemma IsChunk.outside_of_flag (hcoh : Coherent pool.label) {b : Nat}
    (hp : IsChunk pool p k a) (hq : IsChunk pool q l b) (hne : b ≠ a) :
    (pool.base + q) / 2 ^ k ≠ (pool.base + p) / 2 ^ k :=
  fun hin => hne (hp.eq_of_inside hcoh hq hin).2.2

/-- **Marking an allocated chunk free.** It is a free chunk that is on no
list. -/
theorem PoolInv.markFree (h : PoolInv pool none) (hp : IsChunk pool p k 1) :
    PoolInv (setFreePage pool p k) (some p) ∧ IsChunk (setFreePage pool p k) p k 0 ∧
    ∀ q l, IsChunk (setFreePage pool p k) q l 1 ↔ IsChunk pool q l 1 ∧ q ≠ p := by
  have hin := hp.inside h.coherent
  have hchunk := isChunk_setPages hp.aligned hin 0
  have hk : k < buddyMaxOrder := hp.order ▸ h.orderLt p hp.lt
  refine ⟨?_, ?_, ?_⟩
  · refine h.of_setPages hp.aligned hin hk (by decide)
      (hp.order_le h.coherent) (pool.setPages_shape p k 0) rfl ?_
      h.nodup h.nrFree
    intro l hl q
    show q ∈ (pool.freeLists l).freeList ↔ _
    rw [h.memFree l hl q, hchunk]
    constructor
    · rintro ⟨hq, _⟩
      refine ⟨Or.inr ⟨hq, ?_⟩, ?_⟩
      · exact hp.outside_of_flag h.coherent hq (by decide)
      rintro ⟨⟩
      exact absurd (hq.allocated.symm.trans hp.allocated) (by decide)
    · rintro ⟨⟨rfl, _, _⟩ | ⟨hq, _⟩, hne⟩
      · exact absurd rfl hne
      · exact ⟨hq, by simp⟩
  · exact (hchunk p k 0).2 (.inl ⟨rfl, rfl, rfl⟩)
  · intro q l
    rw [setFreePage, hchunk]
    constructor
    · rintro (⟨_, _, hbad⟩ | ⟨hq, hout⟩)
      · exact absurd hbad (by decide)
      refine ⟨hq, ?_⟩
      rintro rfl
      exact hout rfl
    · rintro ⟨hq, hne⟩
      refine .inr ⟨hq, fun hin => hne ?_⟩
      exact (hp.eq_of_inside h.coherent hq hin).1

/-- **Linking the loose chunk** into the list of its order. -/
theorem PoolInv.link (h : PoolInv pool (some p)) (hp : IsChunk pool p k 0) :
    PoolInv ((pool.listAdd p k).updNrFree k (· + 1)) none := by
  have hk : k < buddyMaxOrder := hp.order ▸ h.orderLt p hp.lt
  have hshape : SameShape pool ((pool.listAdd p k).updNrFree k (· + 1)) :=
    (pool.listAdd_shape p k).trans (updNrFree_shape _ _ _)
  have hnot : ∀ l, l < buddyMaxOrder → p ∉ (pool.freeLists l).freeList := by
    intro l hl hmem
    exact ((h.memFree l hl p).1 hmem).2 rfl
  have hlist : ∀ l, (((pool.listAdd p k).updNrFree k (· + 1)).freeLists
      l).freeList = if l = k then p :: (pool.freeLists l).freeList
        else (pool.freeLists l).freeList := by
    intro l
    by_cases hlk : l = k <;> simp [listAdd, updNrFree, hlk]
  exact {
    geometry := hshape.geometry h.geometry
    backPtr := h.backPtr
    coherent := by rw [label_congr hshape rfl]; exact h.coherent
    orderLt := h.orderLt
    flag := h.flag
    memFree := by
      intro l hl q
      rw [hlist l, isChunk_congr hshape rfl]
      have hold := h.memFree l hl q
      by_cases hlk : l = k
      · subst hlk
        rw [if_pos rfl, mem_cons, hold]
        constructor
        · rintro (rfl | ⟨hq, _⟩)
          · exact ⟨hp, by simp⟩
          · exact ⟨hq, by simp⟩
        · rintro ⟨hq, _⟩
          by_cases hqp : q = p
          · exact .inl hqp
          · exact .inr ⟨hq, by simpa using Ne.symm hqp⟩
      · rw [if_neg hlk, hold]
        constructor
        · rintro ⟨hq, _⟩
          exact ⟨hq, by simp⟩
        · rintro ⟨hq, _⟩
          refine ⟨hq, ?_⟩
          rintro ⟨⟩
          exact hlk (hq.order.symm.trans hp.order)
    nodup := by
      intro l hl
      rw [hlist l]
      by_cases hlk : l = k
      · rw [if_pos hlk]
        exact nodup_cons.2 ⟨hnot l hl, h.nodup l hl⟩
      rw [if_neg hlk]
      exact h.nodup l hl
    nrFree := by
      intro l hl
      rw [hlist l]
      have hold := h.nrFree l hl
      by_cases hlk : l = k
      · simp [listAdd, updNrFree, hlk]
        simpa [hlk] using hold
      simp [listAdd, updNrFree, hlk]
      exact hold
  }

/-- The chunk and its free buddy make up the block of the next order. -/
lemma IsChunk.block (hcoh : Coherent pool.label) (hp : IsChunk pool p k 0)
    (hq : IsChunk pool q k 0) (hbuddy : pool.base + q = buddy k (pool.base + p)) :
    2 ^ (k + 1) ∣ pool.base + min p q ∧ min p q + 2 ^ (k + 1) ≤ pool.poolPhysPageNum ∧
    (∀ x, x / 2 ^ (k + 1) = (pool.base + min p q) / 2 ^ (k + 1) ↔
    x / 2 ^ k = (pool.base + p) / 2 ^ k ∨ x / 2 ^ k = (pool.base + q) / 2 ^ k) ∧
    ∀ x, x / 2 ^ (k + 1) = (pool.base + min p q) / 2 ^ (k + 1) → pool.label x = some (k, 0) := by
  have hmin : pool.base + min p q = min (pool.base + p) (buddy k (pool.base + p)) := by
    rw [← hbuddy]
    omega
  have hal : 2 ^ (k + 1) ∣ pool.base + min p q := by
    rw [hmin]
    exact dvd_min_buddy hp.aligned
  have hblock : ∀ x, x / 2 ^ (k + 1) = (pool.base + min p q) / 2 ^ (k + 1) ↔
      x / 2 ^ k = (pool.base + p) / 2 ^ k ∨ x / 2 ^ k = (pool.base + q) / 2 ^ k := by
    intro x
    rw [hmin, min_buddy_div_succ, div_succ_eq_iff, ← hbuddy]
  have hlab : ∀ x, x / 2 ^ (k + 1) = (pool.base + min p q) / 2 ^ (k + 1) →
      pool.label x = some (k, 0) := by
    intro x hx
    rcases (hblock x).1 hx with hx | hx
    · exact hp.frame hcoh hx
    · exact hq.frame hcoh hx
  refine ⟨hal, ?_, hblock, hlab⟩
  have hlast := hlab (pool.base + (min p q + 2 ^ (k + 1) - 1))
    ((div_eq_iff_of_dvd hal).2 (by omega))
  obtain ⟨r, hr, hbr, _⟩ := label_some hlast
  omega

/-- **Merging the loose chunk with its free buddy.** The chunk of the next
order is loose afterwards. -/
theorem PoolInv.merge (h : PoolInv pool (some p)) (hp : IsChunk pool p k 0)
    (hq : IsChunk pool q k 0) (hbuddy : pool.base + q = buddy k (pool.base + p))
    (hk : k + 1 < buddyMaxOrder) :
    let pool' := setFreePage ((pool.listDel q).updNrFree k (· - 1)) (min p q) (k + 1)
    PoolInv pool' (some (min p q)) ∧ IsChunk pool' (min p q) (k + 1) 0 ∧
      ∀ r l, IsChunk pool' r l 1 ↔ IsChunk pool r l 1 := by
  intro pool'
  have hne : some p ≠ some q := by
    rintro ⟨⟩
    exact buddy_div_ne k (pool.base + p) (by rw [← hbuddy])
  obtain ⟨hal, hin, hblock, hlab⟩ := hp.block h.coherent hq hbuddy
  have hunion : ∀ x l b, pool.label x = some (l, b) →
      x / 2 ^ (k + 1) = (pool.base + min p q) / 2 ^ (k + 1) → l ≤ k + 1 := by
    intro x l b hl hx
    rw [hlab x hx] at hl
    simp only [Option.some.injEq, Prod.mk.injEq] at hl
    omega
  have hchunk := isChunk_setPages hal hin 0
  -- a chunk of the old pool that starts in the block is one of the two
  have hinside : ∀ r l b, IsChunk pool r l b → (pool.base + r) / 2 ^ (k + 1) =
        (pool.base + min p q) / 2 ^ (k + 1) → (r = p ∨ r = q) ∧ b = 0 := by
    intro r l b hr hx
    rcases (hblock _).1 hx with hx | hx
    · have := hp.eq_of_inside h.coherent hr hx
      exact ⟨Or.inl this.1, this.2.2⟩
    have := hq.eq_of_inside h.coherent hr hx
    exact ⟨Or.inr this.1, this.2.2⟩
  have hshape : SameShape pool pool' :=
    ((pool.listDel_shape q).trans (updNrFree_shape _ _ _)).trans (setPages_shape _ _ _ _)
  have hmeta : pool'.pageMetadata = (pool.setPages (min p q) (k + 1) 0).pageMetadata := rfl
  have hshape' : SameShape (pool.setPages (min p q) (k + 1) 0) pool' :=
    ⟨rfl, rfl, rfl, fun _ => rfl, fun _ => rfl⟩
  have hlist : ∀ l, (pool'.freeLists l).freeList = (pool.freeLists l).freeList.erase q := by
    intro l
    by_cases hlk : l = k <;> simp [pool', setFreePage, listDel, updNrFree, hlk]
  refine ⟨?_, ?_, ?_⟩
  · refine h.of_setPages hal hin hk (by decide) hunion hshape hmeta ?_ ?_ ?_
    · intro l hl r
      rw [hlist l, (h.erase_spec hq hne hl).2.1, h.memFree l hl r, hchunk]
      constructor
      · rintro ⟨hrq, hr, hrp⟩
        have hout : (pool.base + r) / 2 ^ (k + 1) ≠ (pool.base + min p q) / 2 ^ (k + 1) := by
          intro hx
          rcases (hinside r l 0 hr hx).1 with rfl | rfl
          · exact hrp rfl
          · exact hrq rfl
        refine ⟨Or.inr ⟨hr, hout⟩, ?_⟩
        rintro ⟨⟩
        exact hout rfl
      · rintro ⟨⟨rfl, _, _⟩ | ⟨hr, hout⟩, hrm⟩
        · exact absurd rfl hrm
        refine ⟨?_, hr, ?_⟩
        · rintro rfl
          exact hout ((hblock _).2 (Or.inr rfl))
        rintro ⟨⟩
        exact hout ((hblock _).2 (Or.inl rfl))
    · intro l hl
      rw [hlist l]
      exact (h.erase_spec hq hne hl).1
    · intro l hl
      rw [hlist l, (h.erase_spec hq hne hl).2.2]
      by_cases hlk : l = k <;> simp [pool', setFreePage, listDel, updNrFree, hlk]
  · rw [isChunk_congr hshape' hmeta, hchunk]
    exact .inl ⟨rfl, rfl, rfl⟩
  · intro r l
    rw [isChunk_congr hshape' hmeta, hchunk]
    constructor
    · rintro (⟨_, _, hbad⟩ | ⟨hr, _⟩)
      · exact absurd hbad (by decide)
      · exact hr
    · intro hr
      refine .inr ⟨hr, fun hx => ?_⟩
      exact absurd (hinside r l 1 hr hx).2 (by decide)

/-- **Marking a free chunk allocated** and taking it off its list. -/
theorem PoolInv.allocate (h : PoolInv pool none) (hp : IsChunk pool p k 0) :
    let pool' := ((setAllocPage pool p k).updNrFree k (· - 1)).listDel p
    PoolInv pool' none ∧ ∀ q l, IsChunk pool' q l 1 ↔ IsChunk pool q l 1 ∨ (q = p ∧ l = k) := by
  intro pool'
  have hin := hp.inside h.coherent
  have hchunk := isChunk_setPages hp.aligned hin 1
  have hk : k < buddyMaxOrder := hp.order ▸ h.orderLt p hp.lt
  have hne : (none : Option Nat) ≠ some p := by simp
  have hshape : SameShape pool pool' := ((pool.setPages_shape p k 1).trans
      (updNrFree_shape _ _ _)).trans
      (listDel_shape _ _)
  have hmeta : pool'.pageMetadata = (pool.setPages p k 1).pageMetadata := rfl
  have hshape' : SameShape (pool.setPages p k 1) pool' :=
    ⟨rfl, rfl, rfl, fun _ => rfl, fun _ => rfl⟩
  have hlist : ∀ l, (pool'.freeLists l).freeList = (pool.freeLists l).freeList.erase p := by
    intro l
    by_cases hlk : l = k <;> simp [pool', setAllocPage, listDel, updNrFree, hlk]
  refine ⟨?_, ?_⟩
  · refine h.of_setPages hp.aligned hin hk (by decide)
      (hp.order_le h.coherent) hshape hmeta ?_ ?_ ?_
    · intro l hl q
      rw [hlist l, (h.erase_spec hp hne hl).2.1, h.memFree l hl q, hchunk]
      constructor
      · rintro ⟨hqp, hq, _⟩
        refine ⟨Or.inr ⟨hq, fun hx => hqp ?_⟩, by simp⟩
        exact (hp.eq_of_inside h.coherent hq hx).1
      · rintro ⟨⟨_, _, hbad⟩ | ⟨hq, hout⟩, _⟩
        · exact absurd hbad (by decide)
        refine ⟨?_, hq, by simp⟩
        rintro rfl
        exact hout rfl
    · intro l hl
      rw [hlist l]
      exact (h.erase_spec hp hne hl).1
    · intro l hl
      rw [hlist l, (h.erase_spec hp hne hl).2.2]
      by_cases hlk : l = k <;> simp [pool', setAllocPage, listDel, updNrFree, hlk]
  · intro q l
    rw [isChunk_congr hshape' hmeta, hchunk]
    constructor
    · rintro (⟨rfl, rfl, _⟩ | ⟨hq, _⟩)
      · exact .inr ⟨rfl, rfl⟩
      · exact .inl hq
    · rintro (hq | ⟨rfl, rfl⟩)
      · exact .inr ⟨hq, hp.outside_of_flag h.coherent hq (by decide)⟩
      · exact .inl ⟨rfl, rfl, rfl⟩

/-- The other free chunks stay free. -/
lemma PoolInv.allocate_free (h : PoolInv pool none) (hp : IsChunk pool p k 0) (q l : Nat) :
    IsChunk (((setAllocPage pool p k).updNrFree k (· - 1)).listDel p) q l 0 ↔
    IsChunk pool q l 0 ∧ q ≠ p := by
  have hshape : SameShape (pool.setPages p k 1)
      (((setAllocPage pool p k).updNrFree k (· - 1)).listDel p) :=
    ⟨rfl, rfl, rfl, fun _ => rfl, fun _ => rfl⟩
  rw [isChunk_congr hshape rfl, isChunk_setPages hp.aligned (hp.inside h.coherent) 1]
  constructor
  · rintro (⟨_, _, hbad⟩ | ⟨hq, hout⟩)
    · exact absurd hbad (by decide)
    refine ⟨hq, ?_⟩
    rintro rfl
    exact hout rfl
  · rintro ⟨hq, hne⟩
    exact .inr ⟨hq, fun hin => hne (hp.eq_of_inside h.coherent hq hin).1⟩

/-! ## Splitting -/

/-- No step of the loop of `split_page` changes the shape of the pool. -/
lemma splitOnce_shape (pool : PhysMemPool) (p : Nat) : SameShape pool (splitOnce pool p) := by
  unfold splitOnce
  refine SameShape.trans ?_ (updNrFree_shape _ _ _)
  refine SameShape.trans ?_ (updNrFree_shape _ _ _)
  refine SameShape.trans ?_ (listAdd_shape _ _ _)
  refine SameShape.trans ?_ (setPages_shape _ _ _ _)
  refine SameShape.trans ?_ (listAdd_shape _ _ _)
  refine SameShape.trans ?_ (listDel_shape _ _)
  exact setPages_shape _ _ _ _

section

variable {pool : PhysMemPool} {p k : Nat}

/-- The metadata after a split: two rewrites, one for each half. -/
lemma splitOnce_pageMetadata (ho : (pool.pageMetadata p).order = k + 1) :
    (splitOnce pool p).pageMetadata =
    ((pool.setPages p k 0).setPages (p + 2 ^ k) k 0).pageMetadata := by
  unfold splitOnce
  simp only [ho, Nat.add_sub_cancel]
  rfl

/-- The metadata is all that the shape is about. -/
lemma splitOnce_halves (ho : (pool.pageMetadata p).order = k + 1) :
    SameShape ((pool.setPages p k 0).setPages (p + 2 ^ k) k 0) (splitOnce pool p) := by
  have hmeta := splitOnce_pageMetadata ho
  have hs := splitOnce_shape pool p
  exact ⟨hs.start, hs.size, hs.num, fun q => by rw [hmeta], fun q => by rw [hmeta]⟩

/-- The free lists after a split: both halves in front of the list of order
`k`, the old chunk on no list. -/
lemma splitOnce_freeLists (ho : (pool.pageMetadata p).order = k + 1) (l : Nat) :
    (splitOnce pool p).freeLists l = if l = k then
    ⟨(p + 2 ^ k) :: p :: (pool.freeLists l).freeList.erase p, (pool.freeLists l).nrFree + 2⟩
    else ⟨(pool.freeLists l).freeList.erase p,
    if l = k + 1 then (pool.freeLists l).nrFree - 1 else (pool.freeLists l).nrFree⟩ := by
  unfold splitOnce
  simp only [ho, Nat.add_sub_cancel, setFreePage, setPages, listDel, listAdd, updNrFree]
  by_cases hl0 : l = k
  · simp [hl0]
  · by_cases hl1 : l = k + 1 <;> simp [hl0, hl1]

variable {loose : Option Nat} (h : PoolInv pool loose) (hp : IsChunk pool p (k + 1) 0)

include h hp in
/-- Both halves start a block and lie inside the pool. -/
lemma split_halves : 2 ^ k ∣ pool.base + p ∧ 2 ^ k ∣ pool.base + (p + 2 ^ k) ∧
    p + 2 ^ k + 2 ^ k ≤ pool.poolPhysPageNum := by
  obtain ⟨hal1, hal2⟩ := dvd_second_half hp.aligned
  have hin := hp.inside h.coherent
  rw [Nat.pow_succ] at hin
  exact ⟨hal1, by rwa [← add_assoc], by omega⟩

include h hp in
lemma label_splitOnce (x : Nat) : (splitOnce pool p).label x =
    if x / 2 ^ (k + 1) = (pool.base + p) / 2 ^ (k + 1) then some (k, 0) else pool.label x := by
  obtain ⟨hal1, hal2, hin⟩ := split_halves h hp
  have hhalves := div_succ_eq_iff_halves hp.aligned x
  rw [add_assoc] at hhalves
  rw [label_congr (splitOnce_halves hp.order) (splitOnce_pageMetadata hp.order),
    @label_setPages (pool.setPages p k 0) _ _ hal2 hin 0 x,
    label_setPages hal1 (by omega) 0 x]
  have hb : (pool.setPages p k 0).base = pool.base := rfl
  rw [hb]
  by_cases hx1 : x / 2 ^ k = (pool.base + p) / 2 ^ k <;>
    by_cases hx2 : x / 2 ^ k = (pool.base + (p + 2 ^ k)) / 2 ^ k <;>
    simp [hhalves, hx1, hx2]

include h hp in
/-- The chunks after a split: the two halves instead of the old chunk. -/
lemma isChunk_splitOnce (q l b : Nat) : IsChunk (splitOnce pool p) q l b ↔
    ((q = p ∨ q = p + 2 ^ k) ∧ l = k ∧ b = 0) ∨
    (IsChunk pool q l b ∧ (pool.base + q) / 2 ^ (k + 1) ≠ (pool.base + p) / 2 ^ (k + 1)) := by
  obtain ⟨hal1, hal2, hin⟩ := split_halves h hp
  have hhalves := div_succ_eq_iff_halves hp.aligned (pool.base + q)
  rw [add_assoc] at hhalves
  rw [isChunk_congr (splitOnce_halves hp.order) (splitOnce_pageMetadata hp.order),
    @isChunk_setPages (pool.setPages p k 0) _ _ hal2 hin 0 q l b,
    isChunk_setPages hal1 (by omega) 0 q l b]
  have hb : (pool.setPages p k 0).base = pool.base := rfl
  rw [hb]
  simp only [ne_eq, hhalves]
  constructor
  · rintro (⟨rfl, rfl, rfl⟩ | ⟨⟨rfl, rfl, rfl⟩ | ⟨hq, h3⟩, h4⟩)
    · exact .inl ⟨Or.inr rfl, rfl, rfl⟩
    · exact .inl ⟨Or.inl rfl, rfl, rfl⟩
    refine .inr ⟨hq, ?_⟩
    rintro (h5 | h5)
    · exact h3 h5
    · exact h4 h5
  · rintro (⟨rfl | rfl, rfl, rfl⟩ | ⟨hq, h3⟩)
    · refine .inr ⟨Or.inl ⟨rfl, rfl, rfl⟩, ?_⟩
      rw [← add_assoc, Nat.add_div_right _ (Nat.two_pow_pos _)]
      omega
    · exact .inl ⟨rfl, rfl, rfl⟩
    · exact .inr ⟨Or.inr ⟨hq, fun h5 => h3 (.inl h5)⟩, fun h5 => h3 (.inr h5)⟩

include h hp in
lemma coherent_splitOnce : Coherent (splitOnce pool p).label := by
  have hlab := label_splitOnce h hp
  refine Coherent.relabel (fun x => x / 2 ^ (k + 1) = (pool.base + p) / 2 ^ (k + 1))
    h.coherent ?_ ?_ ?_
  · intro x y l b hx hl hy
    exact (div_eq_of_le (hp.order_le h.coherent x l b hl hx) hy).trans hx
  · intro x hx
    rw [hlab, if_neg hx]
  intro x y l b hx hl hy
  rw [hlab, if_pos hx] at hl
  simp only [Option.some.injEq, Prod.mk.injEq] at hl
  obtain ⟨rfl, rfl⟩ := hl
  rw [hlab, if_pos ((div_eq_of_le (Nat.le_succ k) hy).trans hx)]

end

/-- The lists hold the free chunks after a split. -/
lemma mem_splitOnce (h : PoolInv pool none) (hp : IsChunk pool p (k + 1) 0)
    (hl : l < buddyMaxOrder) (q : Nat) :
    q ∈ ((splitOnce pool p).freeLists l).freeList ↔ IsChunk (splitOnce pool p) q l 0 := by
  rw [splitOnce_freeLists hp.order l, isChunk_splitOnce h hp]
  have herase := (h.erase_spec hp (by simp) hl).2.1 q
  have hold := h.memFree l hl q
  have hout : q ≠ p → IsChunk pool q l 0 →
      (pool.base + q) / 2 ^ (k + 1) ≠ (pool.base + p) / 2 ^ (k + 1) :=
    fun hqp hq hx => hqp (hp.eq_of_inside h.coherent hq hx).1
  have hrest : q ∈ (pool.freeLists l).freeList.erase p ↔
      (IsChunk pool q l 0 ∧ (pool.base + q) / 2 ^ (k + 1) ≠ (pool.base + p) / 2 ^ (k + 1)) := by
    rw [herase, hold]
    constructor
    · rintro ⟨hqp, hq, _⟩
      exact ⟨hq, hout hqp hq⟩
    · rintro ⟨hq, hx⟩
      refine ⟨?_, hq, by simp⟩
      rintro rfl
      exact hx rfl
  by_cases hlk : l = k
  · rw [if_pos hlk, mem_cons, mem_cons, hrest, ← or_assoc, or_comm (a := q = p + 2 ^ k)]
    simp [hlk]
  rw [if_neg hlk, hrest]
  simp [hlk]

/-- **Splitting a free chunk** into its two halves. -/
theorem PoolInv.split (h : PoolInv pool none) (hp : IsChunk pool p (k + 1) 0) :
    PoolInv (splitOnce pool p) none ∧ IsChunk (splitOnce pool p) p k 0 ∧
    ∀ q l, IsChunk (splitOnce pool p) q l 1 ↔ IsChunk pool q l 1 := by
  have hpos := Nat.two_pow_pos k
  have hk : k + 1 < buddyMaxOrder := hp.order ▸ h.orderLt p hp.lt
  have hshape := splitOnce_shape pool p
  have hchunk := isChunk_splitOnce h hp
  have hbounds : ∀ q, q < pool.poolPhysPageNum →
      ((splitOnce pool p).pageMetadata q).order < buddyMaxOrder ∧
        ((splitOnce pool p).pageMetadata q).allocated ≤ 1 := by
    intro q hq
    rw [splitOnce_pageMetadata hp.order]
    have h1 := @setPages_bounds pool k 0 p (by omega) (by decide) h.orderLt h.flag
    exact @setPages_bounds (pool.setPages p k 0) _ _ _ (by omega)
      (by decide) (fun r hr => (h1 r hr).1) (fun r hr => (h1 r hr).2) q hq
  -- no free list held the second half: it starts inside the old chunk
  have hnot : ∀ l b, ¬ IsChunk pool (p + 2 ^ k) l b := by
    intro l b hq
    have hin := (hp.mem_iff (p + 2 ^ k)).2 ⟨by omega, by rw [Nat.pow_succ]; omega⟩
    have := (hp.eq_of_inside h.coherent hq hin).1
    omega
  refine ⟨?_, (hchunk p k 0).2 (.inl ⟨Or.inl rfl, rfl, rfl⟩), ?_⟩
  · exact {
      geometry := hshape.geometry h.geometry
      backPtr := fun q hq => by
        rw [hshape.backPtr]
        exact h.backPtr q (hshape.num ▸ hq)
      coherent := coherent_splitOnce h hp
      orderLt := fun q hq => (hbounds q (hshape.num ▸ hq)).1
      flag := fun q hq => (hbounds q (hshape.num ▸ hq)).2
      memFree := fun l hl q => by
        rw [mem_splitOnce h hp hl]
        simp
      nodup := by
        intro l hl
        obtain ⟨hnd, hmem, _⟩ := h.erase_spec hp (by simp) hl
        rw [splitOnce_freeLists hp.order l]
        by_cases hlk : l = k
        · rw [if_pos hlk, nodup_cons, nodup_cons, mem_cons, hmem, hmem]
          refine ⟨?_, fun hx => hx.1 rfl, hnd⟩
          rintro (hx | ⟨_, hx⟩)
          · omega
          · exact hnot l 0 ((h.memFree l hl _).1 hx).1
        · rw [if_neg hlk]
          exact hnd
      nrFree := by
        intro l hl
        have hlen := (h.erase_spec hp (by simp) hl).2.2
        rw [splitOnce_freeLists hp.order l]
        by_cases hlk : l = k
        · rw [if_pos hlk, length_cons, length_cons, hlen, if_neg (by omega)]
        · rw [if_neg hlk, hlen]
    }
  · intro q l
    rw [hchunk]
    constructor
    · rintro (⟨_, _, hbad⟩ | ⟨hq, _⟩)
      · exact absurd hbad (by decide)
      · exact hq
    · intro hq
      exact .inr ⟨hq, hp.outside_of_flag h.coherent hq (by decide)⟩

end ChCore.Kernel
