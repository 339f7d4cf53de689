import Mathlib.Algebra.BigOperators.Ring.List
import ChCore.Lib.Intervals
import ChCore.Lib.Runs
import ChCore.Kernel.BuddyOps

/-!
# Runs of the buddy system

The buddy system as a state machine: the pool together with the chunks that
were handed out and not given back. Whatever the order of the calls, the free
lists and the handed out chunks are a partition of the pool.

## Main results

* `buddy_partitioned`: the partition, in every run
* `free_mem_size_reported`: the counters give the free memory
* `get_pages_in_bounds_iff`: the search without a free chunk
* `mem_layout_fits`: the metadata and the pages that `mm_init` lays out
-/

namespace ChCore.Kernel

open Lib.Dyadic List Lib.Intervals Lib.Runs

/-- A chunk: the pages `[head, head + 2 ^ order)`. -/
structure Chunk where
  head : Nat
  order : Nat
  allocated : Nat
  deriving DecidableEq, Repr

/-- Page `p` lies in the chunk. -/
def Chunk.Covers (c : Chunk) (p : Nat) : Prop := c.head ≤ p ∧ p < c.head + 2 ^ c.order

/-- The bytes of a chunk. -/
def Chunk.bytes (c : Chunk) : Nat := 2 ^ c.order * buddyPageSize

/-- The pool, and the chunks that clients hold: head page and order. -/
structure BuddyState where
  pool : PhysMemPool
  live : List (Nat × Nat)

namespace BuddyState

/-- The chunks on the free lists. -/
def freeChunks (s : BuddyState) : List Chunk := (List.range buddyMaxOrder).flatMap fun k =>
    (s.pool.freeLists k).freeList.map fun p => ⟨p, k, 0⟩

/-- The chunks that clients hold. -/
def liveChunks (s : BuddyState) : List Chunk := s.live.map fun c => ⟨c.1, c.2, 1⟩

/-- All chunks of the pool. -/
def chunks (s : BuddyState) : List Chunk := s.freeChunks ++ s.liveChunks

end BuddyState

/-- A call of the buddy system. -/
inductive BuddyOp
  | getPages (order : Nat)
  | freePages (page : Nat)
  deriving DecidableEq, Repr

/-- One call. A client that gets a page holds the chunk of that page until it
frees the page. -/
def buddyStep (s : BuddyState) : BuddyOp → Exec BuddyState
  | .getPages order => do
    let (pool, page) ← buddyGetPages s.pool order
    match page with
    | none => return { s with pool := pool }
    | some page => return ⟨pool, (page, order) :: s.live⟩
  | .freePages page => do
    let pool ← buddyFreePages s.pool page
    return ⟨pool, s.live.filter fun c => c.1 ≠ page⟩

/-- The calls that clients may make: ask for a supported order when a free
chunk of that order or a larger one exists, and free the head page of a chunk
they hold. -/
def BuddyEnabled (s : BuddyState) : BuddyOp → Prop
  | .getPages order => order < buddyMaxOrder ∧
    ∃ c ∈ s.freeChunks, order ≤ c.order
  | .freePages page => ∃ order, (page, order) ∈ s.live

instance (s : BuddyState) : DecidablePred (BuddyEnabled s) := fun op => by
  cases op with
  | getPages order => exact inferInstanceAs (Decidable (_ ∧ _))
  | freePages page =>
    exact decidable_of_iff (∃ c ∈ s.live, c.1 = page)
      ⟨fun ⟨c, hc, hpage⟩ => ⟨c.2, hpage ▸ hc⟩, fun ⟨_, hc⟩ => ⟨_, hc, rfl⟩⟩

/-- **The pool is partitioned.** -/
structure Partitioned (s : BuddyState) : Prop where
  nodup : s.chunks.Nodup
  cover : ∀ p, p < s.pool.poolPhysPageNum → ∃! c, c ∈ s.chunks ∧ c.Covers p
  aligned : ∀ c ∈ s.chunks, c.bytes ∣ s.pool.poolStartAddr + c.head * buddyPageSize
  inside : ∀ c ∈ s.chunks, c.head * buddyPageSize + c.bytes ≤ s.pool.poolMemSize
  apart : ∀ c ∈ s.chunks, ∀ d ∈ s.chunks, c ≠ d → ∀ p, ¬ (c.Covers p ∧ d.Covers p)
  onList : ∀ k, k < buddyMaxOrder → ∀ p, p ∈ (s.pool.freeLists k).freeList ↔ IsChunk s.pool p k 0
  isChunk : ∀ c, c ∈ s.chunks ↔ IsChunk s.pool c.head c.order c.allocated
  nrFree : ∀ k, k < buddyMaxOrder →
    (s.pool.freeLists k).nrFree = (s.pool.freeLists k).freeList.length
  metadata : ∀ c ∈ s.chunks, ∀ p, c.Covers p → (s.pool.pageMetadata p).order = c.order ∧
      (s.pool.pageMetadata p).allocated = c.allocated
  bytes : (s.freeChunks.map Chunk.bytes).sum +
    (s.liveChunks.map Chunk.bytes).sum = s.pool.poolMemSize

/-! ## The invariant of a run -/

/-- The pool is well formed, and clients hold exactly the allocated chunks. -/
structure BuddyInv (s : BuddyState) : Prop where
  pool : PoolInv s.pool none
  live : ∀ p k, (p, k) ∈ s.live ↔ IsChunk s.pool p k 1
  nodup : s.live.Nodup

variable {s : BuddyState}

lemma mem_freeChunks (h : PoolInv s.pool none) (c : Chunk) : c ∈ s.freeChunks ↔
    IsChunk s.pool c.head c.order c.allocated ∧ c.allocated = 0 := by
  rcases c with ⟨p, k, a⟩
  simp only [BuddyState.freeChunks, mem_flatMap, mem_range, mem_map, Chunk.mk.injEq]
  constructor
  · rintro ⟨k', hk', p', hp', rfl, rfl, rfl⟩
    exact ⟨((h.memFree k' hk' p').1 hp').1, rfl⟩
  · rintro ⟨hc, rfl⟩
    have hk : k < buddyMaxOrder := hc.order ▸ h.orderLt p hc.lt
    exact ⟨k, hk, p, (h.memFree k hk p).2 ⟨hc, by simp⟩, rfl, rfl, rfl⟩

lemma BuddyInv.mem_liveChunks (h : BuddyInv s) (c : Chunk) : c ∈ s.liveChunks ↔
    IsChunk s.pool c.head c.order c.allocated ∧ c.allocated = 1 := by
  rcases c with ⟨p, k, a⟩
  simp only [BuddyState.liveChunks, mem_map, Chunk.mk.injEq, Prod.exists]
  constructor
  · rintro ⟨p', k', hmem, rfl, rfl, rfl⟩
    exact ⟨(h.live p' k').1 hmem, rfl⟩
  · rintro ⟨hc, rfl⟩
    exact ⟨p, k, (h.live p k).2 hc, rfl, rfl, rfl⟩

lemma BuddyInv.mem_chunks (h : BuddyInv s) (c : Chunk) :
    c ∈ s.chunks ↔ IsChunk s.pool c.head c.order c.allocated := by
  rw [BuddyState.chunks, mem_append, mem_freeChunks h.pool, h.mem_liveChunks]
  constructor
  · rintro (hc | hc) <;> exact hc.1
  · intro hc
    have hflag := h.pool.flag c.head hc.lt
    have hor : c.allocated = 0 ∨ c.allocated = 1 := by
      rw [hc.allocated] at hflag
      omega
    rcases hor with h0 | h1
    · exact .inl ⟨hc, h0⟩
    · exact .inr ⟨hc, h1⟩

lemma BuddyInv.nodup_chunks (h : BuddyInv s) : s.chunks.Nodup := by
  rw [BuddyState.chunks, nodup_append]
  refine ⟨?_, ?_, ?_⟩
  · rw [BuddyState.freeChunks, nodup_flatMap]
    constructor
    · intro k hk
      refine (h.pool.nodup k (mem_range.1 hk)).map ?_
      intro p q hpq
      exact (Chunk.mk.inj hpq).1
    · refine List.Pairwise.imp ?_ nodup_range
      intro k l hkl c hc hc'
      simp only [mem_map] at hc hc'
      obtain ⟨_, _, rfl⟩ := hc
      obtain ⟨_, _, heq⟩ := hc'
      exact hkl (Chunk.mk.inj heq).2.1.symm
  · refine h.nodup.map ?_
    rintro ⟨p, k⟩ ⟨q, l⟩ hpq
    have := Chunk.mk.inj hpq
    exact Prod.ext this.1 this.2.1
  · rintro c hc d hd rfl
    have h0 := ((mem_freeChunks h.pool c).1 hc).2
    have h1 := ((h.mem_liveChunks c).1 hd).2
    omega

/-- Two chunks that share a page are the same chunk. -/
lemma PoolInv.chunk_unique {pool : PhysMemPool} {loose : Option Nat}
    (h : PoolInv pool loose) {c d : Chunk} (hc : IsChunk pool c.head c.order c.allocated)
    (hd : IsChunk pool d.head d.order d.allocated) {p : Nat}
    (hcp : c.Covers p) (hdp : d.Covers p) : c = d := by
  obtain ⟨h1, h2, h3⟩ := head_eq_of_common h.coherent hc.isHead hd.isHead
    ((hc.mem_iff p).2 hcp) ((hd.mem_iff p).2 hdp)
  rcases c with ⟨q, k, a⟩
  rcases d with ⟨r, l, b⟩
  simp only [Nat.add_left_cancel_iff] at h1
  subst h1 h2 h3
  rfl

/-- Every page lies in a chunk. -/
lemma PoolInv.exists_chunk {pool : PhysMemPool} {loose : Option Nat}
    (h : PoolInv pool loose) {p : Nat} (hp : p < pool.poolPhysPageNum) :
    ∃ c : Chunk, IsChunk pool c.head c.order c.allocated ∧ c.Covers p := by
  have hlab := pool.label_frame hp
  obtain ⟨hhead, _⟩ := existsUnique_head h.coherent hlab
  obtain ⟨q, hq, hbq, ho, ha⟩ := PhysMemPool.label_some hhead.1
  have hc : IsChunk pool q (pool.pageMetadata p).order (pool.pageMetadata p).allocated :=
    ⟨hq, ho, ha, hbq ▸ hhead.2⟩
  refine ⟨⟨q, _, _⟩, hc, (hc.mem_iff p).1 ?_⟩
  rw [← hbq, blockStart_div]

lemma BuddyInv.partitioned (h : BuddyInv s) : Partitioned s := by
  have hcoh := h.pool.coherent
  have hg := h.pool.geometry
  have hmem := h.mem_chunks
  have hinside : ∀ c ∈ s.chunks, c.head + 2 ^ c.order ≤ s.pool.poolPhysPageNum :=
    fun c hc => ((hmem c).1 hc).inside hcoh
  have hapart : ∀ c ∈ s.chunks, ∀ d ∈ s.chunks, c ≠ d → ∀ p, ¬ (c.Covers p ∧ d.Covers p) := by
    intro c hc d hd hne p hp
    exact hne (h.pool.chunk_unique ((hmem c).1 hc) ((hmem d).1 hd) hp.1 hp.2)
  have hcover : ∀ p, p < s.pool.poolPhysPageNum → ∃ c ∈ s.chunks, c.Covers p := by
    intro p hp
    obtain ⟨c, hc, hcp⟩ := h.pool.exists_chunk hp
    exact ⟨c, (hmem c).2 hc, hcp⟩
  exact {
    nodup := h.nodup_chunks
    cover := by
      intro p hp
      obtain ⟨c, hc, hcp⟩ := hcover p hp
      refine ⟨c, ⟨hc, hcp⟩, ?_⟩
      rintro d ⟨hd, hdp⟩
      exact h.pool.chunk_unique ((hmem d).1 hd) ((hmem c).1 hc) hdp hcp
    aligned := by
      intro c hc
      have hdvd := ((hmem c).1 hc).aligned
      have haddr : s.pool.poolStartAddr + c.head * buddyPageSize =
          (s.pool.base + c.head) * buddyPageSize := by
        rw [hg.start_eq, add_mul, mul_comm 4096]
        rfl
      rw [haddr, Chunk.bytes]
      exact Nat.mul_dvd_mul_right hdvd _
    inside := by
      intro c hc
      rw [hg.size, Chunk.bytes, ← add_mul]
      exact Nat.mul_le_mul_right _ (hinside c hc)
    apart := hapart
    onList := by
      intro k hk p
      rw [h.pool.memFree k hk p]
      simp
    isChunk := hmem
    nrFree := h.pool.nrFree
    metadata := by
      intro c hc p hp
      exact ((hmem c).1 hc).page hcoh hp.1 hp.2
    bytes := by
      have hsum := sum_sizes_list h.nodup_chunks Chunk.head (fun c => 2 ^ c.order) hinside
        (fun c hc d hd hne p h1 h2 h3 h4 =>
          hapart c hc d hd hne p ⟨⟨h1, h2⟩, h3, h4⟩) hcover
      have hbytes : (s.chunks.map Chunk.bytes).sum =
          (s.chunks.map fun c => 2 ^ c.order).sum * buddyPageSize :=
        sum_map_mul_right s.chunks (fun c => 2 ^ c.order) _
      rw [hsum, ← hg.size, BuddyState.chunks, map_append, sum_append] at hbytes
      exact hbytes
  }

/-! ## Steps -/

lemma BuddyInv.getPages (h : BuddyInv s) {order : Nat}
    (hfree : ∃ c ∈ s.freeChunks, order ≤ c.order) :
    ∃ s', buddyStep s (.getPages order) = .ok s' ∧ BuddyInv s' ∧ SameShape s.pool s'.pool := by
  obtain ⟨c, hc, hle⟩ := hfree
  obtain ⟨hchunk, hzero⟩ := (mem_freeChunks h.pool c).1 hc
  have hlt : c.order < buddyMaxOrder := hchunk.order ▸ h.pool.orderLt c.head hchunk.lt
  rw [hzero] at hchunk
  obtain ⟨pool', p, hrun, hres⟩ := buddyGetPages_spec h.pool ⟨c.order, c.head, hle, hlt, hchunk⟩
  refine ⟨⟨pool', (p, order) :: s.live⟩, ?_, ?_, hres.shape⟩
  · simp only [buddyStep, hrun, bind, Except.bind, pure, Except.pure]
  exact {
    pool := hres.inv
    live := by
      intro q l
      rw [hres.live, mem_cons, h.live, Prod.mk.injEq, or_comm]
    nodup := by
      rw [nodup_cons, h.live]
      exact ⟨hres.fresh order, h.nodup⟩
  }

lemma BuddyInv.freePages (h : BuddyInv s) {page : Nat} (hlive : ∃ order, (page, order) ∈ s.live) :
    ∃ s', buddyStep s (.freePages page) = .ok s' ∧ BuddyInv s' ∧ SameShape s.pool s'.pool := by
  obtain ⟨order, hmem⟩ := hlive
  obtain ⟨pool', hrun, hinv, hshape, hlive', _⟩ :=
    buddyFreePages_spec h.pool ((h.live page order).1 hmem)
  refine ⟨⟨pool', s.live.filter fun c => c.1 ≠ page⟩, ?_, ?_, hshape⟩
  · simp only [buddyStep, hrun, bind, Except.bind, pure, Except.pure]
  exact
    { pool := hinv
      live := by
        intro q l
        rw [hlive', mem_filter, h.live, decide_eq_true_eq]
      nodup := h.nodup.filter _ }

/-- Every call that clients may make returns and keeps the invariant. -/
lemma buddyStep_spec (h : BuddyInv s) {op : BuddyOp} (hen : BuddyEnabled s op) :
    ∃ s', buddyStep s op = .ok s' ∧ BuddyInv s' ∧ SameShape s.pool s'.pool := by
  cases op with
  | getPages order => exact h.getPages hen.2
  | freePages page => exact h.freePages hen

variable {startAddr pageNum : Nat}

/-- After `init_buddy` clients hold nothing and the invariant holds. -/
lemma buddyInv_init (h : PoolRange startAddr pageNum) :
    ∃ pool, initBuddy startAddr pageNum = .ok pool ∧ BuddyInv ⟨pool, []⟩ ∧
    SameShape (initPool startAddr pageNum) pool := by
  obtain ⟨pool, hrun, hinv, hshape, hnone, _⟩ := initBuddy_spec h
  refine ⟨pool, hrun, ⟨hinv, ?_, nodup_nil⟩, hshape⟩
  intro p k
  simp only [not_mem_nil, false_iff]
  exact hnone p k

/-! ## Whole runs -/

/-- `page_to_virt` and `virt_to_page` are inverse on the pool. -/
def AddrInverse (pool : PhysMemPool) : Prop := ∀ p, p < pool.poolPhysPageNum →
    ∃ addr, pageToVirt pool p = .ok addr ∧ virtToPage pool addr = .ok p

/-- Only a pool that ends below the end of the address space can have that. -/
lemma poolRange_of_addrInverse (hstart : startAddr < 2 ^ 64) (haligned : buddyPageSize ∣ startAddr)
    (h : AddrInverse (initPool startAddr pageNum)) : PoolRange startAddr pageNum := by
  refine ⟨haligned, ?_⟩
  rcases Nat.eq_zero_or_pos pageNum with hz | hpos
  · subst hz
    omega
  obtain ⟨addr, hto, hfrom⟩ := h (pageNum - 1) (show pageNum - 1 < pageNum by omega)
  have hlast : pageNum - 1 < pageNum := by omega
  simp only [pageToVirt, initPool, if_pos hlast, if_true, Except.ok.injEq] at hto
  obtain ⟨hlo, hhi, hpage⟩ := virtToPage_inv hfrom
  simp only [initPool, PhysMemPool.endAddr] at hlo hhi hpage
  unfold u64 buddyPageSize at *
  omega

lemma PoolRange.addrInverse (h : PoolRange startAddr pageNum) :
    AddrInverse (initPool startAddr pageNum) := by
  intro p hp
  have hinv := (initPool_inv h).1
  refine ⟨_, pageToVirt_eq hinv.geometry hp (hinv.backPtr p hp), ?_⟩
  exact @virtToPage_eq _ p hinv.geometry 0 hp (by decide)

/-- **Partition.** After `init_buddy`, every sequence of calls that clients
may make runs to its end, and the pool is partitioned then. -/
theorem buddy_partitioned (startAddr pageNum : Nat)
    (hstart : startAddr < 2 ^ 64) (haligned : buddyPageSize ∣ startAddr)
    (hinverse : AddrInverse (initPool startAddr pageNum)) :
    ∃ pool, initBuddy startAddr pageNum = .ok pool ∧
      ∀ ops, Admissible buddyStep BuddyEnabled ⟨pool, []⟩ ops →
        ∃ s, run buddyStep ⟨pool, []⟩ ops = .ok s ∧ s.pool.poolStartAddr = startAddr ∧
          s.pool.poolPhysPageNum = pageNum ∧
          s.pool.poolMemSize = pageNum * buddyPageSize ∧ Partitioned s := by
  have hrange := poolRange_of_addrInverse hstart haligned hinverse
  obtain ⟨pool, hinit, hinv, hshape⟩ := buddyInv_init hrange
  refine ⟨pool, hinit, ?_⟩
  intro ops hadm
  have hstep : ∀ s op, (BuddyInv s ∧ SameShape pool s.pool) →
      BuddyEnabled s op → ∃ s', buddyStep s op = .ok s' ∧
        (BuddyInv s' ∧ SameShape pool s'.pool) := by
    rintro s op ⟨hs, hsame⟩ hen
    obtain ⟨s', hrun, hs', hsame'⟩ := buddyStep_spec hs hen
    exact ⟨s', hrun, hs', hsame.trans hsame'⟩
  obtain ⟨s, hrun, hs, hsame⟩ := run_total hstep ops ⟨pool, []⟩ ⟨hinv, SameShape.refl pool⟩ hadm
  have hall := hshape.trans hsame
  refine ⟨s, hrun, hall.start, hall.num, ?_, hs.partitioned⟩
  rw [hs.pool.geometry.size, hall.num]
  rfl

/-- Two chunks of a pool of five pages are taken and freed again. -/
def fivePages : List BuddyOp := [.getPages 1, .getPages 0, .freePages 1, .freePages 0]

lemma fivePages_runs {pool : PhysMemPool} (hinit : initBuddy 0x3000 5 = .ok pool) :
    Admissible buddyStep BuddyEnabled ⟨pool, []⟩ fivePages ∧
    (run buddyStep ⟨pool, []⟩ fivePages).toOption.map BuddyState.live = some [] := by
  have hall : ((initBuddy 0x3000 5).toOption.map fun pool =>
      decide (Admissible buddyStep BuddyEnabled ⟨pool, []⟩ fivePages ∧
        (run buddyStep ⟨pool, []⟩ fivePages).toOption.map BuddyState.live = some [])) =
      some true := by decide +kernel
  rw [hinit] at hall
  exact of_decide_eq_true (Option.some.inj hall)

theorem buddy_partitioned_five_pages : ∃ pool, initBuddy 0x3000 5 = .ok pool ∧
      ∃ s, run buddyStep ⟨pool, []⟩ fivePages = .ok s ∧ Partitioned s := by
  obtain ⟨pool, hinit, hall⟩ := buddy_partitioned 0x3000 5 (by decide)
    (by decide) (PoolRange.addrInverse ⟨by decide, by decide⟩)
  obtain ⟨s, hrun, _, _, _, hpart⟩ := hall fivePages (fivePages_runs hinit).1
  exact ⟨pool, hinit, s, hrun, hpart⟩

/-- The counters of the lists count the bytes of the free chunks. -/
lemma BuddyInv.freeMemSize (h : BuddyInv s) :
    getFreeMemSizeFromBuddy s.pool = (s.freeChunks.map Chunk.bytes).sum := by
  rw [getFreeMemSizeFromBuddy, BuddyState.freeChunks, flatMap, map_flatten, sum_flatten, map_map,
    map_map]
  refine congrArg sum (map_congr_left fun k hk => ?_)
  rw [h.pool.nrFree k (mem_range.1 hk), mul_comm buddyPageSize]
  simp [Function.comp_def, Chunk.bytes]

/-- **The free memory that is reported** is what clients do not hold, in every run. -/
theorem free_mem_size_reported (startAddr pageNum : Nat) (hrange : PoolRange startAddr pageNum) :
    ∃ pool, initBuddy startAddr pageNum = .ok pool ∧
      ∀ ops, Admissible buddyStep BuddyEnabled ⟨pool, []⟩ ops →
        ∃ s, run buddyStep ⟨pool, []⟩ ops = .ok s ∧ getFreeMemSizeFromBuddy s.pool +
          (s.liveChunks.map Chunk.bytes).sum = pageNum * buddyPageSize := by
  obtain ⟨pool, hinit, hinv, hshape⟩ := buddyInv_init hrange
  refine ⟨pool, hinit, fun ops hops => ?_⟩
  have hstep (s : BuddyState) (op : BuddyOp) (h : BuddyInv s ∧ s.pool.poolPhysPageNum = pageNum)
      (hen : BuddyEnabled s op) : ∃ s', buddyStep s op = .ok s' ∧
        BuddyInv s' ∧ s'.pool.poolPhysPageNum = pageNum := by
    obtain ⟨s', hrun, hs', hsame⟩ := buddyStep_spec h.1 hen
    exact ⟨s', hrun, hs', hsame.num.trans h.2⟩
  obtain ⟨s, hrun, hs, hnum⟩ := run_total hstep ops ⟨pool, []⟩ ⟨hinv, hshape.num⟩ hops
  refine ⟨s, hrun, ?_⟩
  rw [hs.freeMemSize, hs.partitioned.bytes, hs.pool.geometry.size, hnum]

theorem free_mem_size_reported_five_pages : ∃ pool, initBuddy 0x3000 5 = .ok pool ∧
    ∃ s, run buddyStep ⟨pool, []⟩ [.getPages 1] = .ok s ∧ getFreeMemSizeFromBuddy s.pool +
      (s.liveChunks.map Chunk.bytes).sum = 5 * buddyPageSize := by
  obtain ⟨pool, hinit, hall⟩ := free_mem_size_reported 0x3000 5 ⟨by decide, by decide⟩
  exact ⟨pool, hinit, hall _ ⟨(fivePages_runs hinit).1.1, fun _ _ => trivial⟩⟩

/-! ## When nothing is free -/

/-- A free chunk that a request for `order` can be served from. -/
def CanServe (pool : PhysMemPool) (order : Nat) : Prop :=
  ∃ j q, order ≤ j ∧ j < buddyMaxOrder ∧ IsChunk pool q j 0

/-- The search reads only lists that are there, and it returns null in the same
pool if there is no chunk. -/
def SearchesInBounds (pool : PhysMemPool) (order : Nat) : Prop :=
  ∃ pool' page, buddyGetPages pool order = .ok (pool', page) ∧
    (¬ CanServe pool order → pool' = pool ∧ page = none)

/-- **The search for a chunk.** It stays inside the array of free lists if and
only if there is a chunk to find. -/
theorem get_pages_in_bounds_iff (pool : PhysMemPool) (h : PoolInv pool none) (order : Nat)
    (horder : order < buddyMaxOrder) : SearchesInBounds pool order ↔ CanServe pool order := by
  constructor
  · rintro ⟨pool', page, hrun, -⟩
    by_contra hnone
    rw [buddyGetPages_none h hnone, if_pos (Nat.le_of_lt horder)] at hrun
    cases hrun
  · intro hroom
    obtain ⟨pool', p, hrun, -⟩ := buddyGetPages_spec h hroom
    exact ⟨pool', some p, hrun, fun hnone => absurd hroom hnone⟩

theorem get_pages_in_bounds_five_pages : ∃ pool, initBuddy 0x3000 5 = .ok pool ∧
    SearchesInBounds pool 1 := by
  obtain ⟨pool, hinit, hinv, -⟩ := @initBuddy_spec 0x3000 5 ⟨by decide, by decide⟩
  obtain ⟨⟨q, j, _⟩, hmem, hle⟩ := (fivePages_runs hinit).1.1.2
  obtain ⟨hchunk, rfl⟩ := (@mem_freeChunks ⟨pool, []⟩ hinv _).1 hmem
  replace hchunk : IsChunk pool q j 0 := hchunk
  have hlt : j < buddyMaxOrder := hchunk.order ▸ hinv.orderLt q hchunk.lt
  exact ⟨pool, hinit, (get_pages_in_bounds_iff pool hinv 1 (by decide)).2 ⟨j, q, hle, hlt, hchunk⟩⟩

/-- A pool of one page, which is asked for twice. -/
theorem get_pages_reads_behind_lists : (do
    let pool ← initBuddy 0x3000 1
    let (pool, _) ← buddyGetPages pool 0
    let (_, page) ← buddyGetPages pool 0
    return page) = .error .outOfBounds := by decide

/-! ## The layout of the memory range -/

/-- What `mm_init` gives to `init_buddy`. -/
structure MemLayout where
  pageMetaStart : Nat
  startVaddr : Nat
  npages : Nat

/-- `mm_init` for the range `[start, finish)` of `physmem_map`; a `struct page` has
40 bytes. -/
def mmLayout (start finish : Nat) : MemLayout :=
  let freeMemStart := u64 (start + kbase)
  let freeMemEnd := u64 (finish + kbase)
  let npages := u64 (freeMemEnd + (2 ^ 64 - freeMemStart)) / (buddyPageSize + 40)
  ⟨freeMemStart, u64 (u64 (freeMemStart + npages * 40) + 0xfff) / 0x1000 * 0x1000, npages⟩

/-- **The metadata and the pool fit in the range**, one behind the other. -/
theorem mem_layout_fits {start finish : Nat} (hlt : start < finish) (hmax : finish ≤ 2 ^ 40)
    (hstart : buddyPageSize ∣ start) (hfinish : buddyPageSize ∣ finish) :
    (mmLayout start finish).pageMetaStart = start + kbase ∧
    start + kbase + (mmLayout start finish).npages * 40 ≤ (mmLayout start finish).startVaddr ∧
    (mmLayout start finish).startVaddr + (mmLayout start finish).npages * buddyPageSize ≤
      finish + kbase := by
  obtain ⟨k, rfl⟩ := hstart
  obtain ⟨m, rfl⟩ := hfinish
  unfold mmLayout
  unfold buddyPageSize kbase at *
  dsimp only
  rw [u64_of_lt (n := 0x1000 * k + _) (by omega),
    show u64 (u64 (0x1000 * m + 0xffffff0000000000) +
      (2 ^ 64 - (0x1000 * k + 0xffffff0000000000))) = 0x1000 * (m - k) by unfold u64; omega]
  generalize hn : 0x1000 * (m - k) / (0x1000 + 40) = n
  -- the array ends less than a page before the rest of the range, which is whole pages
  have hfit : n * 40 + 0xfff < 0x1000 * (m - k) := by
    rcases Nat.eq_zero_or_pos n with hzero | hpos <;> omega
  rw [u64_of_lt (n := _ + n * 40) (by omega), u64_of_lt (n := _ + 0xfff) (by omega)]
  omega

/-- The memory of the board. -/
theorem mem_layout_fits_raspi3 : (mmLayout 0x100000 0x3d000000).startVaddr +
    (mmLayout 0x100000 0x3d000000).npages * buddyPageSize ≤ 0x3d000000 + kbase :=
  (mem_layout_fits (by decide) (by decide) (by decide) (by decide)).2.2

end ChCore.Kernel
