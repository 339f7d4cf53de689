import ChCore.Kernel.PageBlocks
import ChCore.Kernel.PageTableRanges
import ChCore.Kernel.PageTableRuns

/-!
# Freeing a page table

`free_page_table` walks over the tables in three nested loops and frees each
table after those behind its entries. After any history of calls the tables of
a root are a tree without sharing whose tables are the root and the pages of
`get_pages` (`PtInv`), so each of these is freed once and nothing else is.
-/

namespace ChCore.Kernel

open Lib.Runs List Lib.Trie

/-- `free_page_table` of a table that is not `NULL`: the frames that it passes to
`free_pages`, in their order. -/
def freePageTable (s : PtState) (pgtbl : Nat) : List Nat :=
  ((List.range ptpEntries).flatMap fun i =>
    match tableOf s.mem pgtbl i with
    | none => []
    | some l1Ptp =>
      ((List.range ptpEntries).flatMap fun j =>
        match tableOf s.mem l1Ptp j with
        | none => []
        | some l2Ptp =>
          ((List.range ptpEntries).flatMap fun k =>
            match tableOf s.mem l2Ptp k with
            | none => []
            | some l3Ptp => [l3Ptp]) ++ [l2Ptp]) ++ [l1Ptp]) ++ [pgtbl]

lemma freePageTable_eq (s : PtState) (pgtbl : Nat) :
    freePageTable s pgtbl = tables 512 (tableOf s.mem) 3 pgtbl := rfl

section

variable {getPages : Nat → Nat} {root : Nat} {s : PtState}

/-- In a table without blocks the walk meets all tables. -/
lemma PtInv.table_eq_node (h : PtInv getPages root s) {l : Nat} (p : Nat) (hl : l ≤ 3) :
    nodeAt 512 (tableOf s.mem) root l p = s.node root l p := by
  refine nodeAt_congr (fun m q f i (hm : m < 3) hf => ?_) l p hl
  rcases h.inner m q f i hm hf with hzero | ⟨g, -, htab⟩
  · rw [tableOf, childOf, hzero]
    rfl
  obtain ⟨hvalid, htable⟩ := writeTable_valid 0#64 g
  rw [tableOf, childOf, htab, hvalid, htable]
  rfl

lemma mem_freePageTable (h : PtInv getPages root s) (f : Nat) :
    f ∈ freePageTable s root ↔ f = root ∨ ∃ n, n < s.pages ∧ getPages n = f := by
  rw [freePageTable_eq, mem_tables (by decide) 3 nodeAt_zero]
  constructor
  · rintro ⟨n, q, hn, -, hq⟩
    rw [zero_add, h.table_eq_node q hn] at hq
    exact h.used f ⟨n, q, hn, hq⟩
  · rintro (rfl | ⟨n, hn, rfl⟩)
    · exact ⟨0, 0, by decide, rfl, nodeAt_zero⟩
    obtain ⟨l, p, hl, hp⟩ := h.issued n hn
    refine ⟨l + 1, p, hl, ?_, ?_⟩
    · exact Nat.div_eq_of_lt (lt_of_nodeAt (by decide) _ p _ hp)
    rw [zero_add, h.table_eq_node p hl]
    exact hp

lemma nodup_freePageTable (h : PtInv getPages root s) : (freePageTable s root).Nodup := by
  rw [freePageTable_eq]
  refine nodup_tables (by decide) ?_ 3 (le_refl 3) nodeAt_zero
  intro l m p q f hl hm hp hq
  rw [h.table_eq_node p hl] at hp
  rw [h.table_eq_node q hm] at hq
  exact h.unaliased l m p q f hl hm hp hq

/-- Exactly the root and the pages of `get_pages` are freed, each once. -/
lemma freePageTable_perm (hfresh : FreshPages getPages root) (h : PtInv getPages root s) :
    (freePageTable s root).Perm (root :: (List.range s.pages).map getPages) := by
  refine (perm_ext_iff_of_nodup (nodup_freePageTable h) ?_).2 fun f => ?_
  · refine nodup_cons.2 ⟨?_, nodup_range.map_on ?_⟩
    · simp only [mem_map, mem_range, not_exists, not_and]
      exact fun n hn => hfresh.notRoot n (lt_of_lt_of_le hn h.room)
    intro m hm n hn heq
    rw [mem_range] at hm hn
    exact hfresh.distinct m n (lt_of_lt_of_le hm h.room) (lt_of_lt_of_le hn h.room) heq
  · rw [mem_freePageTable h]
    simp

end

/-! ## Histories -/

/-- A page table with the page numbers that were mapped so far. -/
structure PtHistory where
  pt : PtState
  mapped : List Nat

/-- The page numbers that a call maps, one in each round. -/
def PtOp.maps : PtOp → List Nat
  | .map va _ len _ =>
    (List.range (pageRounds len)).map fun k => vpn (va + k * pageSize)
  | .unmap _ _ => []

def historyStep (getPages : Nat → Nat) (root : Nat) (h : PtHistory)
    (op : PtOp) : Exec PtHistory := do
  let pt ← ptStep getPages root h.pt op
  return ⟨pt, op.maps ++ h.mapped⟩

/-- Only pages that were mapped before are unmapped. -/
def MappedBefore (h : PtHistory) : PtOp → Prop
  | .map _ _ _ _ => True
  | .unmap va len =>
    ∀ k, k < pageRounds len → vpn (va + k * pageSize) ∈ h.mapped

instance (h : PtHistory) : ∀ op, Decidable (MappedBefore h op) := by
  rintro (_ | _) <;> (dsimp only [MappedBefore]; infer_instance)

/-- The tables of all pages that were mapped are still there. -/
structure HistoryInv (getPages : Nat → Nat) (root : Nat) (h : PtHistory) : Prop where
  inv : PtInv getPages root h.pt
  table : ∀ v ∈ h.mapped, (h.pt.node root 3 (v / 512)).isSome

lemma HistoryInv.step {getPages : Nat → Nat} {root : Nat}
    (hfresh : FreshPages getPages root) (h : PtHistory) (op : PtOp)
    (hinv : HistoryInv getPages root h) (hop : MappedBefore h op) :
    ∃ h', historyStep getPages root h op = .ok h' ∧ HistoryInv getPages root h' := by
  cases op with
  | map va pa len flags =>
    obtain ⟨pt, hrun, hpt, hkeep, hsome, -⟩ := mapLoop_new hfresh flags
      (pageRounds len) h.pt va pa hinv.inv
    refine ⟨⟨pt, _⟩, by simp [historyStep, ptStep, mapRangeInPgtbl, hrun]; rfl, hpt, fun v hv => ?_⟩
    rcases mem_append.1 hv with hv | hv
    · obtain ⟨k, hk, rfl⟩ := mem_map.1 hv
      have hentry := (hsome _).2 (.inr ⟨k, mem_range.1 hk, rfl⟩)
      obtain ⟨w, hw⟩ := Option.isSome_iff_exists.1 hentry
      obtain ⟨f, hf, -⟩ := Option.bind_eq_some_iff.1 hw
      rw [hf]
      rfl
    · obtain ⟨f, hf⟩ := Option.isSome_iff_exists.1 (hinv.table v hv)
      rw [hkeep 3 _ f (le_refl 3) hf]
      rfl
  | unmap va len =>
    obtain ⟨pt, hrun, hpt, hkeep⟩ := unmapLoop_ok (pageRounds len) h.pt va
      hinv.inv fun k hk => hinv.table _ (hop k hk)
    refine ⟨⟨pt, _⟩, by
      simp [historyStep, ptStep, unmapRangeInPgtbl, hrun]; rfl, hpt,
      fun v hv => ?_⟩
    rw [hkeep 3 _ (le_refl 3)]
    exact hinv.table v hv

/-- **`free_page_table` frees what the calls allocated.** After every sequence
of calls that unmap only what was mapped before, it frees the root page and the
pages of `get_pages`, each once, and so no other page that is mapped. -/
theorem page_table_freed_exactly {getPages : Nat → Nat} {root : Nat}
    (hfresh : FreshPages getPages root) {s0 : PtState}
    (hroot : ∀ i, s0.mem root i = 0#64) (hpages : s0.pages = 0)
    (ops : List PtOp)
    (hadm : Admissible (historyStep getPages root) MappedBefore ⟨s0, []⟩ ops) :
    ∃ h, run (historyStep getPages root) ⟨s0, []⟩ ops = .ok h ∧ (freePageTable h.pt root).Perm
        (root :: (List.range h.pt.pages).map getPages) ∧
      ∀ va pa, physAddr h.pt root va = some pa → pa / pageSize ≠ root →
        (∀ n, n < h.pt.pages → pa / pageSize ≠ getPages n) →
        pa / pageSize ∉ freePageTable h.pt root := by
  obtain ⟨h, hrun, hinv⟩ := run_total (HistoryInv.step hfresh) ops ⟨s0, []⟩
    ⟨(PtRefines.empty hroot hpages).inv, fun _ hv => nomatch hv⟩ hadm
  refine ⟨h, hrun, freePageTable_perm hfresh hinv.inv, ?_⟩
  intro va pa _ hne hdata hmem
  rcases (mem_freePageTable hinv.inv _).1 hmem with heq | ⟨n, hn, heq⟩
  · exact hne heq
  · exact hdata n hn heq.symm

theorem page_table_freed_exactly_two_pages : ∃ h, run (historyStep Nat.succ 0) ⟨PtState.zero, []⟩
        [.map 0x1000 0x5000 0x2000 vmrWrite, .unmap 0x2000 0x1000] = .ok h ∧
      (freePageTable h.pt 0).Perm (0 :: (List.range h.pt.pages).map Nat.succ) ∧
      ∀ va pa, physAddr h.pt 0 va = some pa → pa / pageSize ≠ 0 →
        (∀ n, n < h.pt.pages → pa / pageSize ≠ Nat.succ n) →
        pa / pageSize ∉ freePageTable h.pt 0 :=
  page_table_freed_exactly freshPages_succ (fun _ => rfl) rfl
    [.map 0x1000 0x5000 0x2000 vmrWrite, .unmap 0x2000 0x1000] (by decide)

end ChCore.Kernel
