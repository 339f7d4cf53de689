import ChCore.Kernel.Base
import ChCore.Lib.ByteMem
import ChCore.Lib.Intervals
import ChCore.Lib.Runs

/-!
# `malloc` of the user library

Blocks are cut off the front of a buffer of 50 MiB and never given back
(`libchcore/src/libc/malloc.c`). The check against the end of the buffer adds
the size to the header modulo `2 ^ 64`, and `calloc` multiplies modulo `2 ^ 64`,
so a size that wraps passes the check and moves the header back.
-/

namespace ChCore.Userland.Malloc

open Kernel Lib.ByteMem Lib.Intervals Lib.Runs

/-- `MALLOC_SZ`. -/
def mallocSz : Nat := 50 * 1024 * 1024

/-- `MAP_VA`, which is what `malloc_buf_` is set to. -/
def mapVa : Nat := 0x1000000

/-- `malloc_header_`, the memory of the process, and the blocks that were
returned, the last one first, each with the number of bytes that was asked for. -/
structure Heap where
  mallocHeader : Nat
  mem : Mem
  blocks : List (Nat × Nat)

def Heap.init (mem : Mem) : Heap := ⟨0, mem, []⟩

/-- `malloc`, if `chcore_pmo_create` and `chcore_pmo_map` return `pmoCap` and
`r`. They are called while the header is 0. -/
def malloc (h : Heap) (size : Nat) (pmoCap r : Int) : Exec (Heap × Nat) :=
  if mallocSz < u64 (h.mallocHeader + size) then .error .bug
  else if h.mallocHeader = 0 ∧ (pmoCap < 0 ∨ r < 0) then .error .bug
  else .ok ({ h with mallocHeader := u64 (h.mallocHeader + size) }, mapVa + h.mallocHeader)

/-- `calloc`. -/
def calloc (h : Heap) (nmemb size : Nat) (pmoCap r : Int) : Exec (Heap × Nat) := do
  let (h, ptr) ← malloc h (u64 (nmemb * size)) pmoCap r
  return ({ h with mem := fill h.mem ptr (u64 (nmemb * size)) 0 }, ptr)

inductive HeapOp
  | malloc (size : Nat) (pmoCap r : Int)
  | calloc (nmemb size : Nat) (pmoCap r : Int)

/-- The number of bytes that the caller asks for, as an integer. -/
def HeapOp.requested : HeapOp → Nat
  | .malloc size _ _ => size
  | .calloc nmemb size _ _ => nmemb * size

def HeapOp.call (h : Heap) : HeapOp → Exec (Heap × Nat)
  | .malloc size pmoCap r => Malloc.malloc h size pmoCap r
  | .calloc nmemb size pmoCap r => Malloc.calloc h nmemb size pmoCap r

/-- A call, and its block. -/
def heapStep (h : Heap) (op : HeapOp) : Exec Heap := do
  let (h, ptr) ← op.call h
  return { h with blocks := (ptr, op.requested) :: h.blocks }

/-- The end of the block can be computed without wrapping. -/
def NoWrap (h : Heap) (op : HeapOp) : Prop := h.mallocHeader + op.requested < 2 ^ 64

instance (h : Heap) (op : HeapOp) : Decidable (NoWrap h op) := inferInstanceAs (Decidable (_ < _))

/-! ## Steps and runs -/

variable {h h' : Heap} {op : HeapOp}

/-- A call that returns takes the next bytes of the buffer. -/
lemma malloc_inv {size ptr : Nat} {pmoCap r : Int} (hwrap : h.mallocHeader + size < 2 ^ 64)
    (hrun : malloc h size pmoCap r = .ok (h', ptr)) :
    h.mallocHeader + size ≤ mallocSz ∧ ptr = mapVa + h.mallocHeader ∧
    h' = { h with mallocHeader := h.mallocHeader + size } := by
  rw [malloc, u64_of_lt hwrap] at hrun
  split at hrun
  · cases hrun
  split at hrun
  · cases hrun
  cases hrun
  exact ⟨Nat.not_lt.1 ‹_›, rfl, rfl⟩

lemma heapStep_inv (hwrap : NoWrap h op) (hstep : heapStep h op = .ok h') :
    h.mallocHeader + op.requested ≤ mallocSz ∧ h'.mallocHeader = h.mallocHeader + op.requested ∧
    h'.blocks = (mapVa + h.mallocHeader, op.requested) :: h.blocks := by
  obtain ⟨⟨h1, ptr⟩, hcall, hend⟩ := bind_eq_ok.1 hstep
  cases hend
  cases op with
  | malloc size pmoCap r =>
    obtain ⟨hle, rfl, rfl⟩ := malloc_inv hwrap hcall
    exact ⟨hle, rfl, rfl⟩
  | calloc nmemb size pmoCap r =>
    have hproduct : u64 (nmemb * size) = nmemb * size :=
      u64_of_lt ((Nat.le_add_left _ _).trans_lt hwrap)
    obtain ⟨⟨h2, ptr2⟩, hmalloc, hend⟩ := bind_eq_ok.1 hcall
    cases hend
    rw [hproduct] at hmalloc
    obtain ⟨hle, rfl, rfl⟩ := malloc_inv hwrap hmalloc
    exact ⟨hle, rfl, rfl⟩

/-- The blocks lie in front of the header, one after the other. -/
structure HeapInv (h : Heap) : Prop where
  header : h.mallocHeader ≤ mallocSz
  inside : ∀ b ∈ h.blocks, mapVa ≤ b.1 ∧ b.1 + b.2 ≤ mapVa + h.mallocHeader
  apart : h.blocks.Pairwise fun b c => Apart b.1 b.2 c.1 c.2

lemma HeapInv.step (hinv : HeapInv h) (hwrap : NoWrap h op)
    (hstep : heapStep h op = .ok h') : HeapInv h' := by
  obtain ⟨hle, hheader, hblocks⟩ := heapStep_inv hwrap hstep
  refine { header := hheader ▸ hle, inside := ?_, apart := ?_ }
  · rw [hblocks, hheader]
    refine List.forall_mem_cons.2 ⟨⟨Nat.le_add_right _ _, (add_assoc _ _ _).le⟩, ?_⟩
    intro b hb
    exact ⟨(hinv.inside b hb).1, (hinv.inside b hb).2.trans (by omega)⟩
  rw [hblocks]
  refine List.pairwise_cons.2 ⟨?_, hinv.apart⟩
  intro b hb x hlo _ _ hend
  have hin := (hinv.inside b hb).2
  dsimp only at hlo
  omega

/-- **Blocks are disjoint.** In every run of `malloc` and `calloc` in which no
end of a block wraps around, every block has the size that was asked for, lies
inside the buffer and is apart from every other block. -/
theorem blocks_apart (mem : Mem) (ops : List HeapOp)
    (hadm : Admissible heapStep NoWrap (Heap.init mem) ops)
    (hrun : run heapStep (Heap.init mem) ops = .ok h) :
    (∀ b ∈ h.blocks, mapVa ≤ b.1 ∧ b.1 + b.2 ≤ mapVa + mallocSz) ∧
      h.blocks.Pairwise fun b c => Apart b.1 b.2 c.1 c.2 := by
  have hinv : HeapInv h := run_preserves_of_admissible
    (fun _ _ _ hinv hwrap hstep => hinv.step hwrap hstep) ops _ h
    ⟨Nat.zero_le _, fun _ hb => absurd hb List.not_mem_nil, List.Pairwise.nil⟩ hadm hrun
  exact ⟨fun b hb => ⟨(hinv.inside b hb).1,
    (hinv.inside b hb).2.trans (Nat.add_le_add_left hinv.header _)⟩, hinv.apart⟩

theorem blocks_apart_two : ∃ h, run heapStep (Heap.init fun _ => 1)
      [.malloc 16 5 0, .calloc 4 8 5 0] = .ok h ∧
    (∀ b ∈ h.blocks, mapVa ≤ b.1 ∧ b.1 + b.2 ≤ mapVa + mallocSz) ∧
    h.blocks.Pairwise fun b c => Apart b.1 b.2 c.1 c.2 :=
  ⟨_, rfl, blocks_apart _ [.malloc 16 5 0, .calloc 4 8 5 0] (by decide) rfl⟩

/-- The second size wraps the header back to 8, so the third block lies inside the
first one; and `calloc` returns a block of no bytes for `2 ^ 64` bytes. -/
theorem wrapped_block_overlaps : ∃ h, run heapStep (Heap.init fun _ => 1)
      [.malloc 16 5 0, .malloc (2 ^ 64 - 8) 5 0, .malloc 8 5 0, .calloc (2 ^ 32) (2 ^ 32) 5 0] =
        .ok h ∧
    h.blocks = [(mapVa + 16, 2 ^ 64), (mapVa + 8, 8), (mapVa + 16, 2 ^ 64 - 8), (mapVa, 16)] ∧
    ¬ Apart (mapVa + 8) 8 mapVa 16 := by
  refine exists_ok_imp (p := fun h => h.blocks = [(mapVa + 16, 2 ^ 64), (mapVa + 8, 8),
      (mapVa + 16, 2 ^ 64 - 8), (mapVa, 16)]) (by decide +kernel) fun h _ hblocks => ?_
  refine ⟨hblocks, fun hapart => ?_⟩
  exact hapart (mapVa + 8) le_rfl (by decide) (by decide) (by decide)

end ChCore.Userland.Malloc
