import ChCore.Lib.BitField
import ChCore.Kernel.Base

/-!
# Page tables (`kernel/arch/aarch64/mm/page_table.c`)

Physical memory is a function from frame numbers and indices to 64-bit words,
which is how the page table code sees a page: as 512 entries. A pointer to a
page table page is the number of its frame; the kernel maps all of physical
memory at `KBASE`, so such a pointer is never null.

`get_pages` is a parameter of the model, the frames that the calls return in
their order.
-/

namespace ChCore.Kernel

open Lib.BitField Function

def pageShift : Nat := 12

def pageSize : Nat := 0x1000

def pageOrder : Nat := 9

/-- `PTP_ENTRIES`. -/
def ptpEntries : Nat := 512

/-! ## Entries -/

/-- `IS_PTE_INVALID`. -/
def isPteInvalid (pte : BitVec 64) : Bool := pte &&& 1#64 = 0#64

/-- `IS_PTE_TABLE`. -/
def isPteTable (pte : BitVec 64) : Bool := pte &&& 2#64 ≠ 0#64

/-- `VMR_WRITE`. -/
def vmrWrite : Nat := 2

/-- `VMR_EXEC`. -/
def vmrExec : Nat := 4

/-- `VMR_DEVICE`. -/
def vmrDevice : Nat := 8

/-- `VMR_NOCACHE`. -/
def vmrNocache : Nat := 16

/-- `set_pte_flags`, on the `l3_page` view of an entry. -/
def setPteFlags (entry : BitVec 64) (flags : Nat) : BitVec 64 :=
  let entry := setField entry 6 2 (if flags &&& vmrWrite ≠ 0 then 1 else 3)
  let entry := setField entry 54 1 (if flags &&& vmrExec ≠ 0 then 0 else 1)
  let entry := setField entry 53 1 1
  let entry := setField entry 10 1 1
  let entry := setField entry 11 1 1
  let entry := setField entry 8 2 3
  if flags &&& vmrDevice ≠ 0 then
    setField (setField entry 2 3 1) 8 2 0
  else if flags &&& vmrNocache ≠ 0 then setField entry 2 3 2
  else setField entry 2 3 0

/-- The writes of `map_range_in_pgtbl` to a last-level entry. -/
def writePage (entry : BitVec 64) (pfn flags : Nat) : BitVec 64 := let entry := setField entry 1 1 1
  let entry := setField entry 0 1 1
  let entry := setField entry 12 36 pfn
  setPteFlags entry flags

/-- The writes of `get_next_ptp` to an entry that gets a table. -/
def writeTable (entry : BitVec 64) (frame : Nat) : BitVec 64 := let entry := setField entry 0 1 1
  let entry := setField entry 1 1 1
  setField entry 12 36 frame

/-! ## Walking -/

/-- `GET_L0_INDEX` to `GET_L3_INDEX`. -/
def ptpIndex (level va : Nat) : Nat :=
  (va >>> ((3 - level) * pageOrder + pageShift)) &&& (2 ^ pageOrder - 1)

/-- Page table pages in physical memory, and the number of calls of
`get_pages` so far. -/
structure PtState where
  mem : Nat → Nat → BitVec 64
  pages : Nat

/-- What `get_next_ptp` returns: no mapping, or the frame of the next page with
its kind. -/
inductive NextPtp
  | noMapping
  | normal (frame : Nat)
  | block (frame : Nat)
  deriving DecidableEq, Repr

/-- The pointer that the caller goes on with. -/
def NextPtp.ptp : NextPtp → Exec Nat
  | .noMapping => .error .nullDeref
  | .normal frame => .ok frame
  | .block frame => .ok frame

/-- The end of `get_next_ptp`, on a valid entry. -/
def nextOfEntry (entry : BitVec 64) : NextPtp :=
  if isPteTable entry then .normal (getField entry 12 36)
  else .block (getField entry 12 36)

/-- `get_next_ptp`; `level` is at most 3. -/
def getNextPtp (getPages : Nat → Nat) (s : PtState) (curPtp level va : Nat)
    (alloc : Bool) : PtState × NextPtp :=
  let index := ptpIndex level va
  let entry := s.mem curPtp index
  if isPteInvalid entry then
    if alloc then
      let newPtp := getPages s.pages
      -- `memset` of the new page
      let mem := update s.mem newPtp fun _ => 0#64
      let entry := writeTable (mem curPtp index) newPtp
      let mem := update mem curPtp (update (mem curPtp) index entry)
      (⟨mem, s.pages + 1⟩, nextOfEntry entry)
    else (s, .noMapping)
  else (s, nextOfEntry entry)

/-- The results of `query_in_pgtbl` when it returns 0: the physical address,
if it was written, and the entry. -/
structure Query where
  pa : Option Nat
  entry : BitVec 64
  deriving DecidableEq, Repr

/-- The result at a block or page of `level`. -/
def queryResult (level va : Nat) (entry : BitVec 64) : Query := match level with
  | 1 => ⟨some ((getField entry 30 18 <<< 30) + va % 2 ^ 30), entry⟩
  | 2 => ⟨some ((getField entry 21 27 <<< 21) + va % 2 ^ 21), entry⟩
  | 3 => ⟨some ((getField entry 12 36 <<< 12) + va % 2 ^ 12), entry⟩
  | _ => ⟨none, entry⟩

/-- The loop of `query_in_pgtbl`, with the levels that are left. -/
def queryLoop (s : PtState) (va : Nat) : Nat → Nat → Nat → Option Query
  | 0, _, _ => none
  | levels + 1, level, curPtp =>
    match (getNextPtp (fun _ => 0) s curPtp level va false).2 with
    | .noMapping => none
    | .block _ =>
      some (queryResult level va (s.mem curPtp (ptpIndex level va)))
    | .normal next =>
      if level = 3 then
        some (queryResult level va (s.mem curPtp (ptpIndex level va)))
      else queryLoop s va levels (level + 1) next

/-- `query_in_pgtbl`; `none` is `-ENOMAPPING`. -/
def queryInPgtbl (s : PtState) (pgtbl va : Nat) : Option Query := queryLoop s va 4 0 pgtbl

/-- The inner loop of `map_range_in_pgtbl`, with the levels that are left and
the last result of `get_next_ptp`. -/
def mapWalk (getPages : Nat → Nat) (va : Nat) :
    Nat → PtState → Nat → Nat → NextPtp → Exec (PtState × NextPtp)
  | 0, s, _, _, last => .ok (s, last)
  | levels + 1, s, level, curPtp, _ => do
    let (s, retval) := getNextPtp getPages s curPtp level va true
    let next ← retval.ptp
    mapWalk getPages va levels s (level + 1) next retval

/-- Write one word. -/
def PtState.write (s : PtState) (frame index : Nat) (entry : BitVec 64) : PtState :=
  { s with
    mem := update s.mem frame
      (update (s.mem frame) index entry) }

/-- One round of `map_range_in_pgtbl`. -/
def mapPage (getPages : Nat → Nat) (s : PtState) (pgtbl va pa flags : Nat) : Exec PtState := do
  let (s, retval) ← mapWalk getPages va 3 s 0 pgtbl .noMapping
  match retval with
  | .normal next =>
    let index := ptpIndex 3 va
    return s.write next index (writePage (s.mem next index) (pa >>> pageShift) flags)
  | _ => .error .bug

/-- The inner loop of `unmap_range_in_pgtbl`. -/
def unmapWalk (s : PtState) (va : Nat) : Nat → Nat → Nat → Exec Nat
  | 0, _, curPtp => .ok curPtp
  | levels + 1, level, curPtp =>
    match (getNextPtp (fun _ => 0) s curPtp level va false).2 with
    | .normal next => unmapWalk s va levels (level + 1) next
    | _ => .error .bug

/-- One round of `unmap_range_in_pgtbl`. -/
def unmapPage (s : PtState) (pgtbl va : Nat) : Exec PtState := do
  let next ← unmapWalk s va 3 0 pgtbl
  let index := ptpIndex 3 va
  return s.write next index (setField (s.mem next index) 0 1 0)

/-- The loop of `map_range_in_pgtbl`. -/
def mapLoop (getPages : Nat → Nat) (pgtbl flags : Nat) : Nat → PtState → Nat → Nat → Exec PtState
  | 0, s, _, _ => .ok s
  | rounds + 1, s, va, pa => do
    let s ← mapPage getPages s pgtbl va pa flags
    mapLoop getPages pgtbl flags rounds s (u64 (va + pageSize)) (u64 (pa + pageSize))

/-- The rounds of a loop that counts to `len` in steps of a page. -/
def pageRounds (len : Nat) : Nat := (len + (pageSize - 1)) / pageSize

/-- `map_range_in_pgtbl`. -/
def mapRangeInPgtbl (getPages : Nat → Nat) (s : PtState)
    (pgtbl va pa len flags : Nat) : Exec PtState :=
  mapLoop getPages pgtbl flags (pageRounds len) s va pa

/-- The loop of `unmap_range_in_pgtbl`. -/
def unmapLoop (pgtbl : Nat) : Nat → PtState → Nat → Exec PtState
  | 0, s, _ => .ok s
  | rounds + 1, s, va => do
    let s ← unmapPage s pgtbl va
    unmapLoop pgtbl rounds s (u64 (va + pageSize))

/-- `unmap_range_in_pgtbl`. -/
def unmapRangeInPgtbl (s : PtState) (pgtbl va len : Nat) : Exec PtState :=
  unmapLoop pgtbl (pageRounds len) s va

/-! ## Blocks -/

/-- `L1_INDEX_SHIFT` to `L3_INDEX_SHIFT`. -/
def blockShift (level : Nat) : Nat := (3 - level) * pageOrder + pageShift

/-- `PAGE_SIZE_1G` at level 1 and `PAGE_SIZE_2M` at level 2. -/
def blockSize (level : Nat) : Nat := 2 ^ blockShift level

/-- The writes of `map_range_in_pgtbl_huge` to an entry that gets a block. -/
def writeBlock (level : Nat) (entry : BitVec 64) (pfn flags : Nat) : BitVec 64 :=
  let entry := setField entry 0 1 1
  let entry := setField entry 1 1 0
  let entry := setField entry (blockShift level) (48 - blockShift level) pfn
  setPteFlags entry flags

/-- One round of a loop of `map_range_in_pgtbl_huge`, at level 1 or 2. -/
def mapBlock (getPages : Nat → Nat) (pgtbl level flags : Nat) (s : PtState)
    (va pa : Nat) : Exec PtState := do
  let (s, retval) ← mapWalk getPages va level s 0 pgtbl .noMapping
  match retval with
  | .normal next =>
    let index := ptpIndex level va
    return s.write next index (writeBlock level (s.mem next index) (pa >>> blockShift level) flags)
  | _ => .error .bug

/-- A loop that maps pieces of `size` bytes, with the cursors after it. -/
def pieceLoop (mapOne : PtState → Nat → Nat → Exec PtState) (size : Nat) :
    Nat → PtState → Nat → Nat → Exec (PtState × Nat × Nat)
  | 0, s, va, pa => .ok (s, va, pa)
  | rounds + 1, s, va, pa => do
    let s ← mapOne s va pa
    pieceLoop mapOne size rounds s (u64 (va + size)) (u64 (pa + size))

/-- `map_range_in_pgtbl_huge`. -/
def mapRangeInPgtblHuge (getPages : Nat → Nat) (s : PtState)
    (pgtbl va pa len flags : Nat) : Exec PtState := do
  let (s, va, pa) ← pieceLoop (mapBlock getPages pgtbl 1 flags) (blockSize 1)
    (len / blockSize 1) s va pa
  let len := len % blockSize 1
  let (s, va, pa) ← pieceLoop (mapBlock getPages pgtbl 2 flags) (blockSize 2)
    (len / blockSize 2) s va pa
  let len := len % blockSize 2
  mapRangeInPgtbl getPages s pgtbl va pa len flags

/-- One round of a loop of `unmap_range_in_pgtbl_huge`, at level 1 or 2. -/
def unmapBlock (pgtbl level : Nat) (s : PtState) (va : Nat) : Exec PtState := do
  let next ← unmapWalk s va level 0 pgtbl
  let index := ptpIndex level va
  return s.write next index (setField (s.mem next index) 0 1 0)

/-- A loop of `unmap_range_in_pgtbl_huge`, with the cursor after it. -/
def unmapPieces (pgtbl level : Nat) : Nat → PtState → Nat → Exec (PtState × Nat)
  | 0, s, va => .ok (s, va)
  | rounds + 1, s, va => do
    let s ← unmapBlock pgtbl level s va
    unmapPieces pgtbl level rounds s (u64 (va + blockSize level))

/-- `unmap_range_in_pgtbl_huge`. -/
def unmapRangeInPgtblHuge (s : PtState) (pgtbl va len : Nat) : Exec PtState := do
  let (s, va) ← unmapPieces pgtbl 1 (len / blockSize 1) s va
  let len := len % blockSize 1
  let (s, va) ← unmapPieces pgtbl 2 (len / blockSize 2) s va
  let len := len % blockSize 2
  unmapRangeInPgtbl s pgtbl va len

end ChCore.Kernel
