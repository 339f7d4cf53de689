import ChCore.Kernel.Base
import ChCore.Lib.RadixTree

/-!
# Regular files of tmpfs

`tfs_file_write` and `tfs_file_read` of `userland/servers/tmpfs/tmpfs.c`, with
the radix tree of `chcore/fs/radix.h` that holds the pages of a file. `calloc`
succeeds; a page is named by its pointer, and the null pointer is `0`.
-/

namespace ChCore.Userland

open Kernel (Exec u64)
open Lib.RadixTree

/-- `PAGE_SIZE`. -/
def pageSize : Nat := 0x1000

/-! ## The radix tree -/

/-- `RADIX_NODE_BITS`. -/
def radixNodeBits : Nat := 9

/-- `RADIX_NODE_MASK`. -/
def radixNodeMask : Nat := 2 ^ radixNodeBits - 1

/-- `RADIX_LEVELS - 1`. -/
def radixHeight : Nat := 7

/-- `struct radix`; `init_radix` allocates the root. -/
structure Radix where
  root : Node Nat radixHeight

/-- `init_radix`. -/
def initRadix : Radix := ⟨empty Nat radixHeight⟩

/-- The array `index`. -/
def radixIndex (key i : Nat) : Nat := (key >>> (radixNodeBits * i)) &&& radixNodeMask

/-- `radix_get`. -/
def radixGet (radix : Radix) (key : Nat) : Nat :=
  (get radixHeight radix.root (radixIndex key)).getD 0

/-- `radix_add`. A value that is there already is replaced. -/
def radixAdd (radix : Radix) (key value : Nat) : Radix :=
  ⟨put radixHeight radix.root (radixIndex key) (if value = 0 then none else some value)⟩

/-! ## Files -/

/-- `FS_REG` and `FS_DIR`. -/
inductive InodeType
  | reg
  | dir
  deriving DecidableEq, Repr

/-- `struct inode` of a regular file. -/
structure Inode where
  type : InodeType
  size : Nat
  data : Radix

/-- The pages that `calloc` has returned: `1` to `count`, with their bytes. -/
structure PageHeap where
  page : Nat → Nat → UInt8
  count : Nat

/-- A file, and the memory its pages are in. -/
structure TmpFile where
  inode : Inode
  heap : PageHeap

/-- `new_reg`. -/
def newReg : TmpFile := ⟨⟨.reg, 0, initRadix⟩, ⟨fun _ _ => 0, 0⟩⟩

/-- `calloc(1, PAGE_SIZE)`. -/
def callocPage (heap : PageHeap) : PageHeap × Nat :=
  (⟨Function.update heap.page (heap.count + 1) fun _ => 0, heap.count + 1⟩, heap.count + 1)

/-- `n` bytes of a page from `off` on are accessible. -/
def checkPage (page off n : Nat) : Exec Unit := if page = 0 then .error .nullDeref
  else if off + n > pageSize then .error .outOfBounds
  else .ok ()

/-- `memcpy` of `n` bytes to offset `off` of a page. -/
def memcpyToPage (heap : PageHeap) (page off : Nat) (src : Nat → UInt8)
    (n : Nat) : Exec PageHeap := do
  checkPage page off n
  return { heap with
    page := Function.update heap.page page fun i =>
      if off ≤ i ∧ i < off + n then src (i - off) else heap.page page i }

/-- `memcpy` of `n` bytes from offset `off` of a page to `buff + pos`. -/
def memcpyFromPage (heap : PageHeap) (page off : Nat) (buff : Nat → UInt8)
    (pos n : Nat) : Exec (Nat → UInt8) := do
  checkPage page off n
  return fun i =>
    if pos ≤ i ∧ i < pos + n then heap.page page (off + (i - pos)) else buff i

/-- The page of the file for a page number, which is allocated if it is not
there. -/
def pageForWrite (file : TmpFile) (pageNo : Nat) : TmpFile × Nat :=
  let page := radixGet file.inode.data pageNo
  if page = 0 then
    let (heap, page) := callocPage file.heap
    (⟨{ file.inode with data := radixAdd file.inode.data pageNo page }, heap⟩, page)
  else (file, page)

/-- The bytes that a round moves. -/
def chunk (pageOff size : Nat) : Nat :=
  if u64 (pageOff + size) > pageSize then pageSize - pageOff else size

/-- The loop of `tfs_file_write`. A round writes at least one byte, so that
there are at most `size` rounds. -/
def writeLoop (data : Nat → UInt8) (offset : Nat) : Nat → TmpFile → Nat → Nat → Exec (TmpFile × Nat)
  | 0, file, curOff, _ => .ok (file, curOff)
  | rounds + 1, file, curOff, size =>
    if size = 0 then .ok (file, curOff)
    else do
      let pageNo := curOff / pageSize
      let pageOff := curOff % pageSize
      let toWrite := chunk pageOff size
      let (file, page) := pageForWrite file pageNo
      let heap ← memcpyToPage file.heap page pageOff
        (fun i => data (u64 (curOff + 2 ^ 64 - offset) + i)) toWrite
      writeLoop data offset rounds { file with heap } (u64 (curOff + toWrite)) (size - toWrite)

/-- `tfs_file_write`. -/
def tfsFileWrite (file : TmpFile) (offset : Nat) (data : List UInt8) : Exec (TmpFile × Nat) :=
  if file.inode.type ≠ .reg then .error .bug
  else if offset > file.inode.size then .error .bug
  else do
    let (file, curOff) ← writeLoop (fun i => data.getD i 0) offset data.length
      file offset data.length
    let written := u64 (curOff + 2 ^ 64 - offset)
    -- the offset is not part of the new size
    if written > file.inode.size then
      return ({ file with inode := { file.inode with size := written } }, written)
    else return (file, written)

/-- The loop of `tfs_file_read`. -/
def readLoop (file : TmpFile) (offset : Nat) :
    Nat → (Nat → UInt8) → Nat → Nat → Exec ((Nat → UInt8) × Nat)
  | 0, buff, curOff, _ => .ok (buff, curOff)
  | rounds + 1, buff, curOff, size =>
    if size = 0 then .ok (buff, curOff)
    else do
      let pageNo := curOff / pageSize
      let pageOff := curOff % pageSize
      let toRead := chunk pageOff size
      let page := radixGet file.inode.data pageNo
      let buff ← memcpyFromPage file.heap page pageOff buff (u64 (curOff + 2 ^ 64 - offset)) toRead
      readLoop file offset rounds buff (u64 (curOff + toRead)) (size - toRead)

/-- `tfs_file_read`, with the buffer that it fills. -/
def tfsFileRead (file : TmpFile) (offset : Nat) (buff : Nat → UInt8)
    (size : Nat) : Exec ((Nat → UInt8) × Nat) :=
  if file.inode.type ≠ .reg then .error .bug
  else if offset > file.inode.size then .error .bug
  else do
    let size := if u64 (offset + size) > file.inode.size then
      u64 (file.inode.size + 2 ^ 64 - offset) else size
    let (buff, curOff) ← readLoop file offset size buff offset size
    return (buff, u64 (curOff + 2 ^ 64 - offset))

/-! ## The map that the tree stores -/

/-- The slot of a key. -/
def Radix.slot (radix : Radix) (key : Nat) : Option Nat :=
  get radixHeight radix.root (radixIndex key)

lemma radixIndex_eq (key : Nat) : radixIndex key = digit 512 key := by
  funext i
  rw [radixIndex, radixNodeMask, Nat.and_two_pow_sub_one_eq_mod,
    Nat.shiftRight_eq_div_pow, digit, radixNodeBits, Nat.pow_mul]

lemma initRadix_slot (key : Nat) : initRadix.slot key = none :=
  get_empty radixHeight (radixIndex key)

lemma radixGet_eq (radix : Radix) (key : Nat) : radixGet radix key = (radix.slot key).getD 0 := rfl

/-- Adding changes the slot of the key and no other. -/
lemma radixAdd_put (radix : Radix) {key key' : Nat} (value : Nat)
    (hkey : key < 2 ^ 64) (hkey' : key' < 2 ^ 64) : (radixAdd radix key value).slot key' =
    if key' = key then (if value = 0 then none else some value) else radix.slot key' := by
  have hwide : (2 : Nat) ^ 64 ≤ 512 ^ (radixHeight + 1) := by decide
  have hput := get_put radix.root (if value = 0 then none else some value)
    (lt_of_lt_of_le hkey hwide)
    (lt_of_lt_of_le hkey' hwide)
  rw [← radixIndex_eq, ← radixIndex_eq] at hput
  exact hput

/-- Adding a page changes the slot of its key. -/
lemma radixAdd_slot (radix : Radix) {key key' value : Nat}
    (hkey : key < 2 ^ 64) (hkey' : key' < 2 ^ 64) (hvalue : value ≠ 0) :
    (radixAdd radix key value).slot key' = if key' = key then some value else radix.slot key' := by
  rw [radixAdd_put radix value hkey hkey', if_neg hvalue]

end ChCore.Userland
