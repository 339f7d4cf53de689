import ChCore.Kernel.Base
import ChCore.Lib.Buffers
import ChCore.Lib.ByteMem

/-!
# The naive file system

`naive_fs` keeps files on a block device. Block 0 is a map with one byte for
each block: bytes 2 to 63 for the inodes, bytes 64 to 511 for the blocks of
data. Block 1 is the only directory, a text of the form `name/number/` for each
file, one behind the other. The first four bytes of an inode are the number of
the file's one block of data.

The functions copy blocks to arrays on the stack and search those. A position
outside of such an array is `Fault.outOfBounds`.
-/

namespace ChCore.Userland.NaiveFs

open Kernel Lib.Buffers Lib.ByteMem List

/-- `BLOCK_SIZE`. -/
def blockSize : Nat := 512

/-- `'/'`. -/
def slash : UInt8 := 47

/-- A C string: the characters before the zero byte that ends it. -/
structure CString where
  chars : List UInt8
  noNul : 0 ∉ chars
  deriving DecidableEq

/-! ## The device -/

/-- The content of a block, and of a `char` array of that size. -/
structure Block where
  bytes : List UInt8
  size : bytes.length = blockSize
  deriving DecidableEq

/-- A block of zeros. -/
def Block.zero : Block := ⟨List.replicate blockSize 0, length_replicate⟩

/-- The block with the bytes from `pos` on overwritten by `src`. -/
def Block.patch (b : Block) (pos : Nat) (src : List UInt8)
    (h : pos + src.length ≤ blockSize) : Block :=
  ⟨splice b.bytes pos src, by rw [length_splice (by rw [b.size]; omega), b.size, max_eq_left h]⟩

/-- The byte at a position of the block. -/
def Block.byte (b : Block) (i : Nat) : UInt8 := b.bytes.getD i 0

/-- What the device returns for each `lba`. `sd_bread` is application and
`sd_bwrite` is an update. -/
abbrev Disk := Int → Block

/-- An all-zero device. -/
def Disk.zero : Disk := fun _ => Block.zero

def Disk.bwrite (d : Disk) (lba : Int) (b : Block) : Disk := Function.update d lba b

/-! ## Copies between arrays -/

/-- `memcpy(buf + pos, src, n)` for the `n` bytes of `src`. -/
def memcpy (buf : Block) (pos : Nat) (src : List UInt8) : Exec Block :=
  if h : pos + src.length ≤ blockSize then .ok (buf.patch pos src h)
  else .error .outOfBounds

/-- `memcpy(buffer, block + offset, size)`. -/
def copyOut (block : Block) (offset size : Int) : Exec (List UInt8) :=
  if 0 ≤ offset ∧ 0 ≤ size ∧ offset + size ≤ blockSize then
    .ok (slice block.bytes offset.toNat (offset + size).toNat)
  else .error .outOfBounds

/-- `memcpy(block + offset, buffer, size)`. -/
def copyIn (block : Block) (offset size : Int) (buffer : List UInt8) : Exec Block :=
  if 0 ≤ offset ∧ 0 ≤ size ∧ size ≤ buffer.length then
    memcpy block offset.toNat (buffer.take size.toNat)
  else .error .outOfBounds

/-- The number of values of an `int`. -/
def intSpan : Nat := 2 ^ 32

/-- `*(int *) inode`. -/
def Block.int (inode : Block) : Int := Int.bmod (load inode.byte 0 4) intSpan

/-- The four bytes of a number that is not negative. -/
def intBytes (n : Nat) : List UInt8 :=
  [UInt8.ofNat n, UInt8.ofNat (n / 256), UInt8.ofNat (n / 65536), UInt8.ofNat (n / 16777216)]

/-- `*(int *) inode = n`. -/
def Block.setInt (inode : Block) (n : Nat) : Block :=
  inode.patch 0 (intBytes n) (by rw [intBytes]; change 4 ≤ 512; decide)

/-! ## Searching the directory -/

/-- `while (buf[end_pos] != '/' && end_pos < BLOCK_SIZE) end_pos++`. The loop
also reads the byte behind the array, but stops there whatever it is. -/
def toSlash (buf : Block) (endPos : Nat) : Nat := seek slash (buf.bytes.drop endPos) endPos

/-- `while (buf[end_pos] != '/') end_pos++`. Nothing keeps this loop in the
array. -/
def toNextSlash (buf : Block) (endPos : Nat) : Exec Nat :=
  if toSlash buf endPos < blockSize then .ok (toSlash buf endPos)
  else .error .outOfBounds

/-- The size of `name_buf`. -/
def nameBufSize : Nat := 24

/-- The text between the positions is copied to `name_buf`, and a zero is put
behind it. -/
def copyName (buf : Block) (startPos endPos : Nat) : Exec (List UInt8) :=
  if (slice buf.bytes startPos endPos).length < nameBufSize then
    .ok (slice buf.bytes startPos endPos)
  else .error .outOfBounds

/-- `strcmp(name, name_buf) == 0`. -/
def sameName (name : CString) (nameBuf : List UInt8) : Bool :=
  name.chars == nameBuf.takeWhile (· != 0)

/-- The number that the text stands for in base ten. -/
def decimal (text : List UInt8) : Int :=
  text.foldl (fun inodeNum c => inodeNum * 10 + ((c.toNat : Int) - 48)) 0

/-- How often the loops over the directory go round at most: each round moves
`end_pos` behind a `'/'`. -/
def maxRounds : Nat := blockSize + 1

/-- The loop over the directory in `naive_fs_access`, `naive_fs_pread` and
`naive_fs_pwrite` up to the name that matches. `start_pos` and `end_pos` are
the same when a round starts. The result is the position behind the name, or
`none` at the end of the array. -/
def findName (name : CString) (dentryBuf : Block) : Nat → Nat → Exec (Option Nat)
  | 0, _ => .error .bug
  | rounds + 1, pos =>
    if blockSize ≤ toSlash dentryBuf pos then .ok none
    else do
      let nameBuf ← copyName dentryBuf pos (toSlash dentryBuf pos)
      let startPos := toSlash dentryBuf pos + 1
      if sameName name nameBuf then .ok (some startPos)
      else
        -- skip the inode number
        let endPos ← toNextSlash dentryBuf startPos
        findName name dentryBuf rounds (endPos + 1)

/-- The loop of `naive_fs_pread` and `naive_fs_pwrite` with what they do at a
match. -/
def findInode (name : CString) (dentryBuf : Block) : Exec (Option Int) := do
  match ← findName name dentryBuf maxRounds 0 with
  | none => .ok none
  | some startPos =>
    let endPos ← toNextSlash dentryBuf startPos
    .ok (some (decimal (slice dentryBuf.bytes startPos endPos)))

/-- `naive_fs_access`. -/
def access (d : Disk) (name : CString) : Exec Int := do
  match ← findName name (d 1) maxRounds 0 with
  | none => .ok (-1)
  | some _ => .ok 0

/-! ## Creating a file -/

/-- The loop over the bytes of the inodes, from inode `n` on: the first zero
becomes 1 and its number is returned, or the number behind the last byte. -/
def takeInode : List UInt8 → Nat → List UInt8 × Nat
  | [], n => ([], n)
  | c :: cs, n =>
    if c = 0 then (1 :: cs, n)
    else (c :: (takeInode cs (n + 1)).1, (takeInode cs (n + 1)).2)

lemma length_takeInode (cs : List UInt8) : ∀ n, (takeInode cs n).1.length = cs.length := by
  induction cs with
  | nil =>
    intro n
    rfl
  | cons c cs ih =>
    intro n
    rw [takeInode]
    split
    · rfl
    · rw [length_cons, ih, length_cons]

/-- The bytes of the inodes 2 to 63 in the map. -/
def inodeBytes (map : Block) : List UInt8 := slice map.bytes 2 64

lemma length_inodeBytes (map : Block) : (inodeBytes map).length = 62 := by
  rw [inodeBytes, slice, length_take, length_drop, map.size]
  rfl

/-- The map after the search for an inode. -/
def takenMap (map : Block) : Block := map.patch 2 (takeInode (inodeBytes map) 2).1
    (by rw [length_takeInode, length_inodeBytes]; decide)

/-- The inode that the search takes. -/
def newInode (map : Block) : Nat := (takeInode (inodeBytes map) 2).2

/-- The loop that looks for the end of the directory: the position behind the
last `'/'`. -/
def lastPos (dentryBuf : Block) : Nat → Nat → Nat → Nat
  | 0, prevPos, _ => prevPos
  | rounds + 1, prevPos, curPos =>
    if curPos < blockSize then
      if blockSize ≤ toSlash dentryBuf curPos then prevPos
      else lastPos dentryBuf rounds (toSlash dentryBuf curPos + 1) (toSlash dentryBuf curPos + 1)
    else prevPos

/-- `inode_num_buf`: one or two digits. -/
def inodeNumBuf (inodeNum : Nat) : List UInt8 :=
  if inodeNum / 10 = 0 then [UInt8.ofNat (inodeNum + 48)]
  else [UInt8.ofNat (inodeNum / 10 + 48), UInt8.ofNat (inodeNum % 10 + 48)]

/-- The four copies that put an entry behind the last one. -/
def addDentry (dentryBuf : Block) (prevPos : Nat) (name : CString)
    (inodeNum : Nat) : Exec Block := do
  let lenName := name.chars.length
  let lenInodeNum := (inodeNumBuf inodeNum).length
  let buf ← memcpy dentryBuf prevPos name.chars
  let buf ← memcpy buf (prevPos + lenName) [slash]
  let buf ← memcpy buf (prevPos + lenName + 1) (inodeNumBuf inodeNum)
  memcpy buf (prevPos + lenName + lenInodeNum + 1) [slash]

/-- `naive_fs_creat`. -/
def creat (d : Disk) (name : CString) : Exec (Disk × Int) := do
  if (← access d name) = 0 then .ok (d, -1)
  else
    -- the search may end at inode 64, which is then used all the same
    let inodeNum := newInode (d 0)
    let dentryBuf ← addDentry (d 1) (lastPos (d 1) maxRounds 0 0) name inodeNum
    .ok ((d.bwrite 0 (takenMap (d 0))).bwrite 1 dentryBuf, 0)

/-! ## Reading and writing -/

/-- `naive_fs_pread`, with the bytes it leaves in `buffer`. -/
def pread (d : Disk) (name : CString) (offset size : Int) : Exec (Int × List UInt8) := do
  if (← access d name) ≠ 0 then .ok (-1, [])
  else
    match ← findInode name (d 1) with
    | none => .ok (-1, [])
    | some inodeNum =>
      let bytes ← copyOut (d (d inodeNum).int) offset size
      .ok (size, bytes)

/-- The loop over the bytes of the data blocks, from block `i` on. Every zero
becomes 1: the loop does not stop at the first. The last one is what
`*block_num` is set to. -/
def takeBlocks : List UInt8 → Nat → Option Nat → List UInt8 × Option Nat
  | [], _, blockNum => ([], blockNum)
  | c :: cs, i, blockNum =>
    if c = 0 then
      (1 :: (takeBlocks cs (i + 1) (some i)).1, (takeBlocks cs (i + 1) (some i)).2)
    else
      (c :: (takeBlocks cs (i + 1) blockNum).1, (takeBlocks cs (i + 1) blockNum).2)

lemma length_takeBlocks (cs : List UInt8) :
    ∀ i blockNum, (takeBlocks cs i blockNum).1.length = cs.length := by
  induction cs with
  | nil =>
    intro i blockNum
    rfl
  | cons c cs ih =>
    intro i blockNum
    rw [takeBlocks]
    split
    · rw [length_cons, ih, length_cons]
    · rw [length_cons, ih, length_cons]

/-- The bytes of the data blocks 64 to 511 in the map. -/
def dataBytes (map : Block) : List UInt8 := map.bytes.drop 64

lemma length_dataBytes (map : Block) : (dataBytes map).length = 448 := by
  rw [dataBytes, length_drop, map.size]
  rfl

/-- The map after the search for a data block. -/
def filledMap (map : Block) : Block := map.patch 64 (takeBlocks (dataBytes map) 64 none).1
    (by rw [length_takeBlocks, length_dataBytes]; decide)

/-- The inode after the search: `*block_num` stays as it was if no byte of the
map is zero. -/
def inodeWithBlock (map inode : Block) : Block := match (takeBlocks (dataBytes map) 64 none).2 with
  | none => inode
  | some i => inode.setInt i

/-- The device when the file of inode `inodeNum` has been given a block, if it
had none. -/
def withBlock (d : Disk) (inodeNum : Int) : Disk := if (d inodeNum).int < 64 then
    (d.bwrite 0 (filledMap (d 0))).bwrite inodeNum (inodeWithBlock (d 0) (d inodeNum))
  else d

/-- The number of the block that is written, as it stands in the array `inode`
then. -/
def blockNum (d : Disk) (inodeNum : Int) : Int :=
  if (d inodeNum).int < 64 then (inodeWithBlock (d 0) (d inodeNum)).int
  else (d inodeNum).int

/-- `naive_fs_pwrite`. -/
def pwrite (d : Disk) (name : CString) (offset size : Int)
    (buffer : List UInt8) : Exec (Disk × Int) := do
  if (← access d name) ≠ 0 then .ok (d, -1)
  else
    match ← findInode name (d 1) with
    | none => .ok (d, -1)
    | some inodeNum =>
      let block ← copyIn (withBlock d inodeNum (blockNum d inodeNum)) offset size buffer
      .ok ((withBlock d inodeNum).bwrite (blockNum d inodeNum) block, size)

/-! ## Removing a file -/

/-- The loop of `naive_fs_unlink`. Nothing breaks it, so what stands behind it
in the source is never reached. At a match `start_pos` is left behind the name
and `end_pos` at the `'/'` behind the number, so the next round takes the number
for a name. -/
def unlinkLoop (name : CString) (dentryBuf : Block) :
    Nat → (startPos endPos : Nat) → (inodeNum : Int) →
      (newDentryBuf : Block) → (newDentryBufPos : Nat) → Exec Int
  | 0, _, _, _, _, _ => .error .bug
  | rounds + 1, startPos, endPos, inodeNum, newBuf, newPos =>
    if blockSize ≤ toSlash dentryBuf endPos then .ok (-1)
    else do
      let nameBuf ← copyName dentryBuf startPos (toSlash dentryBuf endPos)
      let startPos := toSlash dentryBuf endPos + 1
      let endPos ← toNextSlash dentryBuf startPos
      let text := slice dentryBuf.bytes startPos endPos
      if sameName name nameBuf then
        unlinkLoop name dentryBuf rounds startPos endPos
          (text.foldl (fun n c => n * 10 + ((c.toNat : Int) - 48)) inodeNum)
          newBuf newPos
      else
        let newBuf ← memcpy newBuf newPos (slice dentryBuf.bytes startPos (endPos + 1))
        unlinkLoop name dentryBuf rounds (endPos + 1) (endPos + 1) inodeNum
          newBuf (newPos + (endPos - startPos + 1))

/-- `naive_fs_unlink`. The device is not written. -/
def unlink (d : Disk) (name : CString) : Exec (Disk × Int) := do
  if (← access d name) ≠ 0 then .ok (d, -1)
  else
    let res ← unlinkLoop name (d 1) maxRounds 0 0 0 Block.zero 0
    .ok (d, res)

end ChCore.Userland.NaiveFs
