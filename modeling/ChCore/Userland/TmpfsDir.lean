import ChCore.Userland.Tmpfs
import ChCore.Userland.FsWrapper

/-!
# The directories of tmpfs

The directory functions of `userland/servers/tmpfs/tmpfs.c` and the operations
of the server in `tmpfs_ops.c`. A directory is a hash table of dentries, a
dentry is a name with the address of an inode.

Inodes are at the addresses that `malloc` returned and `free` has not taken
back. Which free address `malloc` returns is not fixed: `oracle n` is the one
that call `n` returns, if that is a free address, so that an address can be used
again after `free`. `malloc` succeeds.
-/

namespace ChCore.Userland

open Function

open Kernel (Exec u64 einval enoent)

/-- `ENOTDIR`. -/
def enotdir : Int := 20

/-- `ENOTEMPTY`. -/
def enotempty : Int := 39

/-- `MAX_FILENAME_LEN`. -/
def maxFilenameLen : Nat := 255

/-- The character that separates the components of a path. -/
def slash : UInt8 := 47

/-- The bytes of ASCII characters. -/
def bytes (str : List Char) : List UInt8 := str.map fun c => c.val.toUInt8

/-! ## Hash tables of dentries -/

/-- `hash_chars`. -/
def hashChars (str : List UInt8) : Nat := str.foldl (fun hash c => u64 (hash * 131 + c.toNat)) 0

/-- `struct dentry`. -/
structure Dentry where
  name : List UInt8
  inode : Nat
  deriving DecidableEq, Repr

/-- The size that `new_dir` gives to its table. -/
def htableSize : Nat := 1024

/-- `struct htable`. -/
structure Htable where
  buckets : Nat → List Dentry

/-- `init_htable`. -/
def initHtable : Htable := ⟨fun _ => []⟩

/-- The bucket of a hash value, which is passed as a `u32`. -/
def bucketOf (name : List UInt8) : Nat := hashChars name % 2 ^ 32 % htableSize

/-- `htable_add`. -/
def htableAdd (ht : Htable) (dent : Dentry) : Htable :=
  ⟨update ht.buckets (bucketOf dent.name) (dent :: ht.buckets (bucketOf dent.name))⟩

/-- The first dentry of a bucket with this name. -/
def htableFind (ht : Htable) (name : List UInt8) : Option Dentry :=
  (ht.buckets (bucketOf name)).find? fun dent => dent.name == name

/-- `htable_del` of that dentry. -/
def htableDel (ht : Htable) (name : List UInt8) : Htable :=
  ⟨update ht.buckets (bucketOf name)
    ((ht.buckets (bucketOf name)).eraseP fun dent => dent.name == name)⟩

/-- `htable_empty`. -/
def htableEmpty (ht : Htable) : Bool := (List.range htableSize).all fun i => (ht.buckets i).isEmpty

/-! ## Inodes -/

/-- `struct inode`; the union holds the pages of a regular file or the table of
a directory. -/
inductive TmpInode
  | reg (size : Nat) (data : Radix)
  | dir (size : Nat) (dentries : Htable)

/-- The field `size`. -/
def TmpInode.size : TmpInode → Nat
  | .reg size _ => size
  | .dir size _ => size

/-- The field `type`. -/
def TmpInode.type : TmpInode → InodeType
  | .reg _ _ => .reg
  | .dir _ _ => .dir

/-- The memory of the server. -/
structure Tmpfs where
  /-- The inodes in memory, by address. -/
  inodes : Nat → Option TmpInode
  /-- `tmpfs_root`. -/
  root : Nat
  pages : PageHeap
  oracle : Nat → Nat
  /-- The number of calls of `malloc`. -/
  mallocs : Nat
  /-- No address from here on has been used. -/
  next : Nat

def Tmpfs.setInode (st : Tmpfs) (addr : Nat) (inode : Option TmpInode) : Tmpfs :=
  { st with inodes := update st.inodes addr inode }

/-- The address that `malloc` returns. -/
def Tmpfs.freeAddr (st : Tmpfs) : Nat :=
  if st.oracle st.mallocs ≠ 0 ∧ (st.inodes (st.oracle st.mallocs)).isNone then
    st.oracle st.mallocs
  else st.next

/-- `new_inode`, filled by `new_dir` or `new_reg`. -/
def newInode (st : Tmpfs) (inode : TmpInode) : Tmpfs :=
  { st.setInode st.freeAddr (some inode) with
    mallocs := st.mallocs + 1
    next := max st.next (st.freeAddr + 1) }

/-- The table of a directory. In an inode of another type there is no table:
the union holds a radix tree. -/
def Tmpfs.dentries (st : Tmpfs) (dir : Nat) : Exec (Nat × Htable) := match st.inodes dir with
  | none => .error .nullDeref
  | some (.reg _ _) => .error .outOfBounds
  | some (.dir size ht) => .ok (size, ht)

/-- `tfs_mknod`. The size of the new inode is the length of its name. -/
def tfsMknod (st : Tmpfs) (dir : Nat) (name : List UInt8) (mkdir : Bool) : Exec (Tmpfs × Int) :=
  if name.length = 0 then .ok (st, -enoent)
  else do
    let inode := st.freeAddr
    let st := newInode st (if mkdir then .dir name.length initHtable
      else .reg name.length initRadix)
    let (size, ht) ← st.dentries dir
    return (st.setInode dir (some (.dir size (htableAdd ht ⟨name, inode⟩))), 0)

/-- `tfs_mkdir`. -/
def tfsMkdir (st : Tmpfs) (dir : Nat) (name : List UInt8) : Exec (Tmpfs × Int) :=
  tfsMknod st dir name true

/-- `tfs_creat`. -/
def tfsCreat (st : Tmpfs) (dir : Nat) (name : List UInt8) : Exec (Tmpfs × Int) :=
  tfsMknod st dir name false

/-- `tfs_lookup`. -/
def tfsLookup (st : Tmpfs) (dir : Nat) (name : List UInt8) : Exec (Option Dentry) := do
  let (_, ht) ← st.dentries dir
  return htableFind ht name

/-! ## Paths -/

/-- The result of `tfs_namex`: its return value, `*dirat` and `*name`. -/
structure Namex where
  ret : Int
  dirat : Nat
  name : List UInt8
  deriving DecidableEq, Repr

/-- The loop of `tfs_namex`. A component takes two rounds if its directory is
made, and one if it is there; a loop that goes on after that never ends. -/
def namexLoop (mkdirP : Bool) : Nat → Tmpfs → Nat → List UInt8 → Exec (Tmpfs × Namex)
  | 0, _, _, _ => .error .bug
  | rounds + 1, st, dirat, name =>
    match name.dropWhile (· ≠ slash) with
    | [] => .ok (st, ⟨0, dirat, name⟩)
    | _ :: rest =>
      let buff := name.takeWhile (· ≠ slash)
      if buff.length > maxFilenameLen then .error .outOfBounds
      else do
        let dent ← tfsLookup st dirat buff
        match dent with
        | none =>
          if mkdirP then do
            let (st, _) ← tfsMkdir st dirat buff
            namexLoop mkdirP rounds st dirat name
          else return (st, ⟨-enoent, dirat, name⟩)
        | some dent => namexLoop mkdirP rounds st dent.inode rest

/-- `tfs_namex`, from the root. -/
def tfsNamex (st : Tmpfs) (path : List UInt8) (mkdirP : Bool) : Exec (Tmpfs × Namex) :=
  if path.head? ≠ some slash then .error .bug
  else
    let name := path.dropWhile (· = slash)
    if name = [] then .ok (st, ⟨-einval, st.root, name⟩)
    else namexLoop mkdirP (2 * name.length + 1) st st.root name

/-- `tfs_remove`. -/
def tfsRemove (st : Tmpfs) (dir : Nat) (name : List UInt8) : Exec (Tmpfs × Int) :=
  if name.length = 0 then .ok (st, -enoent)
  else do
    let (size, ht) ← st.dentries dir
    match htableFind ht name with
    | none => return (st, -enoent)
    | some target =>
      match st.inodes target.inode with
      | none => .error .nullDeref
      | some (.reg _ _) =>
        return ((st.setInode target.inode none).setInode dir
          (some (.dir size (htableDel ht name))), 0)
      | some (.dir _ dentries) =>
        if htableEmpty dentries then
          return ((st.setInode target.inode none).setInode dir
            (some (.dir size (htableDel ht name))), 0)
        else return (st, -enotempty)

/-- `tfs_open_path`. -/
def tfsOpenPath (st : Tmpfs) (path : List UInt8) : Exec (Option Nat) :=
  if path = [slash] then .ok (some st.root)
  else do
    let (st, r) ← tfsNamex st path false
    if r.ret ≠ 0 then return none
    let dent ← tfsLookup st r.dirat r.name
    return dent.map Dentry.inode

/-! ## `tmpfs_ops.c` -/

/-- `fs_creat`. -/
def fsCreat (st : Tmpfs) (path : List UInt8) : Exec (Tmpfs × Int) := do
  let (st, r) ← tfsNamex st path true
  if r.ret < 0 then return (st, r.ret)
  tfsCreat st r.dirat r.name

/-- `tmpfs_mkdir`. -/
def tmpfsMkdir (st : Tmpfs) (path : List UInt8) : Exec (Tmpfs × Int) := do
  let (st, r) ← tfsNamex st path true
  if r.ret < 0 then return (st, r.ret)
  tfsMkdir st r.dirat r.name

/-- `tmpfs_unlink`. -/
def tmpfsUnlink (st : Tmpfs) (path : List UInt8) : Exec (Tmpfs × Int) := do
  let (st, r) ← tfsNamex st path false
  if r.ret < 0 then return (st, r.ret)
  tfsRemove st r.dirat r.name

/-- `tmpfs_rmdir`. -/
def tmpfsRmdir (st : Tmpfs) (path : List UInt8) : Exec (Tmpfs × Int) := tmpfsUnlink st path

/-- `tmpfs_open`. -/
def tmpfsOpen (st : Tmpfs) (path : List UInt8) : Exec (Tmpfs × OpenResult) :=
  if path.head? ≠ some slash then .error .bug
  else do
    let inode ← tfsOpenPath st path
    match inode with
    | none => return (st, ⟨-enoent, 0, 0, .reserved, 0⟩)
    | some addr =>
      match st.inodes addr with
      | none => .error .nullDeref
      | some inode =>
        return (st, ⟨0, addr, inode.size, if inode.type = .reg then .reg else .dir, addr⟩)

/-- An inode with the memory of its pages, as `tfs_file_read` and
`tfs_file_write` see it. They do not look at the pages of a directory. -/
def Tmpfs.file (st : Tmpfs) (addr : Nat) : Exec TmpFile := match st.inodes addr with
  | none => .error .nullDeref
  | some (.reg size data) => .ok ⟨⟨.reg, size, data⟩, st.pages⟩
  | some (.dir size _) => .ok ⟨⟨.dir, size, initRadix⟩, st.pages⟩

/-- `tmpfs_read`. -/
def tmpfsRead (st : Tmpfs) (operator offset size : Nat) : Exec (Tmpfs × Int × List UInt8) :=
  if operator = 0 then .ok (st, 0, [])
  else do
    let file ← st.file operator
    let (buff, n) ← tfsFileRead file offset (fun _ => 0) size
    return (st, toInt n, (List.range n).map buff)

/-- `tmpfs_write`. -/
def tmpfsWrite (st : Tmpfs) (operator offset : Nat) (data : List UInt8) : Exec (Tmpfs × Int) :=
  if operator = 0 then .ok (st, 0)
  else do
    let file ← st.file operator
    let (file, n) ← tfsFileWrite file offset data
    return ({ st.setInode operator (some (.reg file.inode.size file.inode.data))
      with pages := file.heap }, toInt n)

/-- `tmpfs_close`. -/
def tmpfsClose (st : Tmpfs) : Exec (Tmpfs × Int) := .ok (st, 0)

/-- The `n` low bytes of a number, the lowest first. -/
def littleEndian (n value : Nat) : List UInt8 :=
  (List.range n).map fun i => UInt8.ofNat (value >>> (8 * i))

/-- `__dirent_filler`; `none` if the value it returns is not positive. The whole
record is written, and the cursor moves by `len`, which is an `unsigned short`. -/
def direntFiller (data : List UInt8) (count : Nat) (name : List UInt8)
    (off : Nat) (type : Nat) (ino : Nat) : Option (List UInt8) :=
  let len := (name.length + 1 + 8 + 8 + 2 + 1) % 2 ^ 16
  if data.length + len > count ∨ len = 0 then none
  else some (data ++ (littleEndian 8 ino ++ littleEndian 8 off ++
    littleEndian 2 len ++ littleEndian 1 type ++ name ++ [0]).take len)

/-- The loop of `tfs_scan`: the counter and the records. -/
def scanLoop (st : Tmpfs) (start count : Nat) :
    List Dentry → Nat → List UInt8 → Exec (Nat × List UInt8)
  | [], cnt, data => .ok (cnt, data)
  | iter :: rest, cnt, data =>
    if cnt ≥ start then
      match st.inodes iter.inode with
      | none => .error .nullDeref
      | some inode =>
        let type := if inode.type = .reg then 1 else 2
        match direntFiller data count iter.name cnt type inode.size with
        | none => .ok (cnt, data)
        | some data => scanLoop st start count rest (cnt + 1) data
    else scanLoop st start count rest (cnt + 1) data

/-- `tfs_scan`: what it returns, `*read_bytes` and the bytes up to the cursor. -/
def tfsScan (st : Tmpfs) (ht : Htable) (start count : Nat) : Exec (Int × Int × List UInt8) := do
  let (cnt, data) ← scanLoop st start count ((List.range htableSize).flatMap ht.buckets) 0 []
  return (Int.bmod (cnt - start) (2 ^ 32), toInt data.length, data)

/-- `tmpfs_getdents`. -/
def tmpfsGetdents (st : Tmpfs) (inode offset count : Nat) : Exec (Tmpfs × Int × Int × List UInt8) :=
  if inode = 0 then .ok (st, 0, -enoent, [])
  else match st.inodes inode with
    | none => .error .nullDeref
    | some (.reg _ _) => .ok (st, 0, -enotdir, [])
    | some (.dir _ ht) => do
      let (moved, readBytes, data) ← tfsScan st ht (offset % 2 ^ 32) (count % 2 ^ 32)
      return (st, moved, readBytes, data)

/-- `tmpfs_get_size`. -/
def tmpfsGetSize (st : Tmpfs) (path : List UInt8) : Exec (Tmpfs × Int) :=
  if path.head? ≠ some slash then .error .bug
  else do
    let inode ← tfsOpenPath st path
    match inode with
    | none => return (st, -1)
    | some addr =>
      match st.inodes addr with
      | none => .error .nullDeref
      | some inode => return (st, toInt inode.size)

/-- `server_ops` of tmpfs. -/
def tmpfsOps : FsServerOps Tmpfs where
  opOpen st path _ _ := tmpfsOpen st path
  opRead := tmpfsRead
  opWrite := tmpfsWrite
  opClose st _ _ := tmpfsClose st
  opCreat := fsCreat
  opUnlink st path _ := tmpfsUnlink st path
  opMkdir st path _ := tmpfsMkdir st path
  opRmdir st path _ := tmpfsRmdir st path
  opGetdents64 := tmpfsGetdents
  opGetsize := tmpfsGetSize

/-- `init_tmpfs`: the root is at address `1`. -/
def initTmpfs (oracle : Nat → Nat) : Tmpfs where
  inodes := update (fun _ => none) 1 (some (.dir 0 initHtable))
  root := 1
  pages := ⟨fun _ _ => 0, 0⟩
  oracle := oracle
  mallocs := 0
  next := 2

/-- The tmpfs server before its first request. -/
def tmpfsServer (oracle : Nat → Nat) : FsServer Tmpfs := initFsWrapper (initTmpfs oracle) true

end ChCore.Userland
