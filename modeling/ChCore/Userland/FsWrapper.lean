import ChCore.Kernel.Base

/-!
# The wrapper of the file-system servers

`fs_server_dispatch` of `userland/servers/fs_base` and the functions it calls:
`fs_wrapper.c`, `fs_wrapper_ops.c` and `fs_vnode.c`. A server is the wrapper
over the operations of one file system (`FsServerOps`), and everything here is
for every file system.

Clients name files by descriptors. `fd_to_fid` of a client translates its
descriptors to positions in `server_entrys`, which is one table for all
clients; an entry points to a vnode, and entries of one file share it. A
vnode is named by its address, and no address is used twice: a pointer to a
vnode that has been freed leads to nothing.
-/

namespace ChCore.Userland

open Function

open Kernel (Fault Exec u64 einval enoent)
open Lib.Faults

/-- `EMFILE`. -/
def emfile : Int := 24

/-- `MAX_SERVER_ENTRY_NUM`. -/
def maxServerEntryNum : Nat := 1024

/-- `MAX_SERVER_ENTRY_PER_CLIENT`. -/
def maxServerEntryPerClient : Nat := 1024

/-- What a message holds: `CLIENT_BUF_SIZE` without `struct ipc_msg`. -/
def msgRoom : Nat := 0x1000 - 32

/-- `AT_FDROOT`. -/
def atFdroot : Int := -101

/-- Why the server stops. -/
inductive WrapperFault
  /-- A `BUG_ON` or an assertion was hit: the server loops forever. -/
  | bug
  /-- `fd_to_fid` was indexed outside its bounds. -/
  | fdToFid
  /-- `server_entrys` was indexed outside its bounds. -/
  | serverEntrys
  /-- A null pointer from `server_entrys` was followed. -/
  | noEntry
  /-- A vnode was used after it was freed. -/
  | noVnode
  /-- The data for a client went past the end of its message. -/
  | message
  /-- An operation of the file system stopped. -/
  | server (fault : Fault)
  deriving DecidableEq, Repr

/-- Result of a function of the wrapper. -/
abbrev Wrap (α : Type) := Except WrapperFault α

section

variable {α β : Type}

@[simp] lemma wrap_ok_bind (a : α) (f : α → Wrap β) : ((Except.ok a : Wrap α) >>= f) = f a := rfl

@[simp] lemma wrap_error_bind (e : WrapperFault) (f : α → Wrap β) :
    ((Except.error e : Wrap α) >>= f) = .error e := rfl

@[simp] lemma wrap_pure (a : α) : (pure a : Wrap α) = .ok a := rfl

lemma wrap_bind_eq_ok {x : Wrap α} {f : α → Wrap β} {b : β} :
    (x >>= f) = .ok b ↔ ∃ a, x = .ok a ∧ f a = .ok b :=
  bind_eq_ok

/-- A sequence stops in its first part or in its second. -/
lemma wrap_bind_eq_error {x : Wrap α} {f : α → Wrap β} {e : WrapperFault} :
    (x >>= f) = .error e ↔ x = .error e ∨ ∃ a, x = .ok a ∧ f a = .error e :=
  bind_eq_error

/-- An operation of the file system, as part of the wrapper. -/
def server (x : Exec α) : Wrap α := match x with
  | .ok a => .ok a
  | .error fault => .error (.server fault)

lemma server_eq_ok {x : Exec α} {a : α} : server x = .ok a ↔ x = .ok a := by
  cases x with
  | ok a' | error e => simp [server]

end

/-! ## The tables -/

/-- `enum fs_vnode_type`. -/
inductive FsVnodeType
  | reserved
  | reg
  | dir
  deriving DecidableEq, Repr

/-- `struct fs_vnode`. -/
structure FsVnode where
  vnodeId : Nat
  type : FsVnodeType
  refcnt : Int
  size : Nat
  priv : Nat
  deriving DecidableEq, Repr

/-- `struct server_entry`. -/
structure ServerEntry where
  offset : Nat
  vnode : Nat
  deriving DecidableEq, Repr

/-- `struct server_entry_node`: the descriptors of a client. -/
structure ServerEntryNode where
  clientBadge : Nat
  fdToFid : Nat → Int

/-- The state of a server over the state `σ` of its file system. -/
structure FsServer (σ : Type) where
  fs : σ
  mounted : Bool
  /-- `server_entry_mapping`. -/
  mapping : List ServerEntryNode
  /-- `server_entrys`. -/
  entrys : Nat → Option ServerEntry
  /-- `fs_vnode_list`, by addresses. -/
  vnodeList : List Nat
  /-- The vnodes in memory. -/
  vnodes : Nat → Option FsVnode
  /-- The addresses from here on have not been used. -/
  vnodeCount : Nat

/-- What `server_ops.open` delivers; the fields besides `ret` count if `ret` is
`0`. -/
structure OpenResult where
  ret : Int
  vnodeId : Nat
  vnodeSize : Nat
  vnodeType : FsVnodeType
  vnodePrivate : Nat
  deriving DecidableEq, Repr

/-- `struct fs_server_ops`. A file is named by the `private` pointer of its
vnode. -/
structure FsServerOps (σ : Type) where
  opOpen : σ → List UInt8 → Int → Nat → Exec (σ × OpenResult)
  /-- Offset and size; the result and the bytes delivered. -/
  opRead : σ → Nat → Nat → Nat → Exec (σ × Int × List UInt8)
  opWrite : σ → Nat → Nat → List UInt8 → Exec (σ × Int)
  opClose : σ → Nat → Bool → Exec (σ × Int)
  opCreat : σ → List UInt8 → Exec (σ × Int)
  opUnlink : σ → List UInt8 → Int → Exec (σ × Int)
  opMkdir : σ → List UInt8 → Nat → Exec (σ × Int)
  opRmdir : σ → List UInt8 → Int → Exec (σ × Int)
  /-- Offset and size; what is added to the offset, the result and the bytes. -/
  opGetdents64 : σ → Nat → Nat → Nat → Exec (σ × Int × Int × List UInt8)
  opGetsize : σ → List UInt8 → Exec (σ × Int)

/-- `struct fs_request`. The bytes of a write are those of the message. -/
inductive FsRequest
  | reqOpen (newFd : Int) (pathname : List UInt8) (flags : Int) (mode : Nat)
  | reqClose (fd : Int)
  | reqCreat (pathname : List UInt8)
  | reqMkdir (pathname : List UInt8) (mode : Nat)
  | reqRmdir (pathname : List UInt8) (flags : Int)
  | reqUnlink (pathname : List UInt8) (flags : Int)
  | reqRead (fd : Int) (count : Nat)
  | reqWrite (fd : Int) (data : List UInt8)
  | reqGetSize (pathname : List UInt8)
  | reqLseek (fd : Int) (offset : Nat) (whence : Int)
  | reqGetdents64 (fd : Int) (count : Nat)
  | reqMount
  /-- A request number without a handler. -/
  | reqOther (req : Nat)
  deriving DecidableEq, Repr

/-- What an open depends on besides its request: the value of the variable
`entry_off`, which is never set, and whether `malloc` succeeds. Where the manager
does not set `ret`, it has the same value. -/
structure OpenEnv where
  entryOff : Nat
  mallocOk : Bool
  deriving DecidableEq, Repr

/-- What happens to an entry; the wrapper itself does not record it. -/
inductive EntryEvent
  | opened (fid : Nat)
  | closed (fid : Nat)
  deriving DecidableEq, Repr

/-- The answer to a client. -/
structure Reply where
  ret : Int
  data : List UInt8 := []
  /-- The capability in the message. -/
  cap : Option Nat := none
  event : Option EntryEvent := none
  deriving DecidableEq, Repr

variable {σ : Type}

/-! ## `fs_vnode.c` -/

/-- `server_entrys[fid]`, followed. -/
def FsServer.entryAt (s : FsServer σ) (fid : Int) : Wrap ServerEntry :=
  if fid < 0 ∨ fid ≥ maxServerEntryNum then .error .serverEntrys
  else match s.entrys fid.toNat with
    | none => .error .noEntry
    | some e => .ok e

/-- A pointer to a vnode, followed. -/
def FsServer.vnodeAt (s : FsServer σ) (vnode : Nat) : Wrap FsVnode := match s.vnodes vnode with
  | none => .error .noVnode
  | some v => .ok v

def FsServer.setEntry (s : FsServer σ) (fid : Nat) (e : Option ServerEntry) : FsServer σ :=
  { s with entrys := update s.entrys fid e }

def FsServer.setVnode (s : FsServer σ) (vnode : Nat) (v : Option FsVnode) : FsServer σ :=
  { s with vnodes := update s.vnodes vnode v }

/-- `alloc_entry`. -/
def allocEntry (s : FsServer σ) (mallocOk : Bool) : Option Nat := if mallocOk then
    (List.range maxServerEntryNum).find? fun i => (s.entrys i).isNone
  else none

/-- `free_entry`. -/
def freeEntry (s : FsServer σ) (fid : Nat) : FsServer σ := s.setEntry fid none

/-- `alloc_fs_vnode`, with the `list_append` after it. -/
def allocFsVnode (s : FsServer σ) (v : FsVnode) : FsServer σ :=
  { s.setVnode s.vnodeCount (some v) with
    vnodeList := s.vnodeList ++ [s.vnodeCount]
    vnodeCount := s.vnodeCount + 1 }

/-- `pop_free_fs_vnode`. -/
def popFreeFsVnode (s : FsServer σ) (vnode : Nat) : FsServer σ :=
  { s.setVnode vnode none with vnodeList := s.vnodeList.erase vnode }

/-- `get_fs_vnode_by_id`. -/
def getFsVnodeById (s : FsServer σ) (vnodeId : Nat) : Option Nat :=
  s.vnodeList.find? fun p => (s.vnodes p).any fun v => v.vnodeId == vnodeId

/-! ## `fs_wrapper.c` -/

/-- `fs_wrapper_get_server_entry`. -/
def fsWrapperGetServerEntry (s : FsServer σ) (clientBadge : Nat) (fd : Int) : Wrap Int :=
  if fd = atFdroot then .ok atFdroot
  else if fd < 0 ∨ fd > maxServerEntryPerClient then .error .bug
  else match s.mapping.find? fun n => n.clientBadge == clientBadge with
    | none => .ok (-1)
    | some n =>
      -- the check above lets the length of the array through
      if fd.toNat < maxServerEntryPerClient then .ok (n.fdToFid fd.toNat)
      else .error .fdToFid

/-- The loop of `fs_wrapper_set_server_entry`, and the node for a new client. -/
def setFid (clientBadge fd : Nat) (fid : Int) : List ServerEntryNode → List ServerEntryNode
  | [] => [⟨clientBadge, update (fun _ => -1) fd fid⟩]
  | n :: mapping =>
    if n.clientBadge = clientBadge then
      { n with fdToFid := update n.fdToFid fd fid } :: mapping
    else n :: setFid clientBadge fd fid mapping

/-- `fs_wrapper_set_server_entry`. -/
def fsWrapperSetServerEntry (s : FsServer σ) (clientBadge : Nat) (fd : Int)
    (fid : Int) : Wrap (FsServer σ) :=
  if fd < 0 ∨ fd > maxServerEntryPerClient then .error .bug
  else if fd.toNat < maxServerEntryPerClient then
    .ok { s with mapping := setFid clientBadge fd.toNat fid s.mapping }
  else .error .fdToFid

/-! ## `fs_wrapper_ops.c` -/

/-- `fd_type_invalid`. -/
def fdTypeInvalid (s : FsServer σ) (fd : Int) (isfile : Bool) : Wrap Bool :=
  if fd < 0 ∨ fd ≥ maxServerEntryNum then .ok true
  else match s.entrys fd.toNat with
    | none => .ok true
    | some e => do
      let v ← s.vnodeAt e.vnode
      return decide (v.type ≠ if isfile then .reg else .dir)

/-- The vnode for an open: the one with this id, or a new one. -/
def vnodeForOpen (s : FsServer σ) (r : OpenResult) : Wrap (FsServer σ × Nat) :=
  match getFsVnodeById s r.vnodeId with
  | some vnode => do
    let v ← s.vnodeAt vnode
    return (s.setVnode vnode (some { v with refcnt := v.refcnt + 1 }), vnode)
  | none =>
    .ok (allocFsVnode s ⟨r.vnodeId, r.vnodeType, 1, r.vnodeSize, r.vnodePrivate⟩, s.vnodeCount)

/-- `fs_wrapper_open`. -/
def fsWrapperOpen (ops : FsServerOps σ) (env : OpenEnv) (s : FsServer σ)
    (clientBadge : Nat) (newFd : Int) (path : List UInt8) (flags : Int)
    (mode : Nat) : Wrap (FsServer σ × Reply) := do
  let (fs, r) ← server (ops.opOpen s.fs path flags mode)
  let s := { s with fs }
  if r.ret ≠ 0 then return (s, { ret := r.ret })
  match allocEntry s env.mallocOk with
  | none => do
    let (fs, _) ← server (ops.opClose s.fs r.vnodePrivate (r.vnodeType = .dir))
    return ({ s with fs }, { ret := -emfile })
  | some entryId => do
    let (s, vnode) ← vnodeForOpen s r
    let s := s.setEntry entryId (some ⟨env.entryOff, vnode⟩)
    let s ← fsWrapperSetServerEntry s clientBadge newFd entryId
    return (s, { ret := newFd, event := some (.opened entryId) })

/-- `fs_wrapper_close`. -/
def fsWrapperClose (ops : FsServerOps σ) (s : FsServer σ) (fd : Int) :
    Wrap (FsServer σ × Reply) := do
  let notFile ← fdTypeInvalid s fd true
  let notDir ← fdTypeInvalid s fd false
  if notFile && notDir then return (s, { ret := -enoent })
  let e ← s.entryAt fd
  let v ← s.vnodeAt e.vnode
  let (fs, ret) ← server (ops.opClose s.fs v.priv (v.type = .dir))
  let s := { s with fs }
  if ret ≠ 0 then return (s, { ret })
  let s := freeEntry s fd.toNat
  let v := { v with refcnt := v.refcnt - 1 }
  if v.refcnt < 0 then .error .bug
  let s := s.setVnode e.vnode (some v)
  let s := if v.refcnt = 0 then popFreeFsVnode s e.vnode else s
  return (s, { ret := 0, event := some (.closed fd.toNat) })

/-- `offset += ret`, where `ret` is an `int` and `offset` an unsigned word. -/
def addOffset (offset : Nat) (ret : Int) : Nat := ((offset + ret) % 2 ^ 64).toNat

/-- `fs_wrapper_read`. -/
def fsWrapperRead (ops : FsServerOps σ) (s : FsServer σ) (fd : Int)
    (count : Nat) : Wrap (FsServer σ × Reply) := do
  let e ← s.entryAt fd
  let v ← s.vnodeAt e.vnode
  if e.offset ≥ v.size then return (s, { ret := 0 })
  let size := if u64 (e.offset + count) > v.size then v.size - e.offset
    else count
  let (fs, ret, data) ← server (ops.opRead s.fs v.priv e.offset size)
  -- the operation writes to the message, and nothing compares the size with its room
  if msgRoom < data.length then .error .message
  let e := { e with offset := addOffset e.offset ret }
  return ({ s with fs }.setEntry fd.toNat (some e), { ret, data })

/-- `fs_wrapper_write`. -/
def fsWrapperWrite (ops : FsServerOps σ) (s : FsServer σ) (fd : Int)
    (data : List UInt8) : Wrap (FsServer σ × Reply) := do
  let e ← s.entryAt fd
  let v ← s.vnodeAt e.vnode
  if data.length = 0 then return (s, { ret := 0 })
  let (fs, ret) ← server (ops.opWrite s.fs v.priv e.offset data)
  let e := { e with offset := addOffset e.offset ret }
  let s := { s with fs }.setEntry fd.toNat (some e)
  if e.offset > v.size then
    return (s.setVnode e.vnode (some { v with size := e.offset }), { ret })
  else return (s, { ret })

/-- A 64-bit value returned as an `int`. -/
def toInt (n : Nat) : Int := Int.bmod n (2 ^ 32)

lemma toInt_of_lt {n : Nat} (h : n < 2 ^ 31) : toInt n = n := by
  unfold toInt
  rw [Int.bmod_def]
  omega

/-- The position that an `lseek` computes. -/
def lseekTarget (s : FsServer σ) (fd : Int) (offset : Nat) (whence : Int) : Wrap Nat :=
  if whence = 0 then .ok offset
  else if whence = 1 then do
    let e ← s.entryAt fd
    return u64 (e.offset + offset)
  else if whence = 2 then do
    let e ← s.entryAt fd
    let v ← s.vnodeAt e.vnode
    return u64 (v.size + offset)
  else .ok (2 ^ 64 - 1)

/-- `fs_wrapper_lseek`. The position is unsigned, so that the test for a
negative one never succeeds. -/
def fsWrapperLseek (s : FsServer σ) (fd : Int) (offset : Nat) (whence : Int) :
    Wrap (FsServer σ × Reply) := do
  let target ← lseekTarget s fd offset whence
  let e ← s.entryAt fd
  return (s.setEntry fd.toNat (some { e with offset := target }),
    { ret := toInt target })

/-- `fs_wrapper_getdents64`: the operation of the server follows the entry, and
moves its offset. -/
def fsWrapperGetdents64 (ops : FsServerOps σ) (s : FsServer σ) (fd : Int)
    (count : Nat) : Wrap (FsServer σ × Reply) := do
  let e ← s.entryAt fd
  let v ← s.vnodeAt e.vnode
  let (fs, moved, ret, data) ← server (ops.opGetdents64 s.fs v.priv e.offset count)
  if msgRoom < data.length then .error .message
  let e := { e with offset := addOffset e.offset moved }
  return ({ s with fs }.setEntry fd.toNat (some e), { ret, data })

/-- A handler that passes a path to the file system. -/
def passPath (s : FsServer σ) (x : Exec (σ × Int)) : Wrap (FsServer σ × Reply) := do
  let (fs, ret) ← server x
  return ({ s with fs }, { ret })

/-- `fs_wrapper_unlink`. -/
def fsWrapperUnlink (ops : FsServerOps σ) (s : FsServer σ) (path : List UInt8)
    (flags : Int) : Wrap (FsServer σ × Reply) :=
  passPath s (ops.opUnlink s.fs path flags)

/-- `fs_wrapper_rmdir`. -/
def fsWrapperRmdir (ops : FsServerOps σ) (s : FsServer σ) (path : List UInt8)
    (flags : Int) : Wrap (FsServer σ × Reply) :=
  passPath s (ops.opRmdir s.fs path flags)

/-- `fs_wrapper_mkdir`. -/
def fsWrapperMkdir (ops : FsServerOps σ) (s : FsServer σ) (path : List UInt8)
    (mode : Nat) : Wrap (FsServer σ × Reply) :=
  passPath s (ops.opMkdir s.fs path mode)

/-- `fs_wrapper_creat`. -/
def fsWrapperCreat (ops : FsServerOps σ) (s : FsServer σ) (path : List UInt8) :
    Wrap (FsServer σ × Reply) :=
  passPath s (ops.opCreat s.fs path)

/-- `fs_wrapper_get_size`. -/
def fsWrapperGetSize (ops : FsServerOps σ) (s : FsServer σ)
    (path : List UInt8) : Wrap (FsServer σ × Reply) :=
  passPath s (ops.opGetsize s.fs path)

/-! ## Dispatch -/

/-- `translate_fd_to_fid`. -/
def translateFdToFid (s : FsServer σ) (clientBadge : Nat) : FsRequest → Wrap FsRequest
  | .reqRead fd count => do
    let fid ← fsWrapperGetServerEntry s clientBadge fd
    return .reqRead fid count
  | .reqWrite fd data => do
    let fid ← fsWrapperGetServerEntry s clientBadge fd
    return .reqWrite fid data
  | .reqLseek fd offset whence => do
    let fid ← fsWrapperGetServerEntry s clientBadge fd
    return .reqLseek fid offset whence
  | .reqClose fd => do
    let fid ← fsWrapperGetServerEntry s clientBadge fd
    return .reqClose fid
  | .reqGetdents64 fd count => do
    let fid ← fsWrapperGetServerEntry s clientBadge fd
    return .reqGetdents64 fid count
  | req => .ok req

/-- The `switch` of `fs_server_dispatch`. -/
def handleRequest (ops : FsServerOps σ) (env : OpenEnv) (s : FsServer σ)
    (clientBadge : Nat) : FsRequest → Wrap (FsServer σ × Reply)
  | .reqOpen newFd path flags mode =>
    fsWrapperOpen ops env s clientBadge newFd path flags mode
  | .reqRead fd count => fsWrapperRead ops s fd count
  | .reqWrite fd data => fsWrapperWrite ops s fd data
  | .reqUnlink path flags => fsWrapperUnlink ops s path flags
  | .reqRmdir path flags => fsWrapperRmdir ops s path flags
  | .reqMkdir path mode => fsWrapperMkdir ops s path mode
  | .reqClose fd => fsWrapperClose ops s fd
  | .reqCreat path => fsWrapperCreat ops s path
  | .reqGetSize path => fsWrapperGetSize ops s path
  | .reqGetdents64 fd count => fsWrapperGetdents64 ops s fd count
  | .reqLseek fd offset whence => fsWrapperLseek s fd offset whence
  | .reqMount => .ok (s, { ret := -einval })
  | .reqOther _ => .ok (s, { ret := -einval })

/-- `fs_server_dispatch`. -/
def fsServerDispatch (ops : FsServerOps σ) (env : OpenEnv) (s : FsServer σ)
    (clientBadge : Nat) (req : FsRequest) : Wrap (FsServer σ × Reply) :=
  if !s.mounted && req ≠ .reqMount then .ok (s, { ret := -einval })
  else do
    let req ← translateFdToFid s clientBadge req
    handleRequest ops env s clientBadge req

/-- A server before its first request: `init_fs_wrapper`. -/
def initFsWrapper (fs : σ) (mounted : Bool) : FsServer σ where
  fs := fs
  mounted := mounted
  mapping := []
  entrys := fun _ => none
  vnodeList := []
  vnodes := fun _ => none
  vnodeCount := 0

/-- A request of a client. -/
structure FsCall where
  badge : Nat
  req : FsRequest
  env : OpenEnv := ⟨0, true⟩
  deriving DecidableEq, Repr

/-- The server serves a request. -/
def fsStep (ops : FsServerOps σ) (s : FsServer σ) (c : FsCall) : Wrap (FsServer σ) := do
  let (s, _) ← fsServerDispatch ops c.env s c.badge c.req
  return s

end ChCore.Userland
