import ChCore.Userland.TmpfsCalls
import ChCore.Userland.FsTables

/-!
# The tmpfs server

The wrapper over tmpfs. `TmpfsEffect` says what a request does to the entries,
the vnodes and the inodes together. A vnode names its inode by address, and
`tfs_remove` frees an inode without asking whether a vnode names it; so the
inodes of the open files are in memory (`LinkInv`) as long as only closed files
are removed.
-/

namespace ChCore.Userland

open Function
open Kernel (Exec enoent bind_eq_ok guard_eq_ok)
open Lib.Runs Lib.Heaps

/-! ## The operations -/

/-- The type of a vnode for an inode. -/
def TmpInode.nodeType (inode : TmpInode) : FsVnodeType := if inode.type = .reg then .reg else .dir

lemma SameFile.nodeType {i j : TmpInode} (h : SameFile i j) : j.nodeType = i.nodeType := by
  unfold TmpInode.nodeType
  rw [h.type]

section

variable {st st' : Tmpfs}

lemma tmpfsOpen_eq_ok {path : List UInt8} {r : OpenResult}
    (hrun : tmpfsOpen st path = .ok (st', r)) :
    st' = st ∧ (r.ret = 0 → ∃ a inode, tfsOpenPath st path = .ok (some a) ∧
    st.inodes a = some inode ∧ r = ⟨0, a, inode.size, inode.nodeType, a⟩) := by
  unfold tmpfsOpen at hrun
  split at hrun
  · cases hrun
  obtain ⟨addr, hopen, hrest⟩ := bind_eq_ok.1 hrun
  cases addr with
  | none =>
    cases hrest
    exact ⟨rfl, fun hret => absurd hret (show -enoent ≠ 0 by decide)⟩
  | some a =>
    dsimp only at hrest
    cases hinode : st.inodes a with
    | none =>
      rw [hinode] at hrest
      cases hrest
    | some inode =>
      rw [hinode] at hrest
      cases hrest
      exact ⟨rfl, fun _ => ⟨a, inode, hopen, hinode, rfl⟩⟩

variable {offset : Nat}

lemma tmpfsRead_same {operator size : Nat} {x : Int × List UInt8}
    (hrun : tmpfsRead st operator offset size = .ok (st', x)) : st' = st := by
  unfold tmpfsRead at hrun
  split at hrun
  · cases hrun
    rfl
  obtain ⟨file, -, hrest⟩ := bind_eq_ok.1 hrun
  obtain ⟨⟨buff, n⟩, -, hrest⟩ := bind_eq_ok.1 hrest
  cases hrest
  rfl

lemma tmpfsGetdents_same {inode count : Nat} {x : Int × Int × List UInt8}
    (hrun : tmpfsGetdents st inode offset count = .ok (st', x)) : st' = st := by
  unfold tmpfsGetdents at hrun
  split at hrun
  · cases hrun
    rfl
  split at hrun
  · cases hrun
  · cases hrun
    rfl
  obtain ⟨⟨moved, data⟩, -, hrest⟩ := bind_eq_ok.1 hrun
  cases hrest
  rfl

lemma tmpfsGetSize_same {path : List UInt8} {ret : Int}
    (hrun : tmpfsGetSize st path = .ok (st', ret)) : st' = st := by
  unfold tmpfsGetSize at hrun
  split at hrun
  · cases hrun
  obtain ⟨addr, -, hrest⟩ := bind_eq_ok.1 hrun
  cases addr with
  | none =>
    cases hrest
    rfl
  | some a =>
    dsimp only at hrest
    split at hrest
    · cases hrest
    cases hrest
    rfl

/-- The file system with another content of the file at `a`. -/
def Tmpfs.withFile (st : Tmpfs) (a : Nat) (file : TmpFile) : Tmpfs :=
  { st.setInode a (some (.reg file.inode.size file.inode.data)) with
    pages := file.heap }

lemma withFile_inodes (a : Nat) (file : TmpFile) (x : Nat) : (st.withFile a file).inodes x =
    if x = a then some (.reg file.inode.size file.inode.data) else st.inodes x :=
  update_apply _ _ _ _

lemma withFile_size {a : Nat} {file file' : TmpFile}
    (h : st.withFile a file = st.withFile a file') : file.inode.size = file'.inode.size := by
  have hsame := congrArg (fun st => (st.inodes a).map TmpInode.size) h
  simp only [withFile_inodes, if_pos, Option.map_some, Option.some.injEq] at hsame
  exact hsame

/-- `tmpfs_write` of an inode in memory is `tfs_file_write`. -/
lemma tmpfsWrite_eq_ok {operator : Nat} {data : List UInt8} {ret : Int}
    (h : DirInv st) {inode : TmpInode} (hinode : st.inodes operator = some inode)
    (hrun : tmpfsWrite st operator offset data = .ok (st', ret)) :
    ∃ size radix file n, inode = .reg size radix ∧
    tfsFileWrite ⟨⟨.reg, size, radix⟩, st.pages⟩ offset data = .ok (file, n) ∧ ret = toInt n ∧
    st' = st.withFile operator file := by
  have hne := h.ne_zero hinode
  unfold tmpfsWrite at hrun
  rw [if_neg hne] at hrun
  obtain ⟨file, hfile, hrest⟩ := bind_eq_ok.1 hrun
  obtain ⟨⟨file', n⟩, hwrite, hrest⟩ := bind_eq_ok.1 hrest
  cases hrest
  unfold Tmpfs.file at hfile
  rw [hinode] at hfile
  cases inode with
  | reg size radix =>
    cases hfile
    exact ⟨size, radix, file', n, rfl, hwrite, rfl, rfl⟩
  | dir size ht =>
    -- `BUG_ON`
    cases hfile
    cases hwrite

/-- Writing a file does not touch the tree. -/
lemma DirInv.withFile (h : DirInv st) {a size : Nat} {data : Radix}
    (ha : st.inodes a = some (.reg size data)) (file : TmpFile) : DirInv (st.withFile a file) := by
  have hdirs : ∀ d size' ht, (st.withFile a file).inodes d = some (.dir size' ht) →
      st.inodes d = some (.dir size' ht) := by
    intro d size' ht hd
    rw [withFile_inodes] at hd
    split at hd
    · cases hd
    · exact hd
  have hlink : ∀ d dent, (st.withFile a file).Link d dent → st.Link d dent := by
    rintro d dent ⟨size', ht, b, hd, hmem⟩
    exact ⟨size', ht, b, hdirs d size' ht hd, hmem⟩
  have hnone : ∀ x, st.inodes x = none → (st.withFile a file).inodes x = none := by
    intro x hx
    rw [withFile_inodes, if_neg]
    · exact hx
    rintro rfl
    rw [hx] at ha
    cases ha
  refine {
    zero := hnone 0 h.zero
    pos := h.pos
    fresh := fun x hx => hnone x (h.fresh x hx)
    root := ?_
    tables := fun d size' ht hd => h.tables d size' ht (hdirs d size' ht hd)
    alive := ?_
    single := fun d dent d' dent' hl hl' heq =>
      h.single d dent d' dent' (hlink d dent hl) (hlink d' dent' hl') heq
    rootless := fun d dent hl => h.rootless d dent (hlink d dent hl) }
  · obtain ⟨size', ht, hroot⟩ := h.root
    refine ⟨size', ht, ?_⟩
    rw [withFile_inodes]
    show (if st.root = a then _ else st.inodes st.root) = _
    rw [if_neg, hroot]
    rintro heq
    rw [heq, ha] at hroot
    cases hroot
  · intro d dent hl
    rw [withFile_inodes]
    split
    · rfl
    · exact h.alive d dent (hlink d dent hl)

end

/-! ## Effects -/

/-- The request removes what the path names. -/
def FsRequest.Removes (req : FsRequest) (path : List UInt8) : Prop :=
  (∃ flags, req = .reqUnlink path flags) ∨ ∃ flags, req = .reqRmdir path flags

/-- The request makes a file or a directory at the path. -/
def FsRequest.Makes (req : FsRequest) (path : List UInt8) (mkdir : Bool) : Prop :=
  (req = .reqCreat path ∧ mkdir = false) ∨ ∃ mode, req = .reqMkdir path mode ∧ mkdir = true

/-- What a request does to the tmpfs server. -/
inductive TmpfsEffect (env : OpenEnv) (s : FsServer Tmpfs) (badge : Nat) :
    FsRequest → FsServer Tmpfs → Reply → Prop
  | keeps {req : FsRequest} {reply : Reply} (hevent : reply.event = none) :
    TmpfsEffect env s badge req s reply
  | makes {req : FsRequest} {path : List UInt8} {mkdir : Bool} {fs : Tmpfs}
    {ret : Int} (hreq : req.Makes path mkdir)
    (hmake : makePath s.fs path mkdir = .ok (fs, ret)) :
    TmpfsEffect env s badge req { s with fs } { ret }
  | removes {req : FsRequest} {path : List UInt8} {fs : Tmpfs} {ret : Int}
    (hreq : req.Removes path) (hremove : tmpfsUnlink s.fs path = .ok (fs, ret)) :
    TmpfsEffect env s badge req { s with fs } { ret }
  | opens {newFd : Int} {path : List UInt8} {flags : Int} {mode fid : Nat}
    {s' : FsServer Tmpfs}
    (hopened : EntryOpened tmpfsOps env s badge newFd path flags mode fid s') :
    TmpfsEffect env s badge (.reqOpen newFd path flags mode) s'
      { ret := newFd, event := some (.opened fid) }
  | moves {req : FsRequest} {reply : Reply} {fd : Int} {n : Nat}
    {e : ServerEntry} {v : FsVnode} (offset : Nat) (hfd : req.fd? = some fd)
    (hget : fsWrapperGetServerEntry s badge fd = .ok n)
    (hn : n < maxServerEntryNum) (hentry : s.entrys n = some e)
    (hvnode : s.vnodes e.vnode = some v) (hevent : reply.event = none) :
    TmpfsEffect env s badge req (s.moved s.fs n e offset v v.size) reply
  | writes {fd : Int} {data : List UInt8} {n : Nat} {e : ServerEntry}
    {v : FsVnode} {fs : Tmpfs} {ret : Int}
    (hget : fsWrapperGetServerEntry s badge fd = .ok n)
    (hn : n < maxServerEntryNum) (hentry : s.entrys n = some e)
    (hvnode : s.vnodes e.vnode = some v) (hdata : data.length ≠ 0)
    (hwrite : tmpfsWrite s.fs v.priv e.offset data = .ok (fs, ret)) :
    TmpfsEffect env s badge (.reqWrite fd data) (s.moved fs n e (addOffset e.offset ret) v
        (max v.size (addOffset e.offset ret))) { ret }
  | closes {fd : Int} {n : Nat} {e : ServerEntry} {v : FsVnode}
    (hget : fsWrapperGetServerEntry s badge fd = .ok n)
    (hn : n < maxServerEntryNum) (hentry : s.entrys n = some e)
    (hvnode : s.vnodes e.vnode = some v) :
    TmpfsEffect env s badge (.reqClose fd) (s.closed s.fs n e v)
      { ret := 0, event := some (.closed n) }

section

variable {env : OpenEnv} {s s' : FsServer Tmpfs} {badge : Nat} {reply : Reply}
  {fid fd : Int}

lemma passPath_eq_ok {x : Exec (Tmpfs × Int)} (hrun : passPath s x = .ok (s', reply)) :
    ∃ fs ret, x = .ok (fs, ret) ∧ s' = { s with fs } ∧ reply = { ret } := by
  obtain ⟨⟨fs, ret⟩, hserver, hrest⟩ := wrap_bind_eq_ok.1 hrun
  cases hrest
  exact ⟨fs, ret, server_eq_ok.1 hserver, rfl, rfl⟩

/-- A handler leaves everything alone, but for the offset of its entry. -/
lemma TmpfsEffect.offset {req : FsRequest} {e : ServerEntry} {v : FsVnode}
    (offset : Nat) (hfd : req.fd? = some fd) (hget : fsWrapperGetServerEntry s badge fd = .ok fid)
    (hat : s.entryAt fid = .ok e) (hvnode : s.vnodes e.vnode = some v)
    (hevent : reply.event = none) :
    TmpfsEffect env s badge req (s.setEntry fid.toNat (some { e with offset })) reply := by
  obtain ⟨n, rfl, hn, hentry⟩ := entryAt_eq_ok.1 hat
  have hmoved : TmpfsEffect env s badge req (s.moved s.fs n e offset v v.size)
      reply := .moves offset hfd hget hn hentry hvnode hevent
  rwa [FsServer.moved_setEntry s.fs offset hvnode] at hmoved

lemma tmpfsOpen_effect {newFd : Int} {path : List UInt8} {flags : Int} {mode : Nat}
    (hrun : fsWrapperOpen tmpfsOps env s badge newFd path flags mode = .ok (s', reply)) :
    TmpfsEffect env s badge (.reqOpen newFd path flags mode) s' reply := by
  obtain ⟨⟨fs, r⟩, hopen, hrest⟩ := wrap_bind_eq_ok.1 hrun
  obtain ⟨rfl, -⟩ := tmpfsOpen_eq_ok (server_eq_ok.1 hopen)
  dsimp only at hrest
  by_cases hret : r.ret ≠ 0
  · rw [if_pos hret] at hrest
    cases hrest
    exact .keeps rfl
  rw [if_neg hret] at hrest
  cases halloc : allocEntry s env.mallocOk with
  | none =>
    rw [halloc] at hrest
    cases hrest
    exact .keeps rfl
  | some fid =>
    rw [halloc] at hrest
    obtain ⟨⟨s1, vnode⟩, hvnode, hrest⟩ := wrap_bind_eq_ok.1 hrest
    obtain ⟨s2, hset, hrest⟩ := wrap_bind_eq_ok.1 hrest
    cases hrest
    exact .opens ⟨halloc, s.fs, r, s1, vnode, server_eq_ok.1 hopen, not_not.1 hret, hvnode, hset⟩

variable (hget : fsWrapperGetServerEntry s badge fd = .ok fid)
include hget

lemma tmpfsClose_effect (hrun : fsWrapperClose tmpfsOps s fid = .ok (s', reply)) :
    TmpfsEffect env s badge (.reqClose fd) s' reply := by
  obtain ⟨notFile, -, hrest⟩ := wrap_bind_eq_ok.1 hrun
  obtain ⟨notDir, -, hrest⟩ := wrap_bind_eq_ok.1 hrest
  by_cases hinvalid : (notFile && notDir) = true
  · rw [if_pos hinvalid] at hrest
    cases hrest
    exact .keeps rfl
  rw [if_neg hinvalid] at hrest
  obtain ⟨e, v, hat, hvnode, hrest⟩ := entry_eq_ok hrest
  obtain ⟨n, rfl, hn, hentry⟩ := entryAt_eq_ok.1 hat
  obtain ⟨⟨fs, ret⟩, hserver, hrest⟩ := wrap_bind_eq_ok.1 hrest
  cases hserver
  dsimp only at hrest
  rw [if_neg (by simp)] at hrest
  obtain ⟨hneg, hrest⟩ := guard_eq_ok hrest
  cases hrest
  exact .closes hget hn hentry hvnode

lemma tmpfsRead_effect {count : Nat} (hrun : fsWrapperRead tmpfsOps s fid count = .ok (s', reply)) :
    TmpfsEffect env s badge (.reqRead fd count) s' reply := by
  obtain ⟨e, v, hat, hvnode, hrest⟩ := entry_eq_ok hrun
  by_cases hend : e.offset ≥ v.size
  · rw [if_pos hend] at hrest
    cases hrest
    exact .keeps rfl
  rw [if_neg hend] at hrest
  obtain ⟨⟨fs, ret, data⟩, hserver, hrest⟩ := wrap_bind_eq_ok.1 hrest
  obtain rfl := tmpfsRead_same (server_eq_ok.1 hserver)
  obtain ⟨-, hrest⟩ := guard_eq_ok hrest
  cases hrest
  exact .offset _ rfl hget hat hvnode rfl

lemma tmpfsWrite_effect {data : List UInt8}
    (hrun : fsWrapperWrite tmpfsOps s fid data = .ok (s', reply)) :
    TmpfsEffect env s badge (.reqWrite fd data) s' reply := by
  obtain ⟨e, v, hat, hvnode, hrest⟩ := entry_eq_ok hrun
  by_cases hempty : data.length = 0
  · rw [if_pos hempty] at hrest
    cases hrest
    exact .keeps rfl
  rw [if_neg hempty] at hrest
  obtain ⟨⟨fs, ret⟩, hserver, hrest⟩ := wrap_bind_eq_ok.1 hrest
  obtain ⟨n, rfl, hn, hentry⟩ := entryAt_eq_ok.1 hat
  have heffect : TmpfsEffect env s badge (.reqWrite fd data)
      (s.moved fs n e (addOffset e.offset ret) v (max v.size (addOffset e.offset ret))) { ret } :=
    .writes hget hn hentry hvnode hempty (server_eq_ok.1 hserver)
  dsimp only at hrest
  by_cases hgrow : addOffset e.offset ret > v.size
  · rw [if_pos hgrow] at hrest
    rw [max_eq_right (by omega)] at heffect
    cases hrest
    exact heffect
  rw [if_neg hgrow] at hrest
  rw [max_eq_left (by omega), FsServer.moved_setEntry fs _ hvnode] at heffect
  cases hrest
  exact heffect

lemma tmpfsGetdents_effect {count : Nat}
    (hrun : fsWrapperGetdents64 tmpfsOps s fid count = .ok (s', reply)) :
    TmpfsEffect env s badge (.reqGetdents64 fd count) s' reply := by
  obtain ⟨e, v, hat, hvnode, hrest⟩ := entry_eq_ok hrun
  obtain ⟨⟨fs, move, ret, data⟩, hserver, hrest⟩ := wrap_bind_eq_ok.1 hrest
  obtain rfl := tmpfsGetdents_same (server_eq_ok.1 hserver)
  obtain ⟨-, hrest⟩ := guard_eq_ok hrest
  cases hrest
  exact .offset _ rfl hget hat hvnode rfl

omit hget in
/-- Every request that returns has one of the effects. -/
lemma tmpfs_effect {req : FsRequest} (h : VnodeInv s)
    (hrun : fsServerDispatch tmpfsOps env s badge req = .ok (s', reply)) :
    TmpfsEffect env s badge req s' reply := by
  unfold fsServerDispatch at hrun
  by_cases hmounted : (!s.mounted && req ≠ .reqMount) = true
  · rw [if_pos hmounted] at hrun
    cases hrun
    exact .keeps rfl
  rw [if_neg hmounted] at hrun
  obtain ⟨req', htrans, hhandle⟩ := wrap_bind_eq_ok.1 hrun
  cases req with
  | reqOpen newFd path flags mode =>
    cases htrans
    exact tmpfsOpen_effect hhandle
  | reqClose fd =>
    obtain ⟨fid, hget, htrans⟩ := wrap_bind_eq_ok.1 htrans
    cases htrans
    exact tmpfsClose_effect hget hhandle
  | reqRead fd count =>
    obtain ⟨fid, hget, htrans⟩ := wrap_bind_eq_ok.1 htrans
    cases htrans
    exact tmpfsRead_effect hget hhandle
  | reqWrite fd data =>
    obtain ⟨fid, hget, htrans⟩ := wrap_bind_eq_ok.1 htrans
    cases htrans
    exact tmpfsWrite_effect hget hhandle
  | reqLseek fd offset whence =>
    obtain ⟨fid, hget, htrans⟩ := wrap_bind_eq_ok.1 htrans
    cases htrans
    obtain ⟨target, -, hrest⟩ := wrap_bind_eq_ok.1 hhandle
    obtain ⟨e, hat, hrest⟩ := wrap_bind_eq_ok.1 hrest
    obtain ⟨n, -, -, hentry⟩ := entryAt_eq_ok.1 hat
    obtain ⟨v, hvnode⟩ := h.alive n e hentry
    cases hrest
    exact .offset _ rfl hget hat hvnode rfl
  | reqGetdents64 fd count =>
    obtain ⟨fid, hget, htrans⟩ := wrap_bind_eq_ok.1 htrans
    cases htrans
    exact tmpfsGetdents_effect hget hhandle
  | reqCreat path =>
    cases htrans
    obtain ⟨fs, ret, hmake, rfl, rfl⟩ := passPath_eq_ok hhandle
    exact .makes (.inl ⟨rfl, rfl⟩) hmake
  | reqMkdir path mode =>
    cases htrans
    obtain ⟨fs, ret, hmake, rfl, rfl⟩ := passPath_eq_ok hhandle
    exact .makes (.inr ⟨mode, rfl, rfl⟩) hmake
  | reqRmdir path flags =>
    cases htrans
    obtain ⟨fs, ret, hremove, rfl, rfl⟩ := passPath_eq_ok hhandle
    exact .removes (.inr ⟨flags, rfl⟩) hremove
  | reqUnlink path flags =>
    cases htrans
    obtain ⟨fs, ret, hremove, rfl, rfl⟩ := passPath_eq_ok hhandle
    exact .removes (.inl ⟨flags, rfl⟩) hremove
  | reqGetSize path =>
    cases htrans
    obtain ⟨fs, ret, hsize, rfl, rfl⟩ := passPath_eq_ok hhandle
    obtain rfl := tmpfsGetSize_same hsize
    exact .keeps rfl
  | reqMount =>
    cases htrans
    cases hhandle
    exact .keeps rfl
  | reqOther number =>
    cases htrans
    cases hhandle
    exact .keeps rfl

end

/-! ## Vnodes -/

/-- A vnode that may have another counter. -/
def SameVnode (v v' : FsVnode) : Prop :=
  v'.vnodeId = v.vnodeId ∧ v'.type = v.type ∧ v'.size = v.size ∧ v'.priv = v.priv

section

variable {env : OpenEnv} {s s' : FsServer Tmpfs} {badge n : Nat}
  {e : ServerEntry} {v : FsVnode}

/-- The vnodes after an open: one of them may be new, and the new entry has that
of the inode that the path names. -/
lemma EntryOpened.vnodes {newFd : Int} {path : List UInt8} {flags : Int} {mode fid : Nat}
    (hopened : EntryOpened tmpfsOps env s badge newFd path flags mode fid s') :
    s'.fs = s.fs ∧ ∃ a inode, tfsOpenPath s.fs path = .ok (some a) ∧ s.fs.inodes a = some inode ∧
    (∀ p v', s'.vnodes p = some v' → (∃ v, s.vnodes p = some v ∧ SameVnode v v') ∨
    p = s.vnodeCount ∧ v' = ⟨a, inode.nodeType, 1, inode.size, a⟩) ∧
    ∀ e v', s'.entrys fid = some e → s'.vnodes e.vnode = some v' → v'.vnodeId = a := by
  obtain ⟨-, fs, r, s1, vnode, hopen, hret, hvnode, hset⟩ := hopened
  obtain ⟨k, -, -, rfl⟩ := fsWrapperSetServerEntry_eq_ok hset
  obtain ⟨rfl, hresult⟩ := tmpfsOpen_eq_ok hopen
  obtain ⟨a, inode, hpath, hinode, rfl⟩ := hresult hret
  -- the new entry has the vnode that was found or made
  have hnew : ∀ e, update s1.entrys fid (some ⟨env.entryOff, vnode⟩) fid = some e →
      e.vnode = vnode := by
    intro e he
    rw [update_self] at he
    cases he
    rfl
  rcases vnodeForOpen_cases hvnode with ⟨-, rfl, rfl⟩ | ⟨w, hfind, hw, rfl⟩
  · refine ⟨rfl, a, inode, hpath, hinode, forall_update (.inr ⟨rfl, rfl⟩) fun p v' _ hv' =>
      .inl ⟨v', hv', rfl, rfl, rfl, rfl⟩, fun e v' he hv' => ?_⟩
    change update s.vnodes s.vnodeCount _ e.vnode = _ at hv'
    rw [hnew e he, update_self] at hv'
    cases hv'
    rfl
  refine ⟨rfl, a, inode, hpath, hinode, forall_update (.inl ⟨w, hw, rfl, rfl, rfl, rfl⟩)
    fun p v' _ hv' => .inl ⟨v', hv', rfl, rfl, rfl, rfl⟩, fun e v' he hv' => ?_⟩
  change update s.vnodes vnode _ e.vnode = _ at hv'
  rw [hnew e he, update_self] at hv'
  cases hv'
  obtain ⟨w', hw', hid⟩ := getFsVnodeById_some hfind
  rw [hw] at hw'
  cases hw'
  exact hid

/-- The vnodes after a close: one of them may be gone. -/
lemma closed_vnodes (hvnode : s.vnodes e.vnode = some v) {fs : Tmpfs} {p : Nat}
    {v' : FsVnode} (hv' : (s.closed fs n e v).vnodes p = some v') :
    ∃ w, s.vnodes p = some w ∧ SameVnode w v' := by
  by_cases hp : p = e.vnode
  · subst hp
    by_cases hlast : v.refcnt = 1
    · rw [(closed_last fs hlast).1] at hv'
      cases hv'
    rw [(closed_more fs hlast).1] at hv'
    cases hv'
    exact ⟨v, hvnode, rfl, rfl, rfl, rfl⟩
  · rw [closed_vnodes_of_ne fs hp] at hv'
    exact ⟨v', hv', rfl, rfl, rfl, rfl⟩

/-- The vnodes after a handler used an entry. -/
lemma moved_vnodes (fs : Tmpfs) (offset size : Nat) (p : Nat) :
    (s.moved fs n e offset v size).vnodes p =
    if p = e.vnode then some { v with size } else s.vnodes p :=
  update_apply _ _ _ _

lemma closed_fs : (s.closed s.fs n e v).fs = s.fs := by
  unfold FsServer.closed
  dsimp only
  split
  · rfl
  · rfl

end

/-! ## Open files are in memory -/

/-- An entry in use refers to the inode at this address. -/
def FsServer.refersTo (s : FsServer Tmpfs) (a : Nat) : Prop :=
  ∃ i < maxServerEntryNum, (s.entrys i).any (fun e =>
    (s.vnodes e.vnode).any fun v => v.priv == a) = true

instance (s : FsServer Tmpfs) (a : Nat) : Decidable (s.refersTo a) :=
  inferInstanceAs (Decidable (∃ i < _, _))

variable {s : FsServer Tmpfs}

lemma refersTo_iff (h : VnodeInv s) {a : Nat} :
    s.refersTo a ↔ ∃ p v, s.vnodes p = some v ∧ v.priv = a := by
  unfold FsServer.refersTo
  simp only [Option.any_eq_true, beq_iff_eq]
  constructor
  · rintro ⟨i, -, e, -, v, hv, hpriv⟩
    exact ⟨e.vnode, v, hv, hpriv⟩
  · rintro ⟨p, v, hv, hpriv⟩
    obtain ⟨i, hi⟩ := h.used p v hv
    obtain ⟨hlt, e, he, rfl⟩ := mem_users.1 hi
    exact ⟨i, hlt, e, he, v, hv, hpriv⟩

/-- The inodes of the vnodes are in memory, with the type that the vnode says. -/
structure LinkInv (s : FsServer Tmpfs) : Prop where
  tables : VnodeInv s
  mounted : s.mounted = true
  dirs : DirInv s.fs
  ids : ∀ p v, s.vnodes p = some v → v.vnodeId = v.priv
  inode : ∀ p v, s.vnodes p = some v →
    ∃ inode, s.fs.inodes v.priv = some inode ∧ v.type = inode.nodeType

/-- The server starts over the tree that `tfs_load_image` has made. -/
lemma LinkInv.init {fs : Tmpfs} (hdirs : DirInv fs) : LinkInv (initFsWrapper fs true) where
  tables := VnodeInv.init _ _
  mounted := rfl
  dirs := hdirs
  ids := nofun
  inode := nofun

/-- The condition: what a request removes is not open. -/
def RemovesClosed (s : FsServer Tmpfs) (path : List UInt8) : Prop := path = [slash] ∨
  match tfsOpenPath s.fs path with
  | .ok (some a) =>
    (s.fs.inodes a).any TmpInode.removable = true → ¬ s.refersTo a
  | _ => True

instance (s : FsServer Tmpfs) (path : List UInt8) : Decidable (RemovesClosed s path) := by
  unfold RemovesClosed
  split <;> infer_instance

/-- The condition on a request. -/
def RemoveAllowed (s : FsServer Tmpfs) (c : FsCall) : Prop := match c.req with
  | .reqUnlink path _ => RemovesClosed s path
  | .reqRmdir path _ => RemovesClosed s path
  | _ => True

instance (s : FsServer Tmpfs) : DecidablePred (RemoveAllowed s) := by
  rintro ⟨_, _ | _ | _ | _ | _ | _ | _ | _ | _ | _ | _ | _ | _, _⟩ <;>
    (dsimp only [RemoveAllowed]; infer_instance)

section

variable {env : OpenEnv} {s s' : FsServer Tmpfs} {badge : Nat} {req : FsRequest}
  {reply : Reply} {path : List UInt8}

variable {c : FsCall}

lemma removeAllowed_iff (hreq : c.req.Removes path) : RemoveAllowed s c ↔ RemovesClosed s path := by
  obtain ⟨badge, req, env⟩ := c
  rcases hreq with ⟨flags, rfl⟩ | ⟨flags, rfl⟩
  · exact Iff.rfl
  · exact Iff.rfl

variable {a : Nat}

/-- The condition in the words of `Frees`. -/
lemma removesClosed_iff {inode : TmpInode}
    (hopens : tfsOpenPath s.fs path = .ok (some a)) (hnot : path ≠ [slash])
    (ha : s.fs.inodes a = some inode) (hremovable : inode.removable = true) :
    RemovesClosed s path ↔ ¬ s.refersTo a := by
  unfold RemovesClosed
  rw [hopens]
  dsimp only
  rw [ha]
  simp [hnot, hremovable]

variable {fs : Tmpfs} {ret : Int}

/-- Removing what is not open keeps the inode of every vnode. -/
lemma LinkInv.removes (h : LinkInv s) (hremove : tmpfsUnlink s.fs path = .ok (fs, ret))
    (hclosed : RemovesClosed s path) : LinkInv { s with fs } := by
  rcases tmpfsUnlink_cases h.dirs hremove with rfl | ⟨a, hfrees⟩
  · exact h
  refine ⟨h.tables.withFs fs, h.mounted, hfrees.inv, h.ids, fun p v hv => ?_⟩
  obtain ⟨inode, hinode, htype⟩ := h.inode p v hv
  obtain ⟨gone, hgone, hremovable⟩ := hfrees.removable
  have hne : v.priv ≠ a := by
    rintro rfl
    exact (removesClosed_iff hfrees.opens hfrees.notRoot hgone hremovable).1
      hclosed ((refersTo_iff h.tables).2 ⟨p, v, hv, rfl⟩)
  obtain ⟨inode', hinode', hsame⟩ := hfrees.kept v.priv inode hne hinode
  exact ⟨inode', hinode', htype.trans hsame.nodeType.symm⟩

lemma LinkInv.makes (h : LinkInv s) {mkdir : Bool}
    (hmake : makePath s.fs path mkdir = .ok (fs, ret)) : LinkInv { s with fs } := by
  obtain ⟨hdirs, hgrows⟩ := makePath_keeps h.dirs hmake
  refine ⟨h.tables.withFs fs, h.mounted, hdirs, h.ids, fun p v hv => ?_⟩
  obtain ⟨inode, hinode, htype⟩ := h.inode p v hv
  obtain ⟨inode', hinode', hsame⟩ := hgrows.kept v.priv inode hinode
  exact ⟨inode', hinode', htype.trans hsame.nodeType.symm⟩

/-- Vnodes that differ in their counters and sizes only. -/
lemma LinkInv.ofVnodes (h : LinkInv s) (htables : VnodeInv s')
    (hmounted : s'.mounted = s.mounted) (hfs : s'.fs = s.fs)
    (hvnodes : ∀ p v', s'.vnodes p = some v' → ∃ v, s.vnodes p = some v ∧
    v'.vnodeId = v.vnodeId ∧ v'.type = v.type ∧ v'.priv = v.priv) : LinkInv s' := by
  refine ⟨htables, hmounted.trans h.mounted, hfs ▸ h.dirs, ?_, ?_⟩
  · intro p v' hv'
    obtain ⟨v, hv, hid, -, hpriv⟩ := hvnodes p v' hv'
    rw [hid, hpriv]
    exact h.ids p v hv
  intro p v' hv'
  obtain ⟨v, hv, -, htype, hpriv⟩ := hvnodes p v' hv'
  rw [hfs, htype, hpriv]
  exact h.inode p v hv

lemma LinkInv.moved (h : LinkInv s) {n : Nat} {e : ServerEntry} {v : FsVnode}
    (offset size : Nat) (hentry : s.entrys n = some e) (hvnode : s.vnodes e.vnode = some v) :
    LinkInv (s.moved s.fs n e offset v size) := by
  refine h.ofVnodes (h.tables.moved s.fs offset size hentry hvnode) rfl rfl ?_
  intro p v' hv'
  rw [moved_vnodes] at hv'
  split at hv'
  · rename_i hp
    cases hv'
    exact ⟨v, hp ▸ hvnode, rfl, rfl, rfl⟩
  · exact ⟨v', hv', rfl, rfl, rfl⟩

/-- A write changes the size and the pages of a regular file. -/
lemma LinkInv.withFile (h : LinkInv s) {size : Nat} {data : Radix}
    (ha : s.fs.inodes a = some (.reg size data)) (file : TmpFile) :
    LinkInv { s with fs := s.fs.withFile a file } := by
  refine ⟨h.tables.withFs _, h.mounted, h.dirs.withFile ha file, h.ids, fun p v hv => ?_⟩
  obtain ⟨inode, hinode, htype⟩ := h.inode p v hv
  dsimp only
  rw [withFile_inodes]
  by_cases hpriv : v.priv = a
  · rw [if_pos hpriv]
    rw [hpriv, ha] at hinode
    cases hinode
    exact ⟨_, rfl, htype⟩
  · rw [if_neg hpriv]
    exact ⟨inode, hinode, htype⟩

/-- A request that removes nothing open keeps the inode of every vnode. -/
lemma LinkInv.effect (h : LinkInv s) (heffect : TmpfsEffect env s badge req s' reply)
    (hclosed : ∀ path, req.Removes path → RemovesClosed s path) : LinkInv s' := by
  cases heffect with
  | keeps hevent => exact h
  | makes hreq hmake => exact h.makes hmake
  | removes hreq hremove => exact h.removes hremove (hclosed _ hreq)
  | opens hopened =>
    obtain ⟨hfs, a, inode, -, hinode, hvnodes, -⟩ := hopened.vnodes
    have hmounted : s'.mounted = s.mounted := hopened.mounted
    refine ⟨h.tables.opened hopened, hmounted.trans h.mounted, hfs ▸ h.dirs, ?_, ?_⟩
    · intro p v' hv'
      rcases hvnodes p v' hv' with ⟨v, hv, hid, -, -, hpriv⟩ | ⟨-, rfl⟩
      · rw [hid, hpriv]
        exact h.ids p v hv
      · rfl
    intro p v' hv'
    rw [hfs]
    rcases hvnodes p v' hv' with ⟨v, hv, -, htype, -, hpriv⟩ | ⟨-, rfl⟩
    · rw [htype, hpriv]
      exact h.inode p v hv
    · exact ⟨inode, hinode, rfl⟩
  | moves offset hfd hget hn hentry hvnode hevent => exact h.moved offset _ hentry hvnode
  | @writes fd data n e v fs ret hget hn hentry hvnode hdata hwrite =>
    obtain ⟨inode, hinode, -⟩ := h.inode _ v hvnode
    obtain ⟨size, radix, file, k, rfl, -, -, rfl⟩ := tmpfsWrite_eq_ok h.dirs hinode hwrite
    exact (h.withFile hinode file).moved _ _ hentry hvnode
  | closes hget hn hentry hvnode =>
    refine h.ofVnodes (h.tables.closed s.fs hentry hvnode) ?_ closed_fs ?_
    · exact closed_mounted s.fs
    intro p v' hv'
    obtain ⟨w, hw, hid, htype, -, hpriv⟩ := closed_vnodes hvnode hv'
    exact ⟨w, hw, hid, htype, hpriv⟩

lemma LinkInv.step (h : LinkInv s) (hallowed : RemoveAllowed s c)
    (hstep : fsStep tmpfsOps s c = .ok s') : LinkInv s' := by
  obtain ⟨reply, hrun⟩ := fsStep_eq_ok hstep
  exact h.effect (tmpfs_effect h.tables hrun) fun path hreq => (removeAllowed_iff hreq).1 hallowed

lemma LinkInv.run {calls : List FsCall} (hdirs : DirInv fs)
    (hadm : Admissible (fsStep tmpfsOps) RemoveAllowed (initFsWrapper fs true) calls)
    (hrun : run (fsStep tmpfsOps) (initFsWrapper fs true) calls = .ok s) : LinkInv s :=
  run_preserves_of_admissible (fun _ _ _ => LinkInv.step) calls _ s (LinkInv.init hdirs) hadm hrun

/-- An inode stays in memory unless its path is removed. -/
lemma TmpfsEffect.alive (h : LinkInv s)
    (heffect : TmpfsEffect env s badge req s' reply) {inode : TmpInode}
    (ha : s.fs.inodes a = some inode) :
    (s'.fs.inodes a).isSome ∨ ∃ path, req.Removes path ∧ Frees s.fs path a s'.fs := by
  have hsame : ∀ {fs : Tmpfs}, fs = s.fs → (fs.inodes a).isSome := by
    rintro _ rfl
    rw [ha]
    rfl
  cases heffect with
  | keeps hevent => exact .inl (hsame rfl)
  | makes hreq hmake =>
    obtain ⟨inode', ha', -⟩ := (makePath_keeps h.dirs hmake).2.kept a inode ha
    exact .inl (Option.isSome_iff_exists.2 ⟨inode', ha'⟩)
  | @removes _ path fs ret hreq hremove =>
    rcases tmpfsUnlink_cases h.dirs hremove with rfl | ⟨a', hfrees⟩
    · exact .inl (hsame rfl)
    by_cases heq : a = a'
    · subst heq
      exact .inr ⟨path, hreq, hfrees⟩
    obtain ⟨inode', ha', -⟩ := hfrees.kept a inode heq ha
    exact .inl (Option.isSome_iff_exists.2 ⟨inode', ha'⟩)
  | opens hopened => exact .inl (hsame hopened.vnodes.1)
  | moves offset hfd hget hn hentry hvnode hevent => exact .inl (hsame rfl)
  | @writes fd data n e v fs ret hget hn hentry hvnode hdata hwrite =>
    obtain ⟨inode', hinode, -⟩ := h.inode _ v hvnode
    obtain ⟨size, radix, file, k, rfl, -, -, rfl⟩ := tmpfsWrite_eq_ok h.dirs hinode hwrite
    left
    show (update s.fs.inodes v.priv _ a).isSome
    by_cases heq : a = v.priv
    · rw [heq, update_self]
      rfl
    rw [update_of_ne heq, ha]
    rfl
  | closes hget hn hentry hvnode => exact .inl (hsame closed_fs)

/-- A request to remove a path is `tmpfs_unlink`. -/
lemma fsStep_removes (hreq : c.req.Removes path) (hmounted : s.mounted = true)
    (hremove : tmpfsUnlink s.fs path = .ok (fs, ret)) :
    fsStep tmpfsOps s c = .ok { s with fs } := by
  obtain ⟨badge, req, env⟩ := c
  have hpass : passPath s (tmpfsUnlink s.fs path) = .ok ({ s with fs }, { ret }) := by
    rw [hremove]
    rfl
  have hdispatch : fsServerDispatch tmpfsOps env s badge req =
      passPath s (tmpfsUnlink s.fs path) := by
    unfold fsServerDispatch
    rw [if_neg (by simp [hmounted])]
    rcases hreq with ⟨flags, rfl⟩ | ⟨flags, rfl⟩
    · rfl
    · rfl
  unfold fsStep
  dsimp only
  rw [hdispatch, hpass]
  rfl

end

/-- The request frees no inode that an entry in use refers to. -/
def KeepsOpenInodes (s : FsServer Tmpfs) (c : FsCall) : Prop := ∀ s', fsStep tmpfsOps s c = .ok s' →
    ∀ a, s.refersTo a → (s'.fs.inodes a).isSome

/-- A request outside the condition frees an open inode, and leaves the tables
as they are. -/
lemma LinkInv.frees_open (h : LinkInv s) {c : FsCall} (hnot : ¬ RemoveAllowed s c) :
    ∃ fs a, fsStep tmpfsOps s c = .ok { s with fs } ∧ s.refersTo a ∧ fs.inodes a = none := by
  have hremoves : ∃ path, c.req.Removes path ∧ ¬ RemovesClosed s path := by
    unfold RemoveAllowed at hnot
    split at hnot
    · rename_i hreq
      exact ⟨_, .inl ⟨_, hreq⟩, hnot⟩
    · rename_i hreq
      exact ⟨_, .inr ⟨_, hreq⟩, hnot⟩
    · exact absurd trivial hnot
  obtain ⟨path, hreq, hopen⟩ := hremoves
  unfold RemovesClosed at hopen
  rw [not_or] at hopen
  obtain ⟨hroot, hopen⟩ := hopen
  split at hopen
  · rename_i a hpath
    obtain ⟨hremovable, hrefers⟩ := Classical.not_imp.1 hopen
    obtain ⟨inode, ha, hremovable⟩ := (Option.any_eq_true _ _).1 hremovable
    obtain ⟨fs, hremove, hfrees⟩ := tmpfsUnlink_frees h.dirs hpath hroot ha hremovable
    exact ⟨fs, a, fsStep_removes hreq h.mounted hremove, not_not.1 hrefers, hfrees.gone⟩
  · exact absurd trivial hopen

/-- Only a request outside the condition frees an open inode. -/
lemma LinkInv.keepsOpenInodes_iff (h : LinkInv s) (c : FsCall) :
    KeepsOpenInodes s c ↔ RemoveAllowed s c := by
  constructor
  · intro hkeeps
    by_contra hnot
    obtain ⟨fs, a, hstep, hrefers, hgone⟩ := h.frees_open hnot
    have halive := hkeeps _ hstep a hrefers
    dsimp only at halive
    rw [hgone] at halive
    cases halive
  · intro hallowed s' hstep a hrefers
    obtain ⟨reply, hrun⟩ := fsStep_eq_ok hstep
    obtain ⟨p, v, hv, rfl⟩ := (refersTo_iff h.tables).1 hrefers
    obtain ⟨inode, hinode, -⟩ := h.inode p v hv
    rcases (tmpfs_effect h.tables hrun).alive h hinode with halive | ⟨path, hreq, hfrees⟩
    · exact halive
    obtain ⟨gone, hgone, hremovable⟩ := hfrees.removable
    exact absurd hrefers ((removesClosed_iff hfrees.opens hfrees.notRoot hgone
      hremovable).1 ((removeAllowed_iff hreq).1 hallowed))

/-- **Open inodes are kept.** Take any tree that the server may start with. In
every state that requests reach which remove nothing open, every entry in use
refers to an inode in memory, and the next request frees no such inode if and
only if it does not remove one that is open. -/
theorem open_inodes_not_freed {fs : Tmpfs} (hdirs : DirInv fs) (calls : List FsCall)
    (s : FsServer Tmpfs)
    (hadm : Admissible (fsStep tmpfsOps) RemoveAllowed (initFsWrapper fs true) calls)
    (hrun : run (fsStep tmpfsOps) (initFsWrapper fs true) calls = .ok s) :
    (∀ a, s.refersTo a → (s.fs.inodes a).isSome) ∧
    ∀ c, KeepsOpenInodes s c ↔ RemoveAllowed s c := by
  have hinv : LinkInv s := LinkInv.run hdirs hadm hrun
  refine ⟨fun a hrefers => ?_, hinv.keepsOpenInodes_iff⟩
  obtain ⟨p, v, hv, rfl⟩ := (refersTo_iff hinv.tables).1 hrefers
  obtain ⟨inode, hinode, -⟩ := hinv.inode p v hv
  exact Option.isSome_iff_exists.2 ⟨inode, hinode⟩

/-- A file is made and opened, and another one is made and removed. -/
def removeOther : List FsCall := [{ badge := 7, req := .reqCreat (bytes ['/', 'a']) },
    { badge := 7, req := .reqOpen 0 (bytes ['/', 'a']) 0 0 },
    { badge := 7, req := .reqCreat (bytes ['/', 'b']) },
    { badge := 7, req := .reqUnlink (bytes ['/', 'b']) 0 }]

theorem open_inodes_not_freed_remove_other : ∃ s,
    run (fsStep tmpfsOps) (tmpfsServer fun _ => 0) removeOther = .ok s ∧
    s.refersTo 2 ∧ (s.fs.inodes 2).isSome := by
  refine exists_ok_imp (p := fun s => s.refersTo 2) (by decide +kernel) fun s hrun hrefers => ?_
  exact ⟨hrefers, (open_inodes_not_freed (DirInv.init fun _ => 0) removeOther s
    (by decide +kernel) hrun).1 2 hrefers⟩

/-- A file is made, opened and removed. -/
def removeOpen : List FsCall := [{ badge := 7, req := .reqCreat (bytes ['/', 'a']) },
    { badge := 7, req := .reqOpen 0 (bytes ['/', 'a']) 0 0 },
    { badge := 7, req := .reqUnlink (bytes ['/', 'a']) 0 }]

/-- Then the entry refers to an inode that has been freed. -/
theorem unlink_frees_open_inode : ∃ s,
    run (fsStep tmpfsOps) (tmpfsServer fun _ => 0) removeOpen = .ok s ∧
    s.refersTo 2 ∧ (s.fs.inodes 2).isNone := by decide +kernel

end ChCore.Userland
