import ChCore.Userland.TmpfsServer
import ChCore.Userland.TmpfsFile
import ChCore.Userland.FsDescriptors

/-!
# The sizes of open files

The size of an open file is kept twice: in its vnode, which `fs_wrapper_write`
sets to the end of a write, and in its inode, which `tfs_file_write` sets to the
number of bytes written. They agree as long as files are written from offset 0
or inside, and nothing open is removed.

A request is in a buffer of one page, so that paths and written data are short.
The files of the tree that the server starts with may have any size.
-/

namespace ChCore.Userland

open Kernel (ok_bind bind_eq_ok guard_eq_ok u64_of_lt)
open Lib.Runs

/-- `FS_REQ_PATH_BUF_LEN`. -/
def fsReqPathBufLen : Nat := 256

/-- A path is in a field of `struct fs_request`, which has 536 bytes, and the data of a write
are after it in the message. -/
def FsRequest.Fits : FsRequest → Prop
  | .reqOpen _ path _ _ => path.length < fsReqPathBufLen
  | .reqCreat path => path.length < fsReqPathBufLen
  | .reqMkdir path _ => path.length < fsReqPathBufLen
  | .reqRmdir path _ => path.length < fsReqPathBufLen
  | .reqUnlink path _ => path.length < fsReqPathBufLen
  | .reqGetSize path => path.length < fsReqPathBufLen
  | .reqWrite _ data => 536 + data.length ≤ msgRoom
  | _ => True

instance : DecidablePred FsRequest.Fits := by
  rintro (_ | _ | _ | _ | _ | _ | _ | _ | _ | _ | _ | _ | _) <;>
    (dsimp only [FsRequest.Fits]; infer_instance)

/-! ## Files -/

/-- No file has more than `bound` bytes, and the pages of all are in order. -/
structure FilesOk (bound : Nat) (st : Tmpfs) : Prop where
  bound : ∀ a inode, st.inodes a = some inode → inode.size ≤ bound
  pages : ∀ a size data, st.inodes a = some (.reg size data) →
    PagesOk ⟨⟨.reg, size, data⟩, st.pages⟩

lemma PagesOk.new (size : Nat) (heap : PageHeap) : PagesOk ⟨⟨.reg, size, initRadix⟩, heap⟩ where
  issued key page _ hslot := by
    rw [initRadix_slot] at hslot
    cases hslot
  single key key' page _ _ hslot := by
    rw [initRadix_slot] at hslot
    cases hslot

/-- More pages elsewhere do not matter. -/
lemma PagesOk.mono {inode : Inode} {heap heap' : PageHeap}
    (h : PagesOk ⟨inode, heap⟩) (hle : heap.count ≤ heap'.count) : PagesOk ⟨inode, heap'⟩ where
  issued key page hkey hslot := by
    obtain ⟨hne, hcount⟩ := h.issued key page hkey hslot
    exact ⟨hne, le_trans hcount hle⟩
  single := h.single

lemma FilesOk.init (oracle : Nat → Nat) (bound : Nat) : FilesOk bound (initTmpfs oracle) := by
  have hroot : ∀ a inode, (initTmpfs oracle).inodes a = some inode → inode = .dir 0 initHtable := by
    intro a inode ha
    change Function.update (fun _ => none) 1 _ a = _ at ha
    rw [Function.update_apply] at ha
    split at ha
    · cases ha
      rfl
    · cases ha
  constructor
  · intro a inode ha
    rw [hroot a inode ha]
    exact Nat.zero_le _
  · intro a size data ha
    cases hroot a _ ha

lemma FilesOk.mono {bound bound' : Nat} {st : Tmpfs} (h : FilesOk bound st) (hle : bound ≤ bound') :
    FilesOk bound' st where
  bound a inode ha := (h.bound a inode ha).trans hle
  pages := h.pages

/-- Files that are the same are in order. -/
lemma FilesOk.ofSame {bound : Nat} {st st' : Tmpfs} (h : FilesOk bound st) (hpages : st'.pages = st.pages)
    (hold : ∀ a inode', st'.inodes a = some inode' →
    (∃ inode, st.inodes a = some inode ∧ SameFile inode inode') ∨
    inode'.IsNew bound) : FilesOk bound st' := by
  constructor
  · intro a inode' ha'
    rcases hold a inode' ha' with ⟨inode, ha, hsame⟩ | hnew
    · rw [hsame.size]
      exact h.bound a inode ha
    cases inode' with
    | reg size data => exact hnew.1
    | dir size ht => exact hnew
  · intro a size data ha'
    rw [hpages]
    rcases hold a _ ha' with ⟨inode, ha, hsame⟩ | hnew
    · cases hsame with
      | reg => exact h.pages a size data ha
    rw [hnew.2]
    exact PagesOk.new size _

lemma FilesOk.grows {st st' : Tmpfs} {bound len : Nat} (h : FilesOk bound st)
    (hgrows : Grows len st st') (hle : len ≤ bound) : FilesOk bound st' := by
  have hgrows := hgrows.mono hle
  refine h.ofSame hgrows.pages fun a inode' ha' => ?_
  cases ha : st.inodes a with
  | none => exact .inr (hgrows.new a inode' ha ha')
  | some inode =>
    obtain ⟨inode1, ha1, hsame⟩ := hgrows.kept a inode ha
    rw [ha'] at ha1
    cases ha1
    exact .inl ⟨inode, rfl, hsame⟩

/-- A write turned the file at `a` into `file`. -/
structure FileWritten (st : Tmpfs) (a offset : Nat) (data : List UInt8)
    (size : Nat) (radix : Radix) (file : TmpFile) : Prop where
  inode : st.inodes a = some (.reg size radix)
  inside : offset ≤ size
  run : tfsFileWrite ⟨⟨.reg, size, radix⟩, st.pages⟩ offset data = .ok (file, data.length)
  pages : PagesOk file
  type : file.inode.type = .reg
  grown : file.inode.size = max size data.length
  heap : st.pages.count ≤ file.heap.count

lemma addOffset_of_lt {o n : Nat} (h : o + n < 2 ^ 64) : addOffset o n = o + n := by
  unfold addOffset
  omega

section

variable {st st' : Tmpfs} {a offset bound : Nat} {data : List UInt8}

/-- A write that returns was made inside the file. -/
lemma tfsFileWrite_offset {file file' : TmpFile} {r : Nat}
    (hrun : tfsFileWrite file offset data = .ok (file', r)) : offset ≤ file.inode.size := by
  by_contra hbig
  unfold tfsFileWrite at hrun
  split at hrun
  · cases hrun
  rw [if_pos (by omega)] at hrun
  cases hrun

/-- A write inside a file that is in order returns. -/
lemma tfsFileWrite_inside (h : FilesOk bound st) (hlimit : bound < 2 ^ 63) {size : Nat}
    {radix : Radix} (ha : st.inodes a = some (.reg size radix)) (hoffset : offset ≤ size)
    (hdata : 536 + data.length ≤ msgRoom) :
    ∃ file, FileWritten st a offset data size radix file := by
  have hbound : size ≤ bound := h.bound a _ ha
  unfold msgRoom at hdata
  obtain ⟨file, hrun, hpages, htype, hsize, hheap, -⟩ :=
    tfsFileWrite_written (h.pages a size radix ha) rfl hoffset
      (show offset + data.length < 2 ^ 64 by omega)
  exact ⟨file, ha, hoffset, hrun, hpages, htype, hsize, hheap⟩

lemma tmpfsWrite_written (hdirs : DirInv st) (h : FilesOk bound st) (hlimit : bound < 2 ^ 63)
    (hdata : 536 + data.length ≤ msgRoom) {inode : TmpInode}
    (ha : st.inodes a = some inode) {ret : Int}
    (hrun : tmpfsWrite st a offset data = .ok (st', ret)) :
    ret = data.length ∧ ∃ size radix file, FileWritten st a offset data size radix file ∧
    st' = st.withFile a file := by
  obtain ⟨size, radix, file, n, rfl, hwrite, hret, rfl⟩ := tmpfsWrite_eq_ok hdirs ha hrun
  obtain ⟨file', hwritten⟩ := tfsFileWrite_inside h hlimit ha (tfsFileWrite_offset hwrite) hdata
  have hrun' := hwritten.run
  rw [hwrite] at hrun'
  cases hrun'
  have hshort : data.length < 2 ^ 31 := by
    unfold msgRoom at hdata
    omega
  exact ⟨hret.trans (toInt_of_lt hshort), size, radix, file, hwritten, rfl⟩

/-- A write leaves the files in order. -/
lemma FilesOk.written (h : FilesOk bound st) (hdata : data.length ≤ bound)
    {size : Nat} {radix : Radix} {file : TmpFile}
    (hwritten : FileWritten st a offset data size radix file) :
    FilesOk bound (st.withFile a file) := by
  constructor
  · intro x inode hx
    rw [withFile_inodes] at hx
    split at hx
    · cases hx
      have hbound : size ≤ bound := h.bound a _ hwritten.inode
      have hsize := hwritten.grown
      show file.inode.size ≤ _
      omega
    · exact h.bound x inode hx
  · intro x size' data' hx
    rw [withFile_inodes] at hx
    split at hx
    · cases hx
      have htype := hwritten.type
      have hpages := hwritten.pages
      obtain ⟨⟨type, size'', radix'⟩, heap⟩ := file
      cases htype
      exact hpages
    · exact (h.pages x size' data' hx).mono hwritten.heap

end

/-! ## The invariant -/

section

variable {env : OpenEnv} {s s' : FsServer Tmpfs} {badge bound : Nat} {req : FsRequest}
  {reply : Reply}

lemma makes_fits {path : List UInt8} {mkdir : Bool}
    (hreq : req.Makes path mkdir) (hfits : req.Fits) : path.length < fsReqPathBufLen := by
  rcases hreq with ⟨rfl, -⟩ | ⟨mode, rfl, -⟩
  · exact hfits
  · exact hfits

/-- Every request leaves the files in order. -/
lemma FilesOk.effect (hlinks : LinkInv s) (h : FilesOk bound s.fs) (hroom : msgRoom ≤ bound)
    (hlimit : bound < 2 ^ 63) (hfits : req.Fits)
    (heffect : TmpfsEffect env s badge req s' reply) : FilesOk bound s'.fs := by
  cases heffect with
  | keeps hevent => exact h
  | makes hreq hmake =>
    have hpath := makes_fits hreq hfits
    unfold fsReqPathBufLen at hpath
    unfold msgRoom at hroom
    exact h.grows (makePath_keeps hlinks.dirs hmake).2 (by omega)
  | removes hreq hremove =>
    rcases tmpfsUnlink_cases hlinks.dirs hremove with rfl | ⟨a, hfrees⟩
    · exact h
    · exact h.ofSame hfrees.pages fun x inode' hx => .inl (hfrees.old x inode' hx)
  | opens hopened => rwa [hopened.vnodes.1]
  | moves offset hfd hget hn hentry hvnode hevent => exact h
  | writes hget hn hentry hvnode hdata hwrite =>
    obtain ⟨inode, hinode, -⟩ := hlinks.inode _ _ hvnode
    obtain ⟨-, size, radix, file, hwritten, rfl⟩ :=
      tmpfsWrite_written hlinks.dirs h hlimit hfits hinode hwrite
    refine h.written (le_trans ?_ hroom) hwritten
    exact (Nat.le_add_left _ _).trans hfits
  | closes hget hn hentry hvnode => rwa [closed_fs]

end

/-- Every entry in use refers to an inode in memory that has the type and the
size of its vnode. -/
def CachedSizes (s : FsServer Tmpfs) : Prop :=
  ∀ i e v, s.entrys i = some e → s.vnodes e.vnode = some v →
    ∃ inode, s.fs.inodes v.priv = some inode ∧ v.type = inode.nodeType ∧ v.size = inode.size

/-- The size of every vnode and the size of its inode are related. -/
def SizesMeet (R : Nat → Nat → Prop) (s : FsServer Tmpfs) : Prop :=
  ∀ p v inode, s.vnodes p = some v → s.fs.inodes v.priv = some inode → R v.size inode.size

/-- The inodes of open files are in memory, and their sizes are in their
vnodes. -/
structure SizeInv (bound : Nat) (s : FsServer Tmpfs) : Prop where
  links : LinkInv s
  files : FilesOk bound s.fs
  size : SizesMeet Eq s
  room : msgRoom ≤ bound
  limit : bound < 2 ^ 63

lemma SizeInv.cachedSizes {bound : Nat} {s : FsServer Tmpfs} (h : SizeInv bound s) : CachedSizes s := by
  intro i e v _ hv
  obtain ⟨inode, hinode, htype⟩ := h.links.inode _ v hv
  exact ⟨inode, hinode, htype, h.size _ v inode hv hinode⟩

/-- The property says the same of the vnodes, since every vnode has an entry. -/
lemma CachedSizes.vnodes {s : FsServer Tmpfs} (htables : VnodeInv s)
    (h : CachedSizes s) {p : Nat} {v : FsVnode} (hv : s.vnodes p = some v) :
    ∃ inode, s.fs.inodes v.priv = some inode ∧ v.type = inode.nodeType ∧ v.size = inode.size := by
  obtain ⟨i, hi⟩ := htables.used p v hv
  obtain ⟨-, e, he, rfl⟩ := mem_users.1 hi
  exact h i e v he hv

lemma SizeInv.init {bound : Nat} {fs : Tmpfs} (hdirs : DirInv fs) (hfiles : FilesOk bound fs)
    (hroom : msgRoom ≤ bound) (hlimit : bound < 2 ^ 63) : SizeInv bound (initFsWrapper fs true) where
  links := LinkInv.init hdirs
  files := hfiles
  size := nofun
  room := hroom
  limit := hlimit

/-! ## The condition -/

/-- The entry and the vnode that a descriptor leads to. -/
def FsServer.opened (s : FsServer Tmpfs) (badge : Nat) (fd : Int) :
    Option (ServerEntry × FsVnode) :=
  (s.slot badge fd).bind fun n => (s.entrys n).bind fun e =>
    (s.vnodes e.vnode).map fun v => (e, v)

/-- A regular file is written at offset 0 or inside; a write after the end of
the file hits `BUG_ON`. -/
def WritesInside (e : ServerEntry) (v : FsVnode) (data : List UInt8) : Prop :=
  v.type ≠ .reg ∨ e.offset = 0 ∨ e.offset + data.length ≤ v.size ∨ v.size < e.offset

instance (e : ServerEntry) (v : FsVnode) (data : List UInt8) : Decidable (WritesInside e v data) :=
  inferInstanceAs (Decidable (_ ∨ _))

/-- The descriptor and the data of a write. -/
def FsRequest.write? : FsRequest → Option (Int × List UInt8)
  | .reqWrite fd data => some (fd, data)
  | _ => none

/-- The condition: files are written at offset 0 or inside, and nothing open is
removed. -/
def SizeAllowed (s : FsServer Tmpfs) (c : FsCall) : Prop :=
  RemoveAllowed s c ∧ ∀ w ∈ c.req.write?, ∀ x ∈ s.opened c.badge w.1, WritesInside x.1 x.2 w.2

instance (s : FsServer Tmpfs) : DecidablePred (SizeAllowed s) :=
  fun _ => inferInstanceAs (Decidable (_ ∧ ∀ w ∈ _, ∀ x ∈ _, _))

section

variable {env : OpenEnv} {s s' : FsServer Tmpfs} {badge : Nat} {req : FsRequest}
  {reply : Reply} {fd : Int} {e : ServerEntry} {v : FsVnode}

lemma opened_eq_some {x : ServerEntry × FsVnode} :
    x ∈ s.opened badge fd ↔ ∃ n, s.slot badge fd = some n ∧
    s.entrys n = some x.1 ∧ s.vnodes x.1.vnode = some x.2 := by
  unfold FsServer.opened
  rw [Option.mem_def, Option.bind_eq_some_iff]
  refine exists_congr fun n => and_congr_right fun _ => ?_
  rw [Option.bind_eq_some_iff]
  constructor
  · rintro ⟨e, he, hx⟩
    obtain ⟨v, hv, rfl⟩ := Option.map_eq_some_iff.1 hx
    exact ⟨he, hv⟩
  · rintro ⟨he, hv⟩
    exact ⟨x.1, he, Option.map_eq_some_iff.2 ⟨x.2, hv, rfl⟩⟩

/-- The sizes after a write through the vnode `v`: one vnode has each inode. -/
lemma sizesMeet_written {R : Nat → Nat → Prop} (hlinks : LinkInv s)
    (h : SizesMeet R s) (hvnode : s.vnodes e.vnode = some v) (n offset size : Nat)
    (file : TmpFile) : SizesMeet R (s.moved (s.fs.withFile v.priv file) n e offset v size) ↔
    R size file.inode.size := by
  constructor
  · intro hall
    exact hall e.vnode _ (.reg file.inode.size file.inode.data)
      ((moved_vnodes ..).trans (if_pos rfl))
      ((withFile_inodes ..).trans (if_pos rfl))
  · intro hhere p w inode hw hwinode
    change (s.fs.withFile v.priv file).inodes w.priv = some inode at hwinode
    rw [moved_vnodes] at hw
    rw [withFile_inodes] at hwinode
    by_cases hp : p = e.vnode
    · rw [if_pos hp] at hw
      cases hw
      rw [if_pos rfl] at hwinode
      cases hwinode
      exact hhere
    rw [if_neg hp] at hw
    have hne : w.priv ≠ v.priv := by
      intro heq
      refine hp (hlinks.tables.ids p e.vnode w v hw hvnode ?_)
      rw [hlinks.ids p w hw, hlinks.ids _ v hvnode, heq]
    rw [if_neg hne] at hwinode
    exact h p w inode hw hwinode

/-- Only a write can set the sizes apart. -/
lemma SizesMeet.effect {R : Nat → Nat → Prop} (hrefl : ∀ n, R n n)
    (hlinks : LinkInv s) (h : SizesMeet R s) (hwrites : ∀ {fd data n e v size radix file ret},
    req = .reqWrite fd data → s.slot badge fd = some n →
    s.entrys n = some e → s.vnodes e.vnode = some v → s.fs.inodes v.priv = some (.reg size radix) →
    tmpfsWrite s.fs v.priv e.offset data = .ok (s.fs.withFile v.priv file, ret) →
    R (max v.size (addOffset e.offset ret)) file.inode.size)
    (heffect : TmpfsEffect env s badge req s' reply) : SizesMeet R s' := by
  cases heffect with
  | keeps hevent => exact h
  | makes hreq hmake =>
    intro p v inode' hv hinode'
    obtain ⟨inode, hinode, -⟩ := hlinks.inode p v hv
    obtain ⟨inode1, hinode1, hsame⟩ := (makePath_keeps hlinks.dirs hmake).2.kept _ inode hinode
    rw [show _ = some inode' from hinode'] at hinode1
    cases hinode1
    rw [hsame.size]
    exact h p v inode hv hinode
  | removes hreq hremove =>
    intro p v inode' hv hinode'
    rcases tmpfsUnlink_cases hlinks.dirs hremove with rfl | ⟨a, hfrees⟩
    · exact h p v inode' hv hinode'
    obtain ⟨inode, hinode, hsame⟩ := hfrees.old _ inode' hinode'
    rw [hsame.size]
    exact h p v inode hv hinode
  | opens hopened =>
    obtain ⟨hfs, a, inode, -, hinode, hvnodes, -⟩ := hopened.vnodes
    intro p v' inode' hv' hinode'
    rw [hfs] at hinode'
    rcases hvnodes p v' hv' with ⟨v, hv, -, -, hsize, hpriv⟩ | ⟨-, rfl⟩
    · rw [hpriv] at hinode'
      rw [hsize]
      exact h p v inode' hv hinode'
    rw [show s.fs.inodes a = some inode' from hinode'] at hinode
    cases hinode
    exact hrefl _
  | @moves _ _ _ _ e v offset hfd hget hn hentry hvnode hevent =>
    intro p w inode hw hinode
    rw [moved_vnodes] at hw
    by_cases hp : p = e.vnode
    · rw [if_pos hp] at hw
      cases hw
      exact h p v inode (hp ▸ hvnode) hinode
    · rw [if_neg hp] at hw
      exact h p w inode hw hinode
  | @writes fd data n e v fs ret hget hn hentry hvnode hdata hwrite =>
    obtain ⟨inode, hinode, -⟩ := hlinks.inode _ v hvnode
    obtain ⟨size, radix, file, k, rfl, -, -, rfl⟩ := tmpfsWrite_eq_ok hlinks.dirs hinode hwrite
    exact (sizesMeet_written hlinks h hvnode ..).2 (hwrites rfl
      (getServerEntry_eq_slot.1 hget) hentry hvnode hinode hwrite)
  | @closes fd n e v hget hn hentry hvnode =>
    intro p w' inode hw' hinode
    obtain ⟨w, hw, -, -, hsize, hpriv⟩ := closed_vnodes hvnode hw'
    rw [closed_fs, hpriv] at hinode
    rw [hsize]
    exact h p w inode hw hinode

variable {data : List UInt8} {size bound : Nat}

/-- The two sizes after a write agree if it was made at offset 0 or inside. -/
lemma SizeInv.written_iff (h : SizeInv bound s) {radix : Radix} {file : TmpFile}
    (hvnode : s.vnodes e.vnode = some v) (hdata : 536 + data.length ≤ msgRoom)
    (hwritten : FileWritten s.fs v.priv e.offset data size radix file) :
    max v.size (addOffset e.offset data.length) = file.inode.size ↔
    e.offset = 0 ∨ e.offset + data.length ≤ v.size := by
  have hagree : v.size = size := h.size _ v _ hvnode hwritten.inode
  have hbound : size ≤ bound := h.files.bound _ _ hwritten.inode
  have hlimit := h.limit
  have hoffset := hwritten.inside
  have hend : addOffset e.offset data.length = e.offset + data.length := by
    apply addOffset_of_lt
    unfold msgRoom at hdata
    omega
  rw [hend, hwritten.grown]
  omega

/-- Every request within the condition keeps the sizes in agreement. -/
lemma SizeInv.effect (h : SizeInv bound s) (hfits : req.Fits)
    (hclosed : ∀ path, req.Removes path → RemovesClosed s path)
    (hinside : ∀ w ∈ req.write?, ∀ x ∈ s.opened badge w.1, WritesInside x.1 x.2 w.2)
    (heffect : TmpfsEffect env s badge req s' reply) : SizeInv bound s' := by
  refine ⟨h.links.effect heffect hclosed, FilesOk.effect h.links h.files h.room h.limit hfits heffect,
    h.size.effect (fun _ => rfl) h.links ?_ heffect, h.room, h.limit⟩
  intro fd data n e v size radix file ret hreq hslot hentry hvnode hinode hwrite
  subst hreq
  obtain ⟨rfl, size', radix', file', hwritten, hfile⟩ :=
    tmpfsWrite_written h.links.dirs h.files h.limit hfits hinode hwrite
  rw [withFile_size hfile]
  refine (h.written_iff hvnode hfits hwritten).2 ?_
  have hagree : v.size = size' := h.size _ v _ hvnode hwritten.inode
  have hoffset := hwritten.inside
  obtain ⟨inode, hinode', htype⟩ := h.links.inode _ v hvnode
  rw [hinode] at hinode'
  cases hinode'
  rcases hinside (fd, data) rfl (e, v) (opened_eq_some.2 ⟨n, hslot, hentry, hvnode⟩) with
    hother | hzero | hin | hafter
  · exact absurd htype hother
  · exact .inl hzero
  · exact .inr hin
  dsimp only at hafter
  omega

/-- A write inside a regular file returns, with the effect of `TmpfsEffect`. -/
lemma dispatch_write {n : Nat} {fs : Tmpfs} {ret : Int}
    (hmounted : s.mounted = true) (hslot : s.slot badge fd = some n)
    (hn : n < maxServerEntryNum) (hentry : s.entrys n = some e)
    (hvnode : s.vnodes e.vnode = some v) (hdata : data.length ≠ 0)
    (hwrite : tmpfsWrite s.fs v.priv e.offset data = .ok (fs, ret)) :
    fsServerDispatch tmpfsOps env s badge (.reqWrite fd data) =
    .ok (s.moved fs n e (addOffset e.offset ret) v
    (max v.size (addOffset e.offset ret)), { ret }) := by
  have hat : s.entryAt (n : Nat) = .ok e := entryAt_eq_ok.2 ⟨n, rfl, hn, hentry⟩
  have hrun : fsWrapperWrite tmpfsOps s n data = if addOffset e.offset ret > v.size then
        .ok (({ s with fs }.setEntry n (some { e with
          offset := addOffset e.offset ret })).setVnode e.vnode
            (some { v with size := addOffset e.offset ret }), { ret })
      else .ok ({ s with fs }.setEntry n (some { e with
          offset := addOffset e.offset ret }), { ret }) := by
    unfold fsWrapperWrite
    rw [hat, wrap_ok_bind, vnodeAt_eq_ok.2 hvnode, wrap_ok_bind, if_neg hdata,
      show tmpfsOps.opWrite s.fs v.priv e.offset data = .ok (fs, ret) from hwrite]
    rfl
  rw [dispatch_at_slot hmounted rfl hslot]
  show fsWrapperWrite tmpfsOps s n data = _
  rw [hrun]
  by_cases hgrow : addOffset e.offset ret > v.size
  · rw [if_pos hgrow, max_eq_right (by omega)]
    rfl
  · rw [if_neg hgrow, max_eq_left (by omega), FsServer.moved_setEntry fs _ hvnode]

lemma file_of_reg {st : Tmpfs} {a : Nat} {radix : Radix}
    (ha : st.inodes a = some (.reg size radix)) :
    st.file a = .ok ⟨⟨.reg, size, radix⟩, st.pages⟩ := by
  unfold Tmpfs.file
  rw [ha]

/-- `tmpfs_write` inside a regular file returns. -/
lemma tmpfsWrite_returns (hdirs : DirInv s.fs) (hfiles : FilesOk bound s.fs)
    (hlimit : bound < 2 ^ 63) {a offset : Nat} {radix : Radix}
    (ha : s.fs.inodes a = some (.reg size radix)) (hoffset : offset ≤ size)
    (hdata : 536 + data.length ≤ msgRoom) :
    ∃ file, FileWritten s.fs a offset data size radix file ∧ tmpfsWrite s.fs a offset data =
    .ok (s.fs.withFile a file, data.length) := by
  obtain ⟨file, hwritten⟩ := tfsFileWrite_inside hfiles hlimit ha hoffset hdata
  refine ⟨file, hwritten, ?_⟩
  have hne := hdirs.ne_zero ha
  have hwrite : tmpfsWrite s.fs a offset data = .ok (s.fs.withFile a file, toInt data.length) := by
    unfold tmpfsWrite
    rw [if_neg hne, file_of_reg ha, ok_bind, hwritten.run, ok_bind]
    rfl
  rw [hwrite, toInt_of_lt]
  unfold msgRoom at hdata
  omega

/-- A request keeps the sizes in agreement exactly under the condition. -/
lemma SizeInv.cachedSizes_iff (h : SizeInv bound s) (c : FsCall) (hfits : c.req.Fits) :
    (∀ s', fsStep tmpfsOps s c = .ok s' → CachedSizes s') ↔ SizeAllowed s c := by
  constructor
  · intro hkeeps
    by_contra hnot
    rcases Classical.not_and_iff_not_or_not.1 hnot with hremoves | hwrites
    · -- an inode that is open has gone
      obtain ⟨fs, a, hstep, hrefers, hgone⟩ := h.links.frees_open hremoves
      obtain ⟨p, v, hv, rfl⟩ := (refersTo_iff h.links.tables).1 hrefers
      obtain ⟨i, hi⟩ := h.links.tables.used p v hv
      obtain ⟨-, e, he, rfl⟩ := mem_users.1 hi
      obtain ⟨inode, hinode, -⟩ := hkeeps _ hstep i e v he hv
      rw [show fs.inodes v.priv = some inode from hinode] at hgone
      cases hgone
    -- a write after offset 0 has gone past the end
    obtain ⟨badge, req, env⟩ := c
    obtain ⟨w, hwrites⟩ := not_forall.1 hwrites
    obtain ⟨hw, hwrites⟩ := Classical.not_imp.1 hwrites
    obtain ⟨x, hwrites⟩ := not_forall.1 hwrites
    obtain ⟨hx, hout⟩ := Classical.not_imp.1 hwrites
    obtain ⟨fd, data⟩ := w
    have hreq : req = .reqWrite fd data := by
      cases req with
      | reqWrite fd' data' =>
        cases hw
        rfl
      | _ => cases hw
    subst hreq
    obtain ⟨n, hslot, hentry, hvnode⟩ := opened_eq_some.1 hx
    obtain ⟨e, v⟩ := x
    unfold WritesInside at hout
    simp only [not_or, not_not, not_lt, not_le] at hout
    obtain ⟨htype, hpos, hlong, hoffset⟩ := hout
    obtain ⟨inode, hinode, htype'⟩ := h.links.inode _ v hvnode
    cases inode with
    | dir size ht =>
      rw [htype] at htype'
      cases htype'
    | reg size radix =>
      have hagree : v.size = size := h.size _ v _ hvnode hinode
      obtain ⟨file, hwritten, hwrite⟩ := tmpfsWrite_returns h.links.dirs
        h.files h.limit hinode (hagree ▸ hoffset) hfits
      have hstep : fsStep tmpfsOps s ⟨badge, .reqWrite fd data, env⟩ =
          .ok (s.moved (s.fs.withFile v.priv file) n e (addOffset e.offset data.length) v
            (max v.size (addOffset e.offset data.length))) := by
        unfold fsStep
        dsimp only
        rw [dispatch_write h.links.mounted hslot
          (h.links.tables.bound n e hentry) hentry hvnode (by omega) hwrite]
        rfl
      have hsizes := hkeeps _ hstep
      have hmeet := (sizesMeet_written h.links h.size hvnode ..).1 (by
        intro p w inode hw hwinode
        obtain ⟨inode', hinode', -, hsize⟩ := hsizes.vnodes
          (h.links.tables.moved _ _ _ hentry hvnode) hw
        rw [hinode'] at hwinode
        cases hwinode
        exact hsize)
      rcases (h.written_iff hvnode hfits hwritten).1 hmeet with hzero | hin
      · exact hpos hzero
      · exact absurd hin (Nat.not_le.2 hlong)
  · rintro ⟨hclosed, hinside⟩ s' hstep
    obtain ⟨reply, hrun⟩ := fsStep_eq_ok hstep
    exact (h.effect hfits (fun path hreq => (removeAllowed_iff hreq).1 hclosed)
      hinside (tmpfs_effect h.links.tables hrun)).cachedSizes

lemma SizeInv.step {c : FsCall} (h : SizeInv bound s) (hallowed : c.req.Fits ∧ SizeAllowed s c)
    (hstep : fsStep tmpfsOps s c = .ok s') : SizeInv bound s' := by
  obtain ⟨reply, hrun⟩ := fsStep_eq_ok hstep
  exact h.effect hallowed.1 (fun path hreq => (removeAllowed_iff hreq).1 hallowed.2.1) hallowed.2.2
    (tmpfs_effect h.links.tables hrun)

/-- `tmpfs_read` delivers what there is. -/
lemma tmpfsRead_count {st st' : Tmpfs} (hdirs : DirInv st) {a offset : Nat}
    {inode : TmpInode} {ret : Int} (ha : st.inodes a = some inode)
    (hsize : inode.size < 2 ^ 64) (hlt : offset + size < 2 ^ 64)
    (hrun : tmpfsRead st a offset size = .ok (st', ret, data)) :
    ret = toInt data.length ∧ data.length = min size (inode.size - offset) := by
  have hne := hdirs.ne_zero ha
  unfold tmpfsRead at hrun
  rw [if_neg hne] at hrun
  obtain ⟨file, hfile, hrest⟩ := bind_eq_ok.1 hrun
  obtain ⟨⟨buff, n⟩, hread, hrest⟩ := bind_eq_ok.1 hrest
  obtain ⟨-, hret, hdata⟩ : _ ∧ toInt n = ret ∧ (List.range n).map buff = data := by
    simpa only [Prod.mk.injEq] using Except.ok.inj hrest
  unfold Tmpfs.file at hfile
  rw [ha] at hfile
  have hinode : file.inode.size = inode.size := by
    cases inode with
    | reg size' radix =>
      cases hfile
      rfl
    | dir size' ht =>
      cases hfile
      rfl
  rw [← hdata, ← hret, List.length_map, List.length_range, ← hinode]
  exact ⟨rfl, tfsFileRead_count (hinode ▸ hsize) hlt hread⟩

/-- A read that does not wrap around ends at the end of the file. -/
lemma SizeInv.read_bounded (h : SizeInv bound s) {count : Nat}
    {x : ServerEntry × FsVnode} (hx : x ∈ s.opened badge fd) (hcount : x.1.offset + count < 2 ^ 64)
    (hrun : fsServerDispatch tmpfsOps env s badge (.reqRead fd count) = .ok (s', reply)) :
    ∃ inode, s.fs.inodes x.2.priv = some inode ∧ reply.ret = reply.data.length ∧
    reply.data.length = min count (inode.size - x.1.offset) := by
  obtain ⟨e, v⟩ := x
  obtain ⟨n, hslot, hentry, hvnode⟩ := opened_eq_some.1 hx
  obtain ⟨inode, hinode, -⟩ := h.links.inode _ v hvnode
  have hagree : v.size = inode.size := h.size _ v inode hvnode hinode
  have hbound : inode.size ≤ bound := h.files.bound _ inode hinode
  have hlimit := h.limit
  refine ⟨inode, hinode, ?_⟩
  rw [dispatch_at_slot h.links.mounted rfl hslot] at hrun
  change fsWrapperRead tmpfsOps s n count = _ at hrun
  unfold fsWrapperRead at hrun
  rw [entryAt_eq_ok.2 ⟨n, rfl, h.links.tables.bound n e hentry, hentry⟩,
    wrap_ok_bind, vnodeAt_eq_ok.2 hvnode, wrap_ok_bind] at hrun
  dsimp only at hcount ⊢
  by_cases hend : e.offset ≥ v.size
  · rw [if_pos hend] at hrun
    cases hrun
    refine ⟨rfl, ?_⟩
    show 0 = _
    omega
  rw [if_neg hend, u64_of_lt hcount] at hrun
  -- the wrapper cuts the read to the size of the vnode
  have hcut : (if e.offset + count > v.size then v.size - e.offset
      else count) = min count (inode.size - e.offset) := by
    split
    · omega
    · omega
  rw [hcut] at hrun
  obtain ⟨⟨fs, ret, data⟩, hserver, hrest⟩ := wrap_bind_eq_ok.1 hrun
  obtain ⟨hroom, hrest⟩ := guard_eq_ok hrest
  cases hrest
  obtain ⟨hret, hdata⟩ := tmpfsRead_count h.links.dirs hinode (by omega)
    (show e.offset + _ < 2 ^ 64 by omega) (server_eq_ok.1 hserver)
  rw [Nat.min_assoc, Nat.min_self] at hdata
  refine ⟨?_, hdata⟩
  show ret = data.length
  unfold msgRoom at hroom
  rw [hret, toInt_of_lt (by omega)]

end

/-- **The cached sizes are right** in every state that requests under the
condition reach, from any tree with files of any sizes; the next request keeps
them right exactly if it is under the condition, and a read that fits into the
message ends where the file ends. -/
theorem cached_sizes_agree {fs : Tmpfs} {bound : Nat} (hdirs : DirInv fs) (hfiles : FilesOk bound fs)
    (hlimit : bound < 2 ^ 63) (calls : List FsCall) (s : FsServer Tmpfs)
    (hfits : ∀ c ∈ calls, c.req.Fits)
    (hadm : Admissible (fsStep tmpfsOps) SizeAllowed (initFsWrapper fs true) calls)
    (hrun : run (fsStep tmpfsOps) (initFsWrapper fs true) calls = .ok s) :
    CachedSizes s ∧
    (∀ c, c.req.Fits → ((∀ s', fsStep tmpfsOps s c = .ok s' → CachedSizes s') ↔ SizeAllowed s c)) ∧
    ∀ env badge fd count s' reply, ∀ x ∈ s.opened badge fd, x.1.offset + count < 2 ^ 64 →
      fsServerDispatch tmpfsOps env s badge (.reqRead fd count) = .ok (s', reply) →
      ∃ inode, s.fs.inodes x.2.priv = some inode ∧ reply.ret = reply.data.length ∧
        reply.data.length = min count (inode.size - x.1.offset) := by
  have hstart : SizeInv (max bound msgRoom) (initFsWrapper fs true) :=
    .init hdirs (hfiles.mono (le_max_left _ _)) (le_max_right _ _) (max_lt hlimit (by decide))
  have hinv : SizeInv (max bound msgRoom) s :=
    run_preserves_of_admissible (fun _ _ _ hinv hall hstep => hinv.step hall hstep)
      calls _ s hstart (hadm.with_requests hfits) hrun
  exact ⟨hinv.cachedSizes, hinv.cachedSizes_iff,
    fun _ _ _ _ _ _ _ hx hcount hread => hinv.read_bounded hx hcount hread⟩

/-- A file is made, opened and written twice, at the beginning and inside. -/
def writeInside : List FsCall := [{ badge := 7, req := .reqCreat (bytes ['/', 'a']) },
    { badge := 7, req := .reqOpen 0 (bytes ['/', 'a']) 0 0 },
    { badge := 7, req := .reqWrite 0 [1, 2, 3] },
    { badge := 7, req := .reqLseek 0 1 0 },
    { badge := 7, req := .reqWrite 0 [4, 5] }]

theorem cached_sizes_agree_write_inside : ∃ s,
    run (fsStep tmpfsOps) (tmpfsServer fun _ => 0) writeInside = .ok s ∧
    (s.opened 7 0).map (fun x => (x.2.type, x.2.size)) = some (.reg, 3) ∧
    CachedSizes s := by
  refine exists_ok_imp (p := fun s => (s.opened 7 0).map (fun x => (x.2.type, x.2.size)) =
      some (.reg, 3)) (by decide +kernel) fun s hrun hsize => ?_
  exact ⟨hsize, (cached_sizes_agree (DirInv.init fun _ => 0) (FilesOk.init _ 0) (by decide)
    writeInside s (by decide +kernel) (by decide +kernel) hrun).1⟩

/-- A file is made, opened and written twice, one write after the other. -/
def writeAfter : List FsCall := [{ badge := 7, req := .reqCreat (bytes ['/', 'a']) },
    { badge := 7, req := .reqOpen 0 (bytes ['/', 'a']) 0 0 },
    { badge := 7, req := .reqWrite 0 [1, 2] },
    { badge := 7, req := .reqWrite 0 [3, 4] }]

/-- The vnode then has four bytes and the inode two. -/
theorem append_splits_sizes : ∃ s,
    run (fsStep tmpfsOps) (tmpfsServer fun _ => 0) writeAfter = .ok s ∧
    ∃ x ∈ s.opened 7 0, x.2.type = .reg ∧ x.2.size = 4 ∧
      (s.fs.inodes x.2.priv).map TmpInode.size = some 2 := by decide +kernel

end ChCore.Userland
