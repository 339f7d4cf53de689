import ChCore.Userland.TmpfsDir
import ChCore.Lib.Runs
import ChCore.Lib.Heaps
import Mathlib.Data.Finset.Card

/-!
# The tables of a file-system server

What a request does to the tables of the wrapper is said once, as
`DispatchEffect`: it leaves them alone, makes an entry, moves the offset of an
entry, or frees an entry. The relation between entries and vnodes is then an
invariant of every run, for every file system.
-/

namespace ChCore.Userland

open Function List Option FsServer
open Kernel (Exec guard_eq_ok)
open Lib.Runs Lib.Heaps

variable {σ : Type} {ops : FsServerOps σ}

/-! ## Lookups -/

variable {s : FsServer σ} {fid : Int} {e : ServerEntry}

lemma entryAt_eq_ok : s.entryAt fid = .ok e ↔
    ∃ n : Nat, fid = n ∧ n < maxServerEntryNum ∧ s.entrys n = some e := by
  unfold entryAt
  by_cases hrange : fid < 0 ∨ fid ≥ maxServerEntryNum
  · rw [if_pos hrange]
    constructor
    · intro h
      cases h
    · rintro ⟨n, rfl, hn, -⟩
      omega
  rw [if_neg hrange]
  obtain ⟨n, rfl⟩ := Int.eq_ofNat_of_zero_le (show 0 ≤ fid by omega)
  rw [Int.toNat_natCast]
  constructor
  · intro h
    cases he : s.entrys n with
    | none =>
      rw [he] at h
      cases h
    | some e' =>
      rw [he] at h
      cases h
      exact ⟨n, rfl, by omega, he⟩
  · rintro ⟨m, hm, -, he⟩
    obtain rfl : n = m := by omega
    rw [he]

variable {p : Nat} {v : FsVnode}

lemma vnodeAt_eq_ok : s.vnodeAt p = .ok v ↔ s.vnodes p = some v := by
  unfold vnodeAt
  cases s.vnodes p with
  | none | some w => simp

/-! ## Effects -/

/-- The descriptor of a request that `translate_fd_to_fid` translates. -/
def FsRequest.fd? : FsRequest → Option Int
  | .reqClose fd => some fd
  | .reqRead fd _ => some fd
  | .reqWrite fd _ => some fd
  | .reqLseek fd _ _ => some fd
  | .reqGetdents64 fd _ => some fd
  | _ => none

/-- The entry `fid` gets a new offset, and its vnode a new size. -/
def FsServer.moved (s : FsServer σ) (fs : σ) (fid : Nat) (e : ServerEntry)
    (offset : Nat) (v : FsVnode) (size : Nat) : FsServer σ :=
  ({ s with fs }.setEntry fid (some { e with offset })).setVnode e.vnode (some { v with size })

/-- The entry `fid` is freed, and its vnode loses a reference. -/
def FsServer.closed (s : FsServer σ) (fs : σ) (fid : Nat) (e : ServerEntry)
    (v : FsVnode) : FsServer σ :=
  let s := (freeEntry { s with fs } fid).setVnode e.vnode (some { v with refcnt := v.refcnt - 1 })
  if v.refcnt - 1 = 0 then popFreeFsVnode s e.vnode else s

/-- A handler used the entry at the position `fid`. -/
inductive EntryMoved (s : FsServer σ) (fid : Int) : FsServer σ → Prop
  | mk {n : Nat} {e : ServerEntry} {v : FsVnode} (fs : σ) (offset size : Nat)
    (hfid : fid = n) (hn : n < maxServerEntryNum)
    (hentry : s.entrys n = some e) (hvnode : s.vnodes e.vnode = some v) :
    EntryMoved s fid (s.moved fs n e offset v size)

lemma FsServer.moved_setEntry {fid : Nat} (fs : σ) (offset : Nat)
    (hvnode : s.vnodes e.vnode = some v) : s.moved fs fid e offset v v.size =
    { s with fs }.setEntry fid (some { e with offset }) := by
  unfold moved setEntry setVnode
  dsimp only
  rw [← hvnode, update_eq_self]

/-- Only the offset of the entry changes. -/
lemma EntryMoved.offset (fs : σ) (offset : Nat) (hat : s.entryAt fid = .ok e)
    (hvnode : s.vnodes e.vnode = some v) :
    EntryMoved s fid ({ s with fs }.setEntry fid.toNat (some { e with offset })) := by
  obtain ⟨n, rfl, hn, hentry⟩ := entryAt_eq_ok.1 hat
  have hmoved := EntryMoved.mk fs offset v.size rfl hn hentry hvnode
  rwa [moved_setEntry fs offset hvnode] at hmoved

/-- Nothing changes. -/
lemma EntryMoved.refl (hat : s.entryAt fid = .ok e)
    (hvnode : s.vnodes e.vnode = some v) : EntryMoved s fid s := by
  have hmoved := EntryMoved.offset s.fs e.offset hat hvnode
  obtain ⟨n, rfl, -, hentry⟩ := entryAt_eq_ok.1 hat
  rwa [setEntry, Int.toNat_natCast, ← hentry, update_eq_self] at hmoved

/-- The entry and the vnode that a handler works on. -/
lemma entry_eq_ok {α : Type} {f : ServerEntry → FsVnode → Wrap α} {x : α}
    (h : (s.entryAt fid >>= fun e => s.vnodeAt e.vnode >>= f e) = .ok x) :
    ∃ e v, s.entryAt fid = .ok e ∧ s.vnodes e.vnode = some v ∧ f e v = .ok x := by
  obtain ⟨e, hat, hrest⟩ := wrap_bind_eq_ok.1 h
  obtain ⟨v, hvnode, hrest⟩ := wrap_bind_eq_ok.1 hrest
  exact ⟨e, v, hat, vnodeAt_eq_ok.1 hvnode, hrest⟩

variable {s' : FsServer σ} {reply : Reply}

lemma fsWrapperRead_moved {count : Nat} (hrun : fsWrapperRead ops s fid count = .ok (s', reply)) :
    EntryMoved s fid s' ∧ reply.event = none := by
  obtain ⟨e, v, hat, hvnode, hrest⟩ := entry_eq_ok hrun
  by_cases hend : e.offset ≥ v.size
  · rw [if_pos hend] at hrest
    cases hrest
    exact ⟨.refl hat hvnode, rfl⟩
  rw [if_neg hend] at hrest
  obtain ⟨⟨fs, ret, data⟩, -, hrest⟩ := wrap_bind_eq_ok.1 hrest
  obtain ⟨-, hrest⟩ := guard_eq_ok hrest
  cases hrest
  exact ⟨.offset fs _ hat hvnode, rfl⟩

lemma fsWrapperWrite_moved {data : List UInt8}
    (hrun : fsWrapperWrite ops s fid data = .ok (s', reply)) :
    EntryMoved s fid s' ∧ reply.event = none := by
  obtain ⟨e, v, hat, hvnode, hrest⟩ := entry_eq_ok hrun
  by_cases hempty : data.length = 0
  · rw [if_pos hempty] at hrest
    cases hrest
    exact ⟨.refl hat hvnode, rfl⟩
  rw [if_neg hempty] at hrest
  obtain ⟨⟨fs, ret⟩, -, hrest⟩ := wrap_bind_eq_ok.1 hrest
  dsimp only at hrest
  by_cases hgrow : addOffset e.offset ret > v.size
  · rw [if_pos hgrow] at hrest
    cases hrest
    obtain ⟨n, rfl, hn, hentry⟩ := entryAt_eq_ok.1 hat
    exact ⟨.mk fs _ _ rfl hn hentry hvnode, rfl⟩
  · rw [if_neg hgrow] at hrest
    cases hrest
    exact ⟨.offset fs _ hat hvnode, rfl⟩

lemma fsWrapperLseek_moved {offset : Nat} {whence : Int}
    (halive : ∀ n e, s.entrys n = some e → ∃ v, s.vnodes e.vnode = some v)
    (hrun : fsWrapperLseek s fid offset whence = .ok (s', reply)) :
    EntryMoved s fid s' ∧ reply.event = none := by
  obtain ⟨target, -, hrest⟩ := wrap_bind_eq_ok.1 hrun
  obtain ⟨e, hat, hrest⟩ := wrap_bind_eq_ok.1 hrest
  obtain ⟨n, -, -, hentry⟩ := entryAt_eq_ok.1 hat
  obtain ⟨v, hvnode⟩ := halive n e hentry
  cases hrest
  exact ⟨.offset s.fs target hat hvnode, rfl⟩

lemma fsWrapperGetdents64_moved {count : Nat}
    (hrun : fsWrapperGetdents64 ops s fid count = .ok (s', reply)) :
    EntryMoved s fid s' ∧ reply.event = none := by
  obtain ⟨e, v, hat, hvnode, hrest⟩ := entry_eq_ok hrun
  obtain ⟨⟨fs, move, ret, data⟩, -, hrest⟩ := wrap_bind_eq_ok.1 hrest
  obtain ⟨-, hrest⟩ := guard_eq_ok hrest
  cases hrest
  exact ⟨.offset fs _ hat hvnode, rfl⟩

/-- `fs_wrapper_close` frees the entry, or leaves the tables alone. -/
lemma fsWrapperClose_cases (hrun : fsWrapperClose ops s fid = .ok (s', reply)) :
    (∃ fs, s' = { s with fs } ∧ reply.event = none) ∨
    ∃ (n : Nat) (e : ServerEntry) (v : FsVnode) (fs : σ), fid = n ∧
    n < maxServerEntryNum ∧ s.entrys n = some e ∧
    s.vnodes e.vnode = some v ∧ s' = s.closed fs n e v ∧
    reply = { ret := 0, event := some (.closed n) } := by
  obtain ⟨notFile, hfile, hrest⟩ := wrap_bind_eq_ok.1 hrun
  obtain ⟨notDir, hdir, hrest⟩ := wrap_bind_eq_ok.1 hrest
  by_cases hinvalid : (notFile && notDir) = true
  · rw [if_pos hinvalid] at hrest
    cases hrest
    exact .inl ⟨s.fs, rfl, rfl⟩
  rw [if_neg hinvalid] at hrest
  obtain ⟨e, v, hat, hvnode, hrest⟩ := entry_eq_ok hrest
  obtain ⟨⟨fs, ret⟩, -, hrest⟩ := wrap_bind_eq_ok.1 hrest
  obtain ⟨n, rfl, hn, hentry⟩ := entryAt_eq_ok.1 hat
  dsimp only at hrest
  by_cases hret : ret ≠ 0
  · rw [if_pos hret] at hrest
    cases hrest
    exact .inl ⟨fs, rfl, rfl⟩
  rw [if_neg hret] at hrest
  obtain ⟨hneg, hrest⟩ := guard_eq_ok hrest
  cases hrest
  exact .inr ⟨n, e, v, fs, rfl, hn, hentry, hvnode, rfl, rfl⟩

/-- The vnode of an open is new, or it was found and is shared. -/
lemma vnodeForOpen_cases {r : OpenResult} {s1 : FsServer σ} {vnode : Nat}
    (h : vnodeForOpen s r = .ok (s1, vnode)) :
    (getFsVnodeById s r.vnodeId = none ∧ vnode = s.vnodeCount ∧
    s1 = allocFsVnode s ⟨r.vnodeId, r.vnodeType, 1, r.vnodeSize, r.vnodePrivate⟩) ∨
    ∃ v, getFsVnodeById s r.vnodeId = some vnode ∧ s.vnodes vnode = some v ∧
    s1 = s.setVnode vnode (some { v with refcnt := v.refcnt + 1 }) := by
  unfold vnodeForOpen at h
  cases hfind : getFsVnodeById s r.vnodeId with
  | none =>
    rw [hfind] at h
    cases h
    exact .inl ⟨rfl, rfl, rfl⟩
  | some p =>
    rw [hfind] at h
    obtain ⟨v, hv, h⟩ := wrap_bind_eq_ok.1 h
    cases h
    exact .inr ⟨v, rfl, vnodeAt_eq_ok.1 hv, rfl⟩

/-- The tables after an open that got the position `fid`. -/
structure EntryOpened (ops : FsServerOps σ) (env : OpenEnv) (s : FsServer σ)
    (badge : Nat) (newFd : Int) (path : List UInt8) (flags : Int) (mode : Nat)
    (fid : Nat) (s' : FsServer σ) : Prop where
  free : allocEntry s env.mallocOk = some fid
  opened : ∃ fs r s1 vnode, ops.opOpen s.fs path flags mode = .ok (fs, r) ∧
    r.ret = 0 ∧ vnodeForOpen { s with fs } r = .ok (s1, vnode) ∧
    fsWrapperSetServerEntry (s1.setEntry fid (some ⟨env.entryOff, vnode⟩)) badge newFd fid = .ok s'

variable {env : OpenEnv} {badge mode : Nat} {newFd flags : Int}
  {path : List UInt8}

/-- `fs_wrapper_open` makes an entry, or leaves the tables alone. -/
lemma fsWrapperOpen_cases
    (hrun : fsWrapperOpen ops env s badge newFd path flags mode = .ok (s', reply)) :
    (∃ fs, s' = { s with fs } ∧ reply.event = none) ∨
    ∃ fid, EntryOpened ops env s badge newFd path flags mode fid s' ∧
    reply = { ret := newFd, event := some (.opened fid) } := by
  obtain ⟨⟨fs, r⟩, hopen, hrest⟩ := wrap_bind_eq_ok.1 hrun
  rw [server_eq_ok] at hopen
  dsimp only at hrest
  by_cases hret : r.ret ≠ 0
  · rw [if_pos hret] at hrest
    cases hrest
    exact .inl ⟨fs, rfl, rfl⟩
  rw [if_neg hret] at hrest
  cases halloc : allocEntry s env.mallocOk with
  | none =>
    rw [show allocEntry { s with fs } env.mallocOk = none from halloc] at hrest
    obtain ⟨⟨fs', ret⟩, -, hrest⟩ := wrap_bind_eq_ok.1 hrest
    cases hrest
    exact .inl ⟨fs', rfl, rfl⟩
  | some fid =>
    rw [show allocEntry { s with fs } env.mallocOk = some fid from halloc] at hrest
    obtain ⟨⟨s1, vnode⟩, hvnode, hrest⟩ := wrap_bind_eq_ok.1 hrest
    obtain ⟨s2, hset, hrest⟩ := wrap_bind_eq_ok.1 hrest
    cases hrest
    exact .inr ⟨fid, ⟨halloc, fs, r, s1, vnode, hopen, not_not.1 hret, hvnode, hset⟩, rfl⟩

/-- What a request does to the tables. -/
inductive DispatchEffect (ops : FsServerOps σ) (env : OpenEnv)
    (s : FsServer σ) (badge : Nat) : FsRequest → FsServer σ → Reply → Prop
  | keeps {req : FsRequest} {reply : Reply} (fs : σ)
    (hevent : reply.event = none) :
    DispatchEffect ops env s badge req { s with fs } reply
  | opens {newFd : Int} {path : List UInt8} {flags : Int} {mode fid : Nat}
    {s' : FsServer σ}
    (hopened : EntryOpened ops env s badge newFd path flags mode fid s') :
    DispatchEffect ops env s badge (.reqOpen newFd path flags mode) s'
      { ret := newFd, event := some (.opened fid) }
  | moves {req : FsRequest} {reply : Reply} {fd fid : Int} {s' : FsServer σ}
    (hfd : req.fd? = some fd)
    (hget : fsWrapperGetServerEntry s badge fd = .ok fid)
    (hmoved : EntryMoved s fid s') (hevent : reply.event = none) :
    DispatchEffect ops env s badge req s' reply
  | closes {fd : Int} {n : Nat} {e : ServerEntry} {v : FsVnode} (fs : σ)
    (hget : fsWrapperGetServerEntry s badge fd = .ok n)
    (hn : n < maxServerEntryNum) (hentry : s.entrys n = some e)
    (hvnode : s.vnodes e.vnode = some v) :
    DispatchEffect ops env s badge (.reqClose fd) (s.closed fs n e v)
      { ret := 0, event := some (.closed n) }

lemma passPath_keeps {x : Exec (σ × Int)} (hrun : passPath s x = .ok (s', reply)) :
    ∃ fs, s' = { s with fs } ∧ reply.event = none := by
  obtain ⟨⟨fs, ret⟩, -, hrest⟩ := wrap_bind_eq_ok.1 hrun
  cases hrest
  exact ⟨fs, rfl, rfl⟩

variable {req : FsRequest}

/-- Every request that returns has one of the effects. -/
lemma dispatch_effect (halive : ∀ n e, s.entrys n = some e → ∃ v, s.vnodes e.vnode = some v)
    (hrun : fsServerDispatch ops env s badge req = .ok (s', reply)) :
    DispatchEffect ops env s badge req s' reply := by
  have hkeeps : (∃ fs, s' = { s with fs } ∧ reply.event = none) →
      DispatchEffect ops env s badge req s' reply := by
    rintro ⟨fs, rfl, hevent⟩
    exact .keeps fs hevent
  unfold fsServerDispatch at hrun
  by_cases hmounted : (!s.mounted && req ≠ .reqMount) = true
  · rw [if_pos hmounted] at hrun
    cases hrun
    exact .keeps s.fs rfl
  rw [if_neg hmounted] at hrun
  obtain ⟨req', htrans, hhandle⟩ := wrap_bind_eq_ok.1 hrun
  cases req with
  | reqOpen newFd path flags mode =>
    cases htrans
    rcases fsWrapperOpen_cases hhandle with hkept | ⟨fid, hopened, rfl⟩
    · exact hkeeps hkept
    · exact .opens hopened
  | reqClose fd =>
    obtain ⟨fid, hget, htrans⟩ := wrap_bind_eq_ok.1 htrans
    cases htrans
    rcases fsWrapperClose_cases hhandle with hkept |
      ⟨n, e, v, fs, rfl, hn, hentry, hvnode, rfl, rfl⟩
    · exact hkeeps hkept
    · exact .closes fs hget hn hentry hvnode
  | reqRead fd count =>
    obtain ⟨fid, hget, htrans⟩ := wrap_bind_eq_ok.1 htrans
    cases htrans
    obtain ⟨hmoved, hevent⟩ := fsWrapperRead_moved hhandle
    exact .moves rfl hget hmoved hevent
  | reqWrite fd data =>
    obtain ⟨fid, hget, htrans⟩ := wrap_bind_eq_ok.1 htrans
    cases htrans
    obtain ⟨hmoved, hevent⟩ := fsWrapperWrite_moved hhandle
    exact .moves rfl hget hmoved hevent
  | reqLseek fd offset whence =>
    obtain ⟨fid, hget, htrans⟩ := wrap_bind_eq_ok.1 htrans
    cases htrans
    obtain ⟨hmoved, hevent⟩ := fsWrapperLseek_moved halive hhandle
    exact .moves rfl hget hmoved hevent
  | reqGetdents64 fd count =>
    obtain ⟨fid, hget, htrans⟩ := wrap_bind_eq_ok.1 htrans
    cases htrans
    obtain ⟨hmoved, hevent⟩ := fsWrapperGetdents64_moved hhandle
    exact .moves rfl hget hmoved hevent
  | reqCreat | reqMkdir | reqRmdir | reqUnlink | reqGetSize =>
    cases htrans
    exact hkeeps (passPath_keeps hhandle)
  | reqMount | reqOther =>
    cases htrans
    cases hhandle
    exact .keeps s.fs rfl

/-! ## Entries and vnodes -/

/-- The positions of the entries that point at a vnode. -/
def FsServer.users (s : FsServer σ) (vnode : Nat) : Finset Nat :=
  (Finset.range maxServerEntryNum).filter fun i =>
    (s.entrys i).any fun e => e.vnode == vnode

lemma mem_users {vnode i : Nat} : i ∈ s.users vnode ↔
    i < maxServerEntryNum ∧ ∃ e, s.entrys i = some e ∧ e.vnode = vnode := by
  unfold users
  rw [Finset.mem_filter, Finset.mem_range, Option.any_eq_true]
  simp only [beq_iff_eq]

/-- The vnodes on the list are those in memory; their counters count the
entries, and no two of them have the same id. -/
structure VnodeInv (s : FsServer σ) : Prop where
  bound : ∀ i e, s.entrys i = some e → i < maxServerEntryNum
  alive : ∀ i e, s.entrys i = some e → ∃ v, s.vnodes e.vnode = some v
  listed : ∀ p, p ∈ s.vnodeList ↔ ∃ v, s.vnodes p = some v
  nodup : s.vnodeList.Nodup
  issued : ∀ p v, s.vnodes p = some v → p < s.vnodeCount
  ids : ∀ p q v w, s.vnodes p = some v → s.vnodes q = some w → v.vnodeId = w.vnodeId → p = q
  count : ∀ p v, s.vnodes p = some v → v.refcnt = (s.users p).card
  used : ∀ p v, s.vnodes p = some v → (s.users p).Nonempty

lemma VnodeInv.init (fs : σ) (mounted : Bool) : VnodeInv (initFsWrapper fs mounted) where
  bound := by
    intro i e h
    cases h
  alive := by
    intro i e h
    cases h
  listed := by
    intro p
    constructor
    · intro h
      cases h
    · rintro ⟨v, h⟩
      cases h
  nodup := nodup_nil
  issued := by
    intro p v h
    cases h
  ids := by
    intro p q v w h
    cases h
  count := by
    intro p v h
    cases h
  used := by
    intro p v h
    cases h

/-- The tables do not depend on the state of the file system. -/
lemma VnodeInv.withFs (h : VnodeInv s) (fs : σ) : VnodeInv { s with fs } where
  bound := h.bound
  alive := h.alive
  listed := h.listed
  nodup := h.nodup
  issued := h.issued
  ids := h.ids
  count := h.count
  used := h.used

section

variable {s : FsServer σ} {n : Nat} {e : ServerEntry} {v : FsVnode}

lemma users_moved (fs : σ) (offset size : Nat) (hentry : s.entrys n = some e)
    (p : Nat) : (s.moved fs n e offset v size).users p = s.users p := by
  ext i
  rw [mem_users, mem_users]
  show _ ∧ (∃ e', update s.entrys n (some { e with offset }) i = some e' ∧ _) ↔ _
  by_cases hi : i = n
  · rw [hi, update_self, hentry]
    simp
  · rw [update_of_ne hi]

/-- A change that keeps the vnodes and their ids only has to keep what the
entries and the counters say. -/
lemma VnodeInv.sameVnodes {s' : FsServer σ} (h : VnodeInv s)
    (hlist : s'.vnodeList = s.vnodeList) (hissued : s'.vnodeCount = s.vnodeCount)
    (hids : ∀ p, (s'.vnodes p).map FsVnode.vnodeId = (s.vnodes p).map FsVnode.vnodeId)
    (hentrys : ∀ i e, s'.entrys i = some e → i < maxServerEntryNum ∧ ∃ v, s.vnodes e.vnode = some v)
    (hcounts : ∀ p v, s'.vnodes p = some v → v.refcnt = (s'.users p).card ∧ (s'.users p).Nonempty) :
    VnodeInv s' := by
  have hold : ∀ p w, s'.vnodes p = some w →
      ∃ w0, s.vnodes p = some w0 ∧ w.vnodeId = w0.vnodeId := by
    intro p w hw
    have hid := hids p
    rw [hw, map_some] at hid
    obtain ⟨w0, hw0, hsame⟩ := map_eq_some_iff.1 hid.symm
    exact ⟨w0, hw0, hsame.symm⟩
  have hnew : ∀ p w0, s.vnodes p = some w0 → ∃ w, s'.vnodes p = some w := by
    intro p w0 hw0
    have hid := hids p
    rw [hw0, map_some] at hid
    obtain ⟨w, hw, -⟩ := map_eq_some_iff.1 hid
    exact ⟨w, hw⟩
  exact {
    bound := fun i e he => (hentrys i e he).1
    alive := by
      intro i e he
      obtain ⟨-, w0, hw0⟩ := hentrys i e he
      exact hnew _ w0 hw0
    listed := by
      intro p
      rw [hlist, h.listed p]
      constructor
      · rintro ⟨w0, hw0⟩
        exact hnew p w0 hw0
      · rintro ⟨w, hw⟩
        obtain ⟨w0, hw0, -⟩ := hold p w hw
        exact ⟨w0, hw0⟩
    nodup := hlist ▸ h.nodup
    issued := by
      intro p w hw
      obtain ⟨w0, hw0, -⟩ := hold p w hw
      rw [hissued]
      exact h.issued p w0 hw0
    ids := by
      intro p q w x hw hx hsame
      obtain ⟨w0, hw0, hid⟩ := hold p w hw
      obtain ⟨x0, hx0, hid'⟩ := hold q x hx
      exact h.ids p q w0 x0 hw0 hx0 (by rw [← hid, ← hid', hsame])
    count := fun p w hw => (hcounts p w hw).1
    used := fun p w hw => (hcounts p w hw).2 }

variable {p : Nat}

lemma map_vnodeId_update {w : FsVnode} (hv : s.vnodes p = some v)
    (hid : w.vnodeId = v.vnodeId) (q : Nat) : (update s.vnodes p (some w) q).map FsVnode.vnodeId =
    (s.vnodes q).map FsVnode.vnodeId := by
  by_cases hq : q = p
  · rw [hq, update_self, hv, map_some, map_some, hid]
  · rw [update_of_ne hq]

/-- A new offset and a new size keep the relation. -/
lemma VnodeInv.moved (h : VnodeInv s) (fs : σ) (offset size : Nat)
    (hentry : s.entrys n = some e) (hvnode : s.vnodes e.vnode = some v) :
    VnodeInv (s.moved fs n e offset v size) := by
  refine h.sameVnodes rfl rfl (map_vnodeId_update hvnode rfl) ?_ ?_
  · exact forall_update ⟨h.bound n e hentry, v, hvnode⟩
      fun i e' _ he => ⟨h.bound i e' he, h.alive i e' he⟩
  simp only [users_moved fs offset size hentry]
  exact forall_update ⟨h.count _ v hvnode, h.used _ v hvnode⟩
    fun p w _ hw => ⟨h.count p w hw, h.used p w hw⟩

lemma closed_entrys (fs : σ) : (s.closed fs n e v).entrys = update s.entrys n none := by
  unfold closed
  dsimp only
  split
  · rfl
  · rfl

lemma closed_vnodes_of_ne (fs : σ) (hp : p ≠ e.vnode) :
    (s.closed fs n e v).vnodes p = s.vnodes p := by
  unfold closed
  dsimp only
  split
  · show update (update s.vnodes _ _) _ _ p = _
    rw [update_of_ne hp, update_of_ne hp]
  show update s.vnodes _ _ p = _
  rw [update_of_ne hp]

lemma closed_last (fs : σ) (hlast : v.refcnt = 1) : (s.closed fs n e v).vnodes e.vnode = none ∧
    (s.closed fs n e v).vnodeList = s.vnodeList.erase e.vnode := by
  unfold closed
  dsimp only
  rw [if_pos (by omega)]
  exact ⟨update_self _ _ _, rfl⟩

lemma closed_more (fs : σ) (hmore : v.refcnt ≠ 1) : (s.closed fs n e v).vnodes e.vnode =
    some { v with refcnt := v.refcnt - 1 } ∧ (s.closed fs n e v).vnodeList = s.vnodeList := by
  unfold closed
  dsimp only
  rw [if_neg (by omega)]
  exact ⟨update_self _ _ _, rfl⟩

lemma closed_vnodeCount (fs : σ) : (s.closed fs n e v).vnodeCount = s.vnodeCount := by
  unfold closed
  dsimp only
  split
  · rfl
  · rfl

lemma closed_mapping (fs : σ) : (s.closed fs n e v).mapping = s.mapping := by
  unfold closed
  dsimp only
  split
  · rfl
  · rfl

lemma closed_mounted (fs : σ) : (s.closed fs n e v).mounted = s.mounted := by
  unfold closed
  dsimp only
  split
  · rfl
  · rfl

lemma users_closed (fs : σ) (p : Nat) : (s.closed fs n e v).users p = (s.users p).erase n := by
  ext i
  rw [Finset.mem_erase, mem_users, mem_users, closed_entrys]
  by_cases hi : i = n
  · rw [hi, update_self]
    simp
  rw [update_of_ne hi]
  simp [hi]

lemma mem_users_of_entry (h : VnodeInv s) (hentry : s.entrys n = some e) : n ∈ s.users e.vnode :=
  mem_users.2 ⟨h.bound n e hentry, e, hentry, rfl⟩

lemma not_mem_users (hentry : s.entrys n = some e) (hp : p ≠ e.vnode) : n ∉ s.users p := by
  intro hmem
  obtain ⟨-, e', he', rfl⟩ := mem_users.1 hmem
  rw [hentry] at he'
  cases he'
  exact hp rfl

/-- The vnode leaves the list with its last entry. -/
lemma mem_vnodeList_closed (h : VnodeInv s) (fs : σ) : p ∈ (s.closed fs n e v).vnodeList ↔
    p ∈ s.vnodeList ∧ ¬ (p = e.vnode ∧ v.refcnt = 1) := by
  by_cases hlast : v.refcnt = 1
  · rw [(closed_last fs hlast).2, h.nodup.mem_erase_iff]
    exact ⟨fun ⟨hne, hmem⟩ => ⟨hmem, fun hboth => hne hboth.1⟩,
      fun ⟨hmem, hnot⟩ => ⟨fun heq => hnot ⟨heq, hlast⟩, hmem⟩⟩
  · rw [(closed_more fs hlast).2]
    exact ⟨fun hmem => ⟨hmem, fun hboth => hlast hboth.2⟩, fun hboth => hboth.1⟩

/-- Closing an entry keeps the relation. -/
lemma VnodeInv.closed (h : VnodeInv s) (fs : σ) (hentry : s.entrys n = some e)
    (hvnode : s.vnodes e.vnode = some v) : VnodeInv (s.closed fs n e v) := by
  have hcard : v.refcnt = (s.users e.vnode).card := h.count _ v hvnode
  have hmem := mem_users_of_entry h hentry
  have herase := Finset.card_erase_of_mem hmem
  have hpos := Finset.card_pos.2 ⟨n, hmem⟩
  have hentrys : ∀ i e', (s.closed fs n e v).entrys i = some e' → s.entrys i = some e' ∧ i ≠ n := by
    intro i e' he
    rw [closed_entrys] at he
    exact (some_of_erase he).symm
  -- a vnode that is left is an old one with the count of the entries left
  have hvnodes : ∀ p w, (s.closed fs n e v).vnodes p = some w →
      ∃ w0, s.vnodes p = some w0 ∧ w.vnodeId = w0.vnodeId ∧ w.refcnt = ((s.users p).erase n).card ∧
        ((s.users p).erase n).Nonempty := by
    intro p w hw
    by_cases hp : p = e.vnode
    · subst hp
      by_cases hlast : v.refcnt = 1
      · rw [(closed_last fs hlast).1] at hw
        cases hw
      rw [(closed_more fs hlast).1] at hw
      cases hw
      refine ⟨v, hvnode, rfl, ?_, ?_⟩
      · show v.refcnt - 1 = _
        omega
      rw [← Finset.card_pos]
      omega
    · rw [closed_vnodes_of_ne fs hp] at hw
      rw [Finset.erase_eq_of_notMem (not_mem_users hentry hp)]
      exact ⟨w, hw, rfl, h.count p w hw, h.used p w hw⟩
  have hkept : ∀ p w0, s.vnodes p = some w0 → ((s.users p).erase n).Nonempty →
      ∃ w, (s.closed fs n e v).vnodes p = some w := by
    intro p w0 hw hne
    by_cases hp : p = e.vnode
    · subst hp
      have hmore : v.refcnt ≠ 1 := by
        have hleft := Finset.card_pos.2 hne
        omega
      exact ⟨_, (closed_more fs hmore).1⟩
    · exact ⟨w0, (closed_vnodes_of_ne fs hp).trans hw⟩
  exact {
    bound := fun i e' he => h.bound i e' (hentrys i e' he).1
    alive := by
      intro i e' he
      obtain ⟨he0, hi⟩ := hentrys i e' he
      obtain ⟨w0, hw0⟩ := h.alive i e' he0
      exact hkept _ w0 hw0 ⟨i, Finset.mem_erase.2 ⟨hi, mem_users_of_entry h he0⟩⟩
    listed := by
      intro p
      rw [mem_vnodeList_closed h, h.listed]
      constructor
      · rintro ⟨⟨w0, hw0⟩, hnot⟩
        by_cases hp : p = e.vnode
        · subst hp
          exact ⟨_, (closed_more fs fun hlast => hnot ⟨rfl, hlast⟩).1⟩
        · exact ⟨w0, (closed_vnodes_of_ne fs hp).trans hw0⟩
      · rintro ⟨w, hw⟩
        obtain ⟨w0, hw0, -⟩ := hvnodes p w hw
        refine ⟨⟨w0, hw0⟩, ?_⟩
        rintro ⟨rfl, hlast⟩
        rw [(closed_last fs hlast).1] at hw
        cases hw
    nodup := by
      by_cases hlast : v.refcnt = 1
      · rw [(closed_last fs hlast).2]
        exact h.nodup.erase _
      rw [(closed_more fs hlast).2]
      exact h.nodup
    issued := by
      intro p w hw
      obtain ⟨w0, hw0, -⟩ := hvnodes p w hw
      rw [closed_vnodeCount]
      exact h.issued p w0 hw0
    ids := by
      intro p q w x hw hx hsame
      obtain ⟨w0, hw0, hid, -⟩ := hvnodes p w hw
      obtain ⟨x0, hx0, hid', -⟩ := hvnodes q x hx
      exact h.ids p q w0 x0 hw0 hx0 (by rw [← hid, ← hid', hsame])
    count := by
      intro p w hw
      obtain ⟨w0, -, -, hcount, -⟩ := hvnodes p w hw
      rw [users_closed]
      exact hcount
    used := by
      intro p w hw
      obtain ⟨w0, -, -, -, hne⟩ := hvnodes p w hw
      rw [users_closed]
      exact hne }

lemma not_mem_users_of_free (hfree : s.entrys n = none) (p : Nat) : n ∉ s.users p := by
  intro hmem
  obtain ⟨-, e', he', -⟩ := mem_users.1 hmem
  rw [hfree] at he'
  cases he'

lemma users_setEntry_new (hfree : s.entrys n = none) (hn : n < maxServerEntryNum) (p : Nat) :
    (s.setEntry n (some e)).users p = if p = e.vnode then insert n (s.users p) else s.users p := by
  ext i
  rw [mem_users]
  show _ ∧ (∃ e', update s.entrys n (some e) i = some e' ∧ _) ↔ _
  by_cases hi : i = n
  · have hnot := not_mem_users_of_free hfree p
    rw [hi, update_self]
    by_cases hp : p = e.vnode
    · rw [if_pos hp]
      simp [hn, hp]
    rw [if_neg hp]
    simp [hnot, hn, Ne.symm hp]
  · rw [update_of_ne hi, ← mem_users]
    by_cases hp : p = e.vnode
    · rw [if_pos hp, Finset.mem_insert]
      simp [hi]
    · rw [if_neg hp]

/-- An entry for a vnode whose counter has been raised keeps the relation. -/
lemma VnodeInv.share (h : VnodeInv s) (offset : Nat)
    (hfree : s.entrys n = none) (hn : n < maxServerEntryNum) (hvnode : s.vnodes p = some v) :
    VnodeInv ((s.setVnode p (some { v with refcnt := v.refcnt + 1 })).setEntry n
      (some ⟨offset, p⟩)) := by
  have husers : ∀ q, ((s.setVnode p (some { v with refcnt := v.refcnt + 1 })).setEntry n
        (some ⟨offset, p⟩)).users q =
      if q = p then insert n (s.users q) else s.users q :=
    fun q => users_setEntry_new hfree hn q
  refine h.sameVnodes rfl rfl (map_vnodeId_update hvnode rfl) ?_ ?_
  · exact forall_update ⟨hn, v, hvnode⟩ fun i e' _ he => ⟨h.bound i e' he, h.alive i e' he⟩
  refine forall_update ?_ fun q w hq hw => ?_
  · have hold := h.count p v hvnode
    rw [husers, if_pos rfl, Finset.card_insert_of_notMem (not_mem_users_of_free hfree p)]
    refine ⟨?_, Finset.insert_nonempty _ _⟩
    show v.refcnt + 1 = _
    omega
  · rw [husers, if_neg hq]
    exact ⟨h.count q w hw, h.used q w hw⟩

/-- An entry for a new vnode keeps the relation, if its id is new too. -/
lemma VnodeInv.create (h : VnodeInv s) (offset : Nat)
    (hfree : s.entrys n = none) (hn : n < maxServerEntryNum) (hcount : v.refcnt = 1)
    (hid : ∀ p w, s.vnodes p = some w → w.vnodeId ≠ v.vnodeId) :
    VnodeInv ((allocFsVnode s v).setEntry n (some ⟨offset, s.vnodeCount⟩)) := by
  have hnew : s.vnodes s.vnodeCount = none := by
    cases hv : s.vnodes s.vnodeCount with
    | none => rfl
    | some w => exact absurd (h.issued _ w hv) (lt_irrefl _)
  have hunused : s.users s.vnodeCount = ∅ := by
    refine Finset.eq_empty_of_forall_notMem fun i hi => ?_
    obtain ⟨-, e', he', hp⟩ := mem_users.1 hi
    obtain ⟨w, hw⟩ := h.alive i e' he'
    rw [hp, hnew] at hw
    cases hw
  have husers : ∀ q, ((allocFsVnode s v).setEntry n (some ⟨offset, s.vnodeCount⟩)).users q =
      if q = s.vnodeCount then insert n (s.users q) else s.users q :=
    fun q => users_setEntry_new hfree hn q
  have hkept : ∀ q w, s.vnodes q = some w → update s.vnodes s.vnodeCount (some v) q = some w := by
    intro q w hw
    have hq : q ≠ s.vnodeCount := ne_of_lt (h.issued q w hw)
    rw [update_of_ne hq]
    exact hw
  exact {
    bound := forall_update hn fun i e' _ he => h.bound i e' he
    alive := by
      refine forall_update ⟨v, update_self _ _ _⟩ fun i e' _ he => ?_
      obtain ⟨w, hw⟩ := h.alive i e' he
      exact ⟨w, hkept _ w hw⟩
    listed := by
      intro q
      show q ∈ s.vnodeList ++ [s.vnodeCount] ↔ _
      rw [mem_append, mem_singleton, h.listed q]
      constructor
      · rintro (⟨w, hw⟩ | rfl)
        · exact ⟨w, hkept q w hw⟩
        · exact ⟨v, update_self _ _ _⟩
      · rintro ⟨w, hw⟩
        rcases update_eq_some hw with ⟨hq, -⟩ | ⟨-, hw0⟩
        · exact .inr hq
        · exact .inl ⟨w, hw0⟩
    nodup := by
      show (s.vnodeList ++ [s.vnodeCount]).Nodup
      refine h.nodup.append (nodup_singleton _) ?_
      rw [disjoint_singleton]
      intro hmem
      obtain ⟨w, hw⟩ := (h.listed _).1 hmem
      rw [hnew] at hw
      cases hw
    issued := forall_update (Nat.lt_succ_self _) fun q w _ hw => Nat.lt_succ_of_lt (h.issued q w hw)
    ids := by
      intro q q' w x hw hx hsame
      rcases update_eq_some hw with ⟨hq, heq⟩ | ⟨-, hw0⟩
      · cases heq
        rcases update_eq_some hx with ⟨hq', -⟩ | ⟨-, hx0⟩
        · exact hq.trans hq'.symm
        · exact absurd hsame.symm (hid q' x hx0)
      rcases update_eq_some hx with ⟨-, heq⟩ | ⟨-, hx0⟩
      · cases heq
        exact absurd hsame (hid q w hw0)
      · exact h.ids q q' w x hw0 hx0 hsame
    count := by
      refine forall_update ?_ fun q w hq hw => ?_
      · rw [husers, if_pos rfl, hunused, hcount]
        rfl
      rw [husers, if_neg hq]
      exact h.count q w hw
    used := by
      refine forall_update ?_ fun q w hq hw => ?_
      · rw [husers, if_pos rfl]
        exact Finset.insert_nonempty _ _
      rw [husers, if_neg hq]
      exact h.used q w hw }

end

/-! ## Runs -/

lemma allocEntry_some {mallocOk : Bool} {fid : Nat} (h : allocEntry s mallocOk = some fid) :
    s.entrys fid = none ∧ fid < maxServerEntryNum := by
  unfold allocEntry at h
  by_cases hok : mallocOk = true
  · rw [if_pos hok] at h
    refine ⟨?_, mem_range.1 (mem_of_find?_eq_some h)⟩
    simpa using List.find?_some h
  · rw [if_neg hok] at h
    cases h

lemma getFsVnodeById_some {vnodeId : Nat} (h : getFsVnodeById s vnodeId = some p) :
    ∃ v, s.vnodes p = some v ∧ v.vnodeId = vnodeId := by
  unfold getFsVnodeById at h
  have hany := List.find?_some h
  obtain ⟨v, hv, hid⟩ := (any_eq_true _ _).1 hany
  exact ⟨v, hv, beq_iff_eq.1 hid⟩

lemma getFsVnodeById_none (hinv : VnodeInv s) {vnodeId : Nat}
    (h : getFsVnodeById s vnodeId = none) (hv : s.vnodes p = some v) : v.vnodeId ≠ vnodeId := by
  intro hid
  have hno := List.find?_eq_none.1 h p ((hinv.listed p).2 ⟨v, hv⟩)
  exact hno ((any_eq_true _ _).2 ⟨v, hv, beq_iff_eq.2 hid⟩)

/-- The table of the client is set at a position inside it. -/
lemma fsWrapperSetServerEntry_eq_ok {fd : Int}
    (h : fsWrapperSetServerEntry s badge fd fid = .ok s') :
    ∃ k : Nat, fd = k ∧ k < maxServerEntryPerClient ∧
    s' = { s with mapping := setFid badge k fid s.mapping } := by
  unfold fsWrapperSetServerEntry at h
  obtain ⟨hbug, h⟩ := guard_eq_ok h
  by_cases hlt : fd.toNat < maxServerEntryPerClient
  · rw [if_pos hlt] at h
    cases h
    exact ⟨fd.toNat, by omega, hlt, rfl⟩
  · rw [if_neg hlt] at h
    cases h

/-- The vnode of an open is shared or made; then the entry is made. -/
lemma VnodeInv.opened {fid : Nat} (h : VnodeInv s)
    (hopened : EntryOpened ops env s badge newFd path flags mode fid s') : VnodeInv s' := by
  obtain ⟨hfree, fs, r, s1, vnode, -, -, hvnode, hset⟩ := hopened
  obtain ⟨hfree, hn⟩ := allocEntry_some hfree
  obtain ⟨k, -, -, rfl⟩ := fsWrapperSetServerEntry_eq_ok hset
  -- the table of the client and the file system do not matter
  have h' : VnodeInv { s with fs } :=
    ⟨h.bound, h.alive, h.listed, h.nodup, h.issued, h.ids, h.count, h.used⟩
  have hinv : VnodeInv (s1.setEntry fid (some ⟨env.entryOff, vnode⟩)) := by
    rcases vnodeForOpen_cases hvnode with ⟨hfind, rfl, rfl⟩ | ⟨v, -, hv, rfl⟩
    · exact h'.create env.entryOff hfree hn rfl fun p w hw => getFsVnodeById_none h' hfind hw
    · exact h'.share env.entryOff hfree hn hv
  exact ⟨hinv.bound, hinv.alive, hinv.listed, hinv.nodup, hinv.issued,
    hinv.ids, hinv.count, hinv.used⟩

lemma VnodeInv.effect (h : VnodeInv s)
    (heffect : DispatchEffect ops env s badge req s' reply) : VnodeInv s' := by
  cases heffect with
  | keeps fs _ => exact ⟨h.bound, h.alive, h.listed, h.nodup, h.issued, h.ids, h.count, h.used⟩
  | opens hopened => exact h.opened hopened
  | moves _ _ hmoved _ =>
    cases hmoved with
    | mk fs offset size _ _ hentry hvnode => exact h.moved fs offset size hentry hvnode
  | closes fs _ _ hentry hvnode => exact h.closed fs hentry hvnode

lemma EntryOpened.mounted {fid : Nat}
    (hopened : EntryOpened ops env s badge newFd path flags mode fid s') :
    s'.mounted = s.mounted := by
  obtain ⟨-, fs, r, s1, vnode, -, -, hvnode, hset⟩ := hopened
  obtain ⟨k, -, -, rfl⟩ := fsWrapperSetServerEntry_eq_ok hset
  rcases vnodeForOpen_cases hvnode with ⟨-, -, rfl⟩ | ⟨v, -, -, rfl⟩
  · rfl
  · rfl

/-- No request mounts or unmounts the server. -/
lemma DispatchEffect.mounted (heffect : DispatchEffect ops env s badge req s' reply) :
    s'.mounted = s.mounted := by
  cases heffect with
  | keeps fs hevent => rfl
  | opens hopened => exact hopened.mounted
  | moves hfd hget hmoved hevent =>
    cases hmoved with
    | mk => rfl
  | closes fs hget hn hentry hvnode => exact closed_mounted fs

lemma fsStep_eq_ok {c : FsCall} (h : fsStep ops s c = .ok s') :
    ∃ reply, fsServerDispatch ops c.env s c.badge c.req = .ok (s', reply) := by
  obtain ⟨⟨s1, reply⟩, hdispatch, hrest⟩ := wrap_bind_eq_ok.1 h
  cases hrest
  exact ⟨reply, hdispatch⟩

lemma VnodeInv.run {fs : σ} {mounted : Bool} {calls : List FsCall}
    (hrun : run (fsStep ops) (initFsWrapper fs mounted) calls = .ok s) : VnodeInv s := by
  refine run_preserves ?_ calls _ s (VnodeInv.init fs mounted) hrun
  intro s c s' h hstep
  obtain ⟨reply, hdispatch⟩ := fsStep_eq_ok hstep
  exact h.effect (dispatch_effect h.alive hdispatch)

/-- A vnode leaves the list in the request that frees its last entry. -/
lemma vnode_removed_iff (h : VnodeInv s) (heffect : DispatchEffect ops env s badge req s' reply)
    (hp : p ∈ s.vnodeList) :
    p ∉ s'.vnodeList ↔ ∃ i, reply.event = some (.closed i) ∧ s.users p = {i} := by
  have hstays : p ∈ s'.vnodeList → (∀ i, reply.event ≠ some (.closed i)) → (p ∉ s'.vnodeList ↔
        ∃ i, reply.event = some (.closed i) ∧ s.users p = {i}) :=
    fun hmem hno => ⟨fun hnot => absurd hmem hnot, fun ⟨i, hevent, _⟩ => absurd hevent (hno i)⟩
  cases heffect with
  | keeps fs hevent =>
    refine hstays hp fun i => ?_
    rw [hevent]
    exact nofun
  | opens hopened =>
    refine hstays ?_ fun i hevent => by cases hevent
    obtain ⟨-, fs, r, s1, vnode, -, -, hvnode, hset⟩ := hopened
    obtain ⟨k, -, -, rfl⟩ := fsWrapperSetServerEntry_eq_ok hset
    show p ∈ s1.vnodeList
    rcases vnodeForOpen_cases hvnode with ⟨-, -, rfl⟩ | ⟨v, -, -, rfl⟩
    · exact mem_append_left _ hp
    · exact hp
  | moves _ _ hmoved hevent =>
    cases hmoved with
    | mk fs offset size _ _ hentry hvnode =>
      refine hstays hp fun i => ?_
      rw [hevent]
      exact nofun
  | @closes fd n e v fs _ _ hentry hvnode =>
    have hcard := h.count _ v hvnode
    have hmem := mem_users_of_entry h hentry
    rw [mem_vnodeList_closed h]
    constructor
    · intro hnot
      have hboth : p = e.vnode ∧ v.refcnt = 1 := not_not.1 fun hneg => hnot ⟨hp, hneg⟩
      obtain ⟨j, hj⟩ := Finset.card_eq_one.1 (show (s.users e.vnode).card = 1 by omega)
      rw [hj, Finset.mem_singleton] at hmem
      exact ⟨n, rfl, by rw [hboth.1, hj, hmem]⟩
    · rintro ⟨i, hevent, husers⟩ ⟨-, hnot⟩
      cases hevent
      have hpe : p = e.vnode := by
        by_contra hne
        exact not_mem_users hentry hne (husers ▸ Finset.mem_singleton_self n)
      rw [← hpe, husers, Finset.card_singleton] at hcard
      exact hnot ⟨hpe, hcard⟩

/-- **Vnodes count their entries.** In every state that requests reach, for
every file system, each vnode on the list counts the entries that point at it,
and there is at least one; no two vnodes have the same id; every entry points
at a vnode on the list; and a request removes a vnode from the list exactly if
it closes the last entry of that vnode. -/
theorem vnode_refcnt_counts_entries (ops : FsServerOps σ) (fs : σ)
    (mounted : Bool) (calls : List FsCall) (s : FsServer σ)
    (hrun : run (fsStep ops) (initFsWrapper fs mounted) calls = .ok s) :
    (∀ p ∈ s.vnodeList, ∃ v, s.vnodes p = some v ∧
      v.refcnt = (s.users p).card ∧ 1 ≤ (s.users p).card) ∧
    s.vnodeList.Nodup ∧
    (∀ p ∈ s.vnodeList, ∀ q ∈ s.vnodeList, ∀ v w, s.vnodes p = some v →
      s.vnodes q = some w → v.vnodeId = w.vnodeId → p = q) ∧
    (∀ i e, s.entrys i = some e → e.vnode ∈ s.vnodeList) ∧
    ∀ (c : FsCall) s' reply, fsServerDispatch ops c.env s c.badge c.req = .ok (s', reply) →
      ∀ p ∈ s.vnodeList, (p ∉ s'.vnodeList ↔
        ∃ i, reply.event = some (.closed i) ∧ s.users p = {i}) := by
  have h := VnodeInv.run hrun
  refine ⟨?_, h.nodup, ?_, ?_, ?_⟩
  · intro p hp
    obtain ⟨v, hv⟩ := (h.listed p).1 hp
    exact ⟨v, hv, h.count p v hv, Finset.card_pos.2 (h.used p v hv)⟩
  · intro p _ q _ v w hv hw hid
    exact h.ids p q v w hv hw hid
  · intro i e he
    exact (h.listed _).2 (h.alive i e he)
  · intro c s' reply hdispatch p hp
    exact vnode_removed_iff h (dispatch_effect h.alive hdispatch) hp

/-- A file is made, two clients open it, and one of them closes it. -/
def twoOpens : List FsCall := [{ badge := 7, req := .reqCreat (bytes ['/', 'a']) },
    { badge := 7, req := .reqOpen 0 (bytes ['/', 'a']) 0 0 },
    { badge := 8, req := .reqOpen 3 (bytes ['/', 'a']) 0 0 },
    { badge := 7, req := .reqClose 0 }]

theorem vnode_refcnt_counts_entries_two_opens : ∃ s,
    run (fsStep tmpfsOps) (tmpfsServer fun _ => 0) twoOpens = .ok s ∧
    s.vnodeList = [0] ∧ s.users 0 = {1} ∧
    ∃ v, s.vnodes 0 = some v ∧ v.refcnt = (s.users 0).card := by
  refine exists_ok_imp (p := fun s => s.vnodeList = [0] ∧ s.users 0 = {1}) (by decide +kernel) ?_
  rintro s hrun ⟨hlist, husers⟩
  obtain ⟨hcount, -⟩ := vnode_refcnt_counts_entries tmpfsOps
    (initTmpfs fun _ => 0) true twoOpens s hrun
  obtain ⟨v, hv, hcard, -⟩ := hcount 0 (by rw [hlist]; decide)
  exact ⟨hlist, husers, v, hv, hcard⟩

end ChCore.Userland
