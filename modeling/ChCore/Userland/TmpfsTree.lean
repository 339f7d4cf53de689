import ChCore.Userland.TmpfsDir
import ChCore.Lib.Walks
import ChCore.Lib.Heaps

/-!
# The structure of the directories of tmpfs

Inodes and dentries form a tree (`DirInv`): every dentry names an inode in
memory, no two dentries name the same inode, and none names the root. This
holds whatever the functions of `tmpfs.c` are called with, also if one directory
has the same name twice.

What a call does to the inodes is said once: `tfs_mknod` links a new inode
(`Tmpfs.made`), and `tfs_remove` takes one out of its directory and frees it
(`Tmpfs.removed`).
-/

namespace ChCore.Userland

open Function List
open Kernel (enoent ok_bind bind_eq_ok)
open Lib.Walks Lib.Heaps

/-! ## Hash tables -/

/-- Every dentry has a name and is in its bucket, once. -/
structure HtableOk (ht : Htable) : Prop where
  placed : ∀ b dent, dent ∈ ht.buckets b → b = bucketOf dent.name
  named : ∀ b dent, dent ∈ ht.buckets b → dent.name ≠ []
  nodup : ∀ b, ((ht.buckets b).map Dentry.inode).Nodup

lemma bucketOf_lt (name : List UInt8) : bucketOf name < htableSize := Nat.mod_lt _ (by decide)

/-- The dentries in the order of `for_each_in_htable`. -/
@[irreducible]
def Htable.entries (ht : Htable) : List Dentry := (List.range htableSize).flatMap ht.buckets

/-- Every dentry is in one bucket. -/
lemma HtableOk.entries {ht : Htable} (h : HtableOk ht) :
    ht.entries.Nodup ∧ ∀ dent, dent ∈ ht.entries ↔ ∃ b, dent ∈ ht.buckets b := by
  have hlt := bucketOf_lt
  unfold Htable.entries
  generalize htableSize = m at hlt ⊢
  refine ⟨?_, fun dent => ⟨fun hmem => ?_, fun ⟨b, hb⟩ => ?_⟩⟩
  · refine nodup_flatMap.2 ⟨fun b _ => (h.nodup b).of_map _, ?_⟩
    refine nodup_range.imp fun hne dent hb hb' => hne ?_
    rw [h.placed _ dent hb, h.placed _ dent hb']
  · obtain ⟨b, -, hb⟩ := mem_flatMap.1 hmem
    exact ⟨b, hb⟩
  refine mem_flatMap.2 ⟨b, mem_range.2 ?_, hb⟩
  rw [h.placed b dent hb]
  exact hlt _

section

variable {ht : Htable} {dent target : Dentry} {name : List UInt8}

lemma HtableOk.init : HtableOk initHtable where
  placed := nofun
  named := nofun
  nodup := fun _ => nodup_nil

lemma htableAdd_buckets (b : Nat) : (htableAdd ht dent).buckets b =
    if b = bucketOf dent.name then dent :: ht.buckets b else ht.buckets b := by
  show update _ _ _ b = _
  rw [update_apply]
  by_cases hb : b = bucketOf dent.name
  · rw [if_pos hb, if_pos hb, hb]
  · rw [if_neg hb, if_neg hb]

lemma htableDel_buckets (b : Nat) : (htableDel ht name).buckets b = if b = bucketOf name then
    (ht.buckets b).eraseP fun dent => dent.name == name else ht.buckets b := by
  show update _ _ _ b = _
  rw [update_apply]
  by_cases hb : b = bucketOf name
  · rw [if_pos hb, if_pos hb, hb]
  · rw [if_neg hb, if_neg hb]

lemma mem_htableAdd {dent' : Dentry} {b : Nat} : dent' ∈ (htableAdd ht dent).buckets b ↔
    (b = bucketOf dent.name ∧ dent' = dent) ∨ dent' ∈ ht.buckets b := by
  rw [htableAdd_buckets]
  by_cases hb : b = bucketOf dent.name
  · rw [if_pos hb, mem_cons]
    simp [hb]
  rw [if_neg hb]
  simp [hb]

lemma HtableOk.add (h : HtableOk ht) (hname : dent.name ≠ [])
    (hnew : ∀ b dent', dent' ∈ ht.buckets b → dent'.inode ≠ dent.inode) :
    HtableOk (htableAdd ht dent) where
  placed b dent' hmem := by
    rcases mem_htableAdd.1 hmem with ⟨rfl, rfl⟩ | hold
    · rfl
    · exact h.placed b dent' hold
  named b dent' hmem := by
    rcases mem_htableAdd.1 hmem with ⟨-, rfl⟩ | hold
    · exact hname
    · exact h.named b dent' hold
  nodup b := by
    rw [htableAdd_buckets]
    by_cases hb : b = bucketOf dent.name
    · rw [if_pos hb, map_cons, nodup_cons]
      refine ⟨fun hmem => ?_, h.nodup _⟩
      obtain ⟨dent', hold, heq⟩ := mem_map.1 hmem
      exact hnew _ dent' hold heq
    · rw [if_neg hb]
      exact h.nodup b

lemma htableFind_some (h : htableFind ht name = some dent) :
    dent ∈ ht.buckets (bucketOf name) ∧ dent.name = name := by
  unfold htableFind at h
  have hsome := List.find?_some h
  exact ⟨mem_of_find?_eq_some h, by simpa using hsome⟩

lemma htableFind_none (h : htableFind ht name = none) :
    ∀ dent ∈ ht.buckets (bucketOf name), dent.name ≠ name := by
  unfold htableFind at h
  intro dent hmem
  simpa using List.find?_eq_none.1 h dent hmem

/-- A new dentry hides an older one with the same name. -/
lemma htableFind_add : htableFind (htableAdd ht dent) name =
    if dent.name = name then some dent else htableFind ht name := by
  unfold htableFind
  rw [htableAdd_buckets]
  by_cases hname : dent.name = name
  · rw [if_pos hname, hname, if_pos rfl, List.find?_cons_of_pos (by simpa using hname)]
  rw [if_neg hname]
  by_cases hb : bucketOf name = bucketOf dent.name
  · rw [if_pos hb, List.find?_cons_of_neg (by simpa using hname)]
  · rw [if_neg hb]

lemma htableDel_sublist (b : Nat) : ((htableDel ht name).buckets b).Sublist (ht.buckets b) := by
  rw [htableDel_buckets]
  by_cases hb : b = bucketOf name
  · rw [if_pos hb]
    exact eraseP_sublist
  · rw [if_neg hb]

lemma HtableOk.del (h : HtableOk ht) (name : List UInt8) : HtableOk (htableDel ht name) where
  placed b dent hmem := h.placed b dent ((htableDel_sublist b).subset hmem)
  named b dent hmem := h.named b dent ((htableDel_sublist b).subset hmem)
  nodup b := (h.nodup b).sublist ((htableDel_sublist b).map _)

/-- `htable_del` takes out the dentry that was found, and no other. -/
lemma mem_htableDel (h : HtableOk ht) (hfind : htableFind ht name = some target)
    {b : Nat} : dent ∈ (htableDel ht name).buckets b ↔ dent ∈ ht.buckets b ∧ dent ≠ target := by
  obtain ⟨hmem, hname⟩ := htableFind_some hfind
  rw [htableDel_buckets]
  by_cases hb : b = bucketOf name
  · rw [if_pos hb, hb]
    obtain ⟨a, l1, l2, hbefore, ha, hsplit, herase⟩ :=
      exists_of_eraseP (p := fun dent => dent.name == name) hmem (by simpa using hname)
    have hfirst : a = target := by
      unfold htableFind at hfind
      rw [hsplit, List.find?_append, List.find?_eq_none.2 hbefore,
        Option.none_or, List.find?_cons, ha] at hfind
      exact Option.some.inj hfind
    have hnodup := (h.nodup (bucketOf name)).of_map
    rw [herase, hsplit]
    rw [hsplit, nodup_middle, nodup_cons, hfirst] at hnodup
    constructor
    · intro hin
      refine ⟨by simp only [mem_append, mem_cons] at hin ⊢; tauto, ?_⟩
      rintro rfl
      exact hnodup.1 hin
    · rintro ⟨hin, hne⟩
      rw [hfirst] at hin
      simp only [mem_append, mem_cons] at hin ⊢
      tauto
  · rw [if_neg hb]
    refine ⟨fun hin => ⟨hin, ?_⟩, And.left⟩
    rintro rfl
    exact hb (hname ▸ h.placed b dent hin)

/-- The dentries left under a name after one was taken out. -/
lemma htableFind_del_of_ne {name' : List UInt8} (hne : name' ≠ name) :
    htableFind (htableDel ht name) name' = htableFind ht name' := by
  unfold htableFind
  rw [htableDel_buckets]
  by_cases hb : bucketOf name' = bucketOf name
  · rw [if_pos hb, hb]
    induction ht.buckets (bucketOf name) with
    | nil => rfl
    | cons dent rest ih =>
      by_cases hname : dent.name = name
      · rw [eraseP_cons_of_pos (by simpa using hname),
          List.find?_cons_of_neg (by simpa [hname] using hne.symm)]
      · rw [eraseP_cons_of_neg (by simpa using hname), List.find?_cons, List.find?_cons, ih]
  · rw [if_neg hb]

lemma htableEmpty_iff (h : HtableOk ht) :
    htableEmpty ht = true ↔ ∀ b dent, dent ∉ ht.buckets b := by
  unfold htableEmpty
  simp only [List.all_eq_true, List.mem_range, List.isEmpty_iff]
  constructor
  · intro hall b dent hmem
    have hb := h.placed b dent hmem
    rw [hall b (hb ▸ bucketOf_lt _)] at hmem
    cases hmem
  · intro hnone b _
    exact List.eq_nil_iff_forall_not_mem.2 fun dent => hnone b dent

end

/-! ## Links -/

/-- The table of the directory `d` has the dentry. -/
def Tmpfs.Link (st : Tmpfs) (d : Nat) (dent : Dentry) : Prop :=
  ∃ size ht b, st.inodes d = some (.dir size ht) ∧ dent ∈ ht.buckets b

/-- The inodes and dentries are a tree, possibly with inodes beside it. -/
structure DirInv (st : Tmpfs) : Prop where
  zero : st.inodes 0 = none
  pos : 0 < st.next
  fresh : ∀ a, st.next ≤ a → st.inodes a = none
  root : ∃ size ht, st.inodes st.root = some (.dir size ht)
  tables : ∀ d size ht, st.inodes d = some (.dir size ht) → HtableOk ht
  alive : ∀ d dent, st.Link d dent → (st.inodes dent.inode).isSome
  single : ∀ d dent d' dent', st.Link d dent → st.Link d' dent' →
    dent.inode = dent'.inode → d = d' ∧ dent = dent'
  rootless : ∀ d dent, st.Link d dent → dent.inode ≠ st.root

/-- The inode with this name in a directory. -/
def Tmpfs.child (st : Tmpfs) (d : Nat) (name : List UInt8) : Option Nat := match st.inodes d with
  | some (.dir _ ht) => (htableFind ht name).map Dentry.inode
  | _ => none

section

variable {st : Tmpfs} {d a : Nat} {name : List UInt8}

lemma child_eq_some : st.child d name = some a ↔ ∃ size ht dent, st.inodes d = some (.dir size ht) ∧
    htableFind ht name = some dent ∧ dent.inode = a := by
  unfold Tmpfs.child
  cases hd : st.inodes d with
  | none => simp
  | some inode =>
    cases inode with
    | reg size data | dir size ht => simp

lemma link_of_child (h : st.child d name = some a) :
    ∃ dent, st.Link d dent ∧ dent.name = name ∧ dent.inode = a := by
  obtain ⟨size, ht, dent, hd, hfind, ha⟩ := child_eq_some.1 h
  obtain ⟨hmem, hname⟩ := htableFind_some hfind
  exact ⟨dent, ⟨size, ht, _, hd, hmem⟩, hname, ha⟩

lemma DirInv.isTree (h : DirInv st) : IsTree st.child st.root where
  single := by
    intro d d' a c c' hc hc'
    obtain ⟨dent, hlink, hname, ha⟩ := link_of_child hc
    obtain ⟨dent', hlink', hname', ha'⟩ := link_of_child hc'
    obtain ⟨rfl, rfl⟩ := h.single d dent d' dent' hlink hlink' (ha.trans ha'.symm)
    exact ⟨rfl, hname.symm.trans hname'⟩
  root := by
    intro d c hc
    obtain ⟨dent, hlink, -, ha⟩ := link_of_child hc
    exact h.rootless d dent hlink ha

/-- What a walk leads to is in memory. -/
lemma DirInv.walk_alive (h : DirInv st) {p : List (List UInt8)}
    (hd : (st.inodes d).isSome) (hwalk : walk st.child d p = some a) : (st.inodes a).isSome := by
  induction p generalizing d with
  | nil =>
    cases hwalk
    exact hd
  | cons c p ih =>
    obtain ⟨b, hchild, hrest⟩ := Option.bind_eq_some_iff.1 hwalk
    obtain ⟨dent, hlink, -, rfl⟩ := link_of_child hchild
    exact ih (h.alive d dent hlink) hrest

lemma DirInv.ne_zero (h : DirInv st) {a : Nat} {inode : TmpInode}
    (ha : st.inodes a = some inode) : a ≠ 0 := by
  rintro rfl
  rw [h.zero] at ha
  cases ha

lemma freeAddr_none (h : DirInv st) : st.inodes st.freeAddr = none := by
  unfold Tmpfs.freeAddr
  by_cases hfree : st.oracle st.mallocs ≠ 0 ∧ (st.inodes (st.oracle st.mallocs)).isNone
  · rw [if_pos hfree]
    exact Option.isNone_iff_eq_none.1 hfree.2
  rw [if_neg hfree]
  exact h.fresh _ le_rfl

lemma freeAddr_ne_zero (h : DirInv st) : st.freeAddr ≠ 0 := by
  unfold Tmpfs.freeAddr
  by_cases hfree : st.oracle st.mallocs ≠ 0 ∧ (st.inodes (st.oracle st.mallocs)).isNone
  · rw [if_pos hfree]
    exact hfree.1
  rw [if_neg hfree]
  exact Nat.ne_of_gt h.pos

/-- No dentry names an address that is not in memory. -/
lemma DirInv.not_linked (h : DirInv st) (ha : st.inodes a = none)
    {dent : Dentry} (hlink : st.Link d dent) : dent.inode ≠ a := by
  rintro rfl
  have halive := h.alive d dent hlink
  rw [ha] at halive
  cases halive

end

/-! ## A new inode -/

/-- A new inode, linked as `name` in the directory `dir`. -/
def Tmpfs.made (st : Tmpfs) (dir size : Nat) (ht : Htable) (name : List UInt8)
    (mkdir : Bool) : Tmpfs :=
  (newInode st (if mkdir then .dir name.length initHtable
    else .reg name.length initRadix)).setInode dir
      (some (.dir size (htableAdd ht ⟨name, st.freeAddr⟩)))

section

variable {st st' : Tmpfs} {dir size : Nat} {ht : Htable} {name : List UInt8}
  {mkdir : Bool}

lemma newInode_old (h : DirInv st) (inode : TmpInode) (hdir : (st.inodes dir).isSome) :
    (newInode st inode).inodes dir = st.inodes dir := by
  refine update_of_ne ?_ _ _
  rintro rfl
  rw [freeAddr_none h] at hdir
  cases hdir

/-- `tfs_mknod` makes an inode, unless the name is empty. -/
lemma tfsMknod_cases (h : DirInv st) (hdir : (st.inodes dir).isSome) {ret : Int}
    (hrun : tfsMknod st dir name mkdir = .ok (st', ret)) : (name = [] ∧ st' = st ∧ ret = -enoent) ∨
    (name ≠ [] ∧ ret = 0 ∧ ∃ size ht, st.inodes dir = some (.dir size ht) ∧
    st' = st.made dir size ht name mkdir) := by
  unfold tfsMknod at hrun
  by_cases hname : name.length = 0
  · rw [if_pos hname] at hrun
    cases hrun
    exact .inl ⟨eq_nil_of_length_eq_zero hname, rfl, rfl⟩
  rw [if_neg hname] at hrun
  obtain ⟨⟨size, ht⟩, htable, hrest⟩ := bind_eq_ok.1 hrun
  cases hrest
  refine .inr ⟨fun hnil => hname (by rw [hnil]; rfl), rfl, size, ht, ?_, rfl⟩
  unfold Tmpfs.dentries at htable
  rw [newInode_old h _ hdir] at htable
  split at htable
  · cases htable
  · cases htable
  rename_i hinode
  cases htable
  exact hinode

lemma tfsMknod_eq (h : DirInv st) (hdir : st.inodes dir = some (.dir size ht)) (hname : name ≠ []) :
    tfsMknod st dir name mkdir = .ok (st.made dir size ht name mkdir, 0) := by
  have htable : (newInode st (if mkdir then .dir name.length initHtable
      else .reg name.length initRadix)).dentries dir = .ok (size, ht) := by
    unfold Tmpfs.dentries
    rw [newInode_old h _ (by rw [hdir]; rfl), hdir]
  unfold tfsMknod
  rw [if_neg (by simpa using hname)]
  dsimp only
  rw [htable]
  rfl

/-- The inodes after `tfs_mknod`. -/
lemma made_inodes (a : Nat) : (st.made dir size ht name mkdir).inodes a =
    if a = dir then some (.dir size (htableAdd ht ⟨name, st.freeAddr⟩)) else if a = st.freeAddr then
    some (if mkdir then .dir name.length initHtable else .reg name.length initRadix)
    else st.inodes a := by
  show update (update st.inodes st.freeAddr _) dir _ a = _
  rw [update_apply, update_apply]

lemma made_link (h : DirInv st) (hdir : st.inodes dir = some (.dir size ht))
    {d : Nat} {dent : Dentry} : (st.made dir size ht name mkdir).Link d dent ↔
    st.Link d dent ∨ (d = dir ∧ dent = ⟨name, st.freeAddr⟩) := by
  unfold Tmpfs.Link
  rw [made_inodes]
  by_cases hd : d = dir
  · subst hd
    rw [if_pos rfl, hdir]
    constructor
    · rintro ⟨size', ht', b, heq, hmem⟩
      cases heq
      rcases mem_htableAdd.1 hmem with ⟨-, rfl⟩ | hold
      · exact .inr ⟨rfl, rfl⟩
      · exact .inl ⟨size, ht, b, rfl, hold⟩
    · rintro (⟨size', ht', b, heq, hmem⟩ | ⟨-, rfl⟩)
      · cases heq
        exact ⟨size, _, b, rfl, mem_htableAdd.2 (.inr hmem)⟩
      · exact ⟨size, _, _, rfl, mem_htableAdd.2 (.inl ⟨rfl, rfl⟩)⟩
  rw [if_neg hd]
  by_cases hfree : d = st.freeAddr
  · subst hfree
    rw [if_pos rfl, freeAddr_none h]
    constructor
    · rintro ⟨size', ht', b, heq, hmem⟩
      cases mkdir with
      | false => cases heq
      | true =>
        cases heq
        cases hmem
    · rintro (⟨size', ht', b, heq, -⟩ | ⟨heq, -⟩)
      · cases heq
      · exact absurd heq hd
  · rw [if_neg hfree]
    exact ⟨.inl, fun hor => hor.resolve_right fun heq => hd heq.1⟩

/-- A new inode keeps the tree. -/
lemma DirInv.made (h : DirInv st) (hdir : st.inodes dir = some (.dir size ht))
    (hname : name ≠ []) (mkdir : Bool) : DirInv (st.made dir size ht name mkdir) := by
  have hfree := freeAddr_none h
  have hne : dir ≠ st.freeAddr := by
    rintro rfl
    rw [hfree] at hdir
    cases hdir
  have halive : ∀ a, (st.inodes a).isSome → ((st.made dir size ht name mkdir).inodes a).isSome := by
    intro a ha
    rw [made_inodes]
    split
    · rfl
    split
    · rfl
    · exact ha
  have hlink : ∀ d dent, (st.made dir size ht name mkdir).Link d dent →
      st.Link d dent ∨ (d = dir ∧ dent = ⟨name, st.freeAddr⟩) :=
    fun d dent => (made_link h hdir).1
  refine {
    zero := ?_
    pos := lt_of_lt_of_le h.pos (Nat.le_max_left _ _)
    fresh := ?_
    root := ?_
    tables := ?_
    alive := ?_
    single := ?_
    rootless := ?_ }
  · rw [made_inodes, if_neg, if_neg (freeAddr_ne_zero h).symm]
    · exact h.zero
    · exact (h.ne_zero hdir).symm
  · intro a ha
    have hle : st.next ≤ a ∧ st.freeAddr < a := ⟨le_trans (Nat.le_max_left _ _) ha,
        lt_of_lt_of_le (Nat.lt_succ_self _) (le_trans (Nat.le_max_right _ _) ha)⟩
    rw [made_inodes, if_neg, if_neg (Nat.ne_of_gt hle.2)]
    · exact h.fresh a hle.1
    rintro rfl
    rw [h.fresh a hle.1] at hdir
    cases hdir
  · obtain ⟨size', ht', hroot⟩ := h.root
    show ∃ size' ht', (st.made dir size ht name mkdir).inodes st.root = _
    rw [made_inodes]
    by_cases heq : st.root = dir
    · rw [if_pos heq]
      exact ⟨_, _, rfl⟩
    rw [if_neg heq, if_neg, hroot]
    · exact ⟨_, _, rfl⟩
    intro heq'
    rw [heq', hfree] at hroot
    cases hroot
  · intro d size' ht' hd
    rw [made_inodes] at hd
    by_cases heq : d = dir
    · rw [if_pos heq] at hd
      cases hd
      refine (h.tables dir _ ht hdir).add hname fun b dent hmem => ?_
      exact h.not_linked hfree ⟨_, ht, b, hdir, hmem⟩
    rw [if_neg heq] at hd
    by_cases heq' : d = st.freeAddr
    · rw [if_pos heq'] at hd
      cases mkdir with
      | false => cases hd
      | true =>
        cases hd
        exact HtableOk.init
    · rw [if_neg heq'] at hd
      exact h.tables d size' ht' hd
  · intro d dent hl
    rcases hlink d dent hl with hold | ⟨-, rfl⟩
    · exact halive _ (h.alive d dent hold)
    rw [made_inodes, if_neg hne.symm, if_pos rfl]
    rfl
  · intro d dent d' dent' hl hl' heq
    rcases hlink d dent hl with hold | ⟨rfl, rfl⟩
    · rcases hlink d' dent' hl' with hold' | ⟨rfl, rfl⟩
      · exact h.single d dent d' dent' hold hold' heq
      · exact absurd heq (h.not_linked hfree hold)
    rcases hlink d' dent' hl' with hold' | ⟨rfl, rfl⟩
    · exact absurd heq.symm (h.not_linked hfree hold')
    · exact ⟨rfl, rfl⟩
  · intro d dent hl
    rcases hlink d dent hl with hold | ⟨rfl, rfl⟩
    · exact h.rootless d dent hold
    intro heq
    obtain ⟨size', ht', hroot⟩ := h.root
    rw [← show st.freeAddr = st.root from heq, hfree] at hroot
    cases hroot

/-- The new inode is found under its name, and nothing else changes. -/
lemma made_child (h : DirInv st) (hdir : st.inodes dir = some (.dir size ht))
    (x : Nat) (y : List UInt8) : (st.made dir size ht name mkdir).child x y =
    if x = dir ∧ y = name then some st.freeAddr else st.child x y := by
  unfold Tmpfs.child
  rw [made_inodes]
  by_cases hx : x = dir
  · subst hx
    rw [if_pos rfl, hdir]
    dsimp only
    rw [htableFind_add]
    by_cases hy : y = name
    · rw [if_pos hy.symm, if_pos ⟨rfl, hy⟩]
      rfl
    · rw [if_neg (Ne.symm hy), if_neg fun hboth => hy hboth.2]
  have hother : ¬ (x = dir ∧ y = name) := fun hboth => hx hboth.1
  rw [if_neg hx, if_neg hother]
  by_cases hfree : x = st.freeAddr
  · rw [if_pos hfree, hfree, freeAddr_none h]
    cases mkdir with
    | false | true => rfl
  · rw [if_neg hfree]

end

/-! ## An inode that is taken away -/

/-- `tfs_remove` takes away regular files and empty directories. -/
def TmpInode.removable : TmpInode → Bool
  | .reg _ _ => true
  | .dir _ ht => htableEmpty ht

/-- The inode `a`, which was `name` in the directory `dir`, is freed. -/
def Tmpfs.removed (st : Tmpfs) (dir size : Nat) (ht : Htable) (name : List UInt8)
    (a : Nat) : Tmpfs :=
  (st.setInode a none).setInode dir (some (.dir size (htableDel ht name)))

/-- The ways in which `tfs_remove` returns. -/
inductive Removal (st : Tmpfs) (dir : Nat) (name : List UInt8) : Tmpfs → Int → Prop
  | missing (h : name = [] ∨ st.child dir name = none) :
    Removal st dir name st (-enoent)
  | notEmpty {a : Nat} {inode : TmpInode} (hchild : st.child dir name = some a)
    (hinode : st.inodes a = some inode) (hnot : inode.removable = false) :
    Removal st dir name st (-enotempty)
  | freed {size : Nat} {ht : Htable} {dent : Dentry} {inode : TmpInode}
    (hname : name ≠ []) (hdir : st.inodes dir = some (.dir size ht))
    (hfind : htableFind ht name = some dent)
    (hinode : st.inodes dent.inode = some inode)
    (hremovable : inode.removable = true) :
    Removal st dir name (st.removed dir size ht name dent.inode) 0

section

variable {st st' : Tmpfs} {dir size : Nat} {ht : Htable} {name : List UInt8}
  {dent : Dentry} {inode : TmpInode}

lemma tfsRemove_removal {ret : Int} (hrun : tfsRemove st dir name = .ok (st', ret)) :
    Removal st dir name st' ret := by
  unfold tfsRemove at hrun
  by_cases hname : name.length = 0
  · rw [if_pos hname] at hrun
    cases hrun
    exact .missing (.inl (eq_nil_of_length_eq_zero hname))
  rw [if_neg hname] at hrun
  have hname' : name ≠ [] := fun hnil => hname (by rw [hnil]; rfl)
  obtain ⟨⟨size, ht⟩, htable, hrest⟩ := bind_eq_ok.1 hrun
  have hdir : st.inodes dir = some (.dir size ht) := by
    unfold Tmpfs.dentries at htable
    split at htable
    · cases htable
    · cases htable
    rename_i hinode
    cases htable
    exact hinode
  dsimp only at hrest
  cases hfind : htableFind ht name with
  | none =>
    rw [hfind] at hrest
    cases hrest
    refine .missing (.inr ?_)
    unfold Tmpfs.child
    rw [hdir]
    dsimp only
    rw [hfind]
    rfl
  | some dent =>
    rw [hfind] at hrest
    dsimp only at hrest
    cases hinode : st.inodes dent.inode with
    | none =>
      rw [hinode] at hrest
      cases hrest
    | some inode =>
      rw [hinode] at hrest
      cases inode with
      | reg size' data =>
        cases hrest
        exact .freed hname' hdir hfind hinode rfl
      | dir size' ht' =>
        dsimp only at hrest
        by_cases hempty : htableEmpty ht' = true
        · rw [if_pos hempty] at hrest
          cases hrest
          exact .freed hname' hdir hfind hinode hempty
        rw [if_neg hempty] at hrest
        cases hrest
        exact .notEmpty (child_eq_some.2 ⟨size, ht, dent, hdir, hfind,
          rfl⟩) hinode (Bool.not_eq_true _ ▸ hempty)

/-- `tfs_remove` returns if it is called with a directory. -/
lemma tfsRemove_returns (h : DirInv st) (hdir : st.inodes dir = some (.dir size ht)) :
    ∃ st' ret, tfsRemove st dir name = .ok (st', ret) := by
  unfold tfsRemove
  by_cases hname : name.length = 0
  · rw [if_pos hname]
    exact ⟨_, _, rfl⟩
  rw [if_neg hname]
  have htable : st.dentries dir = .ok (size, ht) := by
    unfold Tmpfs.dentries
    rw [hdir]
  rw [htable, ok_bind]
  dsimp only
  cases hfind : htableFind ht name with
  | none => exact ⟨_, _, rfl⟩
  | some dent =>
    have halive := h.alive dir dent ⟨size, ht, _, hdir, (htableFind_some hfind).1⟩
    dsimp only
    cases hinode : st.inodes dent.inode with
    | none =>
      rw [hinode] at halive
      cases halive
    | some inode =>
      cases inode with
      | reg size' data => exact ⟨_, _, rfl⟩
      | dir size' ht' =>
        dsimp only
        by_cases hempty : htableEmpty ht' = true
        · rw [if_pos hempty]
          exact ⟨_, _, rfl⟩
        rw [if_neg hempty]
        exact ⟨_, _, rfl⟩

/-- The inodes after `tfs_remove`. -/
lemma removed_inodes (a x : Nat) : (st.removed dir size ht name a).inodes x =
    if x = dir then some (.dir size (htableDel ht name))
    else if x = a then none else st.inodes x := by
  show update (update st.inodes a none) dir _ x = _
  rw [update_apply, update_apply]

lemma removed_eq_some {a x : Nat} {i : TmpInode}
    (h : (st.removed dir size ht name a).inodes x = some i) :
    (x = dir ∧ .dir size (htableDel ht name) = i) ∨ (x ≠ dir ∧ x ≠ a ∧ st.inodes x = some i) := by
  rcases update_eq_some h with ⟨hx, heq⟩ | ⟨hx, h⟩
  · exact .inl ⟨hx, Option.some.inj heq⟩
  · exact .inr ⟨hx, some_of_erase h⟩

lemma removed_none (hdir : st.inodes dir = some (.dir size ht)) {a x : Nat}
    (h : st.inodes x = none) : (st.removed dir size ht name a).inodes x = none := by
  rw [removed_inodes, if_neg]
  · split
    · rfl
    · exact h
  rintro rfl
  rw [h] at hdir
  cases hdir

/-- An inode that can be removed has no dentries. -/
lemma DirInv.no_link (h : DirInv st) {a : Nat} (ha : st.inodes a = some inode)
    (hremovable : inode.removable = true) (dent : Dentry) : ¬ st.Link a dent := by
  rintro ⟨size, ht, b, hdir, hmem⟩
  rw [ha] at hdir
  cases hdir
  exact (htableEmpty_iff (h.tables a size ht ha)).1 hremovable b dent hmem

lemma removed_link (h : DirInv st) (hdir : st.inodes dir = some (.dir size ht))
    (hfind : htableFind ht name = some dent) (hinode : st.inodes dent.inode = some inode)
    (hremovable : inode.removable = true) {d : Nat} {x : Dentry} :
    (st.removed dir size ht name dent.inode).Link d x ↔ st.Link d x ∧ x ≠ dent := by
  have hok := h.tables dir size ht hdir
  have hlink : st.Link dir dent := ⟨size, ht, _, hdir, (htableFind_some hfind).1⟩
  constructor
  · rintro ⟨size', ht', b, hd, hmem⟩
    rcases removed_eq_some hd with ⟨heq, hi⟩ | ⟨heq, -, hold⟩
    · cases hi
      obtain ⟨hold, hne⟩ := (mem_htableDel hok hfind).1 hmem
      exact ⟨⟨size, ht, b, heq ▸ hdir, hold⟩, hne⟩
    refine ⟨⟨size', ht', b, hold, hmem⟩, ?_⟩
    rintro rfl
    exact heq (h.single d x dir x ⟨size', ht', b, hold, hmem⟩ hlink rfl).1
  · rintro ⟨⟨size', ht', b, hd, hmem⟩, hne⟩
    have hnot : d ≠ dent.inode := by
      rintro rfl
      exact h.no_link hinode hremovable x ⟨size', ht', b, hd, hmem⟩
    unfold Tmpfs.Link
    rw [removed_inodes]
    by_cases heq : d = dir
    · subst heq
      rw [hdir] at hd
      cases hd
      rw [if_pos rfl]
      exact ⟨_, _, b, rfl, (mem_htableDel hok hfind).2 ⟨hmem, hne⟩⟩
    · rw [if_neg heq, if_neg hnot]
      exact ⟨size', ht', b, hd, hmem⟩

/-- Taking away an inode keeps the tree. -/
lemma DirInv.removed (h : DirInv st) (hdir : st.inodes dir = some (.dir size ht))
    (hfind : htableFind ht name = some dent) (hinode : st.inodes dent.inode = some inode)
    (hremovable : inode.removable = true) : DirInv (st.removed dir size ht name dent.inode) := by
  have hlink : st.Link dir dent := ⟨size, ht, _, hdir, (htableFind_some hfind).1⟩
  have hiff : ∀ d x, (st.removed dir size ht name dent.inode).Link d x ↔ st.Link d x ∧ x ≠ dent :=
    fun d x => removed_link h hdir hfind hinode hremovable
  refine {
    zero := removed_none hdir h.zero
    pos := h.pos
    fresh := fun a ha => removed_none hdir (h.fresh a ha)
    root := ?_
    tables := ?_
    alive := ?_
    single := ?_
    rootless := ?_ }
  · obtain ⟨size', ht', hroot⟩ := h.root
    show ∃ size' ht', (st.removed dir size ht name dent.inode).inodes st.root = _
    rw [removed_inodes]
    by_cases heq : st.root = dir
    · rw [if_pos heq]
      exact ⟨_, _, rfl⟩
    rw [if_neg heq, if_neg (h.rootless dir dent hlink).symm, hroot]
    exact ⟨_, _, rfl⟩
  · intro d size' ht' hd
    rcases removed_eq_some hd with ⟨-, hi⟩ | ⟨-, -, hd⟩
    · cases hi
      exact (h.tables dir _ ht hdir).del name
    · exact h.tables d size' ht' hd
  · intro d x hl
    obtain ⟨hold, hother⟩ := (hiff d x).1 hl
    rw [removed_inodes]
    split
    · rfl
    rw [if_neg]
    · exact h.alive d x hold
    intro heq
    exact hother (h.single d x dir dent hold hlink heq).2
  · intro d x d' x' hl hl' heq
    exact h.single d x d' x' ((hiff d x).1 hl).1 ((hiff d' x').1 hl').1 heq
  · intro d x hl
    exact h.rootless d x ((hiff d x).1 hl).1

end

/-- The tree before the first request. -/
lemma DirInv.init (oracle : Nat → Nat) : DirInv (initTmpfs oracle) := by
  have hdirs : ∀ d size ht, (initTmpfs oracle).inodes d = some (.dir size ht) →
      ht = initHtable := by
    intro d size ht hd
    change update (fun _ => none) 1 _ d = _ at hd
    rw [update_apply] at hd
    split at hd
    · cases hd
      rfl
    · cases hd
  have hlink : ∀ d dent, ¬ (initTmpfs oracle).Link d dent := by
    rintro d dent ⟨size, ht, b, hd, hmem⟩
    cases hdirs d size ht hd
    cases hmem
  have hfresh : ∀ a, 2 ≤ a → (initTmpfs oracle).inodes a = none := by
    intro a ha
    show update (fun _ => none) 1 _ a = _
    rw [update_of_ne (by omega)]
  exact {
    zero := rfl
    pos := show 0 < 2 by decide
    fresh := hfresh
    root := ⟨0, initHtable, rfl⟩
    tables := fun d size ht hd => hdirs d size ht hd ▸ HtableOk.init
    alive := fun d dent hl => absurd hl (hlink d dent)
    single := fun d dent _ _ hl => absurd hl (hlink d dent)
    rootless := fun d dent hl => absurd hl (hlink d dent) }

end ChCore.Userland
