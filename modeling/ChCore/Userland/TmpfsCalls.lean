import ChCore.Userland.TmpfsTree

/-!
# The directory calls of tmpfs

What `tfs_namex`, `fs_creat`, `tmpfs_mkdir` and `tmpfs_unlink` keep, for every
path. The first three only add inodes (`Grows`), and the last frees at most the
inode that `tfs_open_path` finds under its path (`Frees`).
-/

namespace ChCore.Userland

open Kernel (Exec einval enoent ok_bind bind_eq_ok guard_eq_ok)
open Lib.Walks

/-! ## What a call keeps -/

/-- The same file: a directory may have got other dentries. -/
inductive SameFile : TmpInode → TmpInode → Prop
  | reg (size : Nat) (data : Radix) : SameFile (.reg size data) (.reg size data)
  | dir (size : Nat) (ht ht' : Htable) : SameFile (.dir size ht) (.dir size ht')

lemma SameFile.refl (inode : TmpInode) : SameFile inode inode := by
  cases inode with
  | reg size data => exact .reg size data
  | dir size ht => exact .dir size ht ht

variable {i j : TmpInode}

lemma SameFile.trans {k : TmpInode} (hij : SameFile i j) (hjk : SameFile j k) : SameFile i k := by
  cases hij with
  | reg size data => exact hjk
  | dir size ht ht' =>
    cases hjk with
    | dir _ _ ht'' => exact .dir size ht ht''

lemma SameFile.size (h : SameFile i j) : j.size = i.size := by
  cases h with
  | reg size data | dir size ht ht' => rfl

lemma SameFile.type (h : SameFile i j) : j.type = i.type := by
  cases h with
  | reg size data | dir size ht ht' => rfl

/-- A new file of at most `bound` bytes, without pages. -/
def TmpInode.IsNew (bound : Nat) : TmpInode → Prop
  | .reg size data => size ≤ bound ∧ data = initRadix
  | .dir size _ => size ≤ bound

/-- The inodes that were there are there, and the others are new. -/
structure Grows (bound : Nat) (st st' : Tmpfs) : Prop where
  kept : ∀ a inode, st.inodes a = some inode →
    ∃ inode', st'.inodes a = some inode' ∧ SameFile inode inode'
  new : ∀ a inode', st.inodes a = none → st'.inodes a = some inode' → inode'.IsNew bound
  pages : st'.pages = st.pages
  root : st'.root = st.root

lemma Grows.refl (bound : Nat) (st : Tmpfs) : Grows bound st st where
  kept a inode h := ⟨inode, h, .refl inode⟩
  new a inode' hnone hsome := by
    rw [hnone] at hsome
    cases hsome
  pages := rfl
  root := rfl

variable {bound : Nat}

lemma SameFile.isNew (h : SameFile i j) (hnew : i.IsNew bound) : j.IsNew bound := by
  cases h with
  | reg size data | dir size ht ht' => exact hnew

variable {st : Tmpfs}

lemma Grows.trans {st1 st2 : Tmpfs} (h : Grows bound st st1)
    (h' : Grows bound st1 st2) : Grows bound st st2 where
  kept a inode hsome := by
    obtain ⟨inode1, hsome1, hsame⟩ := h.kept a inode hsome
    obtain ⟨inode2, hsome2, hsame'⟩ := h'.kept a inode1 hsome1
    exact ⟨inode2, hsome2, hsame.trans hsame'⟩
  new a inode2 hnone hsome2 := by
    cases hcase : st1.inodes a with
    | none => exact h'.new a inode2 hcase hsome2
    | some inode1 =>
      obtain ⟨inode', hsome', hsame⟩ := h'.kept a inode1 hcase
      rw [hsome2] at hsome'
      cases hsome'
      exact hsame.isNew (h.new a inode1 hnone hcase)
  pages := h'.pages.trans h.pages
  root := h'.root.trans h.root

lemma Grows.mono {bound' : Nat} {st' : Tmpfs} (h : Grows bound st st')
    (hle : bound ≤ bound') : Grows bound' st st' where
  kept := h.kept
  new a inode' hnone hsome := by
    have hnew := h.new a inode' hnone hsome
    cases inode' with
    | reg size data => exact ⟨le_trans hnew.1 hle, hnew.2⟩
    | dir size ht => exact le_trans hnew hle
  pages := h.pages
  root := h.root

variable {name : List UInt8}

lemma Grows.made {dir size : Nat} {ht : Htable} (h : DirInv st)
    (hdir : st.inodes dir = some (.dir size ht)) (hname : name.length ≤ bound)
    (mkdir : Bool) : Grows bound st (st.made dir size ht name mkdir) where
  kept a inode hsome := by
    rw [made_inodes]
    by_cases heq : a = dir
    · subst heq
      rw [hdir] at hsome
      cases hsome
      rw [if_pos rfl]
      exact ⟨_, rfl, .dir size ht _⟩
    have hne : a ≠ st.freeAddr := by
      rintro rfl
      rw [freeAddr_none h] at hsome
      cases hsome
    rw [if_neg heq, if_neg hne]
    exact ⟨inode, hsome, .refl inode⟩
  new a inode' hnone hsome := by
    rw [made_inodes] at hsome
    by_cases heq : a = dir
    · rw [heq, hdir] at hnone
      cases hnone
    rw [if_neg heq] at hsome
    by_cases hfree : a = st.freeAddr
    · rw [if_pos hfree] at hsome
      cases mkdir with
      | false =>
        cases hsome
        exact ⟨hname, rfl⟩
      | true =>
        cases hsome
        exact hname
    · rw [if_neg hfree, hnone] at hsome
      cases hsome
  pages := rfl
  root := rfl

/-! ## Calls -/

/-- The inode can be reached from the root. -/
def Tmpfs.Reached (st : Tmpfs) (a : Nat) : Prop := ∃ p, walk st.child st.root p = some a

variable {a : Nat}

lemma DirInv.reached_alive (h : DirInv st) (ha : st.Reached a) : (st.inodes a).isSome := by
  obtain ⟨p, hp⟩ := ha
  obtain ⟨size, ht, hroot⟩ := h.root
  exact h.walk_alive (by rw [hroot]; rfl) hp

lemma reached_child {d : Nat} (hd : st.Reached d)
    (hchild : st.child d name = some a) : st.Reached a := by
  obtain ⟨p, hp⟩ := hd
  refine ⟨p ++ [name], ?_⟩
  rw [walk_concat, hp]
  exact hchild

/-- A new name leaves everything reachable. -/
lemma reached_made (h : DirInv st) {dir size : Nat} {ht : Htable}
    {mkdir : Bool} (hdir : st.inodes dir = some (.dir size ht))
    (hnone : st.child dir name = none) (ha : st.Reached a) :
    (st.made dir size ht name mkdir).Reached a := by
  obtain ⟨p, hp⟩ := ha
  refine ⟨p, walk_mono (fun x y b hchild => ?_) hp⟩
  rw [made_child h hdir, if_neg]
  · exact hchild
  rintro ⟨rfl, rfl⟩
  rw [hnone] at hchild
  cases hchild

lemma tfsLookup_eq_ok {d : Nat} {dent : Option Dentry} (h : tfsLookup st d name = .ok dent) :
    ∃ size ht, st.inodes d = some (.dir size ht) ∧ htableFind ht name = dent := by
  obtain ⟨⟨size, ht⟩, htable, hrest⟩ := bind_eq_ok.1 h
  cases hrest
  unfold Tmpfs.dentries at htable
  split at htable
  · cases htable
  · cases htable
  rename_i hinode
  cases htable
  exact ⟨size, ht, hinode, rfl⟩

/-- What `tfs_namex` keeps, and where it ends. -/
structure NamexKeeps (mkdirP : Bool) (st : Tmpfs) (name : List UInt8)
    (st' : Tmpfs) (r : Namex) : Prop where
  inv : DirInv st'
  grows : Grows name.length st st'
  reached : st'.Reached r.dirat
  shorter : r.name.length ≤ name.length
  same : mkdirP = false → st' = st

lemma namexLoop_keeps (mkdirP : Bool) (rounds : Nat) :
    ∀ (st : Tmpfs) (dirat : Nat) (name : List UInt8) (st' : Tmpfs) (r : Namex),
    DirInv st → st.Reached dirat → namexLoop mkdirP rounds st dirat name = .ok (st', r) →
    NamexKeeps mkdirP st name st' r := by
  induction rounds with
  | zero =>
    intro st dirat name st' r h hreached hrun
    cases hrun
  | succ rounds ih =>
    intro st dirat name st' r h hreached hrun
    rw [namexLoop] at hrun
    cases hslash : name.dropWhile (· ≠ slash) with
    | nil =>
      rw [hslash] at hrun
      cases hrun
      exact ⟨h, .refl _ _, hreached, le_rfl, fun _ => rfl⟩
    | cons c rest =>
      rw [hslash] at hrun
      dsimp only at hrun
      obtain ⟨hlong, hrun⟩ := guard_eq_ok hrun
      have hlength : (name.takeWhile (· ≠ slash)).length + (rest.length + 1) = name.length := by
        rw [← List.length_cons (a := c), ← hslash, ← List.length_append,
          List.takeWhile_append_dropWhile]
      obtain ⟨dent, hlookup, hrest⟩ := bind_eq_ok.1 hrun
      obtain ⟨size, ht, hdir, hfind⟩ := tfsLookup_eq_ok hlookup
      cases dent with
      | none =>
        cases mkdirP with
        | false =>
          cases hrest
          exact ⟨h, .refl _ _, hreached, le_rfl, fun _ => rfl⟩
        | true =>
          -- a missing directory is made, and looked up again
          obtain ⟨⟨st1, ret⟩, hmake, hloop⟩ := bind_eq_ok.1 hrest
          rcases tfsMknod_cases h (h.reached_alive hreached) hmake with
            ⟨-, rfl, -⟩ | ⟨hname, -, size', ht', hdir', rfl⟩
          · exact ih _ _ _ _ _ h hreached hloop
          rw [hdir] at hdir'
          cases hdir'
          have hnone : st.child dirat (name.takeWhile (· ≠ slash)) = none := by
            unfold Tmpfs.child
            rw [hdir]
            dsimp only
            rw [hfind]
            rfl
          have hkeeps := ih _ _ _ _ _ (h.made hdir hname true)
            (reached_made h hdir hnone hreached) hloop
          exact { hkeeps with
            grows := (Grows.made h hdir (by omega) true).trans hkeeps.grows
            same := nofun }
      | some dent =>
        have hchild : st.child dirat (name.takeWhile (· ≠ slash)) = some dent.inode :=
          child_eq_some.2 ⟨size, ht, dent, hdir, hfind, rfl⟩
        have hkeeps := ih _ _ _ _ _ h (reached_child hreached hchild) hrest
        exact {
          inv := hkeeps.inv
          grows := hkeeps.grows.mono (by omega)
          reached := hkeeps.reached
          shorter := le_trans hkeeps.shorter (by omega)
          same := hkeeps.same }

section

variable {st st' : Tmpfs} {path : List UInt8} {mkdirP : Bool} {r : Namex}

lemma tfsNamex_keeps (h : DirInv st) (hrun : tfsNamex st path mkdirP = .ok (st', r)) :
    NamexKeeps mkdirP st path st' r := by
  have hroot : st.Reached st.root := ⟨[], rfl⟩
  have hshort : (path.dropWhile (· = slash)).length ≤ path.length :=
    (List.dropWhile_sublist _).length_le
  unfold tfsNamex at hrun
  obtain ⟨habs, hrun⟩ := guard_eq_ok hrun
  dsimp only at hrun
  by_cases hname : path.dropWhile (· = slash) = []
  · rw [if_pos hname] at hrun
    cases hrun
    exact ⟨h, .refl _ _, hroot, hshort, fun _ => rfl⟩
  rw [if_neg hname] at hrun
  have hkeeps := namexLoop_keeps _ _ _ _ _ _ _ h hroot hrun
  exact {
    inv := hkeeps.inv
    grows := hkeeps.grows.mono hshort
    reached := hkeeps.reached
    shorter := le_trans hkeeps.shorter hshort
    same := hkeeps.same }

/-- `fs_creat` and `tmpfs_mkdir`: the directories on the way and a new inode. -/
def makePath (st : Tmpfs) (path : List UInt8) (mkdir : Bool) : Exec (Tmpfs × Int) := do
  let (st, r) ← tfsNamex st path true
  if r.ret < 0 then return (st, r.ret)
  tfsMknod st r.dirat r.name mkdir

lemma fsCreat_eq : fsCreat st path = makePath st path false := rfl

lemma tmpfsMkdir_eq : tmpfsMkdir st path = makePath st path true := rfl

/-- `fs_creat` and `tmpfs_mkdir` only add inodes. -/
lemma makePath_keeps (h : DirInv st) {mkdir : Bool} {ret : Int}
    (hrun : makePath st path mkdir = .ok (st', ret)) : DirInv st' ∧ Grows path.length st st' := by
  obtain ⟨⟨st1, r⟩, hnamex, hrest⟩ := bind_eq_ok.1 hrun
  have hkeeps := tfsNamex_keeps h hnamex
  dsimp only at hrest
  by_cases hret : r.ret < 0
  · rw [if_pos hret] at hrest
    cases hrest
    exact ⟨hkeeps.inv, hkeeps.grows⟩
  rw [if_neg hret] at hrest
  rcases tfsMknod_cases hkeeps.inv (hkeeps.inv.reached_alive hkeeps.reached)
    hrest with ⟨-, rfl, -⟩ | ⟨hname, -, size, ht, hdir, rfl⟩
  · exact ⟨hkeeps.inv, hkeeps.grows⟩
  exact ⟨hkeeps.inv.made hdir hname mkdir,
    hkeeps.grows.trans (Grows.made hkeeps.inv hdir hkeeps.shorter mkdir)⟩

/-- The inode `a` that the path names was freed, and all others are there. -/
structure Frees (st : Tmpfs) (path : List UInt8) (a : Nat) (st' : Tmpfs) : Prop where
  opens : tfsOpenPath st path = .ok (some a)
  notRoot : path ≠ [slash]
  removable : ∃ inode, st.inodes a = some inode ∧ inode.removable = true
  inv : DirInv st'
  gone : st'.inodes a = none
  kept : ∀ x inode, x ≠ a → st.inodes x = some inode →
    ∃ inode', st'.inodes x = some inode' ∧ SameFile inode inode'
  old : ∀ x inode', st'.inodes x = some inode' →
    ∃ inode, st.inodes x = some inode ∧ SameFile inode inode'
  pages : st'.pages = st.pages

/-- Reached directories are not in themselves. -/
lemma DirInv.link_ne_self (h : DirInv st) {d : Nat} (hd : st.Reached d)
    {dent : Dentry} (hlink : st.Link d dent) : dent.inode ≠ d := by
  intro heq
  obtain ⟨p, hp⟩ := hd
  induction p using List.reverseRecOn with
  | nil =>
    cases hp
    exact h.rootless _ dent hlink heq
  | append_singleton p c _ =>
    rw [walk_concat] at hp
    obtain ⟨d', hwalk, hchild⟩ := Option.bind_eq_some_iff.1 hp
    obtain ⟨dent', hlink', -, heq'⟩ := link_of_child hchild
    obtain ⟨rfl, -⟩ := h.single _ _ _ _ hlink hlink' (heq.trans heq'.symm)
    exact h.isTree.child_ne_self hwalk c hchild

lemma Frees.removed (h : DirInv st) {dir size : Nat} {ht : Htable}
    {name : List UInt8} {dent : Dentry} {inode : TmpInode}
    (hreached : st.Reached dir) (hdir : st.inodes dir = some (.dir size ht))
    (hfind : htableFind ht name = some dent) (hinode : st.inodes dent.inode = some inode)
    (hremovable : inode.removable = true) (hopens : tfsOpenPath st path = .ok (some dent.inode))
    (hnot : path ≠ [slash]) :
    Frees st path dent.inode (st.removed dir size ht name dent.inode) := by
  have hlink : st.Link dir dent := ⟨size, ht, _, hdir, (htableFind_some hfind).1⟩
  have hne : dent.inode ≠ dir := h.link_ne_self hreached hlink
  refine {
    opens := hopens
    notRoot := hnot
    removable := ⟨inode, hinode, hremovable⟩
    inv := h.removed hdir hfind hinode hremovable
    gone := by rw [removed_inodes, if_neg hne, if_pos rfl]
    kept := ?_
    old := ?_
    pages := rfl }
  · intro x inode' hx hsome
    rw [removed_inodes]
    by_cases heq : x = dir
    · subst heq
      rw [hdir] at hsome
      cases hsome
      rw [if_pos rfl]
      exact ⟨_, rfl, .dir size ht _⟩
    · rw [if_neg heq, if_neg hx]
      exact ⟨inode', hsome, .refl inode'⟩
  · intro x inode' hsome
    rcases removed_eq_some hsome with ⟨heq, rfl⟩ | ⟨-, -, hsome⟩
    · exact ⟨_, heq ▸ hdir, .dir size ht _⟩
    · exact ⟨inode', hsome, .refl inode'⟩

/-- The path of a `tfs_namex` that succeeds is not the root. -/
lemma tfsNamex_ne_root (hrun : tfsNamex st path mkdirP = .ok (st', r))
    (hret : ¬ r.ret < 0) : path ≠ [slash] := by
  rintro rfl
  cases hrun
  exact hret (show -einval < 0 by decide)

/-- `tfs_open_path` looks the path up as `tmpfs_unlink` does. -/
lemma tfsOpenPath_of_namex (hnamex : tfsNamex st path false = .ok (st, r))
    (hret : r.ret = 0) (hnot : path ≠ [slash]) :
    tfsOpenPath st path = (tfsLookup st r.dirat r.name >>= fun dent =>
    (.ok (dent.map Dentry.inode) : Exec (Option Nat))) := by
  unfold tfsOpenPath
  rw [if_neg hnot, hnamex, ok_bind]
  dsimp only
  rw [if_neg (by simpa using hret)]
  rfl

lemma namexLoop_ret (rounds : Nat) :
    ∀ (st : Tmpfs) (dirat : Nat) (name : List UInt8) (st' : Tmpfs) (r : Namex),
    namexLoop mkdirP rounds st dirat name = .ok (st', r) → r.ret = 0 ∨ r.ret < 0 := by
  induction rounds with
  | zero =>
    intro st dirat name st' r hrun
    cases hrun
  | succ rounds ih =>
    intro st dirat name st' r hrun
    rw [namexLoop] at hrun
    split at hrun
    · cases hrun
      exact .inl rfl
    dsimp only at hrun
    split at hrun
    · cases hrun
    obtain ⟨dent, -, hrest⟩ := bind_eq_ok.1 hrun
    cases dent with
    | none =>
      cases mkdirP with
      | false =>
        cases hrest
        exact .inr (show -enoent < 0 by decide)
      | true =>
        obtain ⟨⟨st1, ret⟩, -, hloop⟩ := bind_eq_ok.1 hrest
        exact ih _ _ _ _ _ hloop
    | some dent => exact ih _ _ _ _ _ hrest

/-- `tfs_namex` succeeds or returns an error code. -/
lemma tfsNamex_ret (hrun : tfsNamex st path mkdirP = .ok (st', r)) : r.ret = 0 ∨ r.ret < 0 := by
  unfold tfsNamex at hrun
  split at hrun
  · cases hrun
  dsimp only at hrun
  split at hrun
  · cases hrun
    exact .inr (show -einval < 0 by decide)
  · exact namexLoop_ret _ _ _ _ _ _ hrun

/-- `tmpfs_unlink` leaves the inodes alone, or frees the one that the path
names. -/
lemma tmpfsUnlink_cases (h : DirInv st) {ret : Int} (hrun : tmpfsUnlink st path = .ok (st', ret)) :
    st' = st ∨ ∃ a, Frees st path a st' := by
  obtain ⟨⟨st1, r⟩, hnamex, hrest⟩ := bind_eq_ok.1 hrun
  have hkeeps := tfsNamex_keeps h hnamex
  obtain rfl := hkeeps.same rfl
  dsimp only at hrest
  by_cases hret : r.ret < 0
  · rw [if_pos hret] at hrest
    cases hrest
    exact .inl rfl
  rw [if_neg hret] at hrest
  have hzero := (tfsNamex_ret hnamex).resolve_right hret
  have hnot := tfsNamex_ne_root hnamex hret
  cases tfsRemove_removal hrest with
  | missing hmissing | notEmpty hchild hinode hnot => exact .inl rfl
  | @freed size ht dent inode hname hdir hfind hinode hremovable =>
    have hlookup : tfsLookup st1 r.dirat r.name = .ok (some dent) := by
      unfold tfsLookup Tmpfs.dentries
      rw [hdir]
      show Except.ok (htableFind ht r.name) = _
      rw [hfind]
    refine .inr ⟨dent.inode, .removed h hkeeps.reached hdir hfind hinode hremovable ?_ hnot⟩
    rw [tfsOpenPath_of_namex hnamex hzero hnot, hlookup]
    rfl

/-- `tmpfs_unlink` frees every file and empty directory that can be opened,
except the root. -/
lemma tmpfsUnlink_frees (h : DirInv st) {a : Nat} {inode : TmpInode}
    (hopens : tfsOpenPath st path = .ok (some a)) (hnot : path ≠ [slash])
    (ha : st.inodes a = some inode) (hremovable : inode.removable = true) :
    ∃ st', tmpfsUnlink st path = .ok (st', 0) ∧ Frees st path a st' := by
  unfold tfsOpenPath at hopens
  rw [if_neg hnot] at hopens
  obtain ⟨⟨st1, r⟩, hnamex, hrest⟩ := bind_eq_ok.1 hopens
  have hkeeps := tfsNamex_keeps h hnamex
  obtain rfl := hkeeps.same rfl
  dsimp only at hrest
  by_cases hret : r.ret ≠ 0
  · rw [if_pos hret] at hrest
    cases hrest
  rw [if_neg hret] at hrest
  obtain ⟨dent, hlookup, hmap⟩ := bind_eq_ok.1 hrest
  obtain ⟨size, ht, hdir, rfl⟩ := tfsLookup_eq_ok hlookup
  obtain ⟨dent, hfind, rfl⟩ := Option.map_eq_some_iff.1 (Except.ok.inj hmap)
  obtain ⟨hmem, hname⟩ := htableFind_some hfind
  have hnonempty : r.name ≠ [] := hname ▸ (h.tables _ _ _ hdir).named _ dent hmem
  have hrun : tfsRemove st1 r.dirat r.name =
      .ok (st1.removed r.dirat size ht r.name dent.inode, 0) := by
    have htable : st1.dentries r.dirat = .ok (size, ht) := by
      unfold Tmpfs.dentries
      rw [hdir]
    unfold tfsRemove
    rw [if_neg (by simpa using hnonempty), htable, ok_bind]
    dsimp only
    rw [hfind]
    dsimp only
    rw [ha]
    cases inode with
    | reg size' data => rfl
    | dir size' ht' =>
      dsimp only
      rw [if_pos (show htableEmpty ht' = true from hremovable)]
      rfl
  refine ⟨_, ?_, .removed h hkeeps.reached hdir hfind ha hremovable ?_ hnot⟩
  · unfold tmpfsUnlink
    rw [hnamex, ok_bind]
    dsimp only
    rw [if_neg (by omega), hrun]
  rw [tfsOpenPath_of_namex hnamex (not_not.1 hret) hnot, hlookup]
  show Except.ok ((htableFind ht r.name).map Dentry.inode) = _
  rw [hfind]
  rfl

end

end ChCore.Userland
