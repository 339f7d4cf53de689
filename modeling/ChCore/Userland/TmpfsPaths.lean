import ChCore.Userland.TmpfsCalls
import ChCore.Lib.NameTrees
import ChCore.Lib.Runs
import Mathlib.Data.List.TakeWhile

/-!
# tmpfs as a tree of names

The calls on paths as operations of a tree of names. A path leads through the
hash tables from the root (`Tmpfs.resolve`), and `TreeInv` says that what is
there is what the tree has. Making a node adds one link and removing it takes
one away, so that no other path is touched; `tfs_namex` makes the missing
directories one by one.

The tree has a new file with the length of its name as its size, as `tfs_mknod`
does. Two things that the calls do not check are kept out of the histories: a
node is made at a path where there is none, and no regular file is on the way to
a path.
-/

namespace ChCore.Userland

open Kernel (Exec einval enoent ok_bind)
open Lib.Runs List Lib.Walks Lib.NameTrees

/-! ## Paths and operations -/

/-- The names from the root. -/
abbrev Path := List (List UInt8)

/-- Names with slashes between them. -/
def joined : Path → List UInt8
  | [] => []
  | [c] => c
  | c :: cs => c ++ slash :: joined cs

/-- The path as a string. -/
def pathOf (p : Path) : List UInt8 := slash :: joined p

/-- A component of a path. -/
def NameOk (c : List UInt8) : Prop := c ≠ [] ∧ slash ∉ c ∧ c.length ≤ maxFilenameLen

instance (c : List UInt8) : Decidable (NameOk c) := inferInstanceAs (Decidable (_ ∧ _ ∧ _))

/-- The calls on paths. -/
inductive TreeOp
  | creat (path : Path)
  | mkdir (path : Path)
  | unlink (path : Path)
  | rmdir (path : Path)
  | openPath (path : Path)
  deriving DecidableEq, Repr

def TreeOp.path : TreeOp → Path
  | .creat p => p
  | .mkdir p => p
  | .unlink p => p
  | .rmdir p => p
  | .openPath p => p

/-- The components of the path are names. -/
def TreeOp.Valid (op : TreeOp) : Prop := ∀ c ∈ op.path, NameOk c

instance : DecidablePred TreeOp.Valid := fun op => inferInstanceAs (Decidable (∀ c ∈ op.path, _))

/-- What a call delivers: its return value, or what was opened. -/
inductive Outcome
  | returned (ret : Int)
  | opened (node : Option (Node Nat))
  deriving DecidableEq, Repr

/-! ## The tree -/

/-- The files of the tree have sizes. -/
abbrev SizeTree := Tree (List UInt8) Nat

def makeNode (t : SizeTree) (p : Path) (n : Node Nat) : SizeTree × Outcome :=
  if p = [] then (t, .returned (-einval))
  else (add (addDirs t [] p.dropLast) p n, .returned 0)

def removeNode (t : SizeTree) (p : Path) : SizeTree × Outcome :=
  if p = [] then (t, .returned (-einval))
  else match node t p with
    | none => (t, .returned (-enoent))
    | some (.file _) => (remove t p, .returned 0)
    | some .dir => if hasChild t p then (t, .returned (-enotempty))
      else (remove t p, .returned 0)

/-- The calls on the tree. -/
def treeCall (t : SizeTree) : TreeOp → SizeTree × Outcome
  | .creat p => makeNode t p (.file (p.getLastD []).length)
  | .mkdir p => makeNode t p .dir
  | .unlink p => removeNode t p
  | .rmdir p => removeNode t p
  | .openPath p => (t, .opened (node t p))

def treeStep (t : SizeTree) (op : TreeOp) : Exec SizeTree := .ok (treeCall t op).1

/-- The condition: no regular file is on the way, and a node is made where there
is none. -/
def TreeAllowed (t : SizeTree) (op : TreeOp) : Prop := Clear t op.path ∧ match op with
  | .creat p => p ≠ [] → node t p = none
  | .mkdir p => p ≠ [] → node t p = none
  | _ => True

instance (t : SizeTree) : DecidablePred (TreeAllowed t) := fun op => by
  cases op <;> (dsimp only [TreeAllowed]; infer_instance)

/-! ## The calls of tmpfs -/

/-- What an inode is. -/
def TmpInode.node : TmpInode → Node Nat
  | .reg size _ => .file size
  | .dir _ _ => .dir

/-- The calls; an inode is read as `tmpfs_open` does. -/
def tmpfsCall (st : Tmpfs) : TreeOp → Exec (Tmpfs × Outcome)
  | .creat p => do
    let (st, ret) ← fsCreat st (pathOf p)
    return (st, .returned ret)
  | .mkdir p => do
    let (st, ret) ← tmpfsMkdir st (pathOf p)
    return (st, .returned ret)
  | .unlink p => do
    let (st, ret) ← tmpfsUnlink st (pathOf p)
    return (st, .returned ret)
  | .rmdir p => do
    let (st, ret) ← tmpfsRmdir st (pathOf p)
    return (st, .returned ret)
  | .openPath p => do
    let addr ← tfsOpenPath st (pathOf p)
    return (st, .opened (addr.bind fun a => (st.inodes a).map TmpInode.node))

def callStep (st : Tmpfs) (op : TreeOp) : Exec Tmpfs := do
  let (st, _) ← tmpfsCall st op
  return st

/-- The inode to which a path leads. -/
def Tmpfs.resolve (st : Tmpfs) (p : Path) : Option Nat := walk st.child st.root p

/-- What is at a path. -/
def Tmpfs.nodeAt (st : Tmpfs) (p : Path) : Option (Node Nat) :=
  (st.resolve p).bind fun a => (st.inodes a).map TmpInode.node

/-- Names are unique in their directories. -/
def UniqueNames (st : Tmpfs) : Prop := ∀ d size ht, st.inodes d = some (.dir size ht) →
    (ht.entries.map Dentry.name).Nodup

/-- The tree is what the paths lead to. -/
structure TreeInv (st : Tmpfs) (t : SizeTree) : Prop where
  dirs : DirInv st
  names : ∀ d size ht, st.inodes d = some (.dir size ht) →
    ∀ b, ((ht.buckets b).map Dentry.name).Nodup
  nodes : ∀ p, st.nodeAt p = node t p

lemma TreeInv.uniqueNames {st : Tmpfs} {t : SizeTree} (h : TreeInv st t) : UniqueNames st := by
  intro d size ht hd
  have htable := h.dirs.tables d size ht hd
  obtain ⟨hnodup, hmem⟩ := htable.entries
  refine hnodup.map_on fun dent hdent dent' hdent' hname => ?_
  obtain ⟨b, hb⟩ := (hmem dent).1 hdent
  obtain ⟨b', hb'⟩ := (hmem dent').1 hdent'
  -- one name, one bucket
  obtain rfl : b = b' := by rw [htable.placed b dent hb, htable.placed b' dent' hb', hname]
  exact inj_on_of_nodup_map (h.names d size ht hd b) hb hb' hname

/-! ## Nodes -/

section

variable {st : Tmpfs} {t : SizeTree} {p q : Path} {c : List UInt8} {a d size : Nat}
  {ht : Htable}

lemma SameFile.node {i j : TmpInode} (h : SameFile i j) : j.node = i.node := by
  cases h with
  | reg size data | dir size ht ht' => rfl

lemma resolve_concat (st : Tmpfs) (p : Path) (c : List UInt8) :
    st.resolve (p ++ [c]) = (st.resolve p).bind fun d => st.child d c :=
  walk_concat ..

lemma TreeInv.alive (h : TreeInv st t) (hp : st.resolve p = some a) :
    ∃ inode, st.inodes a = some inode ∧ node t p = some inode.node := by
  obtain ⟨inode, ha⟩ := Option.isSome_iff_exists.1 (h.dirs.reached_alive ⟨p, hp⟩)
  refine ⟨inode, ha, ?_⟩
  rw [← h.nodes p]
  unfold Tmpfs.nodeAt
  rw [hp, Option.bind_some, ha, Option.map_some]

lemma TreeInv.resolve_none (h : TreeInv st t) : st.resolve p = none ↔ node t p = none := by
  constructor
  · intro hnone
    rw [← h.nodes p]
    unfold Tmpfs.nodeAt
    rw [hnone, Option.bind_none]
  · intro hnone
    cases hp : st.resolve p with
    | none => rfl
    | some a =>
      obtain ⟨inode, -, hnode⟩ := h.alive hp
      rw [hnone] at hnode
      cases hnode

/-- What is on the way to a path is a directory. -/
lemma TreeInv.dir (h : TreeInv st t) {r : Path} (hclear : Clear t (p ++ r))
    (hr : r ≠ []) (hp : st.resolve p = some a) : ∃ size ht, st.inodes a = some (.dir size ht) := by
  obtain ⟨inode, ha, hnode⟩ := h.alive hp
  cases inode with
  | reg size data => exact absurd hnode (hclear.not_file hr size)
  | dir size ht => exact ⟨size, ht, ha⟩

lemma child_of_dir (hd : st.inodes d = some (.dir size ht)) (c : List UInt8) :
    st.child d c = (htableFind ht c).map Dentry.inode := by
  unfold Tmpfs.child
  rw [hd]

lemma tfsLookup_of_dir (hd : st.inodes d = some (.dir size ht))
    (c : List UInt8) : tfsLookup st d c = .ok (htableFind ht c) := by
  unfold tfsLookup Tmpfs.dentries
  rw [hd]
  rfl

variable {inode : TmpInode}

/-- A directory can be removed if nothing is below it. -/
lemma TreeInv.removable_iff (h : TreeInv st t) (hp : st.resolve p = some a)
    (ha : st.inodes a = some inode) : inode.removable = true ↔ hasChild t p = false := by
  rw [← Bool.not_eq_true, hasChild_iff, not_exists]
  have hbelow : ∀ c, node t (p ++ [c]) = none ↔ st.child a c = none := by
    intro c
    rw [← h.resolve_none, resolve_concat, hp, Option.bind_some]
  simp only [not_not, hbelow]
  cases inode with
  | reg size data =>
    refine iff_of_true rfl fun c => ?_
    unfold Tmpfs.child
    rw [ha]
  | dir size ht =>
    have hok := h.dirs.tables a size ht ha
    rw [show TmpInode.removable (.dir size ht) = htableEmpty ht from rfl, htableEmpty_iff hok]
    constructor
    · intro hempty c
      rw [child_of_dir ha, Option.map_eq_none_iff]
      exact List.find?_eq_none.2 fun dent hmem => absurd hmem (hempty _ dent)
    · intro hnone b dent hmem
      have hfind := hnone dent.name
      rw [child_of_dir ha, Option.map_eq_none_iff] at hfind
      have hb := hok.placed b dent hmem
      exact htableFind_none hfind dent (hb ▸ hmem) rfl

/-! ## One link -/

/-- A new node changes the end of one path. -/
lemma TreeInv.made_resolve (h : TreeInv st t) (hp : st.resolve p = some d)
    (hd : st.inodes d = some (.dir size ht)) (mkdir : Bool)
    (hnone : st.resolve (p ++ [c]) = none) (q : Path) : (st.made d size ht c mkdir).resolve q =
    if q = p ++ [c] then some st.freeAddr else st.resolve q := by
  rw [resolve_concat, hp, Option.bind_some] at hnone
  refine h.dirs.isTree.walk_relink hp (made_child h.dirs hd) ?_ ?_ q
  · intro x hx
    rw [hnone] at hx
    cases hx
  intro x hx y
  cases hx
  have hne : st.freeAddr ≠ d := by
    intro heq
    rw [← heq, freeAddr_none h.dirs] at hd
    cases hd
  rw [made_child h.dirs hd, if_neg fun hboth => hne hboth.1]
  unfold Tmpfs.child
  rw [freeAddr_none h.dirs]

/-- A new node is a new leaf of the tree. -/
lemma TreeInv.made (h : TreeInv st t) (hp : st.resolve p = some d)
    (hd : st.inodes d = some (.dir size ht)) (hc : c ≠ [])
    (hnone : st.resolve (p ++ [c]) = none) (mkdir : Bool) : TreeInv (st.made d size ht c mkdir)
    (add t (p ++ [c]) (if mkdir then .dir else .file c.length)) := by
  refine ⟨h.dirs.made hd hc mkdir, ?_, fun q => ?_⟩
  · -- the name was not in the table
    have hfind : htableFind ht c = none := by
      have hchild := hnone
      rw [resolve_concat, hp, Option.bind_some, child_of_dir hd] at hchild
      exact Option.map_eq_none_iff.1 hchild
    intro x size' ht' hx b
    rw [made_inodes] at hx
    by_cases heq : x = d
    · rw [if_pos heq] at hx
      cases hx
      have hold := h.names d size ht hd
      rw [htableAdd_buckets]
      by_cases hb : b = bucketOf c
      · rw [if_pos hb, map_cons, nodup_cons]
        refine ⟨?_, hold _⟩
        rw [mem_map]
        rintro ⟨dent, hmem, hname⟩
        exact htableFind_none hfind dent (hb ▸ hmem) hname
      · rw [if_neg hb]
        exact hold b
    rw [if_neg heq] at hx
    by_cases hfree : x = st.freeAddr
    · rw [if_pos hfree] at hx
      cases mkdir with
      | false => cases hx
      | true =>
        cases hx
        exact nodup_nil
    · rw [if_neg hfree] at hx
      exact h.names x size' ht' hx b
  · rw [node_add (by simp)]
    unfold Tmpfs.nodeAt
    rw [h.made_resolve hp hd mkdir hnone]
    by_cases hq : q = p ++ [c]
    · have hne : st.freeAddr ≠ d := by
        intro heq
        rw [← heq, freeAddr_none h.dirs] at hd
        cases hd
      rw [if_pos hq, if_pos hq, Option.bind_some, made_inodes, if_neg hne,
        if_pos rfl, Option.map_some]
      cases mkdir with
      | false | true => rfl
    rw [if_neg hq, if_neg hq, ← h.nodes q]
    unfold Tmpfs.nodeAt
    cases hresolve : st.resolve q with
    | none => rfl
    | some a =>
      obtain ⟨inode, ha, -⟩ := h.alive hresolve
      obtain ⟨inode', ha', hsame⟩ := (Grows.made h.dirs hd le_rfl mkdir).kept a inode ha
      rw [Option.bind_some, Option.bind_some, ha, ha', Option.map_some, Option.map_some, hsame.node]

variable {dent : Dentry} (h : TreeInv st t) (hp : st.resolve p = some d)
  (hd : st.inodes d = some (.dir size ht)) (hfind : htableFind ht c = some dent)
  (hinode : st.inodes dent.inode = some inode) (hremovable : inode.removable = true)

include h hd hfind hinode hremovable in
/-- The links after a node is taken away. -/
lemma TreeInv.removed_child (hne : dent.inode ≠ d) (x : Nat) (y : List UInt8) :
    (st.removed d size ht c dent.inode).child x y =
    if x = d ∧ y = c then none else st.child x y := by
  by_cases hx : x = d
  · subst hx
    have hinodes : (st.removed x size ht c dent.inode).inodes x =
        some (.dir size (htableDel ht c)) := by rw [removed_inodes, if_pos rfl]
    rw [child_of_dir hinodes, child_of_dir hd]
    by_cases hy : y = c
    · rw [if_pos ⟨rfl, hy⟩, hy, Option.map_eq_none_iff]
      -- no other dentry has the name
      have hok := h.dirs.tables x size ht hd
      refine List.find?_eq_none.2 fun dent' hmem hname => ?_
      obtain ⟨hold, hother⟩ := (mem_htableDel hok hfind).1 hmem
      obtain ⟨hmem', hname'⟩ := htableFind_some hfind
      exact hother (inj_on_of_nodup_map (h.names x size ht hd _) hold hmem'
        ((by simpa using hname : dent'.name = c).trans hname'.symm))
    · rw [if_neg fun hboth => hy hboth.2, htableFind_del_of_ne hy]
  rw [if_neg fun hboth => hx hboth.1]
  unfold Tmpfs.child
  rw [removed_inodes, if_neg hx]
  by_cases ha : x = dent.inode
  · rw [if_pos ha, ha, hinode]
    cases inode with
    | reg size' data => rfl
    | dir size' ht' =>
      have hempty := (htableEmpty_iff (h.dirs.tables _ _ _ hinode)).1 hremovable
      dsimp only
      rw [show htableFind ht' y = none from
        List.find?_eq_none.2 fun z hmem => absurd hmem (hempty _ z)]
      rfl
  · rw [if_neg ha]

include h hp hd hfind hinode hremovable in
/-- Taking away a leaf changes the end of one path. -/
lemma TreeInv.removed_resolve (q : Path) : (st.removed d size ht c dent.inode).resolve q =
    if q = p ++ [c] then none else st.resolve q := by
  have hlink : st.Link d dent := ⟨size, ht, _, hd, (htableFind_some hfind).1⟩
  have hne : dent.inode ≠ d := h.dirs.link_ne_self ⟨p, hp⟩ hlink
  refine h.dirs.isTree.walk_relink hp (h.removed_child hd hfind hinode hremovable hne) ?_ nofun q
  intro x hx y
  rw [child_of_dir hd, hfind] at hx
  cases hx
  cases hchild : st.child dent.inode y with
  | none => rfl
  | some b =>
    obtain ⟨dent', hlink', -⟩ := link_of_child hchild
    exact absurd hlink' (h.dirs.no_link hinode hremovable dent')

include h hp hd hfind hinode hremovable in
lemma TreeInv.removed : TreeInv (st.removed d size ht c dent.inode) (remove t (p ++ [c])) := by
  have hlink : st.Link d dent := ⟨size, ht, _, hd, (htableFind_some hfind).1⟩
  refine ⟨h.dirs.removed hd hfind hinode hremovable, ?_, fun q => ?_⟩
  · intro x size' ht' hx b
    rcases removed_eq_some hx with ⟨-, hi⟩ | ⟨-, -, hx⟩
    · cases hi
      exact (h.names d size ht hd b).sublist ((htableDel_sublist b).map _)
    · exact h.names x size' ht' hx b
  rw [node_remove (by simp)]
  unfold Tmpfs.nodeAt
  rw [h.removed_resolve hp hd hfind hinode hremovable]
  by_cases hq : q = p ++ [c]
  · rw [if_pos hq, if_pos hq, Option.bind_none]
  rw [if_neg hq, if_neg hq, ← h.nodes q]
  unfold Tmpfs.nodeAt
  cases hresolve : st.resolve q with
  | none => rfl
  | some a =>
    rw [Option.bind_some, Option.bind_some, removed_inodes]
    by_cases had : a = d
    · rw [if_pos had, had, hd]
      rfl
    have hae : a ≠ dent.inode := by
      rintro rfl
      refine hq (h.dirs.isTree.walk_inj hresolve ?_)
      show st.resolve (p ++ [c]) = _
      rw [resolve_concat, hp, Option.bind_some, child_of_dir hd, hfind]
      rfl
    rw [if_neg had, if_neg hae]

end

/-! ## `tfs_namex` -/

section

variable {c c' : List UInt8} {cs : Path}

lemma joined_cons_cons : joined (c :: c' :: cs) = c ++ slash :: joined (c' :: cs) := rfl

/-- The first component of the rest of a path. -/
lemma takeWhile_joined (hc : slash ∉ c) (c' : List UInt8) (cs : Path) :
    (joined (c :: c' :: cs)).takeWhile (· ≠ slash) = c ∧
    (joined (c :: c' :: cs)).dropWhile (· ≠ slash) = slash :: joined (c' :: cs) := by
  have hall : ∀ x ∈ c, decide (x ≠ slash) = true := by
    intro x hx
    simp only [ne_eq, decide_eq_true_eq]
    rintro rfl
    exact hc hx
  rw [joined_cons_cons]
  constructor
  · rw [takeWhile_append_of_pos hall, takeWhile_cons_of_neg (by simp), append_nil]
  · rw [dropWhile_append_of_pos hall, dropWhile_cons_of_neg (by simp)]

lemma dropWhile_leaf (hc : slash ∉ c) : c.dropWhile (· ≠ slash) = [] := by
  rw [dropWhile_eq_nil_iff]
  intro x hx
  simp only [ne_eq, decide_eq_true_eq]
  rintro rfl
  exact hc hx

/-- The slashes at the beginning of a path are skipped. -/
lemma dropWhile_pathOf (hc : NameOk c) :
    (pathOf (c :: cs)).dropWhile (· = slash) = joined (c :: cs) := by
  obtain ⟨hne, hslash, -⟩ := hc
  cases c with
  | nil => exact absurd rfl hne
  | cons x c =>
    have hx : x ≠ slash := by
      rintro rfl
      exact hslash mem_cons_self
    have hhead : ∃ rest, joined ((x :: c) :: cs) = x :: rest := by
      cases cs with
      | nil => exact ⟨c, rfl⟩
      | cons c' cs => exact ⟨c ++ slash :: joined (c' :: cs), rfl⟩
    obtain ⟨rest, hrest⟩ := hhead
    unfold pathOf
    rw [dropWhile_cons_of_pos (by simp), hrest, dropWhile_cons_of_neg (by simpa using hx)]

/-- Every component has a character. -/
lemma length_le_joined (hcs : ∀ c ∈ cs, NameOk c) : cs.length ≤ (joined cs).length := by
  induction cs with
  | nil => exact le_rfl
  | cons c cs ih =>
    have hpos : 0 < c.length := length_pos_of_ne_nil (hcs c mem_cons_self).1
    have hrest := ih fun c' hc' => hcs c' (mem_cons_of_mem c hc')
    cases cs with
    | nil => exact hpos
    | cons c' cs =>
      simp only [joined_cons_cons, length_append, length_cons] at hrest ⊢
      omega

end

section

variable {st : Tmpfs} {t : SizeTree} {mkdirP : Bool}

variable {d rounds : Nat}

/-- One round for a component that is there. -/
lemma namexLoop_found {a size : Nat} {ht : Htable} {c c' : List UInt8}
    {cs : Path} (hc : NameOk c) (hd : st.inodes d = some (.dir size ht))
    (hchild : st.child d c = some a) : namexLoop mkdirP (rounds + 1) st d (joined (c :: c' :: cs)) =
    namexLoop mkdirP rounds st a (joined (c' :: cs)) := by
  obtain ⟨htake, hdrop⟩ := takeWhile_joined hc.2.1 c' cs
  rw [child_of_dir hd] at hchild
  obtain ⟨dent, hfind, rfl⟩ := Option.map_eq_some_iff.1 hchild
  rw [namexLoop, hdrop]
  dsimp only
  rw [htake, if_neg (Nat.not_lt.2 hc.2.2), tfsLookup_of_dir hd, ok_bind, hfind]

/-- One round for a component that is missing. -/
lemma namexLoop_missing {size : Nat} {ht : Htable} {c c' : List UInt8}
    {cs : Path} (hc : NameOk c) (hd : st.inodes d = some (.dir size ht))
    (hchild : st.child d c = none) :
    namexLoop mkdirP (rounds + 1) st d (joined (c :: c' :: cs)) = if mkdirP then (do
        let (st, _) ← tfsMkdir st d c
        namexLoop mkdirP rounds st d (joined (c :: c' :: cs)))
      else .ok (st, ⟨-enoent, d, joined (c :: c' :: cs)⟩) := by
  obtain ⟨htake, hdrop⟩ := takeWhile_joined hc.2.1 c' cs
  rw [child_of_dir hd, Option.map_eq_none_iff] at hchild
  rw [namexLoop, hdrop]
  dsimp only
  rw [htake, if_neg (Nat.not_lt.2 hc.2.2), tfsLookup_of_dir hd, ok_bind, hchild]
  rfl

variable {leaf : List UInt8}

lemma namexLoop_leaf (hleaf : slash ∉ leaf) :
    namexLoop mkdirP (rounds + 1) st d (joined [leaf]) = .ok (st, ⟨0, d, leaf⟩) := by
  rw [namexLoop, show joined [leaf] = leaf from rfl, dropWhile_leaf hleaf]

lemma exists_cons_append (cs : Path) (leaf : List UInt8) : ∃ c' cs', cs ++ [leaf] = c' :: cs' := by
  cases cs with
  | nil => exact ⟨leaf, [], rfl⟩
  | cons c cs => exact ⟨c, cs ++ [leaf], rfl⟩

/-- Without `mkdir_p` the loop ends in the directory of the leaf, if all
directories are there. -/
lemma namexLoop_find (h : TreeInv st t) (hleaf : slash ∉ leaf) (cs : Path) :
    ∀ (p : Path) (d rounds : Nat), st.resolve p = some d →
    (∀ c ∈ cs, NameOk c) → Clear t (p ++ (cs ++ [leaf])) → cs.length < rounds →
    (∃ a, st.resolve (p ++ cs) = some a ∧ namexLoop false rounds st d (joined (cs ++ [leaf])) =
    .ok (st, ⟨0, a, leaf⟩)) ∨ (st.resolve (p ++ cs) = none ∧ ∃ dirat name,
    namexLoop false rounds st d (joined (cs ++ [leaf])) = .ok (st, ⟨-enoent, dirat, name⟩)) := by
  induction cs with
  | nil =>
    intro p d rounds hp _ _ hrounds
    obtain ⟨rounds, rfl⟩ := Nat.exists_eq_succ_of_ne_zero (by omega : rounds ≠ 0)
    refine .inl ⟨d, ?_, namexLoop_leaf hleaf⟩
    rw [append_nil]
    exact hp
  | cons c cs ih =>
    intro p d rounds hp hcs hclear hrounds
    obtain ⟨rounds, rfl⟩ := Nat.exists_eq_succ_of_ne_zero (by omega : rounds ≠ 0)
    obtain ⟨size, ht, hd⟩ := h.dir hclear (by simp) hp
    obtain ⟨c', cs', hsplit⟩ := exists_cons_append cs leaf
    have hc := hcs c mem_cons_self
    rw [cons_append, hsplit]
    cases hchild : st.child d c with
    | none =>
      refine .inr ⟨?_, d, joined (c :: c' :: cs'), ?_⟩
      · unfold Tmpfs.resolve
        rw [walk_append, show walk st.child st.root p = some d from hp,
          Option.bind_some, walk, hchild, Option.bind_none]
      · rw [namexLoop_missing hc hd hchild]
        rfl
    | some a =>
      rw [namexLoop_found hc hd hchild, ← hsplit]
      have hp' : st.resolve (p ++ [c]) = some a := by
        rw [resolve_concat, hp, Option.bind_some, hchild]
      have hnext := ih (p ++ [c]) a rounds hp' (fun x hx => hcs x (mem_cons_of_mem c hx))
        (by rw [append_assoc]; exact hclear)
        (by rw [length_cons] at hrounds; omega)
      rw [append_assoc] at hnext
      exact hnext

/-- With `mkdir_p` the loop makes the missing directories. -/
lemma namexLoop_make (hleaf : slash ∉ leaf) (cs : Path) :
    ∀ (st : Tmpfs) (t : SizeTree) (p : Path) (d rounds : Nat), TreeInv st t →
    st.resolve p = some d → (∀ c ∈ cs, NameOk c) →
    Clear t (p ++ (cs ++ [leaf])) → 2 * cs.length < rounds →
    ∃ st' a, namexLoop true rounds st d (joined (cs ++ [leaf])) = .ok (st', ⟨0, a, leaf⟩) ∧
    TreeInv st' (addDirs t p cs) ∧ st'.resolve (p ++ cs) = some a ∧
    Clear (addDirs t p cs) (p ++ (cs ++ [leaf])) ∧
    ∀ q, st'.resolve q = st.resolve q ∨ (st.resolve q = none ∧ q <+: p ++ cs) := by
  induction cs with
  | nil =>
    intro st t p d rounds h hp _ hclear hrounds
    obtain ⟨rounds, rfl⟩ := Nat.exists_eq_succ_of_ne_zero (by omega : rounds ≠ 0)
    refine ⟨st, d, namexLoop_leaf hleaf, h, ?_, hclear, fun q => .inl rfl⟩
    rw [append_nil]
    exact hp
  | cons c cs ih =>
    intro st t p d rounds h hp hcs hclear hrounds
    rw [length_cons] at hrounds
    obtain ⟨rounds, rfl⟩ : ∃ r, rounds = r + 2 := ⟨rounds - 2, by omega⟩
    obtain ⟨size, ht, hd⟩ := h.dir hclear (by simp) hp
    obtain ⟨c', cs', hsplit⟩ := exists_cons_append cs leaf
    have hc := hcs c mem_cons_self
    have hrest : ∀ x ∈ cs, NameOk x := fun x hx => hcs x (mem_cons_of_mem c hx)
    have hassoc : ∀ l, p ++ [c] ++ l = p ++ c :: l := by simp
    cases hchild : st.child d c with
    | some a =>
      have hp' : st.resolve (p ++ [c]) = some a := by
        rw [resolve_concat, hp, Option.bind_some, hchild]
      have hsome : (node t (p ++ [c])).isSome := by
        obtain ⟨inode, -, hnode⟩ := h.alive hp'
        rw [hnode]
        rfl
      have hnext := ih st t (p ++ [c]) a (rounds + 1) h hp' hrest
        (by rw [hassoc]; exact hclear) (by omega)
      rw [cons_append, hsplit, namexLoop_found hc hd hchild, ← hsplit, addDirs, if_pos hsome]
      rw [hassoc, hassoc] at hnext
      exact hnext
    | none =>
      -- the directory is made in one round and found in the next
      have hnone : st.resolve (p ++ [c]) = none := by
        rw [resolve_concat, hp, Option.bind_some, hchild]
      have hmade := h.made hp hd hc.1 hnone true
      have hresolve := h.made_resolve hp hd true hnone
      have hp' : (st.made d size ht c true).resolve p = some d := by
        rw [hresolve, if_neg (by simp), hp]
      have hp'' : (st.made d size ht c true).resolve (p ++ [c]) = some st.freeAddr := by
        rw [hresolve, if_pos rfl]
      have hchild' : (st.made d size ht c true).child d c = some st.freeAddr := by
        rw [resolve_concat, hp', Option.bind_some] at hp''
        exact hp''
      have hd' : (st.made d size ht c true).inodes d =
          some (.dir size (htableAdd ht ⟨c, st.freeAddr⟩)) := by
        rw [made_inodes, if_pos rfl]
      have hclear' : Clear (add t (p ++ [c]) .dir) (p ++ c :: (cs ++ [leaf])) :=
        Clear.addDir hclear (by simp)
      obtain ⟨st', a, hrun, hinv, hend, hclear'', hframe⟩ := ih _ _ (p ++ [c])
        st.freeAddr rounds hmade hp'' hrest (by rw [hassoc]; exact hclear')
        (by omega)
      have hisNone : ¬ (node t (p ++ [c])).isSome := by
        rw [h.resolve_none.1 hnone]
        exact nofun
      rw [hassoc] at hend hclear''
      refine ⟨st', a, ?_, ?_, hend, ?_, fun q => ?_⟩
      · rw [cons_append, hsplit, namexLoop_missing hc hd hchild,
          if_pos rfl, tfsMkdir, tfsMknod_eq h.dirs hd hc.1, ok_bind]
        dsimp only
        rw [namexLoop_found hc hd' hchild', ← hsplit]
        exact hrun
      · rw [addDirs, if_neg hisNone]
        exact hinv
      · rw [addDirs, if_neg hisNone]
        exact hclear''
      rw [← hassoc]
      rcases hframe q with hsame | ⟨hq, hunder⟩
      · rw [hresolve] at hsame
        by_cases heq : q = p ++ [c]
        · refine .inr ⟨heq ▸ hnone, ?_⟩
          rw [heq]
          exact prefix_append _ _
        · rw [if_neg heq] at hsame
          exact .inl hsame
      · rw [hresolve] at hq
        split at hq
        · cases hq
        · exact .inr ⟨hq, hunder⟩

end

/-! ## The calls -/

section

variable {st : Tmpfs} {t : SizeTree} {p : Path}

/-- `tfs_namex` runs its loop on the components. -/
lemma tfsNamex_pathOf {mkdirP : Bool} (hp : ∀ c ∈ p, NameOk c) (hne : p ≠ []) :
    tfsNamex st (pathOf p) mkdirP =
    namexLoop mkdirP (2 * (joined p).length + 1) st st.root (joined p) := by
  cases p with
  | nil => exact absurd rfl hne
  | cons c cs =>
    have hlength := length_le_joined hp
    have hjoined : joined (c :: cs) ≠ [] := by
      intro hnil
      rw [hnil] at hlength
      cases hlength
    unfold tfsNamex
    rw [if_neg (by simp [pathOf]), dropWhile_pathOf (hp c mem_cons_self)]
    dsimp only
    rw [if_neg hjoined]

lemma pathOf_ne_root (hp : ∀ c ∈ p, NameOk c) (hne : p ≠ []) : pathOf p ≠ [slash] := by
  intro heq
  have hlength := length_le_joined hp
  have hnil : joined p = [] := List.cons.inj heq |>.2
  rw [hnil] at hlength
  exact hne (eq_nil_of_length_eq_zero (Nat.le_zero.1 hlength))

/-- `tfs_open_path` follows the path. -/
lemma TreeInv.openPath (h : TreeInv st t) (hp : ∀ c ∈ p, NameOk c)
    (hclear : Clear t p) : tfsOpenPath st (pathOf p) = .ok (st.resolve p) := by
  rcases eq_nil_or_concat' p with rfl | ⟨cs, leaf, rfl⟩
  · rfl
  have hleaf : NameOk leaf := hp leaf (by simp)
  have hcs : ∀ c ∈ cs, NameOk c := fun c hc => hp c (by simp [hc])
  have hlength := length_le_joined hp
  have hrounds : cs.length < 2 * (joined (cs ++ [leaf])).length + 1 := by
    rw [length_append, length_singleton] at hlength
    omega
  unfold tfsOpenPath
  rw [if_neg (pathOf_ne_root hp (by simp)), tfsNamex_pathOf hp (by simp)]
  rcases namexLoop_find h hleaf.2.1 cs [] st.root _ rfl hcs hclear hrounds with
    ⟨a, ha, hrun⟩ | ⟨hnone, dirat, name, hrun⟩
  · obtain ⟨size, ht, hd⟩ := h.dir hclear (by simp) ha
    rw [hrun, ok_bind]
    dsimp only
    rw [if_neg (by simp), tfsLookup_of_dir hd, ok_bind, resolve_concat,
      show st.resolve cs = some a from ha, Option.bind_some, child_of_dir hd]
    rfl
  rw [hrun, ok_bind]
  dsimp only
  rw [if_pos (show -enoent ≠ 0 by decide), resolve_concat, show st.resolve cs = none from hnone]
  rfl

/-- A node is made where there was none, with the directories on the way. -/
lemma TreeInv.makePath (h : TreeInv st t) (hp : ∀ c ∈ p, NameOk c)
    (hclear : Clear t p) (hnew : p ≠ [] → node t p = none) (mkdir : Bool) :
    let made := makeNode t p (if mkdir then .dir else .file (p.getLastD []).length)
    ∃ st' ret, Userland.makePath st (pathOf p) mkdir = .ok (st', ret) ∧
      made.2 = .returned ret ∧ TreeInv st' made.1 ∧
      ∀ q, q ≠ p → (node t q = none → ¬ q <+: p) → st'.resolve q = st.resolve q := by
  rcases eq_nil_or_concat' p with rfl | ⟨cs, leaf, rfl⟩
  · exact ⟨st, -einval, rfl, rfl, h, fun _ _ _ => rfl⟩
  have hnone := hnew (by simp)
  unfold makeNode
  rw [if_neg (by simp)]
  have hleaf : NameOk leaf := hp leaf (by simp)
  have hcs : ∀ c ∈ cs, NameOk c := fun c hc => hp c (by simp [hc])
  have hlength := length_le_joined hp
  rw [length_append, length_singleton] at hlength
  obtain ⟨st1, a, hrun, hinv, ha, hclear', hframe⟩ := namexLoop_make hleaf.2.1 cs
    st t [] st.root (2 * (joined (cs ++ [leaf])).length + 1) h rfl hcs hclear
    (by omega)
  rw [nil_append] at ha hclear'
  obtain ⟨size, ht, hd⟩ := hinv.dir hclear' (by simp) ha
  -- the directories are shorter than the path itself
  have hnone' : st1.resolve (cs ++ [leaf]) = none := by
    rcases hframe (cs ++ [leaf]) with hsame | ⟨-, hunder⟩
    · rw [hsame]
      exact h.resolve_none.2 hnone
    have hle := hunder.length_le
    simp only [length_append, length_singleton, nil_append] at hle
    omega
  refine ⟨st1.made a size ht leaf mkdir, 0, ?_, rfl, ?_, fun q hq hunder => ?_⟩
  · unfold Userland.makePath
    rw [tfsNamex_pathOf hp (by simp), hrun, ok_bind]
    dsimp only
    rw [if_neg (by decide), tfsMknod_eq hinv.dirs hd hleaf.1]
  · rw [dropLast_concat, getLastD_concat]
    exact hinv.made ha hd hleaf.1 hnone' mkdir
  rw [hinv.made_resolve ha hd mkdir hnone', if_neg hq]
  rcases hframe q with hsame | ⟨hmissing, hpre⟩
  · exact hsame
  · exact absurd (hpre.trans (prefix_append _ _)) (hunder (h.resolve_none.1 hmissing))

/-- A leaf is removed, and nothing else. -/
lemma TreeInv.unlink (h : TreeInv st t) (hp : ∀ c ∈ p, NameOk c) (hclear : Clear t p) :
    ∃ st' ret, tmpfsUnlink st (pathOf p) = .ok (st', ret) ∧
    (removeNode t p).2 = .returned ret ∧ TreeInv st' (removeNode t p).1 ∧
    ∀ q, q ≠ p → st'.resolve q = st.resolve q := by
  rcases eq_nil_or_concat' p with rfl | ⟨cs, leaf, rfl⟩
  · exact ⟨st, -einval, rfl, rfl, h, fun _ _ => rfl⟩
  have hleaf : NameOk leaf := hp leaf (by simp)
  have hcs : ∀ c ∈ cs, NameOk c := fun c hc => hp c (by simp [hc])
  have hlength := length_le_joined hp
  rw [length_append, length_singleton] at hlength
  unfold tmpfsUnlink removeNode
  rw [tfsNamex_pathOf hp (by simp), if_neg (by simp)]
  rcases namexLoop_find h hleaf.2.1 cs [] st.root
    (2 * (joined (cs ++ [leaf])).length + 1) rfl hcs hclear (by omega) with
    ⟨a, ha, hrun⟩ | ⟨hnone, dirat, name, hrun⟩
  · obtain ⟨size, ht, hd⟩ := h.dir hclear (by simp) ha
    rw [nil_append] at ha
    rw [hrun, ok_bind]
    dsimp only
    rw [if_neg (by decide)]
    obtain ⟨st', ret, hremove⟩ : ∃ st' ret, tfsRemove st a leaf =
        .ok (st', ret) := tfsRemove_returns h.dirs hd
    rw [hremove]
    refine ⟨st', ret, rfl, ?_⟩
    cases tfsRemove_removal hremove with
    | missing hmissing =>
      have hchild := hmissing.resolve_left hleaf.1
      have hnode : node t (cs ++ [leaf]) = none := by
        rw [← h.resolve_none, resolve_concat, ha, Option.bind_some, hchild]
      rw [hnode]
      exact ⟨rfl, h, fun _ _ => rfl⟩
    | @notEmpty b inode hchild hinode hnot =>
      have hb : st.resolve (cs ++ [leaf]) = some b := by
        rw [resolve_concat, ha, Option.bind_some, hchild]
      have hfull : hasChild t (cs ++ [leaf]) = true := by
        have hiff := h.removable_iff hb hinode
        rw [hnot] at hiff
        simpa using hiff
      obtain ⟨inode', hinode', hnode⟩ := h.alive hb
      rw [hinode] at hinode'
      cases hinode'
      cases inode with
      | reg size' data => cases hnot
      | dir size' ht' =>
        rw [hnode]
        dsimp only [TmpInode.node]
        rw [if_pos hfull]
        exact ⟨rfl, h, fun _ _ => rfl⟩
    | @freed size' ht' dent inode hname hdir hfind hinode hremovable =>
      have hb : st.resolve (cs ++ [leaf]) = some dent.inode := by
        rw [resolve_concat, ha, Option.bind_some, child_of_dir hdir, hfind]
        rfl
      have hempty := (h.removable_iff hb hinode).1 hremovable
      obtain ⟨inode', hinode', hnode⟩ := h.alive hb
      rw [hinode] at hinode'
      cases hinode'
      have hremoved := h.removed ha hdir hfind hinode hremovable
      have hframe : ∀ q, q ≠ cs ++ [leaf] → (st.removed a size' ht' leaf
          dent.inode).resolve q = st.resolve q := by
        intro q hq
        rw [h.removed_resolve ha hdir hfind hinode hremovable, if_neg hq]
      rw [hnode]
      cases inode with
      | reg size'' data => exact ⟨rfl, hremoved, hframe⟩
      | dir size'' ht'' =>
        dsimp only [TmpInode.node]
        rw [hempty]
        exact ⟨rfl, hremoved, hframe⟩
  · rw [hrun, ok_bind]
    dsimp only
    rw [if_pos (show -enoent < 0 by decide)]
    have hnode : node t (cs ++ [leaf]) = none := by
      rw [← h.resolve_none, resolve_concat, show st.resolve cs = none from hnone, Option.bind_none]
    rw [hnode]
    exact ⟨st, -enoent, rfl, rfl, h, fun _ _ => rfl⟩

/-- Every call does what the tree does, and touches no other path. -/
lemma TreeInv.call (h : TreeInv st t) {op : TreeOp} (hvalid : op.Valid)
    (hallowed : TreeAllowed t op) :
    ∃ st', tmpfsCall st op = .ok (st', (treeCall t op).2) ∧ TreeInv st' (treeCall t op).1 ∧
    ∀ q, q ≠ op.path → (node t q = none → ¬ q <+: op.path) → st'.resolve q = st.resolve q := by
  obtain ⟨hclear, hnew⟩ := hallowed
  cases op with
  | creat p =>
    obtain ⟨st', ret, hrun, hret, hinv, hframe⟩ := h.makePath (p := p) hvalid hclear hnew false
    refine ⟨st', ?_, hinv, hframe⟩
    dsimp only [tmpfsCall]
    rw [fsCreat_eq, hrun]
    exact congrArg (fun out => Except.ok (st', out)) hret.symm
  | mkdir p =>
    obtain ⟨st', ret, hrun, hret, hinv, hframe⟩ := h.makePath (p := p) hvalid hclear hnew true
    refine ⟨st', ?_, hinv, hframe⟩
    dsimp only [tmpfsCall]
    rw [tmpfsMkdir_eq, hrun]
    exact congrArg (fun out => Except.ok (st', out)) hret.symm
  | unlink p | rmdir p =>
    change ∀ c ∈ p, NameOk c at hvalid
    change Clear t p at hclear
    obtain ⟨st', ret, hrun, hret, hinv, hframe⟩ := h.unlink hvalid hclear
    refine ⟨st', ?_, hinv, fun q hq _ => hframe q hq⟩
    dsimp only [tmpfsCall, treeCall, tmpfsRmdir]
    rw [hrun, hret]
    rfl
  | openPath p =>
    change ∀ c ∈ p, NameOk c at hvalid
    change Clear t p at hclear
    refine ⟨st, ?_, h, fun _ _ _ => rfl⟩
    dsimp only [tmpfsCall, treeCall]
    rw [h.openPath hvalid hclear, ok_bind]
    show Except.ok (st, Outcome.opened (st.nodeAt p)) = _
    rw [h.nodes p]

end

lemma TreeInv.init (oracle : Nat → Nat) : TreeInv (initTmpfs oracle) [] := by
  refine ⟨DirInv.init oracle, ?_, fun p => ?_⟩
  · intro d size ht hd b
    change Function.update (fun _ => none) 1 _ d = _ at hd
    rw [Function.update_apply] at hd
    split at hd
    · cases hd
      exact nodup_nil
    · cases hd
  · cases p with
    | nil | cons c cs => rfl

/-- Something is only below a directory. -/
lemma TreeInv.closed {st : Tmpfs} {t : SizeTree} (h : TreeInv st t) {p : Path}
    {c : List UInt8} (hnode : node t (p ++ [c]) ≠ none) : node t p = some .dir := by
  have hresolve := mt h.resolve_none.1 hnode
  rw [resolve_concat] at hresolve
  obtain ⟨a, ha⟩ := Option.ne_none_iff_exists'.1 hresolve
  obtain ⟨d, hd, hchild⟩ := Option.bind_eq_some_iff.1 ha
  obtain ⟨size, ht, dent, hdir, -⟩ := child_eq_some.1 hchild
  obtain ⟨inode, hinode, hnode'⟩ := h.alive hd
  rw [hdir] at hinode
  cases hinode
  exact hnode'

/-- **tmpfs is a tree.** Every history of calls under the condition runs, names
are unique in their directories, every path that can be followed opens what the
tree has there, and the next call under the condition delivers what the tree
delivers and changes the end of no path except its own and those of its new
ancestors. -/
theorem tmpfs_behaves_as_tree (oracle : Nat → Nat) (ops : List TreeOp)
    (hvalid : ∀ op ∈ ops, op.Valid)
    (hadm : Admissible treeStep TreeAllowed [] ops) :
    ∃ st t, run callStep (initTmpfs oracle) ops = .ok st ∧
      run treeStep [] ops = .ok t ∧ UniqueNames st ∧
      (∀ p c, node t (p ++ [c]) ≠ none → node t p = some .dir) ∧
      (∀ p, (∀ c ∈ p, NameOk c) → Clear t p → tfsOpenPath st (pathOf p) = .ok (st.resolve p) ∧
        st.nodeAt p = node t p) ∧
      ∀ op, op.Valid → TreeAllowed t op → ∃ st', tmpfsCall st op = .ok (st', (treeCall t op).2) ∧
          ∀ q, q ≠ op.path → (node t q = none → ¬ q <+: op.path) →
            st'.resolve q = st.resolve q := by
  obtain ⟨st, t, hrun, htree, hinv⟩ : ∃ st t, run callStep (initTmpfs oracle) ops = .ok st ∧
      run treeStep [] ops = .ok t ∧ TreeInv st t := by
    refine run_simulates ?_ ops _ [] (TreeInv.init oracle) (hadm.with_requests hvalid)
    intro st t op hinv hall
    obtain ⟨st', hcall, hinv', -⟩ := hinv.call hall.1 hall.2
    refine ⟨st', _, ?_, rfl, hinv'⟩
    unfold callStep
    rw [hcall]
    rfl
  refine ⟨st, t, hrun, htree, hinv.uniqueNames, fun p c => hinv.closed,
    fun p hp hclear => ⟨hinv.openPath hp hclear, hinv.nodes p⟩,
    fun op hop hall => ?_⟩
  obtain ⟨st', hcall, -, hframe⟩ := hinv.call hop hall
  exact ⟨st', hcall, hframe⟩

/-- A file is made below a directory that is missing, a directory beside it is
made and removed again, and the directory that is not empty is not removed. -/
def makeAndRemove : List TreeOp := [.creat [bytes ['a'], bytes ['b', 'c']], .mkdir [bytes ['d']],
    .rmdir [bytes ['a']], .rmdir [bytes ['d']]]

theorem tmpfs_behaves_as_tree_make_and_remove : ∃ st,
    run callStep (initTmpfs fun _ => 0) makeAndRemove = .ok st ∧
    st.nodeAt [bytes ['a']] = some .dir ∧
    st.nodeAt [bytes ['a'], bytes ['b', 'c']] = some (.file 2) ∧
    st.nodeAt [bytes ['d']] = none := by
  obtain ⟨st, t, hrun, htree, -, -, hopens, -⟩ := tmpfs_behaves_as_tree (fun _ => 0)
    makeAndRemove (by decide +kernel) (by decide +kernel)
  cases htree
  have ha := (hopens [bytes ['a']] (by decide +kernel) (by decide +kernel)).2
  have hb := (hopens [bytes ['a'], bytes ['b', 'c']] (by decide +kernel) (by decide +kernel)).2
  have hd := (hopens [bytes ['d']] (by decide +kernel) (by decide +kernel)).2
  refine ⟨st, hrun, ha.trans ?_, hb.trans ?_, hd.trans ?_⟩
  · decide +kernel
  · decide +kernel
  · decide +kernel

/-- A new file opens with the length of its name as its size. -/
theorem new_file_size_is_name_length : ∃ st,
    tmpfsCall (initTmpfs fun _ => 0) (.creat [bytes ['a']]) = .ok (st, .returned 0) ∧
    ∃ st', tmpfsCall st (.openPath [bytes ['a']]) = .ok (st', .opened (some (.file 1))) := by
  obtain ⟨⟨st, out⟩, hrun, rfl, ⟨st', out'⟩, hopen, rfl⟩ : ∃ x,
      tmpfsCall (initTmpfs fun _ => 0) (.creat [bytes ['a']]) = .ok x ∧ x.2 = .returned 0 ∧
      ∃ y, tmpfsCall x.1 (.openPath [bytes ['a']]) = .ok y ∧
        y.2 = .opened (some (.file 1)) := by decide +kernel
  exact ⟨st, hrun, st', hopen⟩

end ChCore.Userland
