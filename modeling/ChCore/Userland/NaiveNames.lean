import ChCore.Lib.Runs
import ChCore.Userland.NaiveDir

/-!
# Which names the naive file system has

The names that were created and not removed since are kept beside the device
(`namesStep`), and `NamesLaw` relates the two. The directory block is written by
`creat` only: an inode between 2 and 63 never names a block of them (`BlockNumber`),
so that no `pwrite` reaches the directory. Two things in `file_ops.c` break the
law. The loop of `naive_fs_unlink` has no exit, and `naive_fs_creat` checks
neither that it found an inode nor that the entry fits in the block.
-/

namespace ChCore.Userland.NaiveFs

open Kernel Lib.Buffers Lib.Runs Function

/-! ## Runs -/

/-- The calls of the interface that can change the device, and `naive_fs_pread`. -/
inductive NaiveOp
  | creat (name : CString)
  | pwrite (name : CString) (offset size : Int) (buffer : List UInt8)
  | pread (name : CString) (offset size : Int)
  | unlink (name : CString)
  deriving DecidableEq

/-- The name that a call is about. -/
def NaiveOp.name : NaiveOp → CString
  | .creat name => name
  | .pwrite name _ _ _ => name
  | .pread name _ _ => name
  | .unlink name => name

/-- The device after a call. -/
def naiveStep (d : Disk) : NaiveOp → Exec Disk
  | .creat name => do .ok (← creat d name).1
  | .pwrite name offset size buffer => do
    .ok (← pwrite d name offset size buffer).1
  | .pread name offset size => do
    let _ ← pread d name offset size
    .ok d
  | .unlink name => do .ok (← unlink d name).1

/-- The names that were created and not unlinked since. -/
def namesAfter (names : List CString) : NaiveOp → List CString
  | .creat name => if name ∈ names then names else names ++ [name]
  | .unlink name => names.filter (· ≠ name)
  | .pwrite .. => names
  | .pread .. => names

/-- A call, with the names beside the device. -/
def namesStep (s : Disk × List CString) (op : NaiveOp) : Exec (Disk × List CString) := do
  .ok (← naiveStep s.1 op, namesAfter s.2 op)

/-- An inode is free, and the directory has room for the entry. -/
def CanCreat (d : Disk) (name : CString) : Prop := FreeInode (d 0) ∧
    dirLength (d 1) + (Dentry.text ⟨name, newInode (d 0)⟩).length ≤ blockSize

instance (d : Disk) (name : CString) : Decidable (CanCreat d name) :=
  inferInstanceAs (Decidable (_ ∧ _))

/-- What the law asks of `naive_fs_creat` for a name that does not exist. -/
structure CreatMeets (d : Disk) (names : List CString) (name : CString) : Prop where
  made : CanCreat d name → ∃ d', creat d name = .ok (d', 0) ∧
    ∀ m, access d' m = .ok (if m ∈ names ++ [name] then 0 else -1)
  refused : ¬ CanCreat d name → ∃ res, res ≠ 0 ∧ creat d name = .ok (d, res)

/-- What the functions do in a state with these names. -/
structure NamesLaw (d : Disk) (names : List CString) : Prop where
  access : ∀ name, access d name = .ok (if name ∈ names then 0 else -1)
  creatAgain : ∀ name, name ∈ names → creat d name = .ok (d, -1)
  /-- A new name is dealt with as it should be exactly when it can be made. -/
  creatNew : ∀ name, ValidName name → name ∉ names → (CreatMeets d names name ↔ CanCreat d name)
  unlinkAbsent : ∀ name, name ∉ names → unlink d name = .ok (d, -1)
  /-- No name is ever removed. -/
  unlinkPresent : ∀ name, name ∈ names → ∀ d', unlink d name ≠ .ok (d', 0)

/-- Which calls keep the law. -/
def NamesAllowed (s : Disk × List CString) (op : NaiveOp) : Prop := ValidName op.name ∧
    match op with
    | .creat name => name ∈ s.2 ∨ CanCreat s.1 name
    | .unlink name => name ∉ s.2
    | .pwrite .. => True
    | .pread .. => True

instance (s : Disk × List CString) : ∀ op, Decidable (NamesAllowed s op) := fun op => by
  cases op <;> (dsimp only [NamesAllowed]; infer_instance)

/-- The arguments of a read or a write stay in one block. -/
def NaiveOp.InRange : NaiveOp → Prop
  | .pwrite _ offset size buffer =>
    0 ≤ offset ∧ 0 ≤ size ∧ size ≤ buffer.length ∧ offset + size ≤ blockSize
  | .pread _ offset size => 0 ≤ offset ∧ 0 ≤ size ∧ offset + size ≤ blockSize
  | .creat _ => True
  | .unlink _ => True

instance : ∀ op : NaiveOp, Decidable op.InRange := fun op => by
  cases op <;> (dsimp only [NaiveOp.InRange]; infer_instance)

/-! ## The invariant -/

/-- The directory holds the names, and no inode names a block below 64 but 0. -/
structure NamesInv (d : Disk) (names : List CString) (es : List Dentry) : Prop where
  dir : HoldsDir (d 1) es
  names : es.map Dentry.name = names
  numbers : ∀ k : Int, 2 ≤ k → k < 64 → BlockNumber (d k).int

lemma int_zero : Block.zero.int = 0 := by decide +kernel

lemma namesInv_zero : NamesInv Disk.zero [] [] where
  dir := holdsDir_zero
  names := rfl
  numbers := fun _ _ _ => .inl int_zero

section

variable {d : Disk} {names : List CString} {es : List Dentry} {name : CString}

lemma NamesInv.room_iff (h : NamesInv d names es) (k : Nat) :
    dirLength (d 1) + (Dentry.text ⟨name, k⟩).length ≤ blockSize ↔
    (dirText es).length + (Dentry.text ⟨name, k⟩).length ≤ blockSize := by
  rw [h.dir.dirLength_eq]

/-- A new name for which there is an inode and room gets an entry. -/
lemma NamesInv.creat_made (h : NamesInv d names es) (hvalid : ValidName name)
    (hnew : name ∉ names) (hcan : CanCreat d name) :
    ∃ d', creat d name = .ok (d', 0) ∧ d' 0 = takenMap (d 0) ∧
    (∀ x : Int, x ≠ 0 → x ≠ 1 → d' x = d x) ∧
    NamesInv d' (names ++ [name]) (es ++ [⟨name, newInode (d 0)⟩]) := by
  have hnew' : name ∉ es.map Dentry.name := h.names ▸ hnew
  have hroom := (h.room_iff (newInode (d 0))).1 hcan.2
  have hentry : Dentry.Valid ⟨name, newInode (d 0)⟩ :=
    ⟨hvalid, two_le_newInode (d 0), (newInode_lt_iff (d 0)).2 hcan.1⟩
  have hother : ∀ (dentryBuf : Block) (x : Int), x ≠ 0 → x ≠ 1 →
      ((d.bwrite 0 (takenMap (d 0))).bwrite 1 dentryBuf) x = d x := by
    intro dentryBuf x h0 h1
    rw [Disk.bwrite, update_of_ne h1, Disk.bwrite, update_of_ne h0]
  refine ⟨_, by rw [creat_new h.dir hnew', memcpy_ok hroom]; rfl, ?_, hother _, ?_⟩
  · rw [Disk.bwrite, update_of_ne (by decide), Disk.bwrite, update_self]
  exact {
    dir := by
      rw [Disk.bwrite, update_self]
      exact h.dir.add hentry hnew' hroom
    names := by rw [List.map_append, h.names]; rfl
    numbers := by
      intro k hlo hhi
      rw [hother _ k (by omega) (by omega)]
      exact h.numbers k hlo hhi }

/-- Otherwise `naive_fs_creat` does not refuse. -/
lemma NamesInv.creat_unchecked (h : NamesInv d names es) (hnew : name ∉ names)
    {d' : Disk} {res : Int} (hcreat : creat d name = .ok (d', res)) : res = 0 := by
  rw [creat_new h.dir (h.names ▸ hnew)] at hcreat
  obtain ⟨dentryBuf, _, hres⟩ := bind_eq_ok.1 hcreat
  exact (Prod.mk.inj (Except.ok.inj hres)).2.symm

lemma NamesInv.access_eq (h : NamesInv d names es) (m : CString) :
    access d m = .ok (if m ∈ names then 0 else -1) := by
  rw [NaiveFs.access_eq h.dir, h.names]

lemma NamesInv.creat_existing (h : NamesInv d names es) (hname : name ∈ names) :
    creat d name = .ok (d, -1) :=
  NaiveFs.creat_existing h.dir (h.names ▸ hname)

lemma NamesInv.creatMeets_iff (h : NamesInv d names es)
    (hvalid : ValidName name) (hnew : name ∉ names) :
    CreatMeets d names name ↔ CanCreat d name := by
  constructor
  · intro hmeets
    by_contra hcan
    obtain ⟨res, hres, hcreat⟩ := hmeets.refused hcan
    exact hres (h.creat_unchecked hnew hcreat)
  · intro hcan
    refine ⟨fun _ => ?_, fun hcannot => absurd hcan hcannot⟩
    obtain ⟨d', hcreat, _, _, hinv⟩ := h.creat_made hvalid hnew hcan
    exact ⟨d', hcreat, hinv.access_eq⟩

end

/-! ## Removing -/

section

variable {d : Disk} {name : CString}

/-- The loop returns an error, if it returns. -/
lemma unlinkLoop_returns {dentryBuf : Block} (rounds : Nat) :
    ∀ {startPos endPos newPos : Nat} {inodeNum res : Int} {newBuf : Block},
    unlinkLoop name dentryBuf rounds startPos endPos inodeNum newBuf newPos =
    .ok res → res = -1 := by
  induction rounds with
  | zero =>
    intro startPos endPos newPos inodeNum res newBuf hloop
    cases hloop
  | succ rounds ih =>
    intro startPos endPos newPos inodeNum res newBuf hloop
    rw [unlinkLoop] at hloop
    split at hloop
    · exact (Except.ok.inj hloop).symm
    obtain ⟨nameBuf, _, hloop⟩ := bind_eq_ok.1 hloop
    obtain ⟨endPos', _, hloop⟩ := bind_eq_ok.1 hloop
    split at hloop
    · exact ih hloop
    obtain ⟨newBuf', _, hloop⟩ := bind_eq_ok.1 hloop
    exact ih hloop

/-- `naive_fs_unlink` never removes anything. -/
lemma unlink_returns {d' : Disk} {res : Int}
    (h : unlink d name = .ok (d', res)) : d' = d ∧ res = -1 := by
  rw [unlink] at h
  obtain ⟨found, _, h⟩ := bind_eq_ok.1 h
  split at h
  · exact ⟨(Prod.mk.inj (Except.ok.inj h)).1.symm, (Prod.mk.inj (Except.ok.inj h)).2.symm⟩
  obtain ⟨res', hloop, h⟩ := bind_eq_ok.1 h
  obtain ⟨rfl, rfl⟩ := Prod.mk.inj (Except.ok.inj h)
  exact ⟨rfl, unlinkLoop_returns _ hloop⟩

lemma unlink_absent {es : List Dentry} (h : HoldsDir (d 1) es)
    (hname : name ∉ es.map Dentry.name) : unlink d name = .ok (d, -1) := by
  rw [unlink, access_eq h, ok_bind, if_neg hname, if_pos (by decide)]

end

/-! ## Writing -/

section

variable {d d' : Disk} {names : List CString} {es : List Dentry}

/-- No write reaches the directory, and the inodes name data blocks after it. -/
lemma NamesInv.written (h : NamesInv d names es) {e : Dentry} (he : e ∈ es) (block : Block) :
    NamesInv ((withBlock d e.inode).bwrite (blockNum d e.inode) block) names es := by
  have hlow := (h.dir.valid e he).low
  have hhigh := (h.dir.valid e he).high
  have hnumber : BlockNumber (blockNum d e.inode) :=
    blockNum_number (h.numbers e.inode (by omega) (by omega))
  have hbefore : ∀ x : Int, 1 ≤ x → x < 64 →
      ((withBlock d e.inode).bwrite (blockNum d e.inode) block) x = withBlock d e.inode x := by
    intro x hlo hhi
    rw [Disk.bwrite, update_of_ne]
    intro hx
    rw [← hx] at hnumber
    rcases hnumber with hzero | hblock
    · omega
    · omega
  exact {
    dir := by
      rw [hbefore 1 (by decide) (by decide), withBlock_other (by decide) (by omega)]
      exact h.dir
    names := h.names
    numbers := by
      intro k hlo hhi
      rw [hbefore k (by omega) hhi]
      by_cases hk : k = e.inode
      · rw [hk, withBlock_inode]
        exact hnumber
      rw [withBlock_other (by omega) hk]
      exact h.numbers k hlo hhi }

lemma NamesInv.pwrite (h : NamesInv d names es) {name : CString}
    {offset size res : Int} {buffer : List UInt8}
    (hwrite : pwrite d name offset size buffer = .ok (d', res)) : NamesInv d' names es := by
  by_cases hname : name ∈ es.map Dentry.name
  · obtain ⟨e, he, rfl⟩ := List.mem_map.1 hname
    rw [pwrite_eq h.dir he] at hwrite
    obtain ⟨block, _, hres⟩ := bind_eq_ok.1 hwrite
    rw [← (Prod.mk.inj (Except.ok.inj hres)).1]
    exact h.written he block
  · rw [pwrite_absent h.dir hname] at hwrite
    rw [← (Prod.mk.inj (Except.ok.inj hwrite)).1]
    exact h

end

/-! ## The law -/

section

variable {d d' : Disk} {names : List CString} {es : List Dentry}

lemma NamesInv.law (h : NamesInv d names es) : NamesLaw d names where
  access := h.access_eq
  creatAgain := fun _ hname => h.creat_existing hname
  creatNew := fun _ hvalid hnew => h.creatMeets_iff hvalid hnew
  unlinkAbsent := fun _ hname => unlink_absent h.dir (h.names ▸ hname)
  unlinkPresent := by
    intro name _ d' hunlink
    exact absurd (unlink_returns hunlink).2 (by decide)

variable {op : NaiveOp}

/-- An allowed call keeps the invariant. -/
lemma NamesInv.step (h : NamesInv d names es)
    (hallowed : NamesAllowed (d, names) op) (hstep : naiveStep d op = .ok d') :
    ∃ es', NamesInv d' (namesAfter names op) es' := by
  obtain ⟨hvalid, hop⟩ := hallowed
  cases op with
  | creat name =>
    change ValidName name at hvalid
    obtain ⟨⟨d'', res⟩, hcreat, hres⟩ := bind_eq_ok.1 hstep
    obtain rfl : d'' = d' := Except.ok.inj hres
    by_cases hname : name ∈ names
    · rw [h.creat_existing hname] at hcreat
      rw [← (Prod.mk.inj (Except.ok.inj hcreat)).1, namesAfter, if_pos hname]
      exact ⟨es, h⟩
    obtain ⟨d1, hmade, _, _, hinv⟩ := h.creat_made hvalid hname (hop.resolve_left hname)
    rw [hmade] at hcreat
    rw [← (Prod.mk.inj (Except.ok.inj hcreat)).1, namesAfter, if_neg hname]
    exact ⟨_, hinv⟩
  | pwrite name offset size buffer =>
    obtain ⟨⟨d'', res⟩, hwrite, hres⟩ := bind_eq_ok.1 hstep
    obtain rfl : d'' = d' := Except.ok.inj hres
    exact ⟨es, h.pwrite hwrite⟩
  | pread name offset size =>
    obtain ⟨_, _, hres⟩ := bind_eq_ok.1 hstep
    obtain rfl : d = d' := Except.ok.inj hres
    exact ⟨es, h⟩
  | unlink name =>
    obtain ⟨⟨d'', res⟩, hunlink, hres⟩ := bind_eq_ok.1 hstep
    obtain rfl : d'' = d' := Except.ok.inj hres
    have hfilter : names.filter (· ≠ name) = names := by
      rw [List.filter_eq_self]
      intro m hm
      rw [decide_eq_true_iff]
      rintro rfl
      exact hop hm
    rw [(unlink_returns hunlink).1, namesAfter, hfilter]
    exact ⟨es, h⟩

/-- An allowed call whose arguments are in range returns. -/
lemma NamesInv.returns (h : NamesInv d names es)
    (hallowed : NamesAllowed (d, names) op) (hrange : op.InRange) :
    ∃ d', naiveStep d op = .ok d' := by
  obtain ⟨hvalid, hop⟩ := hallowed
  cases op with
  | creat name =>
    change ValidName name at hvalid
    by_cases hname : name ∈ names
    · exact ⟨d, by rw [naiveStep, h.creat_existing hname]; rfl⟩
    obtain ⟨d', hmade, _⟩ := h.creat_made hvalid hname (hop.resolve_left hname)
    exact ⟨d', by rw [naiveStep, hmade]; rfl⟩
  | pwrite name offset size buffer =>
    obtain ⟨hoffset, hsize, hbuffer, hend⟩ := hrange
    by_cases hname : name ∈ es.map Dentry.name
    · obtain ⟨e, he, rfl⟩ := List.mem_map.1 hname
      obtain ⟨hlen, hcopy⟩ := copyIn_ok
        (withBlock d e.inode (blockNum d e.inode)) hoffset hsize hbuffer hend
      exact ⟨_, by rw [naiveStep, pwrite_eq h.dir he, hcopy]; rfl⟩
    · exact ⟨d, by rw [naiveStep, pwrite_absent h.dir hname]; rfl⟩
  | pread name offset size =>
    by_cases hname : name ∈ es.map Dentry.name
    · obtain ⟨e, he, rfl⟩ := List.mem_map.1 hname
      refine ⟨d, ?_⟩
      change 0 ≤ offset ∧ 0 ≤ size ∧ offset + size ≤ blockSize at hrange
      rw [naiveStep, pread_eq h.dir he, copyOut, if_pos hrange]
      rfl
    · exact ⟨d, by rw [naiveStep, pread_absent h.dir hname]; rfl⟩
  | unlink name => exact ⟨d, by rw [naiveStep, unlink_absent h.dir (h.names ▸ hop)]; rfl⟩

/-- The state of a run satisfies the invariant. -/
def NamesOk (s : Disk × List CString) : Prop := ∃ es, NamesInv s.1 s.2 es

lemma NamesOk.step {s s' : Disk × List CString} (h : NamesOk s)
    (hallowed : NamesAllowed s op) (hstep : namesStep s op = .ok s') : NamesOk s' := by
  obtain ⟨es, hinv⟩ := h
  obtain ⟨d', hstep, hs'⟩ := bind_eq_ok.1 hstep
  rw [← Except.ok.inj hs']
  exact hinv.step hallowed hstep

lemma NamesOk.returns {s : Disk × List CString} (h : NamesOk s)
    (hallowed : op.InRange ∧ NamesAllowed s op) : ∃ s', namesStep s op = .ok s' ∧ NamesOk s' := by
  obtain ⟨es, hinv⟩ := h
  obtain ⟨d', hstep⟩ := hinv.returns hallowed.2 hallowed.1
  exact ⟨(d', namesAfter s.2 op), by rw [namesStep, hstep]; rfl, hinv.step hallowed.2 hstep⟩

end

/-- As long as no existing name is unlinked, and every new name finds a free
inode and room for its entry, the names that are found are the names that were
created. Calls whose arguments are in range return. -/
theorem naive_fs_names (ops : List NaiveOp)
    (hadm : Admissible namesStep NamesAllowed (Disk.zero, []) ops) :
    ((∀ op ∈ ops, op.InRange) → ∃ s, run namesStep (Disk.zero, []) ops = .ok s) ∧
    ∀ d names, run namesStep (Disk.zero, []) ops = .ok (d, names) → NamesLaw d names := by
  have hinit : NamesOk (Disk.zero, []) := ⟨[], namesInv_zero⟩
  constructor
  · intro hrange
    obtain ⟨s, hrun, _⟩ := run_total (fun _ _ h hall => h.returns hall) ops _
      hinit (hadm.with_requests hrange)
    exact ⟨s, hrun⟩
  · intro d names hrun
    obtain ⟨es, hinv⟩ := run_preserves_of_admissible
      (fun _ _ _ h hall hstep => h.step hall hstep) ops _ _ hinit hadm hrun
    exact hinv.law

/-- A file is created and written, cannot be created again, and a name that does
not exist cannot be unlinked. -/
theorem naive_fs_names_create_and_write : ∃ d names, run namesStep (Disk.zero, [])
        [.creat ⟨[97], by decide⟩, .pwrite ⟨[97], by decide⟩ 0 3 [1, 2, 3],
          .creat ⟨[97], by decide⟩, .unlink ⟨[98], by decide⟩] =
        .ok (d, names) ∧ NamesLaw d names := by
  have hlaw := naive_fs_names [.creat ⟨[97], by decide⟩, .pwrite ⟨[97], by decide⟩ 0 3 [1, 2, 3],
      .creat ⟨[97], by decide⟩, .unlink ⟨[98], by decide⟩] (by decide +kernel)
  obtain ⟨⟨d, names⟩, hrun⟩ := hlaw.1 (by decide)
  exact ⟨d, names, hrun, hlaw.2 d names hrun⟩

/-- Unlinking the only file runs over the end of the directory block. Unlinking
a file whose name is its own inode number returns an error, and leaves the file
there. -/
theorem unlink_does_not_remove : (do
      let (d, _) ← creat Disk.zero ⟨[97], by decide⟩
      let (_, res) ← unlink d ⟨[97], by decide⟩
      .ok res : Exec Int) = .error .outOfBounds ∧
    (do
      let (d, _) ← creat Disk.zero ⟨[50], by decide⟩
      let (d, _) ← creat d ⟨[98], by decide⟩
      let (d, res) ← unlink d ⟨[50], by decide⟩
      .ok (res, ← access d ⟨[50], by decide⟩) : Exec (Int × Int)) =
      .ok (-1, 0) := by
  decide +kernel

end ChCore.Userland.NaiveFs
