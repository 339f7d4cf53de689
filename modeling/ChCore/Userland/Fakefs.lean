import ChCore.Userland.TmpfsFile
import ChCore.Userland.TmpfsDir

/-!
# Files of fakefs

`fakefs_read` and `fakefs_write` (`userland/servers/fakefs/fakefs_ops.c`) on one
file. A write sets the size of the file to the end of the range that it writes,
also if the file is longer, so it drops the bytes behind the range. The files of
tmpfs keep them.

## Main results

* `writeLaw_iff`, `fakefs_file_array`: when files are arrays of bytes
* `rmdir_removes_subtree`: what a directory takes with it
-/

namespace ChCore.Userland.Fakefs

open Kernel Lib.Buffers Lib.Runs List

/-- The fields of `struct fakefs_file_node` that the calls use: a block of memory,
empty for a null pointer, and an `int`. -/
structure FileNode where
  file : List UInt8
  size : Int
  deriving DecidableEq

def FileNode.init : FileNode := ⟨[], 0⟩

/-- The block that is written to. If the file has to grow, it is what `malloc`
returns, which holds the bytes `fresh`, with the bytes of the file copied to its
start. -/
def grow (n : FileNode) (sizeAfterWrite : Int) (fresh : Nat → UInt8) : Exec (List UInt8) :=
  let newFile := (List.range sizeAfterWrite.toNat).map fresh
  if sizeAfterWrite ≤ n.size then .ok n.file
  else if sizeAfterWrite < 0 then .error .bug
  else if n.file = [] then .ok newFile
  else if n.size < 0 ∨ n.file.length < n.size.toNat then .error .outOfBounds
  else .ok (splice newFile 0 (n.file.take n.size.toNat))

/-- `fakefs_write`. -/
def fakefsWrite (n : FileNode) (offset : Nat) (buf : List UInt8) (fresh : Nat → UInt8) :
    Exec (FileNode × Int) := do
  let sizeAfterWrite := toInt (u64 (offset + buf.length))
  let file ← grow n sizeAfterWrite fresh
  if buf ≠ [] ∧ file.length < offset + buf.length then .error .outOfBounds
  else return (⟨splice file offset buf, sizeAfterWrite⟩, toInt buf.length)

/-- `fakefs_read`: the bytes for the buffer, and the return value. The size is
compared as an `unsigned long`. -/
def fakefsRead (n : FileNode) (offset size : Nat) : Exec (List UInt8 × Int) :=
  let fileSize := (n.size % 2 ^ 64).toNat
  let count := min (fileSize - offset) size
  if fileSize ≤ offset then .ok ([], 0)
  else if n.file.length < offset + count then .error .outOfBounds
  else .ok ((n.file.drop offset).take count, toInt count)

/-! ## One call -/

/-- The file has the size and the bytes of the array. -/
structure IsArray (n : FileNode) (a : List UInt8) : Prop where
  size : n.size = a.length
  file : a <+: n.file

/-- A write does what it does on the array. -/
def WriteLaw (n : FileNode) (a : List UInt8) (offset : Nat) (buf : List UInt8)
    (fresh : Nat → UInt8) : Prop :=
  ∃ n', fakefsWrite n offset buf fresh = .ok (n', buf.length) ∧ IsArray n' (splice a offset buf)

/-- A read delivers the bytes of the array. -/
def ReadLaw (n : FileNode) (a : List UInt8) (offset size : Nat) : Prop :=
  fakefsRead n offset size =
    .ok ((a.drop offset).take size, ((a.drop offset).take size).length)

/-- The write ends at the end of the file or behind it, and below `2 ^ 31`. -/
def WriteAllowed (a : List UInt8) (offset : Nat) (buf : List UInt8) : Prop :=
  a.length ≤ offset + buf.length ∧ offset + buf.length < 2 ^ 31

section

variable {n : FileNode} {a : List UInt8} (h : IsArray n a)

include h

lemma grow_spec {size : Nat} (hsize : a.length ≤ size) (fresh : Nat → UInt8) :
    ∃ file, grow n size fresh = .ok file ∧ a <+: file ∧ size ≤ file.length := by
  have hnew : ((List.range size).map fresh).length = size := by rw [length_map, length_range]
  have hlen := h.file.length_le
  unfold grow
  rw [h.size]
  by_cases hgrow : (size : Int) ≤ a.length
  · rw [if_pos hgrow]
    exact ⟨n.file, rfl, h.file, by omega⟩
  rw [if_neg hgrow, if_neg (Int.not_lt.2 (Int.natCast_nonneg _))]
  simp only [Int.toNat_natCast]
  by_cases hfile : n.file = []
  · have hnil : a = [] := prefix_nil.1 (hfile ▸ h.file)
    rw [if_pos hfile, hnil]
    exact ⟨_, rfl, nil_prefix, hnew.ge⟩
  rw [if_neg hfile, if_neg (by omega), ← prefix_iff_eq_take.1 h.file]
  refine ⟨_, rfl, prefix_append a _, ?_⟩
  rw [length_splice (Nat.zero_le _), hnew]
  omega

/-- **One write.** It does what it does on the array if and only if it ends at
the end of the file or behind it, and the size fits an `int`. -/
theorem writeLaw_iff {offset : Nat} {buf : List UInt8} (hoffset : offset ≤ a.length)
    (hbuf : buf.length < 2 ^ 64) (fresh : Nat → UInt8) :
    WriteLaw n a offset buf fresh ↔ WriteAllowed a offset buf := by
  constructor
  · rintro ⟨n', hrun, h'⟩
    obtain ⟨file, -, hrun⟩ := bind_eq_ok.1 hrun
    obtain ⟨-, hrun⟩ := guard_eq_ok hrun
    obtain ⟨rfl, -⟩ := Prod.mk.inj (Except.ok.inj hrun)
    have hsize := h'.size
    rw [length_splice hoffset] at hsize
    unfold toInt u64 at hsize
    rw [Int.bmod_def] at hsize
    dsimp only at hsize
    unfold WriteAllowed
    omega
  · rintro ⟨hend, hlt⟩
    have hafter : toInt (u64 (offset + buf.length)) = (offset + buf.length : Nat) := by
      rw [u64_of_lt (by omega), toInt_of_lt hlt]
    obtain ⟨file, hfile, ⟨rest, rfl⟩, hlen⟩ := grow_spec h hend fresh
    refine ⟨⟨splice (a ++ rest) offset buf, (offset + buf.length : Nat)⟩, ?_, ?_, ?_⟩
    · rw [fakefsWrite, hafter, hfile, ok_bind, if_neg (by omega), toInt_of_lt (by omega)]
      rfl
    · rw [length_splice hoffset, Nat.max_eq_right hend]
    -- the write covers everything behind its start
    unfold splice
    rw [take_append_of_le_length hoffset, drop_eq_nil_of_le hend, append_nil]
    exact prefix_append _ _

/-- **One read.** -/
theorem readLaw (hword : a.length < 2 ^ 31) (offset size : Nat) : ReadLaw n a offset size := by
  have hsize : (n.size % 2 ^ 64).toNat = a.length := by
    rw [h.size]
    omega
  have hlen := h.file.length_le
  unfold ReadLaw fakefsRead
  rw [hsize]
  by_cases hend : a.length ≤ offset
  · rw [if_pos hend, drop_eq_nil_of_le hend, take_nil]
    rfl
  obtain ⟨rest, hrest⟩ := h.file
  have hbytes : (n.file.drop offset).take (min (a.length - offset) size) =
      (a.drop offset).take size := by
    rw [← hrest, drop_append_of_le_length (by omega), ← length_drop,
      take_append_of_le_length (Nat.min_le_left _ _), Nat.min_comm, ← take_eq_take_min]
  rw [if_neg hend, if_neg (by omega), hbytes, toInt_of_lt (by omega), length_take,
    length_drop, Nat.min_comm]

end

/-! ## Sequences of calls -/

/-- A call, and what the block holds that `malloc` returns in it. -/
def fakeStep (n : FileNode) : FileOp × (Nat → UInt8) → Exec FileNode
  | (.write offset buf, fresh) => (fakefsWrite n offset buf fresh).map (·.1)
  | (.read offset size, _) => (fakefsRead n offset size).map fun _ => n

/-- Offsets are not beyond the end, and writes do not end before it. -/
def FakeAllowed (a : List UInt8) : FileOp × (Nat → UInt8) → Prop
  | (.write offset buf, _) => offset ≤ a.length ∧ WriteAllowed a offset buf
  | (.read offset _, _) => offset ≤ a.length

instance (a : List UInt8) : DecidablePred (FakeAllowed a)
  | (.write _ _, _) => inferInstanceAs (Decidable (_ ∧ _ ∧ _))
  | (.read _ _, _) => inferInstanceAs (Decidable (_ ≤ _))

lemma fakeStep_isArray (n : FileNode) (a : List UInt8) (op : FileOp × (Nat → UInt8))
    (h : IsArray n a ∧ a.length < 2 ^ 31) (hall : FakeAllowed a op) :
    ∃ n' a', fakeStep n op = .ok n' ∧ arrayStep a op.1 = .ok a' ∧
    IsArray n' a' ∧ a'.length < 2 ^ 31 := by
  obtain ⟨h, hword⟩ := h
  rcases op with ⟨⟨offset, buf⟩ | ⟨offset, size⟩, fresh⟩
  · obtain ⟨hoffset, hplace⟩ := hall
    have hlt := hplace.2
    obtain ⟨n', hrun, h'⟩ := (writeLaw_iff h hoffset (by omega) fresh).2 hplace
    refine ⟨n', splice a offset buf, ?_, rfl, h', ?_⟩
    · rw [fakeStep, hrun]
      rfl
    rw [length_splice hoffset]
    omega
  · have hread : fakefsRead n offset size = _ := readLaw h hword offset size
    refine ⟨n, a, ?_, rfl, h, hword⟩
    rw [fakeStep, hread]
    rfl

/-- **A file is a byte array.** Every sequence of calls in which no write ends
before the end of the file, or at `2 ^ 31` or beyond, runs to its end, and then
the file has the size and the bytes of the array. The next write does what it
does on the array if and only if it is such a write, and the next read always
does. -/
theorem fakefs_file_array (ops : List (FileOp × (Nat → UInt8)))
    (hadm : Admissible (arrayStep · ·.1) FakeAllowed [] ops) :
    ∃ n a, run fakeStep .init ops = .ok n ∧ run (arrayStep · ·.1) [] ops = .ok a ∧ IsArray n a ∧
      (∀ offset buf fresh, offset ≤ a.length → buf.length < 2 ^ 64 →
        (WriteLaw n a offset buf fresh ↔ WriteAllowed a offset buf)) ∧
      ∀ offset size, ReadLaw n a offset size := by
  obtain ⟨n, a, hrun, harray, h, hword⟩ := run_simulates fakeStep_isArray ops .init []
    ⟨⟨rfl, nil_prefix⟩, by decide⟩ hadm
  exact ⟨n, a, hrun, harray, h,
    fun offset buf fresh hoffset hbuf => writeLaw_iff h hoffset hbuf fresh, readLaw h hword⟩

theorem fakefs_file_array_append : ∃ n,
    run fakeStep .init [(.write 0 [1, 2], fun _ => 9), (.write 1 [3, 4], fun _ => 9)] = .ok n ∧
    IsArray n [1, 3, 4] := by
  obtain ⟨n, a, hrun, harray, h, -⟩ := fakefs_file_array
    [(.write 0 [1, 2], fun _ => 9), (.write 1 [3, 4], fun _ => 9)] (by decide)
  cases harray
  exact ⟨n, hrun, h⟩

/-- Three bytes are written, and then the first of them again: the file is left
with one byte, and a read of three bytes delivers that one. -/
theorem fakefs_overwrite_truncates : ∃ n,
    run fakeStep .init [(.write 0 [1, 2, 3], fun _ => 9), (.write 0 [7], fun _ => 9)] = .ok n ∧
    run arrayStep [] [.write 0 [1, 2, 3], .write 0 [7]] = .ok [7, 2, 3] ∧
    n.size = 1 ∧ fakefsRead n 0 3 = .ok ([7], 1) :=
  ⟨⟨[7, 2, 3], 1⟩, by decide, by decide, rfl, by decide⟩

/-! ## Directories -/

/-- `FAKEFS_MAX_PATH_LEN`. -/
def maxPathLen : Nat := 512

/-- A node of `fakefs_files`, with its address and the string in its array `path`. -/
@[ext]
structure PathNode where
  addr : Nat
  name : List UInt8
  file : FileNode
  fits : name.length < maxPathLen
  plain : 0 ∉ name

instance : DecidableEq PathNode := fun _ _ => decidable_of_iff _ PathNode.ext_iff.symm

/-- The array, which was set to zero before the string was copied. -/
def PathNode.path (n : PathNode) : List UInt8 :=
  n.name ++ replicate (maxPathLen - n.name.length) 0

/-- `fakefs_rmdir`: the nodes are collected, and then taken out one by one. -/
def fakefsRmdir (files : List PathNode) (path : List UInt8) : List PathNode :=
  let delNodes := files.filter fun n => n.path.take path.length = path ∧
    (n.path[path.length]? = some slash ∨ n.path[path.length]? = some 0)
  delNodes.foldl List.erase files

lemma PathNode.matches_iff (n : PathNode) {path : List UInt8} (hplain : 0 ∉ path) :
    (n.path.take path.length = path ∧
    (n.path[path.length]? = some slash ∨ n.path[path.length]? = some 0)) ↔
    n.name = path ∨ path ++ [slash] <+: n.name := by
  have hpos : 0 < maxPathLen - n.name.length := Nat.sub_pos_of_lt n.fits
  unfold PathNode.path
  generalize maxPathLen - n.name.length = zeros at hpos
  have hpre : path ++ [slash] <+: n.name ↔
      n.name.take path.length = path ∧ n.name[path.length]? = some slash := by
    constructor
    · rintro ⟨rest, hrest⟩
      simp [← hrest]
    · rintro ⟨htake, hslash⟩
      rw [prefix_iff_eq_take, length_append, length_singleton, take_add_one, htake, hslash]
      rfl
  rcases Nat.lt_trichotomy n.name.length path.length with hlt | heq | hgt
  · -- the array has a zero where the path goes on
    refine iff_of_false (fun h => hplain (h.1 ▸ ?_)) ?_
    · rw [take_append]
      refine mem_append_right _ (mem_take_iff_getElem.2 ⟨0, ?_⟩)
      simp
      omega
    rw [hpre, getElem?_eq_none hlt.le]
    rintro (rfl | h)
    · exact absurd hlt (lt_irrefl _)
    · cases h.2
  · rw [hpre, take_left' heq, ← heq, getElem?_eq_none le_rfl, getElem?_append_right le_rfl]
    simp [hpos]
  · rw [hpre, take_append_of_le_length hgt.le, getElem?_append_left hgt]
    have hzero : n.name[path.length]? ≠ some 0 := fun h => n.plain (mem_of_getElem? h)
    have hne : n.name ≠ path := fun h => absurd hgt (h ▸ lt_irrefl _)
    simp [hzero, hne]

/-- **`fakefs_rmdir`** takes out the directory and what lies below it, and nothing else. -/
theorem rmdir_removes_subtree {files : List PathNode} (hnodup : (files.map PathNode.addr).Nodup)
    {path : List UInt8} (hplain : 0 ∉ path) : fakefsRmdir files path =
      files.filter fun n => ¬ (n.name = path ∨ path ++ [slash] <+: n.name) := by
  unfold fakefsRmdir
  dsimp only
  rw [← diff_eq_foldl, (hnodup.of_map _).sdiff_eq_filter]
  refine filter_congr fun n hmem => ?_
  simp only [mem_filter, hmem, true_and, decide_eq_true_eq, n.matches_iff hplain]

/-- The directory `/a` with the file `/a/b`, and the file `/ab`. -/
def subtreeFiles : List PathNode :=
  [⟨1, [47, 97], .init, by decide, by decide⟩, ⟨2, [47, 97, 47, 98], .init, by decide, by decide⟩,
    ⟨3, [47, 97, 98], .init, by decide, by decide⟩]

theorem rmdir_removes_subtree_three_nodes : fakefsRmdir subtreeFiles [47, 97] =
    subtreeFiles.filter fun n => ¬ (n.name = [47, 97] ∨ [47, 97] ++ [slash] <+: n.name) :=
  rmdir_removes_subtree (by decide) (by decide)

end ChCore.Userland.Fakefs
