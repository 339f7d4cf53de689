import ChCore.Userland.NaiveNames
import Mathlib.Data.List.Nodup

/-!
# What the naive file system stores

Beside the device, `filesStep` keeps what was last written to each position of
each file, and `DataLaw` asks that reads return it and that a write to one file
does not change what another file reads.

The search for a data block marks every free block and keeps the last, so only
the first file that is written gets one. The inode of any other file names
block 0, which is the map. The law holds in runs in which one file is written,
if it is alone when it is written for the first time.
-/

namespace ChCore.Userland.NaiveFs

open Kernel Lib.Buffers Lib.Runs Function List

/-! ## Files -/

/-- What the calls so far mean: the files in the order of their creation, those
that were written, and the byte last written to a position of a file. -/
structure Files where
  names : List CString
  written : List CString
  bytes : CString → Nat → Option UInt8

def Files.none : Files := ⟨[], [], fun _ _ => .none⟩

/-- The bytes of a file after `data` is written from `pos` on. -/
def overwritten (bytes : Nat → Option UInt8) (pos : Nat) (data : List UInt8) : Nat → Option UInt8 :=
  fun i => if pos ≤ i ∧ i < pos + data.length then data[i - pos]? else bytes i

/-- The files after `data` is written to the file `name`. -/
def Files.write (f : Files) (name : CString) (pos : Nat) (data : List UInt8) : Files where
  names := f.names
  written := name :: f.written
  bytes := update f.bytes name (overwritten (f.bytes name) pos data)

lemma Files.bytes_write_self (f : Files) (name : CString) (pos : Nat) (data : List UInt8) :
    (f.write name pos data).bytes name = overwritten (f.bytes name) pos data :=
  update_self ..

lemma Files.bytes_write_other (f : Files) {name m : CString} (pos : Nat)
    (data : List UInt8) (h : m ≠ name) : (f.write name pos data).bytes m = f.bytes m :=
  update_of_ne h ..

def filesAfter (f : Files) : NaiveOp → Files
  | .creat name => { f with names := namesAfter f.names (.creat name) }
  | .pwrite name offset size buffer =>
    if name ∈ f.names then
      f.write name offset.toNat (buffer.take size.toNat)
    else f
  | .pread .. => f
  | .unlink _ => f

/-- A call, with the files beside the device. -/
def filesStep (s : Disk × Files) (op : NaiveOp) : Exec (Disk × Files) := do
  .ok (← naiveStep s.1 op, filesAfter s.2 op)

/-- The entries of a directory to which the files were added in this order: the
inodes are taken from 2 on. -/
def entriesFrom (n : Nat) : List CString → List Dentry
  | [] => []
  | name :: names => ⟨name, n⟩ :: entriesFrom (n + 1) names

/-- Calls of `creat`, `pwrite` and `pread` on valid names, with at most 62 files
whose entries fit in the directory, and with ranges inside of a block. -/
def InDomain (f : Files) (op : NaiveOp) : Prop := ValidName op.name ∧ op.InRange ∧ match op with
    | .creat name => name ∈ f.names ∨ f.names.length < 62 ∧
      (dirText (entriesFrom 2 (f.names ++ [name]))).length ≤ blockSize
    | .unlink _ => False
    | .pwrite .. => True
    | .pread .. => True

instance (f : Files) : ∀ op, Decidable (InDomain f op) := by
  rintro (_ | _ | _ | _) <;> (dsimp only [InDomain]; infer_instance)

/-- A file that is written was written before, or is the only file. -/
def OwnBlock (f : Files) : NaiveOp → Prop
  | .pwrite name _ _ _ =>
    name ∈ f.names → name ∈ f.written ∨ f.names = [name]
  | .creat _ => True
  | .pread .. => True
  | .unlink _ => True

instance (f : Files) : ∀ op, Decidable (OwnBlock f op) := by
  rintro (_ | _ | _ | _) <;> (dsimp only [OwnBlock]; infer_instance)

/-- Reads return what was last written, and writes change no other file. -/
structure DataLaw (d : Disk) (f : Files) : Prop where
  reads : ∀ name (offset size : Int), name ∈ f.names → 0 ≤ offset → 0 ≤ size →
    offset + size ≤ blockSize →
    ∃ bytes, pread d name offset size = .ok (size, bytes) ∧ bytes.length = size.toNat ∧
      ∀ i b, i < size.toNat → f.bytes name (offset.toNat + i) = some b → bytes[i]? = some b
  isolated : ∀ name offset size buffer, InDomain f (.pwrite name offset size buffer) →
    OwnBlock f (.pwrite name offset size buffer) →
    ∃ d' res, pwrite d name offset size buffer = .ok (d', res) ∧
      ∀ m, m ≠ name → ∀ o n, pread d' m o n = pread d m o n

/-! ## The entries -/

lemma entriesFrom_names (names : List CString) :
    ∀ n, (entriesFrom n names).map Dentry.name = names := by
  induction names with
  | nil =>
    intro n
    rfl
  | cons name names ih =>
    intro n
    rw [entriesFrom, map_cons, ih]

variable {names : List CString}

lemma mem_names_iff {name : CString} (n : Nat) :
    name ∈ names ↔ ∃ e ∈ entriesFrom n names, e.name = name := by
  rw [← mem_map, entriesFrom_names]

lemma entriesFrom_concat (names : List CString) (name : CString) :
    ∀ n, entriesFrom n (names ++ [name]) = entriesFrom n names ++ [⟨name, n + names.length⟩] := by
  induction names with
  | nil =>
    intro n
    rfl
  | cons m names ih =>
    intro n
    rw [cons_append, entriesFrom, ih, entriesFrom, cons_append, length_cons]
    congr 4
    omega

lemma entriesFrom_inode {e : Dentry} : ∀ {n}, e ∈ entriesFrom n names → n ≤ e.inode := by
  induction names with
  | nil =>
    intro n he
    exact absurd he not_mem_nil
  | cons name names ih =>
    intro n he
    rcases mem_cons.1 he with rfl | he
    · exact le_refl n
    have := ih he
    omega

/-- Two files do not share an inode. -/
lemma entriesFrom_inj {e e' : Dentry} :
    ∀ {n}, e ∈ entriesFrom n names → e' ∈ entriesFrom n names → e.inode = e'.inode → e = e' := by
  induction names with
  | nil =>
    intro n he
    exact absurd he not_mem_nil
  | cons name names ih =>
    intro n he he' hinode
    rcases mem_cons.1 he with rfl | he
    · rcases mem_cons.1 he' with rfl | he'
      · rfl
      have := entriesFrom_inode he'
      exact absurd hinode (by change n ≠ _; omega)
    rcases mem_cons.1 he' with rfl | he'
    · have := entriesFrom_inode he
      exact absurd hinode (by change _ ≠ n; omega)
    · exact ih he he' hinode

/-! ## The map after a creation -/

lemma byte_takenMap {map : Block} (h : newInode map < 64) (i : Nat) :
    (takenMap map).byte i = if i = newInode map then 1 else map.byte i := by
  rcases newInode_cases map with ⟨hlo, _, _, _, hset⟩ | ⟨_, heq⟩
  swap
  · omega
  have hlen : (takeInode (inodeBytes map) 2).1.length = 62 := by
    rw [length_takeInode, length_inodeBytes]
  by_cases hi : 2 ≤ i ∧ i < 64
  · rw [takenMap, byte_patch_inside _ _ _ _ hi.1 (by omega), hset,
      getD_eq_getElem?_getD, List.getElem?_set]
    by_cases hnew : i = newInode map
    · rw [if_pos (by omega), if_pos (by rw [length_inodeBytes]; omega), if_pos hnew]
      rfl
    rw [if_neg (by omega), if_neg hnew, getElem?_inodeBytes map (by omega),
      show 2 + (i - 2) = i by omega]
    rfl
  · rw [takenMap, byte_patch_outside _ _ _ _ (by omega), if_neg (by omega)]

lemma byte_filledMap (map : Block) {i : Nat} (h : i < 64) :
    (filledMap map).byte i = map.byte i := by
  rw [filledMap, byte_patch_outside _ _ _ _ (.inl h)]

/-! ## The invariant -/

/-- The bytes of a file, as far as they were written, are in the block. -/
def HoldsBytes (block : Block) (bytes : Nat → Option UInt8) : Prop :=
  ∀ i b, bytes i = some b → block.bytes[i]? = some b

structure DataInv (d : Disk) (f : Files) : Prop where
  dir : NamesInv d f.names (entriesFrom 2 f.names)
  /-- The inodes in use are those of the files. -/
  map : ∀ i, 2 ≤ i → i < 64 → ((d 0).byte i = 0 ↔ 2 + f.names.length ≤ i)
  /-- Only a file that was written has a block. -/
  noBlock : ∀ k : Int, 2 ≤ k → k < 64 →
    (∀ e ∈ entriesFrom 2 f.names, (e.inode : Int) = k → e.name ∉ f.written) →
    (d k).int = 0
  block : ∀ e ∈ entriesFrom 2 f.names, e.name ∈ f.written →
    64 ≤ (d e.inode).int ∧ HoldsBytes (d (d e.inode).int) (f.bytes e.name)
  unwritten : ∀ name, name ∉ f.written → ∀ i, f.bytes name i = .none
  created : ∀ name, name ∈ f.written → name ∈ f.names
  single : ∀ name, name ∈ f.written → ∀ name', name' ∈ f.written → name = name'
  /-- As long as no file was written, all data blocks are free. -/
  free : f.written = [] → ∀ i, 64 ≤ i → i < 512 → (d 0).byte i = 0

lemma byte_zero (i : Nat) : Block.zero.byte i = 0 := by
  rw [Block.byte, Block.zero, getD_eq_getElem?_getD, List.getElem?_replicate]
  split
  · rfl
  · rfl

lemma dataInv_zero : DataInv Disk.zero Files.none where
  dir := namesInv_zero
  map := fun i hlo _ => ⟨fun _ => hlo, fun _ => byte_zero i⟩
  noBlock := fun _ _ _ _ => int_zero
  block := fun _ he => absurd he not_mem_nil
  unwritten := fun _ _ _ => rfl
  created := fun _ h => absurd h not_mem_nil
  single := fun _ h => absurd h not_mem_nil
  free := fun _ i _ _ => byte_zero i

section

variable {d : Disk} {f : Files}

variable {e : Dentry}

lemma DataInv.noBlock_of_unwritten (h : DataInv d f)
    (he : e ∈ entriesFrom 2 f.names) (hw : e.name ∉ f.written) : (d e.inode).int = 0 := by
  have hvalid := h.dir.dir.valid e he
  have hlow := hvalid.low
  have hhigh := hvalid.high
  refine h.noBlock e.inode (by omega) (by omega) ?_
  intro e' he' hinode
  rw [entriesFrom_inj he' he (by omega)]
  exact hw

/-! ### Creating -/

/-- The search takes the inode behind the last one in use. -/
lemma DataInv.newInode_eq (h : DataInv d f) (hlen : f.names.length < 62) :
    newInode (d 0) = 2 + f.names.length := by
  have hfree : (d 0).byte (2 + f.names.length) = 0 := (h.map _ (by omega) (by omega)).2 le_rfl
  rcases newInode_cases (d 0) with ⟨hlo, hhi, hzero, hbefore, _⟩ | ⟨hnone, _⟩
  · have hge := (h.map _ hlo hhi).1 hzero
    by_contra hne
    exact hbefore (2 + f.names.length) (by omega) (by omega) hfree
  · exact absurd ⟨_, by omega, by omega, hfree⟩ hnone

variable {name : CString}

/-- A new file has an inode of its own and no block. -/
lemma DataInv.creat (h : DataInv d f) (hvalid : ValidName name)
    (hnew : name ∉ f.names) (hlen : f.names.length < 62)
    (hfit : (dirText (entriesFrom 2 (f.names ++ [name]))).length ≤ blockSize) :
    ∃ d', creat d name = .ok (d', 0) ∧ DataInv d' { f with names := f.names ++ [name] } := by
  have hinode := h.newInode_eq hlen
  have hcan : CanCreat d name := by
    refine ⟨(newInode_lt_iff (d 0)).1 (by omega), ?_⟩
    rw [h.dir.dir.dirLength_eq, hinode, ← length_append, ← dirText_concat, ← entriesFrom_concat]
    exact hfit
  have hnotWritten : name ∉ f.written := fun hw => hnew (h.created name hw)
  obtain ⟨d', hcreat, hmap, hother, hdir⟩ := h.dir.creat_made hvalid hnew hcan
  have hsame : ∀ k : Int, 2 ≤ k → d' k = d k := fun k hk => hother k (by omega) (by omega)
  have hentries : entriesFrom 2 (f.names ++ [name]) =
      entriesFrom 2 f.names ++ [⟨name, newInode (d 0)⟩] := by
    rw [entriesFrom_concat, hinode]
  refine ⟨d', hcreat, ?_⟩
  exact {
    dir := by
      rw [hentries]
      exact hdir
    map := by
      intro i hlo hhi
      have hbyte := h.map i hlo hhi
      rw [hmap, byte_takenMap (by omega), length_append, length_singleton]
      split
      case isTrue hi =>
        refine ⟨fun hone => absurd hone (by decide), fun hle => ?_⟩
        omega
      case isFalse hi =>
        rw [hbyte]
        omega
    noBlock := by
      intro k hlo hhi hk
      rw [hsame k hlo]
      refine h.noBlock k hlo hhi fun e he => hk e ?_
      rw [hentries]
      exact mem_append_left _ he
    block := by
      intro e he hw
      rw [hentries, mem_append, mem_singleton] at he
      rcases he with he | rfl
      · have hlow := (h.dir.dir.valid e he).low
        obtain ⟨hblock, hbytes⟩ := h.block e he hw
        rw [hsame _ (by omega), hsame _ (by omega)]
        exact ⟨hblock, hbytes⟩
      · exact absurd hw hnotWritten
    unwritten := h.unwritten
    created := fun m hm => mem_append_left _ (h.created m hm)
    single := h.single
    free := by
      intro hnone i hlo hhi
      rw [hmap, byte_takenMap (by omega), if_neg (by omega)]
      exact h.free hnone i hlo hhi }

/-! ### Writing -/

/-- The block that a write goes to is a data block, and holds what was written
to the file before. -/
lemma DataInv.target (h : DataInv d f) (he : e ∈ entriesFrom 2 f.names)
    (hown : e.name ∈ f.written ∨ f.names = [e.name]) :
    64 ≤ blockNum d e.inode ∧ HoldsBytes (withBlock d e.inode (blockNum d e.inode))
    (f.bytes e.name) := by
  by_cases hw : e.name ∈ f.written
  · obtain ⟨hblock, hbytes⟩ := h.block e he hw
    rw [withBlock_of_block hblock, blockNum_of_block hblock]
    exact ⟨hblock, hbytes⟩
  have halone := hown.resolve_left hw
  have hnone : f.written = [] := by
    rw [eq_nil_iff_forall_not_mem]
    intro m hm
    have hmem := h.created m hm
    rw [halone, mem_singleton] at hmem
    exact hw (hmem ▸ hm)
  have hzero : 0 ∈ dataBytes (d 0) := by
    rw [mem_iff_getElem?]
    refine ⟨0, ?_⟩
    have hbyte := h.free hnone 64 (le_refl 64) (by decide)
    have hlt : 64 < (d 0).bytes.length := by
      rw [(d 0).size]
      decide
    rw [Block.byte, getD_eq_getElem?_getD, List.getElem?_eq_getElem hlt, Option.getD_some] at hbyte
    rw [dataBytes, List.getElem?_drop, List.getElem?_eq_getElem hlt, hbyte]
  refine ⟨?_, ?_⟩
  · rw [blockNum, if_pos (by rw [h.noBlock_of_unwritten he hw]; decide)]
    rcases inodeWithBlock_cases (d 0) (d e.inode) with ⟨hfull, _⟩ | hint
    · exact absurd hzero hfull
    · exact hint.1
  · intro i b hb
    rw [h.unwritten e.name hw i] at hb
    cases hb

/-- What is written is in the block, and what was there around it stays. -/
lemma HoldsBytes.patch {block : Block} {bytes : Nat → Option UInt8}
    (h : HoldsBytes block bytes) {pos : Nat} {data : List UInt8}
    (hlen : pos + data.length ≤ blockSize) :
    HoldsBytes (block.patch pos data hlen) (overwritten bytes pos data) := by
  intro i b hb
  change (splice block.bytes pos data)[i]? = some b
  rw [getElem?_splice (by rw [block.size]; omega)]
  rw [overwritten] at hb
  split at hb
  case isTrue hi => rw [if_pos hi, hb]
  case isFalse hi =>
    rw [if_neg hi]
    exact h i b hb

section

variable {k : Nat} (block : Block) (hlow : 2 ≤ k) (hhigh : k < 64) (hblock : 64 ≤ blockNum d k)

include hblock

/-- Below the data blocks, a write changes what the search for a block did. -/
lemma written_below {x : Int} (hx : x < 64) :
    ((withBlock d k).bwrite (blockNum d k) block) x = withBlock d k x := by
  rw [Disk.bwrite, update_of_ne (by omega)]

include hhigh in
lemma written_inode : (((withBlock d k).bwrite (blockNum d k) block) k).int = blockNum d k := by
  rw [written_below block hblock (by omega), withBlock_inode]

lemma written_inode_of_ne {x : Int} (hlo : 1 ≤ x) (hhi : x < 64)
    (hx : x ≠ k) : ((withBlock d k).bwrite (blockNum d k) block) x = d x := by
  rw [written_below block hblock hhi, withBlock_other (by omega) hx]

include hlow in
lemma written_map {i : Nat} (hi : i < 64) :
    (((withBlock d k).bwrite (blockNum d k) block) 0).byte i = (d 0).byte i := by
  rw [written_below block hblock (by decide), withBlock]
  split
  · rw [Disk.bwrite, update_of_ne (by omega), Disk.bwrite, update_self, byte_filledMap _ hi]
  · rfl

end

/-- The files that were written after a write to `e` are `e` alone. -/
lemma DataInv.written_eq (h : DataInv d f) (hown : e.name ∈ f.written ∨ f.names = [e.name])
    (hname : name ∈ e.name :: f.written) : name = e.name := by
  rcases mem_cons.1 hname with rfl | hname
  · rfl
  rcases hown with hw | halone
  · exact h.single name hname e.name hw
  have hmem := h.created name hname
  rw [halone, mem_singleton] at hmem
  exact hmem

lemma DataInv.entry_eq (h : DataInv d f) {e' : Dentry}
    (he : e ∈ entriesFrom 2 f.names) (he' : e' ∈ entriesFrom 2 f.names)
    (hname : e'.name = e.name) : e' = e :=
  inj_on_of_nodup_map h.dir.dir.nodup he' he hname

/-- A write to a data block keeps the invariant. -/
lemma DataInv.written (h : DataInv d f) (he : e ∈ entriesFrom 2 f.names)
    (hown : e.name ∈ f.written ∨ f.names = [e.name]) {pos : Nat}
    {data : List UInt8} (hlen : pos + data.length ≤ blockSize) :
    DataInv ((withBlock d e.inode).bwrite (blockNum d e.inode)
    ((withBlock d e.inode (blockNum d e.inode)).patch pos data hlen))
    (f.write e.name pos data) := by
  obtain ⟨hblock, hbytes⟩ := h.target he hown
  have hlow := (h.dir.dir.valid e he).low
  have hhigh := (h.dir.dir.valid e he).high
  exact {
    dir := h.dir.written he _
    map := by
      intro i hlo hhi
      rw [written_map _ hlow hblock hhi]
      exact h.map i hlo hhi
    noBlock := by
      intro k hlo hhi hk
      have hne : k ≠ e.inode := by
        intro hk'
        exact hk e he hk'.symm mem_cons_self
      rw [written_inode_of_ne _ hblock (by omega) hhi hne]
      exact h.noBlock k hlo hhi fun e' he' hinode hw =>
        hk e' he' hinode (mem_cons_of_mem _ hw)
    block := by
      intro e' he' hw
      obtain rfl := h.entry_eq he he' (h.written_eq hown hw)
      rw [written_inode _ hhigh hblock, Disk.bwrite, update_self, f.bytes_write_self]
      exact ⟨hblock, hbytes.patch hlen⟩
    unwritten := by
      intro name hname i
      obtain ⟨hne, hname⟩ := not_or.1 (mt mem_cons.2 hname)
      rw [f.bytes_write_other pos data hne]
      exact h.unwritten name hname i
    created := by
      intro name hname
      rw [h.written_eq hown hname, mem_names_iff 2]
      exact ⟨e, he, rfl⟩
    single := by
      intro name hname name' hname'
      rw [h.written_eq hown hname, h.written_eq hown hname']
    free := fun hnone => absurd hnone (cons_ne_nil _ _) }

/-- A write to a data block does not change what another file reads. -/
lemma DataInv.isolated (h : DataInv d f) (he : e ∈ entriesFrom 2 f.names)
    (hown : e.name ∈ f.written ∨ f.names = [e.name]) (block : Block)
    {m : CString} (hm : m ≠ e.name) (offset size : Int) :
    pread ((withBlock d e.inode).bwrite (blockNum d e.inode) block) m offset
    size = pread d m offset size := by
  have hdir := (h.dir.written he block).dir
  by_cases hmem : m ∈ (entriesFrom 2 f.names).map Dentry.name
  · obtain ⟨em, hem, rfl⟩ := mem_map.1 hmem
    have hnames : em.name ∈ f.names := (mem_names_iff 2).2 ⟨em, hem, rfl⟩
    have hw : e.name ∈ f.written := by
      refine hown.resolve_right fun halone => hm ?_
      rw [halone, mem_singleton] at hnames
      exact hnames
    have hint : (d em.inode).int = 0 := by
      refine h.noBlock_of_unwritten hem fun hwm => hm ?_
      exact h.single _ hwm _ hw
    have hlow := (h.dir.dir.valid em hem).low
    have hhigh := (h.dir.dir.valid em hem).high
    have hblock := (h.block e he hw).1
    have hinode : (em.inode : Int) ≠ e.inode := by
      intro hinode
      exact hm (congrArg Dentry.name (entriesFrom_inj hem he (by omega)))
    have htarget := (h.target he hown).1
    rw [pread_eq hdir hem, pread_eq h.dir.dir hem,
      written_inode_of_ne block htarget (by omega) (by omega) hinode, hint,
      written_below block htarget (by decide), withBlock_of_block hblock]
  · rw [pread_absent hdir hmem, pread_absent h.dir.dir hmem]

/-- A write in range to an existing file. -/
lemma DataInv.pwrite (h : DataInv d f) (he : e ∈ entriesFrom 2 f.names)
    (hown : e.name ∈ f.written ∨ f.names = [e.name]) {offset size : Int} {buffer : List UInt8}
    (hrange : (NaiveOp.pwrite e.name offset size buffer).InRange) :
    ∃ d', pwrite d e.name offset size buffer = .ok (d', size) ∧
    DataInv d' (filesAfter f (.pwrite e.name offset size buffer)) ∧
    ∀ m, m ≠ e.name → ∀ o n, pread d' m o n = pread d m o n := by
  obtain ⟨hoffset, hsize, hbuffer, hend⟩ := hrange
  obtain ⟨hlen, hcopy⟩ := copyIn_ok
    (withBlock d e.inode (blockNum d e.inode)) hoffset hsize hbuffer hend
  refine ⟨_, by rw [pwrite_eq h.dir.dir he, hcopy]; rfl, ?_, ?_⟩
  · rw [filesAfter, if_pos ((mem_names_iff 2).2 ⟨e, he, rfl⟩)]
    exact h.written he hown hlen
  intro m hm o n
  exact h.isolated he hown _ hm o n

/-! ### Reading -/

lemma DataInv.reads (h : DataInv d f) {offset size : Int}
    (hname : name ∈ f.names) (hoffset : 0 ≤ offset) (hsize : 0 ≤ size)
    (hend : offset + size ≤ blockSize) :
    ∃ bytes, pread d name offset size = .ok (size, bytes) ∧ bytes.length = size.toNat ∧
    ∀ i b, i < size.toNat → f.bytes name (offset.toNat + i) = some b → bytes[i]? = some b := by
  obtain ⟨e, he, rfl⟩ := (mem_names_iff 2).1 hname
  refine ⟨slice (d (d e.inode).int).bytes offset.toNat (offset + size).toNat, ?_, ?_, ?_⟩
  · rw [pread_eq h.dir.dir he, copyOut, if_pos ⟨hoffset, hsize, hend⟩]
    rfl
  · rw [slice, length_take, length_drop, Block.size]
    omega
  intro i b hi hb
  have hw : e.name ∈ f.written := by
    by_contra hw
    rw [h.unwritten e.name hw] at hb
    cases hb
  rw [slice, List.getElem?_take_of_lt (by omega), List.getElem?_drop]
  exact (h.block e he hw).2 _ b hb

end

/-! ## The law -/

/-- The call is one of those that the law is about, and keeps it. -/
def DataAllowed (s : Disk × Files) (op : NaiveOp) : Prop := InDomain s.2 op ∧ OwnBlock s.2 op

instance (s : Disk × Files) (op : NaiveOp) : Decidable (DataAllowed s op) :=
  inferInstanceAs (Decidable (_ ∧ _))

lemma DataInv.law {d : Disk} {f : Files} (h : DataInv d f) : DataLaw d f where
  reads := fun _ _ _ hname hoffset hsize hend =>
    h.reads hname hoffset hsize hend
  isolated := by
    intro name offset size buffer hdomain hown
    by_cases hname : name ∈ f.names
    · obtain ⟨e, he, rfl⟩ := (mem_names_iff 2).1 hname
      obtain ⟨d', hwrite, _, hothers⟩ := h.pwrite he (hown hname) hdomain.2.1
      exact ⟨d', size, hwrite, hothers⟩
    refine ⟨d, -1, ?_, fun _ _ _ _ => rfl⟩
    apply pwrite_absent h.dir.dir
    rw [entriesFrom_names]
    exact hname

/-- An allowed call returns and keeps the invariant. -/
lemma DataInv.step {s : Disk × Files} {op : NaiveOp} (h : DataInv s.1 s.2)
    (hallowed : DataAllowed s op) : ∃ s', filesStep s op = .ok s' ∧ DataInv s'.1 s'.2 := by
  obtain ⟨d, f⟩ := s
  obtain ⟨⟨hvalid, hrange, hop⟩, hown⟩ := hallowed
  have hreturns : ∀ d', naiveStep d op = .ok d' →
      filesStep (d, f) op = .ok (d', filesAfter f op) := by
    intro d' hstep
    rw [filesStep, hstep]
    rfl
  cases op with
  | creat name =>
    change ValidName name at hvalid
    by_cases hname : name ∈ f.names
    · refine ⟨_, hreturns d ?_, ?_⟩
      · rw [naiveStep, h.dir.creat_existing hname]
        rfl
      change DataInv d { f with names := if _ then _ else _ }
      rw [if_pos hname]
      exact h
    obtain ⟨hlen, hfit⟩ := hop.resolve_left hname
    obtain ⟨d', hcreat, hinv⟩ := h.creat hvalid hname hlen hfit
    refine ⟨_, hreturns d' ?_, ?_⟩
    · rw [naiveStep, hcreat]
      rfl
    change DataInv d' { f with names := if _ then _ else _ }
    rw [if_neg hname]
    exact hinv
  | pwrite name offset size buffer =>
    by_cases hname : name ∈ f.names
    · obtain ⟨e, he, rfl⟩ := (mem_names_iff 2).1 hname
      obtain ⟨d', hwrite, hinv, _⟩ := h.pwrite he (hown hname) hrange
      refine ⟨_, hreturns d' ?_, hinv⟩
      rw [naiveStep, hwrite]
      rfl
    have hentry : name ∉ (entriesFrom 2 f.names).map Dentry.name := by
      rw [entriesFrom_names]
      exact hname
    refine ⟨_, hreturns d ?_, ?_⟩
    · rw [naiveStep, pwrite_absent h.dir.dir hentry]
      rfl
    rw [filesAfter, if_neg hname]
    exact h
  | pread name offset size =>
    refine ⟨(d, f), ?_, h⟩
    have hpread : NamesAllowed (d, f.names) (.pread name offset size) := ⟨hvalid, trivial⟩
    obtain ⟨d', hstep⟩ := h.dir.returns hpread hrange
    obtain ⟨_, _, hd'⟩ := bind_eq_ok.1 hstep
    rw [hreturns d' hstep, ← Except.ok.inj hd']
    rfl
  | unlink name => exact hop.elim

/-- In a run in which only one file is written, and is alone when it is written
for the first time, every read returns the bytes last written at its positions,
and no write changes what another file reads. -/
theorem naive_fs_stores_writes (ops : List NaiveOp)
    (hadm : Admissible filesStep DataAllowed (Disk.zero, Files.none) ops) :
    ∃ d f, run filesStep (Disk.zero, Files.none) ops = .ok (d, f) ∧ DataLaw d f := by
  obtain ⟨⟨d, f⟩, hrun, hinv⟩ := run_total
    (fun _ _ h hallowed => DataInv.step h hallowed) ops (Disk.zero, Files.none)
    dataInv_zero hadm
  exact ⟨d, f, hrun, hinv.law⟩

/-- A file is written when it is alone, another one is created, and the first is
written again. -/
theorem naive_fs_stores_writes_one_file : ∃ d f, run filesStep (Disk.zero, Files.none)
        [.creat ⟨[97], by decide⟩, .pwrite ⟨[97], by decide⟩ 0 3 [1, 2, 3],
          .creat ⟨[98], by decide⟩, .pread ⟨[98], by decide⟩ 0 3,
          .pwrite ⟨[97], by decide⟩ 1 2 [9, 8]] = .ok (d, f) ∧ DataLaw d f :=
  naive_fs_stores_writes _ (by decide +kernel)

/-- The first write to a file changes what a file that was never written reads,
since that reads the map. A second file that is written has its bytes in the
map, where the next `creat` changes them. -/
theorem files_share_the_map : (do
      let (d, _) ← creat Disk.zero ⟨[97], by decide⟩
      let (d, _) ← creat d ⟨[98], by decide⟩
      let before ← pread d ⟨[98], by decide⟩ 64 1
      let (d, _) ← pwrite d ⟨[97], by decide⟩ 0 1 [7]
      .ok (before, ← pread d ⟨[98], by decide⟩ 64 1)) =
      (.ok ((1, [0]), (1, [1])) : Exec _) ∧
    (do
      let (d, _) ← creat Disk.zero ⟨[97], by decide⟩
      let (d, _) ← creat d ⟨[98], by decide⟩
      let (d, _) ← pwrite d ⟨[97], by decide⟩ 0 1 [7]
      let (d, _) ← pwrite d ⟨[98], by decide⟩ 4 1 [0]
      let (d, _) ← creat d ⟨[99], by decide⟩
      pread d ⟨[98], by decide⟩ 4 1) = .ok (1, [1]) := by
  decide +kernel

end ChCore.Userland.NaiveFs
