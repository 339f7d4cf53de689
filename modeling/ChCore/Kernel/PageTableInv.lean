import ChCore.Lib.Trie
import ChCore.Kernel.PageTable

/-!
# The invariant of page tables

The page table pages of a root are a multi-level table in the sense of
`Lib.Trie`, with 512 entries and four levels: the entries of the first three
levels are zero or lead to a page of the next level, and no page is reached in
two ways. `pageEntry` is what the flat view of such a table is: the
last-level entry of a page number, if it is valid.
-/

namespace ChCore.Kernel

open Lib.BitField Lib.Trie

/-! ## Entries -/

lemma isPteInvalid_eq (w : BitVec 64) : isPteInvalid w = !w.getLsbD 0 := by
  unfold isPteInvalid
  rw [BitVec.and_one_eq_setWidth_ofBool_getLsbD]
  cases w.getLsbD 0 <;> rfl

lemma isPteTable_eq (w : BitVec 64) : isPteTable w = w.getLsbD 1 := by
  unfold isPteTable
  have htwo : (2#64) = BitVec.twoPow 64 1 := rfl
  rw [htwo, BitVec.and_twoPow]
  cases w.getLsbD 1 <;> rfl

lemma writeTable_valid (w : BitVec 64) (g : Nat) : isPteInvalid (writeTable w g) = false ∧
    isPteTable (writeTable w g) = true := by
  rw [isPteInvalid_eq, isPteTable_eq, writeTable,
    getLsbD_setField _ (by decide), getLsbD_setField _ (by decide),
    getLsbD_setField _ (by decide), getLsbD_setField _ (by decide),
    getLsbD_setField _ (by decide)]
  exact ⟨rfl, rfl⟩

lemma writeTable_frame (w : BitVec 64) {g : Nat} (h : g < 2 ^ 36) :
    getField (writeTable w g) 12 36 = g := by
  unfold writeTable
  rw [getField_setField_self _ (by decide), Nat.mod_eq_of_lt h]

lemma clearValid_invalid (w : BitVec 64) : isPteInvalid (setField w 0 1 0) = true := by
  rw [isPteInvalid_eq, getLsbD_setField _ (by decide)]
  rfl

/-- The fields that `set_pte_flags` writes. -/
def flagFields (flags : Nat) : List FieldWrite := [⟨6, 2, if flags &&& vmrWrite ≠ 0 then 1 else 3⟩,
    ⟨54, 1, if flags &&& vmrExec ≠ 0 then 0 else 1⟩, ⟨53, 1, 1⟩, ⟨10, 1, 1⟩,
    ⟨11, 1, 1⟩, ⟨8, 2, 3⟩] ++
  if flags &&& vmrDevice ≠ 0 then [⟨2, 3, 1⟩, ⟨8, 2, 0⟩]
  else if flags &&& vmrNocache ≠ 0 then [⟨2, 3, 2⟩] else [⟨2, 3, 0⟩]

lemma setPteFlags_eq (w : BitVec 64) (flags : Nat) :
    setPteFlags w flags = setFields w (flagFields flags) := by
  unfold setPteFlags flagFields
  by_cases hd : flags &&& vmrDevice ≠ 0
  · rw [if_pos hd, if_pos hd]
    rfl
  rw [if_neg hd, if_neg hd]
  by_cases hn : flags &&& vmrNocache ≠ 0
  · rw [if_pos hn, if_pos hn]
    rfl
  rw [if_neg hn, if_neg hn]
  rfl

/-- Where the fields of the flags lie. -/
lemma flagFields_range (flags : Nat) : ∀ f ∈ flagFields flags, f.lo + f.n ≤ 64 ∧
    (2 ≤ f.lo ∧ f.lo + f.n ≤ 5 ∨ 6 ≤ f.lo ∧ f.lo + f.n ≤ 12 ∨ 53 ≤ f.lo ∧ f.lo + f.n ≤ 55) := by
  unfold flagFields
  split_ifs <;> simp

/-- The fields that mapping a page writes. -/
def pageFields (pfn flags : Nat) : List FieldWrite :=
  ⟨1, 1, 1⟩ :: ⟨0, 1, 1⟩ :: ⟨12, 36, pfn⟩ :: flagFields flags

lemma writePage_fields (w : BitVec 64) (pfn flags : Nat) :
    writePage w pfn flags = setFields w (pageFields pfn flags) := by
  unfold writePage
  exact setPteFlags_eq _ flags

lemma pageFields_le (pfn flags : Nat) : ∀ f ∈ pageFields pfn flags, f.lo + f.n ≤ 64 := by
  intro f hf
  simp only [pageFields, List.mem_cons] at hf
  rcases hf with rfl | rfl | rfl | hf
  · decide
  · decide
  · show 12 + 36 ≤ 64
    decide
  · exact (flagFields_range flags f hf).1

/-- Bit `i` is written when a page is mapped. -/
def PageBit (i : Nat) : Prop := ∃ f ∈ pageFields 0 0, f.Has i

/-- Which bits are written does not depend on the values. -/
lemma pageBit_iff (pfn flags i : Nat) : (∃ f ∈ pageFields pfn flags, f.Has i) ↔ PageBit i := by
  have hmem : ∀ pfn flags, (∃ f ∈ pageFields pfn flags, f.Has i) ↔
      i < 5 ∨ 6 ≤ i ∧ i < 48 ∨ 53 ≤ i ∧ i < 55 := by
    intro pfn flags
    unfold pageFields flagFields
    split_ifs <;> simp [FieldWrite.Has] <;> omega
  rw [PageBit, hmem, hmem]

/-- The bits that mapping a page does not write are clear. -/
def CleanEntry (w : BitVec 64) : Prop := ∀ i, ¬ PageBit i → w.getLsbD i = false

lemma cleanEntry_zero : CleanEntry 0#64 := by
  intro i _
  exact BitVec.getLsbD_zero

variable {w : BitVec 64}

/-- Nothing of the old entry is left when a page is mapped over it. -/
lemma writePage_eq (h : CleanEntry w) (pfn flags : Nat) :
    writePage w pfn flags = writePage 0#64 pfn flags := by
  apply BitVec.eq_of_getLsbD_eq
  intro i _
  rw [writePage_fields, writePage_fields]
  apply getLsbD_setFields_congr (pageFields_le pfn flags)
  by_cases hi : PageBit i
  · exact .inl ((pageBit_iff pfn flags i).2 hi)
  · exact .inr ((h i hi).trans BitVec.getLsbD_zero.symm)

lemma CleanEntry.writePage (h : CleanEntry w) (pfn flags : Nat) :
    CleanEntry (writePage w pfn flags) := by
  intro i hi
  rw [writePage_fields, getLsbD_setFields_of_not (pageFields_le pfn flags), h i hi]
  intro f hf hhas
  exact hi ((pageBit_iff pfn flags i).1 ⟨f, hf, hhas⟩)

lemma CleanEntry.clearValid (h : CleanEntry w) : CleanEntry (setField w 0 1 0) := by
  intro i hi
  rw [getLsbD_setField w (by decide), if_neg, h i hi]
  intro hzero
  refine hi ((pageBit_iff 0 0 i).1 ⟨⟨0, 1, 1⟩, by simp [pageFields], ?_⟩)
  exact hzero

/-- The entry of a mapped page: valid, a page, and with the frame it was
given. -/
lemma writePage_spec (w : BitVec 64) (pfn flags : Nat) :
    isPteInvalid (writePage w pfn flags) = false ∧ isPteTable (writePage w pfn flags) = true ∧
    getField (writePage w pfn flags) 12 36 = pfn % 2 ^ 36 := by
  have hrange := flagFields_range flags
  have hle : ∀ f ∈ flagFields flags, f.lo + f.n ≤ 64 := fun f hf => (hrange f hf).1
  have hbit : ∀ (v : BitVec 64) (i : Nat), i < 2 →
      (setPteFlags v flags).getLsbD i = v.getLsbD i := by
    intro v i hi
    rw [setPteFlags_eq, getLsbD_setFields_of_not hle]
    intro f hf hhas
    have := (hrange f hf).2
    unfold FieldWrite.Has at hhas
    omega
  rw [isPteInvalid_eq, isPteTable_eq, writePage, hbit _ 0 (by decide), hbit _ 1 (by decide)]
  refine ⟨?_, ?_, ?_⟩
  · rw [getLsbD_setField _ (by decide), getLsbD_setField _ (by decide)]
    rfl
  · rw [getLsbD_setField _ (by decide), getLsbD_setField _ (by decide),
      getLsbD_setField _ (by decide)]
    rfl
  rw [setPteFlags_eq, getField_setFields hle, getField_setField_self _ (by decide)]
  intro f hf
  have := (hrange f hf).2
  omega

/-! ## Paths -/

/-- The page number of an address: the low 48 bits decide. -/
def vpn (va : Nat) : Nat := va / pageSize % 2 ^ 36

/-- The path to the table of level `l` for page number `v`. -/
def path (l v : Nat) : Nat := v / 512 ^ (4 - l)

lemma vpn_lt (va : Nat) : vpn va < 2 ^ 36 := Nat.mod_lt _ (by decide)

lemma path_zero {v : Nat} (h : v < 2 ^ 36) : path 0 v = 0 := Nat.div_eq_of_lt h

lemma path_succ {l : Nat} (hl : l < 4) (v : Nat) : path (l + 1) v / 512 = path l v := by
  unfold path
  rw [Nat.div_div_eq_div_mul, ← Nat.pow_succ]
  congr 2
  omega

lemma path_four (v : Nat) : path 4 v = v := Nat.div_one v

lemma ptpIndex_eq {l : Nat} (hl : l < 4) (va : Nat) :
    ptpIndex l va = path (l + 1) (vpn va) % 512 := by
  unfold ptpIndex path vpn
  rw [Nat.and_two_pow_sub_one_eq_mod, Nat.shiftRight_eq_div_pow]
  have hcases : l = 0 ∨ l = 1 ∨ l = 2 ∨ l = 3 := by omega
  rcases hcases with rfl | rfl | rfl | rfl <;>
    simp only [pageOrder, pageShift, pageSize, Nat.reduceAdd, Nat.reduceSub,
      Nat.reduceMul, Nat.reducePow] <;> omega

/-! ## The invariant -/

/-- The table behind an entry. -/
def childOf (mem : Nat → Nat → BitVec 64) (f i : Nat) : Option Nat :=
  if isPteInvalid (mem f i) then none else some (getField (mem f i) 12 36)

/-- The table of level `l` on path `p`. -/
def PtState.node (s : PtState) (root l p : Nat) : Option Nat := nodeAt 512 (childOf s.mem) root l p

/-- Page `f` is one of the page table pages. -/
def PtState.Uses (s : PtState) (root f : Nat) : Prop := InTree 512 (childOf s.mem) root 3 f

/-- The number of tables below a root when none is missing. -/
def tableCount : Nat := 512 + 512 ^ 2 + 512 ^ 3

/-- What is assumed of `get_pages`: the pages are new, and their frame numbers
fit in an entry. More than `tableCount` calls are never made. -/
structure FreshPages (getPages : Nat → Nat) (root : Nat) : Prop where
  distinct : ∀ m n, m < tableCount → n < tableCount → getPages m = getPages n → m = n
  notRoot : ∀ n, n < tableCount → getPages n ≠ root
  fits : ∀ n, n < tableCount → getPages n < 2 ^ 36

/-- The invariant of a page table. -/
structure PtInv (getPages : Nat → Nat) (root : Nat) (s : PtState) : Prop where
  unaliased : Unaliased 512 (childOf s.mem) root 3
  inner : ∀ l p f i, l < 3 → s.node root l p = some f →
    s.mem f i = 0#64 ∨ ∃ g, g < 2 ^ 36 ∧ s.mem f i = writeTable 0#64 g
  leaf : ∀ p f i, s.node root 3 p = some f → CleanEntry (s.mem f i)
  used : ∀ f, s.Uses root f → f = root ∨ ∃ n, n < s.pages ∧ getPages n = f
  issued : ∀ n, n < s.pages → ∃ l p, l < 3 ∧ s.node root (l + 1) p = some (getPages n)
  room : s.pages ≤ tableCount

/-- The flat view: the entry of a mapped page. -/
def PtState.entryAt (s : PtState) (root v : Nat) : Option (BitVec 64) :=
  (s.node root 3 (v / 512)).bind fun f =>
    if isPteInvalid (s.mem f (v % 512)) then none
    else some (s.mem f (v % 512))

section

variable {getPages : Nat → Nat} {root : Nat} {s : PtState} (h : PtInv getPages root s)

variable {l : Nat}

include h in
/-- In an inner table an entry is invalid, or leads to a table. -/
lemma PtInv.next {p f : Nat} (hl : l < 3) (hf : s.node root l p = some f) (va : Nat) :
    (∀ gp : Nat → Nat, childOf s.mem f (ptpIndex l va) = none →
    isPteInvalid (s.mem f (ptpIndex l va)) = true ∧
    getNextPtp gp s f l va false = (s, .noMapping)) ∧
    ∀ (gp : Nat → Nat) g alloc, childOf s.mem f (ptpIndex l va) = some g →
    getNextPtp gp s f l va alloc = (s, .normal g) := by
  rcases h.inner l p f (ptpIndex l va) hl hf with hzero | ⟨g, hg, htab⟩
  · have hinv : isPteInvalid (s.mem f (ptpIndex l va)) = true := by
      rw [hzero]
      rfl
    constructor
    · intro gp _
      refine ⟨hinv, ?_⟩
      simp only [getNextPtp, hinv, if_true, Bool.false_eq_true, if_false]
    · intro gp g alloc hsome
      simp [childOf, hinv] at hsome
  have hvalid := writeTable_valid 0#64 g
  rw [← htab] at hvalid
  have hframe : getField (s.mem f (ptpIndex l va)) 12 36 = g := by rw [htab, writeTable_frame _ hg]
  constructor
  · intro gp hnone
    simp [childOf, hvalid.1] at hnone
  · intro gp g' alloc hsome
    simp only [childOf, hvalid.1, Bool.false_eq_true, if_false, hframe, Option.some.injEq] at hsome
    simp only [getNextPtp, hvalid.1, Bool.false_eq_true, if_false,
      nextOfEntry, hvalid.2, if_true, hframe, hsome]

lemma node_step {v f : Nat} (hl : l < 3) (hf : s.node root l (path l v) = some f) :
    s.node root (l + 1) (path (l + 1) v) = childOf s.mem f (path (l + 1) v % 512) := by
  refine nodeAt_child ?_
  rw [path_succ (by omega)]
  exact hf

/-- Below a missing table there is none. -/
lemma node_none {v : Nat} (hnone : s.node root l (path l v) = none) (m : Nat) :
    l ≤ m → m ≤ 3 → s.node root m (path m v) = none := by
  induction m with
  | zero =>
    intro hlm _
    obtain rfl : l = 0 := by omega
    exact hnone
  | succ m ih =>
    intro hlm hm3
    rcases Nat.lt_or_eq_of_le hlm with hlt | rfl
    · have hprev : nodeAt 512 (childOf s.mem) root m (path m v) = none := ih (by omega) (by omega)
      show nodeAt _ _ _ _ _ = none
      rw [nodeAt_succ, path_succ (by omega), hprev]
      rfl
    · exact hnone

include h in
/-- From level `l` on, `query_in_pgtbl` finds the entry of the flat view. -/
lemma queryLoop_spec (va : Nat) (d : Nat) :
    ∀ l f, l + d = 3 → s.node root l (path l (vpn va)) = some f → queryLoop s va (d + 1) l f =
    (s.entryAt root (vpn va)).map (queryResult 3 va) := by
  induction d with
  | zero =>
    intro l f hl hf
    obtain rfl : l = 3 := by omega
    have hpath : path 3 (vpn va) = vpn va / 512 := rfl
    have hidx : ptpIndex 3 va = vpn va % 512 := by rw [ptpIndex_eq (by decide), path_four]
    have hentry : s.entryAt root (vpn va) = if isPteInvalid (s.mem f (vpn va % 512)) then none
        else some (s.mem f (vpn va % 512)) := by
      rw [PtState.entryAt, ← hpath, hf, Option.bind_some]
    rw [hentry, queryLoop, hidx]
    simp only [getNextPtp, hidx]
    cases hinv : isPteInvalid (s.mem f (vpn va % 512)) with
    | true => simp
    | false =>
      simp only [Bool.false_eq_true, if_false, nextOfEntry]
      by_cases htab : isPteTable (s.mem f (vpn va % 512)) = true
      · simp [htab]
      · simp [htab]
  | succ d ih =>
    intro l f hl hf
    have hl3 : l < 3 := by omega
    have hstep := node_step hl3 hf
    rw [← ptpIndex_eq (by omega)] at hstep
    obtain ⟨hnone, hsome⟩ := h.next hl3 hf va
    rw [queryLoop]
    cases hc : childOf s.mem f (ptpIndex l va) with
    | none =>
      rw [(hnone _ hc).2]
      have h3 : s.node root 3 (vpn va / 512) = none :=
        node_none (by rw [hstep, hc]) 3 (by omega) (le_refl 3)
      simp [PtState.entryAt, h3]
    | some g =>
      rw [hsome _ g _ hc]
      have hl' : ¬ l = 3 := by omega
      simp only [if_neg hl']
      exact ih (l + 1) g (by omega) (by rw [hstep, hc])

omit h in
lemma node_root (va : Nat) : s.node root 0 (path 0 (vpn va)) = some root := by
  rw [path_zero (vpn_lt va)]
  exact nodeAt_zero

include h in
/-- `query_in_pgtbl` answers from the flat view. -/
lemma queryInPgtbl_eq (va : Nat) : queryInPgtbl s root va =
    (s.entryAt root (vpn va)).map (queryResult 3 va) :=
  queryLoop_spec h va 3 0 root rfl (node_root va)

end

end ChCore.Kernel
