import ChCore.Lib.Runs
import ChCore.Kernel.PageTableOps

/-!
# A page table is a finite map

`FlatMap` is what a page table is for: a map from page numbers to a physical
page and the flags it was mapped with. The four-level table simulates it:
after any sequence of calls, `query_in_pgtbl` answers from the flat map.

An address is looked up by its low 48 bits; the walk never looks at the others.
-/

namespace ChCore.Kernel

open Lib.BitField Nat Lib.Runs Lib.Trie

/-! ## What an entry says -/

/-- The attributes of a mapped page. -/
structure PageAttr where
  isValid : Nat
  isPage : Nat
  attrIndex : Nat
  ap : Nat
  sh : Nat
  af : Nat
  nG : Nat
  pxn : Nat
  uxn : Nat
  deriving DecidableEq, Repr

/-- The fields of the `l3_page` view of an entry. -/
def attrOfEntry (w : BitVec 64) : PageAttr where
  isValid := getField w 0 1
  isPage := getField w 1 1
  attrIndex := getField w 2 3
  ap := getField w 6 2
  sh := getField w 8 2
  af := getField w 10 1
  nG := getField w 11 1
  pxn := getField w 53 1
  uxn := getField w 54 1

/-- What the flags of a mapping mean: writable or read-only, executable or not
in user mode, never in the kernel, and the type of the memory. -/
def attrOfFlags (flags : Nat) : PageAttr where
  isValid := 1
  isPage := 1
  attrIndex := if flags &&& vmrDevice ≠ 0 then 1
    else if flags &&& vmrNocache ≠ 0 then 2 else 0
  ap := if flags &&& vmrWrite ≠ 0 then 1 else 3
  sh := if flags &&& vmrDevice ≠ 0 then 0 else 3
  af := 1
  nG := 1
  pxn := 1
  uxn := if flags &&& vmrExec ≠ 0 then 0 else 1

lemma attrOfEntry_writePage (w : BitVec 64) (pfn flags : Nat) :
    attrOfEntry (writePage w pfn flags) = attrOfFlags flags := by
  have hap : (if flags &&& vmrWrite ≠ 0 then 1 else 3) % 2 ^ 2 =
      if flags &&& vmrWrite ≠ 0 then 1 else 3 := by
    split_ifs <;> rfl
  have huxn : (if flags &&& vmrExec ≠ 0 then 0 else 1) % 2 ^ 1 =
      if flags &&& vmrExec ≠ 0 then 0 else 1 := by
    split_ifs <;> rfl
  unfold attrOfEntry attrOfFlags writePage setPteFlags
  by_cases hd : flags &&& vmrDevice ≠ 0
  · simp (disch := decide) only [if_pos hd, getField_setField_of_disjoint,
      getField_setField_self, hap, huxn]
    rfl
  by_cases hn : flags &&& vmrNocache ≠ 0
  · simp (disch := decide) only [if_neg hd, if_pos hn,
      getField_setField_of_disjoint, getField_setField_self, hap, huxn]
    rfl
  simp (disch := decide) only [if_neg hd, if_neg hn,
    getField_setField_of_disjoint, getField_setField_self, hap, huxn]
  rfl

/-! ## The flat map -/

/-- A page number leads to a physical page number and flags. -/
abbrev FlatMap := Nat → Option (Nat × Nat)

/-- The calls that change a page table. -/
inductive PtOp
  | map (va pa len flags : Nat)
  | unmap (va len : Nat)
  deriving DecidableEq, Repr

/-- The page numbers of a call. -/
def PtOp.Covers : PtOp → Nat → Prop
  | .map va _ len _, v => va / pageSize ≤ v ∧ v < (va + len) / pageSize
  | .unmap va len, v => va / pageSize ≤ v ∧ v < (va + len) / pageSize

instance (op : PtOp) (v : Nat) : Decidable (op.Covers v) := by
  cases op <;> exact inferInstanceAs (Decidable (_ ∧ _))

/-- The flat map, and the page numbers that were mapped at some point. -/
structure FlatState where
  map : FlatMap
  seen : Nat → Bool

def FlatState.empty : FlatState := ⟨fun _ => none, fun _ => false⟩

/-- What a call is meant to do. -/
def flatStep (f : FlatState) : PtOp → Exec FlatState
  | .map va pa len flags => .ok
    { map := fun v =>
        if (PtOp.map va pa len flags).Covers v then
          some (pa / pageSize + (v - va / pageSize), flags)
        else f.map v
      seen := fun v =>
        decide ((PtOp.map va pa len flags).Covers v) || f.seen v }
  | .unmap va len => .ok
    { map := fun v => if (PtOp.unmap va len).Covers v then none else f.map v
      seen := f.seen }

/-- The calls that are considered: whole pages below `2 ^ 48`, and only pages
that were mapped before are unmapped. -/
def FlatAllowed (f : FlatState) : PtOp → Prop
  | .map va pa len _ =>
    pageSize ∣ va ∧ pageSize ∣ pa ∧ pageSize ∣ len ∧ va + len ≤ 2 ^ 48 ∧ pa + len ≤ 2 ^ 48
  | .unmap va len =>
    pageSize ∣ va ∧ pageSize ∣ len ∧
      ∀ v, v < (va + len) / pageSize → va / pageSize ≤ v → f.seen v = true

instance (f : FlatState) (op : PtOp) : Decidable (FlatAllowed f op) := by
  cases op <;> exact inferInstanceAs (Decidable (_ ∧ _))

/-- The answer for an address of page `v`. -/
def FlatMap.answer (m : FlatMap) (v va : Nat) : Option (Option Nat × PageAttr) :=
  (m v).map fun (pfn, flags) =>
    (some (pfn * pageSize + va % pageSize), attrOfFlags flags)

/-- What `query_in_pgtbl` says of an address: the physical address and the
attributes of the entry. -/
def queryAnswer (s : PtState) (root va : Nat) : Option (Option Nat × PageAttr) :=
  (queryInPgtbl s root va).map fun q => (q.pa, attrOfEntry q.entry)

/-- The calls, as the code serves them. -/
def ptStep (getPages : Nat → Nat) (root : Nat) (s : PtState) : PtOp → Exec PtState
  | .map va pa len flags => mapRangeInPgtbl getPages s root va pa len flags
  | .unmap va len => unmapRangeInPgtbl s root va len

/-! ## Simulation -/

/-- The page table `s` holds the flat map `f`. -/
structure PtRefines (getPages : Nat → Nat) (root : Nat) (s : PtState) (f : FlatState) : Prop where
  inv : PtInv getPages root s
  entry : ∀ v, s.entryAt root v = (f.map v).map fun (pfn, flags) => writePage 0#64 pfn flags
  table : ∀ v, f.seen v = true → v < 2 ^ 36 ∧ (s.node root 3 (v / 512)).isSome
  frame : ∀ v pfn flags, f.map v = some (pfn, flags) → pfn < 2 ^ 36

section

variable {getPages : Nat → Nat} {root : Nat} {s : PtState} {f : FlatState}

lemma vpn_eq (va : Nat) : vpn va = va % 2 ^ 48 / pageSize := by
  unfold vpn pageSize
  omega

/-- A page table answers from the flat map it holds. -/
lemma PtRefines.query (h : PtRefines getPages root s f) (va : Nat) :
    queryAnswer s root va = f.map.answer (va % 2 ^ 48 / pageSize) va := by
  unfold queryAnswer FlatMap.answer
  rw [queryInPgtbl_eq h.inv, h.entry, ← vpn_eq]
  cases hv : f.map (vpn va) with
  | none => rfl
  | some m =>
    obtain ⟨pfn, flags⟩ := m
    have hpfn := h.frame _ _ _ hv
    simp only [Option.map_some, queryResult, attrOfEntry_writePage,
      (writePage_spec 0#64 pfn flags).2.2, mod_eq_of_lt hpfn,
      shiftLeft_eq]
    rfl

/-- A zeroed root page holds the empty map. -/
lemma PtRefines.empty (hroot : ∀ i, s.mem root i = 0#64) (hpages : s.pages = 0) :
    PtRefines getPages root s FlatState.empty := by
  have hchild : ∀ i, childOf s.mem root i = none := by
    intro i
    rw [childOf, hroot i]
    rfl
  have honly : ∀ l p g, s.node root l p = some g → l = 0 ∧ p = 0 :=
    fun l p g hg => nodeAt_of_empty hchild l p g hg
  have hisRoot : ∀ p g, s.node root 0 p = some g → g = root := by
    intro p g hg
    obtain ⟨_, rfl⟩ := honly 0 p g hg
    exact Option.some.inj (hg.symm.trans nodeAt_zero)
  exact {
    inv :=
      { unaliased := unaliased_of_empty hchild 3
        inner := by
          intro l p g i _ hg
          obtain ⟨rfl, rfl⟩ := honly l p g hg
          rw [hisRoot 0 g hg]
          exact .inl (hroot i)
        leaf := by
          intro p g i hg
          exact absurd (honly 3 p g hg).1 (by decide)
        used := by
          intro g hg
          obtain ⟨l, p, _, hp⟩ := hg
          obtain ⟨rfl, rfl⟩ := honly l p g hp
          exact .inl (hisRoot 0 g hp)
        issued := by
          intro n hn
          omega
        room := by
          rw [hpages]
          exact zero_le _ }
    entry := by
      intro v
      unfold PtState.entryAt
      cases hg : s.node root 3 (v / 512) with
      | none => rfl
      | some g => exact absurd (honly 3 _ g hg).1 (by decide)
    table := by
      intro v hv
      cases hv
    frame := by
      intro v pfn flags hv
      cases hv
  }

lemma covers_map_iff (v n pa len flags u : Nat) (hlen : len = n * pageSize) :
    (PtOp.map (v * pageSize) pa len flags).Covers u ↔ v ≤ u ∧ u < v + n := by
  show v * pageSize / pageSize ≤ u ∧ u < (v * pageSize + len) / pageSize ↔ _
  rw [hlen, ← add_mul, Nat.mul_div_cancel _ (by decide), Nat.mul_div_cancel _ (by decide)]

variable {va : Nat}

/-- Mapping a range follows the flat map. -/
lemma PtRefines.map (hfresh : FreshPages getPages root)
    (h : PtRefines getPages root s f) {pa len flags : Nat}
    (hall : FlatAllowed f (.map va pa len flags)) :
    ∃ s' f', ptStep getPages root s (.map va pa len flags) = .ok s' ∧
    flatStep f (.map va pa len flags) = .ok f' ∧ PtRefines getPages root s' f' := by
  obtain ⟨⟨v, rfl⟩, ⟨g, rfl⟩, ⟨n, rfl⟩, hva, hpa⟩ := hall
  have hv : v + n ≤ 2 ^ 36 := by
    unfold pageSize at hva
    omega
  have hg : g + n ≤ 2 ^ 36 := by
    unfold pageSize at hpa
    omega
  rw [mul_comm pageSize v, mul_comm pageSize g, mul_comm pageSize n]
  obtain ⟨s', hrun, hinv, hkeep, htab, hentry⟩ := mapLoop_spec hfresh flags n s v g hv hg h.inv
  have hcov := fun u =>
    covers_map_iff v n (g * pageSize) (n * pageSize) flags u rfl
  refine ⟨s', _, ?_, rfl, ?_⟩
  · show mapRangeInPgtbl _ _ _ _ _ _ _ = _
    rw [mapRangeInPgtbl, pageRounds_mul]
    exact hrun
  exact {
    inv := hinv
    entry := by
      intro u
      dsimp only
      rw [hentry u]
      by_cases hu : v ≤ u ∧ u < v + n
      · rw [if_pos hu, if_pos ((hcov u).2 hu), Option.map_some,
          Nat.mul_div_cancel _ (by decide), Nat.mul_div_cancel _ (by decide)]
      · rw [if_neg hu, if_neg (fun hc => hu ((hcov u).1 hc)), h.entry u]
    table := by
      intro u hu
      by_cases hin : v ≤ u ∧ u < v + n
      · exact ⟨by omega, htab u hin.1 hin.2⟩
      dsimp only at hu
      rw [decide_eq_false (fun hc => hin ((hcov u).1 hc)), Bool.false_or] at hu
      obtain ⟨hlt, hsome⟩ := h.table u hu
      obtain ⟨t, ht⟩ := Option.isSome_iff_exists.1 hsome
      rw [hkeep 3 _ t (le_refl 3) ht]
      exact ⟨hlt, rfl⟩
    frame := by
      intro u pfn fl hu
      dsimp only at hu
      by_cases hin : v ≤ u ∧ u < v + n
      · rw [if_pos ((hcov u).2 hin), Nat.mul_div_cancel _ (by decide),
          Nat.mul_div_cancel _ (by decide)] at hu
        cases hu
        omega
      · rw [if_neg (fun hc => hin ((hcov u).1 hc))] at hu
        exact h.frame u pfn fl hu
  }

lemma covers_unmap_iff (v n u : Nat) : (PtOp.unmap (v * pageSize) (n * pageSize)).Covers u ↔
    v ≤ u ∧ u < v + n := by
  show v * pageSize / pageSize ≤ u ∧ u < (v * pageSize + n * pageSize) / pageSize ↔ _
  rw [← add_mul, Nat.mul_div_cancel _ (by decide), Nat.mul_div_cancel _ (by decide)]

/-- Unmapping a range follows the flat map. -/
lemma PtRefines.unmap (h : PtRefines getPages root s f) {len : Nat}
    (hall : FlatAllowed f (.unmap va len)) :
    ∃ s' f', ptStep getPages root s (.unmap va len) = .ok s' ∧ flatStep f (.unmap va len) = .ok f' ∧
    PtRefines getPages root s' f' := by
  obtain ⟨⟨v, rfl⟩, ⟨n, rfl⟩, hseen⟩ := hall
  rw [mul_comm pageSize v, mul_comm pageSize n] at *
  rw [← add_mul, Nat.mul_div_cancel _ (by decide), Nat.mul_div_cancel _ (by decide)] at hseen
  have htab : ∀ u, v ≤ u → u < v + n → (s.node root 3 (u / 512)).isSome :=
    fun u hlo hhi => (h.table u (hseen u hhi hlo)).2
  have hcov := covers_unmap_iff v n
  obtain ⟨s', hrun, hinv, hkeep, hentry⟩ : ∃ s', unmapLoop root n s (v * pageSize) = .ok s' ∧
        PtInv getPages root s' ∧
        (∀ l p, l ≤ 3 → s'.node root l p = s.node root l p) ∧
        ∀ u, s'.entryAt root u = if v ≤ u ∧ u < v + n then none else s.entryAt root u := by
    by_cases hn : n = 0
    · subst hn
      refine ⟨s, rfl, h.inv, fun _ _ _ => rfl, ?_⟩
      intro u
      rw [if_neg (by omega)]
    · have hlast := (h.table (v + n - 1) (hseen (v + n - 1) (by omega) (by omega))).1
      exact unmapLoop_spec n s v (by omega) h.inv htab
  refine ⟨s', _, ?_, rfl, ?_⟩
  · show unmapRangeInPgtbl _ _ _ _ = _
    rw [unmapRangeInPgtbl, pageRounds_mul]
    exact hrun
  exact {
    inv := hinv
    entry := by
      intro u
      dsimp only
      rw [hentry u]
      by_cases hu : v ≤ u ∧ u < v + n
      · rw [if_pos hu, if_pos ((hcov u).2 hu), Option.map_none]
      · rw [if_neg hu, if_neg (fun hc => hu ((hcov u).1 hc)), h.entry u]
    table := by
      intro u hu
      rw [hkeep 3 _ (le_refl 3)]
      exact h.table u hu
    frame := by
      intro u pfn fl hu
      dsimp only at hu
      by_cases hin : v ≤ u ∧ u < v + n
      · rw [if_pos ((hcov u).2 hin)] at hu
        cases hu
      rw [if_neg (fun hc => hin ((hcov u).1 hc))] at hu
      exact h.frame u pfn fl hu
  }

lemma PtRefines.step (hfresh : FreshPages getPages root)
    (h : PtRefines getPages root s f) {op : PtOp} (hall : FlatAllowed f op) :
    ∃ s' f', ptStep getPages root s op = .ok s' ∧ flatStep f op = .ok f' ∧
    PtRefines getPages root s' f' := by
  cases op with
  | map va pa len flags => exact h.map hfresh hall
  | unmap va len => exact h.unmap hall

/-- A call leaves the flat map alone outside of its range. -/
lemma flatStep_frame {op : PtOp} {f' : FlatState}
    (h : flatStep f op = .ok f') {v : Nat} (hv : ¬ op.Covers v) : f'.map v = f.map v := by
  cases op with
  | map va pa len flags =>
    cases h
    exact if_neg hv
  | unmap va len =>
    cases h
    exact if_neg hv

lemma PtRefines.query_congr {s' : PtState} {f' : FlatState}
    (h : PtRefines getPages root s f) (h' : PtRefines getPages root s' f')
    (hsame : f'.map (va % 2 ^ 48 / pageSize) = f.map (va % 2 ^ 48 / pageSize)) :
    queryInPgtbl s' root va = queryInPgtbl s root va := by
  rw [queryInPgtbl_eq h'.inv, queryInPgtbl_eq h.inv, h'.entry, h.entry, vpn_eq, hsame]

end

/-! ## Runs -/

/-- After every sequence of calls on a page table that starts as a zeroed root
page, `query_in_pgtbl` answers for the low 48 bits of every address what the
flat map says, and a further call changes no answer outside of its range. -/
theorem page_table_refines_flat_map {getPages : Nat → Nat} {root : Nat}
    (hfresh : FreshPages getPages root) {s0 : PtState}
    (hroot : ∀ i, s0.mem root i = 0#64) (hpages : s0.pages = 0)
    (ops : List PtOp)
    (hadm : Admissible flatStep FlatAllowed FlatState.empty ops) :
    ∃ s f, run (ptStep getPages root) s0 ops = .ok s ∧ run flatStep FlatState.empty ops = .ok f ∧
      (∀ va, queryAnswer s root va = f.map.answer (va % 2 ^ 48 / pageSize) va) ∧
      ∀ op, FlatAllowed f op → ∃ s', ptStep getPages root s op = .ok s' ∧
        ∀ va, ¬ op.Covers (va % 2 ^ 48 / pageSize) →
          queryInPgtbl s' root va = queryInPgtbl s root va := by
  have hstep : ∀ s f op, PtRefines getPages root s f → FlatAllowed f op →
      ∃ s' f', ptStep getPages root s op = .ok s' ∧ flatStep f op = .ok f' ∧
        PtRefines getPages root s' f' :=
    fun s f op h hall => h.step hfresh hall
  obtain ⟨s, f, hs, hf, href⟩ := run_simulates hstep ops s0 FlatState.empty
    (PtRefines.empty hroot hpages) hadm
  refine ⟨s, f, hs, hf, href.query, ?_⟩
  intro op hall
  obtain ⟨s', f', hs', hf', href'⟩ := href.step hfresh hall
  refine ⟨s', hs', ?_⟩
  intro va hva
  exact href.query_congr href' (flatStep_frame hf' hva)

/-- Memory of zeroes. -/
def PtState.zero : PtState := ⟨fun _ _ => 0#64, 0⟩

lemma freshPages_succ : FreshPages Nat.succ 0 where
  distinct := fun _ _ _ _ h => Nat.succ.inj h
  notRoot := fun n _ => succ_ne_zero n
  fits := by
    intro n hn
    unfold tableCount at hn
    omega

theorem page_table_refines_flat_map_two_pages : ∃ s f, run (ptStep Nat.succ 0) PtState.zero
        [.map 0x1000 0x5000 0x2000 vmrWrite, .unmap 0x2000 0x1000] = .ok s ∧
      run flatStep FlatState.empty
        [.map 0x1000 0x5000 0x2000 vmrWrite, .unmap 0x2000 0x1000] = .ok f ∧
      (∀ va, queryAnswer s 0 va = f.map.answer (va % 2 ^ 48 / pageSize) va) ∧
      ∀ op, FlatAllowed f op → ∃ s', ptStep Nat.succ 0 s op = .ok s' ∧
        ∀ va, ¬ op.Covers (va % 2 ^ 48 / pageSize) → queryInPgtbl s' 0 va = queryInPgtbl s 0 va :=
  page_table_refines_flat_map freshPages_succ (fun _ => rfl) rfl
    [.map 0x1000 0x5000 0x2000 vmrWrite, .unmap 0x2000 0x1000] (by decide)

/-- Address `2 ^ 48` is answered with the mapping of address 0, although no call
covers it. -/
theorem query_ignores_high_bits : ∃ s f, run (ptStep Nat.succ 0) PtState.zero
        [.map 0 0x5000 0x1000 vmrWrite] = .ok s ∧
      run flatStep FlatState.empty [.map 0 0x5000 0x1000 vmrWrite] = .ok f ∧
      f.map.answer (2 ^ 48 / pageSize) (2 ^ 48) = none ∧
      queryAnswer s 0 (2 ^ 48) = some (some 0x5000, attrOfFlags vmrWrite) := by
  exact ⟨_, _, rfl, rfl, by decide, by decide⟩

end ChCore.Kernel
