import ChCore.Lib.Heaps
import ChCore.Kernel.AddressSpace

/-!
# Mapped pages lie in regions

The regions of an address space and its page table are changed one after the
other, and each call has its own idea of a length: `fill_page_table` maps the
whole object, however long the region is; `vmspace_unmap_range` with length 0
deletes a region and leaves its pages mapped; `unmap_vmrs` deletes a region
that it enters in the middle, and cutting a region at its start moves the origin
of the positions in its object. The page table knows 48 bits of an address, and
nobody checks that there are no more. In runs without these cases every mapped
page lies in a region, at the position where the object of the region holds it.
-/

namespace ChCore.Kernel

open Function List Lib.Heaps Lib.Runs Lib.BitField

/-- The object holds frame `f` at position `k`, counted in pages. -/
def Pmobject.HoldsAt (pmo : Pmobject) (k f : Nat) : Prop := if mappedEarly pmo.type then
    k * pageSize < pmo.size ∧ f = pmo.start / pageSize + k
  else ∃ pa, pmo.radix.lookup k = some pa ∧ f = pa / pageSize

/-- A page with entry `w` lies in a region, and the object of the region holds
its frame at this position. -/
def BackedBy (pmos : Nat → Option Pmobject) (list : List (Nat × Vmregion))
    (u : Nat) (w : BitVec 64) : Prop :=
  ∃ e ∈ list, e.2.Has (u * pageSize) ∧ ∃ pmo, pmos e.2.pmo = some pmo ∧
    Pmobject.HoldsAt pmo ((u * pageSize - e.2.start) / pageSize) (getField w 12 36)

/-! ## The calls after which this still holds -/

/-- No page of the region is mapped, among those whose address satisfies `P`. -/
def Untouched (vs : Vmspace) (vmr : Vmregion) (P : Nat → Bool) : Prop :=
  ∀ k, k < pageRounds vmr.size → vmr.Has (vmr.start + k * pageSize) →
    vmr.start + k * pageSize < 2 ^ 48 → P (vmr.start + k * pageSize) = true →
    vs.entry (vpn (vmr.start + k * pageSize)) = none

instance (vs : Vmspace) (vmr : Vmregion) (P : Nat → Bool) : Decidable (Untouched vs vmr P) := by
  unfold Untouched
  infer_instance

/-- A region that `unmap_vmrs` cuts has no mapped page behind the cut, and one
that it deletes has none before the address where it is entered. -/
def cleanUnmap : Nat → Vmspace → Nat → Nat → Bool
  | 0, _, _, _ => true
  | rounds + 1, vs, va, len =>
    if len = 0 then true
    else
      match findVmrForVa vs va with
      | none => true
      | some (q, vmr) =>
        if vmr.size > len then
          decide (va = vmr.start → Untouched vs vmr fun p => decide (vmr.start + len ≤ p))
        else
          decide (Untouched vs vmr fun p => decide (p < roundDown va)) &&
            match unmapPages (delVmrFromVmspace vs q) va len with
            | .error _ => true
            | .ok vs1 =>
              cleanUnmap rounds vs1 (u64 (va + vmr.size)) (len - vmr.size)

/-- The conditions for the calls; arguments are machine words. -/
def SpaceAllowed (st : VmState) : SpaceOp → Prop
  | .call (.mapRange va len _ p) =>
    va < 2 ^ 64 ∧ len < 2 ^ 64 ∧ ∀ pmo ∈ st.pmos p, mappedEarly pmo.type →
      ∀ k, k < pageRounds pmo.size → Vmregion.Has ⟨roundDown va, mapLength len, 0, p⟩
          (roundDown va + k * pageSize) ∧
        roundDown va + k * pageSize < 2 ^ 48 ∧
        pmo.start + k * pageSize < 2 ^ 48
  | .call (.unmapRange va len) =>
    len = 0 → ∀ e ∈ findVmrForVa st.vs va, Untouched st.vs e.2 fun _ => true
  | .call (.mmap length _ _ _) => length < 2 ^ 64
  | .call (.munmap addr length) =>
    addr < 2 ^ 64 ∧ cleanUnmap (st.vs.vmrList.length + 1) st.vs addr length = true
  | .call (.brk addr) => addr < 2 ^ 64
  | .call _ => True
  | .fault faultAddr page =>
    faultAddr < 2 ^ 48 ∧ pageSize ∣ page ∧ page < 2 ^ 48
  | .destroyPmo p =>
    ∀ e ∈ st.vs.vmrList, e.2.pmo = p → Untouched st.vs e.2 fun _ => true

instance (st : VmState) : ∀ op, Decidable (SpaceAllowed st op) := fun op => by
  rcases op with ⟨_ | _⟩ | _ <;> (dsimp only [SpaceAllowed]; infer_instance)

/-! ## The invariant -/

/-- The invariant of an address space. The fields before `backed` are what it
takes to keep it: regions start at pages, objects have names of their own, and
the heap is anonymous memory. -/
structure SpaceInv (getPages : Nat → Nat) (pgd : Nat) (st : VmState) : Prop where
  root : st.vs.pgd = pgd
  table : PtInv getPages pgd st.vs.pgtbl
  nodup : (st.vs.vmrList.map Prod.fst).Nodup
  named : ∀ e ∈ st.vs.vmrList, e.1 < st.vs.vmrs
  aligned : ∀ e ∈ st.vs.vmrList, pageSize ∣ e.2.start
  words : ∀ e ∈ st.vs.vmrList, e.2.start < 2 ^ 64 ∧ e.2.size < 2 ^ 64
  mmapAddr : pageSize ∣ st.vs.userCurrentMmapAddr ∧ st.vs.userCurrentMmapAddr < 2 ^ 64
  heapAddr : st.vs.userCurrentHeap = heapStart
  objects : ∀ e ∈ st.vs.vmrList, e.2.pmo < st.pmoCount
  pmoLt : ∀ p pmo, st.pmos p = some pmo → p < st.pmoCount
  heapNamed : ∀ q ∈ st.vs.heapVmr, q < st.vs.vmrs
  heapPmo : ∀ q ∈ st.vs.heapVmr, ∀ e ∈ st.vs.vmrList, e.1 = q →
    ∀ pmo, st.pmos e.2.pmo = some pmo → pmo.type = .anonym
  frames : ∀ p pmo, st.pmos p = some pmo → ∀ k pa,
    pmo.radix.lookup k = some pa → pageSize ∣ pa ∧ pa < 2 ^ 48
  backed : ∀ u w, u < 2 ^ 36 → st.vs.entry u = some w → BackedBy st.pmos st.vs.vmrList u w

section

variable {vmr : Vmregion} {u : Nat}

/-- Pages that are not touched have no entry. -/
lemma Untouched.entry {vs : Vmspace} {P : Nat → Bool}
    (h : Untouched vs vmr P) (halign : pageSize ∣ vmr.start)
    (hu : u < 2 ^ 36) (hhas : vmr.Has (u * pageSize))
    (hP : P (u * pageSize) = true) : vs.entry u = none := by
  obtain ⟨k, hk, heq⟩ := hhas.page halign
  have hlt : u * pageSize < 2 ^ 48 := by
    unfold pageSize
    omega
  have hnone := h k hk (heq ▸ hhas) (heq ▸ hlt) (heq ▸ hP)
  rwa [← heq, vpn_page hu] at hnone

end

/-! ## Regions go away -/

/-- What backs a page stays when its region keeps start and object, and the
object keeps its pages. -/
lemma BackedBy.mono {pmos pmos' : Nat → Option Pmobject}
    {list list' : List (Nat × Vmregion)} {u : Nat} {w : BitVec 64} (h : BackedBy pmos list u w)
    (hlist : ∀ e ∈ list, e.2.Has (u * pageSize) → ∃ e' ∈ list',
    e'.2.Has (u * pageSize) ∧ e'.2.start = e.2.start ∧ e'.2.pmo = e.2.pmo)
    (hpmos : ∀ e ∈ list, e.2.Has (u * pageSize) → ∀ pmo,
    pmos e.2.pmo = some pmo → ∃ pmo', pmos' e.2.pmo = some pmo' ∧
    ∀ k f, Pmobject.HoldsAt pmo k f → Pmobject.HoldsAt pmo' k f) : BackedBy pmos' list' u w := by
  obtain ⟨e, he, hhas, pmo, hpmo, hholds⟩ := h
  obtain ⟨e', he', hhas', hstart, hobject⟩ := hlist e he hhas
  obtain ⟨pmo', hpmo', hmore⟩ := hpmos e he hhas pmo hpmo
  exact ⟨e', he', hhas', pmo', hobject ▸ hpmo', hstart ▸ hmore _ _ hholds⟩

section

variable {getPages : Nat → Nat} {pgd : Nat} {st : VmState} {vs' : Vmspace}

section

variable {pmos' : Nat → Option Pmobject} (h : SpaceInv getPages pgd st)
    (hroot : vs'.pgd = st.vs.pgd) (htable : PtInv getPages pgd vs'.pgtbl)
    (hvmrs : vs'.vmrs = st.vs.vmrs)
    (hmmap : vs'.userCurrentMmapAddr = st.vs.userCurrentMmapAddr)
    (hheap : vs'.userCurrentHeap = st.vs.userCurrentHeap)
    (hheapVmr : vs'.heapVmr = st.vs.heapVmr)
    (hnodup : (vs'.vmrList.map Prod.fst).Nodup)
    (hfrom : ∀ e ∈ vs'.vmrList, ∃ e0 ∈ st.vs.vmrList, e.1 = e0.1 ∧
      e.2.pmo = e0.2.pmo ∧ pageSize ∣ e.2.start ∧ e.2.start < 2 ^ 64 ∧
      e.2.size < 2 ^ 64)

include h hroot htable hvmrs hmmap hheap hheapVmr hnodup hfrom

/-- The regions keep their names and their objects, and the objects keep their
types; the rest has to be shown. -/
lemma SpaceInv.reshape
    (hpmos : ∀ p pmo', pmos' p = some pmo' → ∃ pmo, st.pmos p = some pmo ∧ pmo'.type = pmo.type ∧
    ∀ k pa, pmo'.radix.lookup k = some pa → pageSize ∣ pa ∧ pa < 2 ^ 48)
    (hbacked : ∀ u w, u < 2 ^ 36 → vs'.entry u = some w → BackedBy pmos' vs'.vmrList u w) :
    SpaceInv getPages pgd { st with vs := vs', pmos := pmos' } where
  root := hroot.trans h.root
  table := htable
  nodup := hnodup
  named e he := by
    obtain ⟨e0, he0, hname, -⟩ := hfrom e he
    rw [hname]
    exact hvmrs ▸ h.named e0 he0
  aligned e he := by
    obtain ⟨e0, -, -, -, halign, -⟩ := hfrom e he
    exact halign
  words e he := by
    obtain ⟨e0, -, -, -, -, hwords⟩ := hfrom e he
    exact hwords
  mmapAddr := hmmap ▸ h.mmapAddr
  heapAddr := hheap.trans h.heapAddr
  objects e he := by
    obtain ⟨e0, he0, -, hpmo, -⟩ := hfrom e he
    rw [hpmo]
    exact h.objects e0 he0
  pmoLt p pmo' hp := by
    obtain ⟨pmo, hpmo, -⟩ := hpmos p pmo' hp
    exact h.pmoLt p pmo hpmo
  heapNamed q hq := hvmrs ▸ h.heapNamed q (hheapVmr ▸ hq)
  heapPmo q hq e he hname pmo' hp := by
    obtain ⟨e0, he0, hname0, hobject, -⟩ := hfrom e he
    obtain ⟨pmo, hpmo, htype, -⟩ := hpmos _ pmo' hp
    rw [hobject] at hpmo
    exact htype.trans (h.heapPmo q (hheapVmr ▸ hq) e0 he0 (hname0 ▸ hname) pmo hpmo)
  frames p pmo' hp := by
    obtain ⟨pmo, -, -, hframes⟩ := hpmos p pmo' hp
    exact hframes
  backed := hbacked

/-- The regions change, but those stay as they are that have a mapped page. -/
lemma SpaceInv.change (hentry : ∀ u w, vs'.entry u = some w → st.vs.entry u = some w)
    (hkeep : ∀ e ∈ st.vs.vmrList, ∀ u w, u < 2 ^ 36 → e.2.Has (u * pageSize) →
    vs'.entry u = some w → e ∈ vs'.vmrList) : SpaceInv getPages pgd { st with vs := vs' } := by
  refine h.reshape hroot htable hvmrs hmmap hheap hheapVmr hnodup hfrom
    (fun p pmo hpmo => ⟨pmo, hpmo, rfl, h.frames p pmo hpmo⟩) fun u w hu hw => ?_
  exact (h.backed u w hu (hentry u w hw)).mono
    (fun e he hhas => ⟨e, hkeep e he u w hu hhas hw, hhas, rfl, rfl⟩)
    fun e _ _ pmo hpmo => ⟨pmo, hpmo, fun _ _ hk => hk⟩

end

variable {q : Nat} {vmr : Vmregion}

/-- A region is deleted of which no page is mapped any more. -/
lemma SpaceInv.del (h : SpaceInv getPages pgd st) {pt : PtState}
    (hmem : (q, vmr) ∈ st.vs.vmrList) (htable : PtInv getPages pgd pt)
    (hentry : ∀ u w, pt.entryAt st.vs.pgd u = some w → st.vs.entry u = some w)
    (hgone : ∀ u w, u < 2 ^ 36 → vmr.Has (u * pageSize) → pt.entryAt st.vs.pgd u ≠ some w) :
    SpaceInv getPages pgd { st with vs := { delVmrFromVmspace st.vs q with pgtbl := pt } } := by
  refine h.change rfl htable rfl rfl rfl rfl ?_ ?_ hentry ?_
  · exact (filter_sublist.map Prod.fst).nodup h.nodup
  · intro e he
    have he0 : e ∈ st.vs.vmrList := mem_of_mem_filter he
    exact ⟨e, he0, rfl, rfl, h.aligned e he0, h.words e he0⟩
  intro e he u w hu hhas hw
  refine mem_filter.2 ⟨he, decide_eq_true ?_⟩
  intro hq
  have heq : e = (q, vmr) := inj_on_of_nodup_map h.nodup he hmem hq
  rw [heq] at hhas
  exact hgone u w hu hhas hw

/-- The entries that are left when a range is unmapped. -/
lemma entry_of_unmapped {vs : Vmspace} {va len : Nat}
    (h : ∀ u, vs'.entry u = if PageIn va len u then none else vs.entry u) {u : Nat}
    {w : BitVec 64} (hw : vs'.entry u = some w) : ¬ PageIn va len u ∧ vs.entry u = some w := by
  rw [h u] at hw
  by_cases hin : PageIn va len u
  · rw [if_pos hin] at hw
    cases hw
  rw [if_neg hin] at hw
  exact ⟨hin, hw⟩

/-- A region is deleted, and the pages of a range are unmapped. -/
lemma SpaceInv.delUnmapped (h : SpaceInv getPages pgd st) {va len : Nat}
    (hmem : (q, vmr) ∈ st.vs.vmrList)
    (hrun : unmapPages (delVmrFromVmspace st.vs q) va len = .ok vs')
    (hgone : ∀ u, u < 2 ^ 36 → vmr.Has (u * pageSize) → PageIn va len u ∨ st.vs.entry u = none) :
    SpaceInv getPages pgd { st with vs := vs' } := by
  obtain ⟨pt, rfl, htable, hentry⟩ := unmapPages_entries hrun h.root h.table
  refine h.del hmem htable (fun u w hw => (entry_of_unmapped hentry hw).2) fun u w hu hhas hw => ?_
  obtain ⟨hout, hold⟩ := entry_of_unmapped hentry hw
  rcases hgone u hu hhas with hin | hnone
  · exact hout hin
  · exact Option.some_ne_none w (hold.symm.trans hnone)

/-- A region is cut at its start. -/
lemma SpaceInv.cut (h : SpaceInv getPages pgd st) {len : Nat} (hmem : (q, vmr) ∈ st.vs.vmrList)
    (hhas : vmr.Has vmr.start) (hlen : len < vmr.size) (hpages : pageSize ∣ len)
    (hrun : unmapPages (setVmr st.vs q
    { vmr with size := vmr.size - len, start := u64 (vmr.start + len) }) vmr.start len = .ok vs')
    (hclean : Untouched st.vs vmr fun p => decide (vmr.start + len ≤ p)) :
    SpaceInv getPages pgd { st with vs := vs' } := by
  have halign : pageSize ∣ vmr.start := h.aligned _ hmem
  have hwords : vmr.start < 2 ^ 64 ∧ vmr.size < 2 ^ 64 := h.words _ hmem
  have hwrap := (hhas.noWrap hwords).1
  have hstart : u64 (vmr.start + len) = vmr.start + len := u64_of_lt (by omega)
  obtain ⟨pt, rfl, htable, hentry⟩ := unmapPages_entries hrun h.root h.table
  refine h.change rfl htable rfl rfl rfl rfl ?_ ?_
    (fun u w hw => (entry_of_unmapped hentry hw).2) ?_
  · have hnames : (setVmr st.vs q { vmr with
        size := vmr.size - len, start := u64 (vmr.start + len) }).vmrList.map
          Prod.fst = st.vs.vmrList.map Prod.fst := map_fst_setVmr _ _ _
    rw [hnames]
    exact h.nodup
  · intro e he
    rcases mem_setVmr he with rfl | ⟨-, he0⟩
    · refine ⟨_, hmem, rfl, rfl, ?_, u64_lt _, (Nat.sub_le _ _).trans_lt hwords.2⟩
      rw [hstart]
      exact Nat.dvd_add halign hpages
    · exact ⟨e, he0, rfl, rfl, h.aligned e he0, h.words e he0⟩
  intro e he u w hu hhas' hw
  refine mem_map.2 ⟨e, he, if_neg ?_⟩
  intro hq
  have heq : e = (q, vmr) := inj_on_of_nodup_map h.nodup he hmem hq
  rw [heq] at hhas'
  obtain ⟨hout, hold⟩ := entry_of_unmapped hentry hw
  by_cases hbehind : vmr.start + len ≤ u * pageSize
  · have hnone := hclean.entry halign hu hhas' (decide_eq_true hbehind)
    exact Option.some_ne_none w (hold.symm.trans hnone)
  have hround : roundDown vmr.start = vmr.start := Nat.div_mul_cancel halign
  exact hout (vpn_round hu (hround.trans_le hhas'.1) (by omega))

/-- **`unmap_vmrs`**, where no mapped page loses its region or its position. -/
theorem SpaceInv.unmapVmrs (rounds : Nat) :
    ∀ (st : VmState) (va len : Nat), SpaceInv getPages pgd st →
    pageSize ∣ va + len → cleanUnmap rounds st.vs va len = true →
    unmapVmrs st.pmos rounds st.vs va len = .ok vs' →
    SpaceInv getPages pgd { st with vs := vs' } := by
  induction rounds with
  | zero =>
    intro st va len h _ _ hrun
    cases hrun
    exact h
  | succ rounds ih =>
    intro st va len h hpages hclean hrun
    unfold cleanUnmap at hclean
    cases unmapVmrs_succ hrun with
    | empty hlen heq | gap hlen hfind heq | inside hlen hfind hbig hva heq => exact heq ▸ h
    | @cut q vmr pmo hlen hfind hbig hva hpmo htype hcut =>
      obtain ⟨hmem, hhas⟩ := findVmrForVa_inv hfind
      rw [if_neg hlen, hfind] at hclean
      dsimp only at hclean
      rw [if_pos hbig] at hclean
      have hdvd : pageSize ∣ len := by
        rw [hva] at hpages
        exact (Nat.dvd_add_right (h.aligned _ hmem)).1 hpages
      rw [hva] at hcut hhas
      exact h.cut hmem hhas hbig hdvd hcut (of_decide_eq_true hclean hva)
    | @delete q vmr vs1 hlen hfind hsmall hdel hrest =>
      obtain ⟨hmem, hlo, hhi⟩ := findVmrForVa_inv hfind
      rw [if_neg hlen, hfind] at hclean
      dsimp only at hclean
      rw [if_neg (Nat.not_lt.2 hsmall), hdel, Bool.and_eq_true] at hclean
      have huntouched := of_decide_eq_true hclean.1
      have hnext := hclean.2
      have halign : pageSize ∣ vmr.start := h.aligned _ hmem
      have hround : vmr.start ≤ roundDown va := by
        obtain ⟨n, hn⟩ := halign
        unfold roundDown pageSize at *
        omega
      have h1 : SpaceInv getPages pgd { st with vs := vs1 } := by
        refine h.delUnmapped hmem hdel fun u hu hhas => ?_
        by_cases hbefore : u * pageSize < roundDown va
        · exact .inr (huntouched.entry halign hu hhas (decide_eq_true hbefore))
        have hlt : u * pageSize < vmr.start + vmr.size := hhas.2.trans_le (Nat.mod_le _ _)
        exact .inl (vpn_round hu (Nat.le_of_not_lt hbefore) (by omega))
      exact ih { st with vs := vs1 } _ _ h1 (dvd_next_range hsmall hpages) hnext hrest

end

/-! ## The other calls -/

section

variable {mem : Allocator} {getPages : Nat → Nat} {pgd : Nat} {st st' : VmState}

/-- There is a new object. -/
lemma SpaceInv.addPmo (h : SpaceInv getPages pgd st) (type : PmoType) (size start : Nat) :
    SpaceInv getPages pgd (st.addPmo (newPmo type size start)) := by
  have hold : ∀ p, p < st.pmoCount → (st.addPmo (newPmo type size start)).pmos p = st.pmos p :=
    fun p hp => update_of_ne (ne_of_lt hp) _ _
  exact {
    h with
    objects := fun e he => Nat.lt_succ_of_lt (h.objects e he)
    pmoLt := forall_update (Nat.lt_succ_self _)
      fun p pmo _ hpmo => Nat.lt_succ_of_lt (h.pmoLt p pmo hpmo)
    heapPmo := by
      intro q hq e he hname pmo hpmo
      rw [hold _ (h.objects e he)] at hpmo
      exact h.heapPmo q hq e he hname pmo hpmo
    frames := forall_update (fun k pa hk => by simp [newPmo] at hk)
      fun p pmo _ hpmo => h.frames p pmo hpmo
    backed := by
      intro u w hu hw
      refine (h.backed u w hu hw).mono (fun e he hhas => ⟨e, he, hhas, rfl, rfl⟩)
        fun e he _ pmo hpmo => ⟨pmo, ?_, fun _ _ hk => hk⟩
      rw [hold _ (h.objects e he)]
      exact hpmo
  }

/-- A name for a region is used up. -/
lemma SpaceInv.alloc (h : SpaceInv getPages pgd st) : SpaceInv getPages pgd
    { st with vs := { st.vs with vmrs := st.vs.vmrs + 1 } } :=
  { h with
    named := fun e he => Nat.lt_succ_of_lt (h.named e he)
    heapNamed := fun q hq => Nat.lt_succ_of_lt (h.heapNamed q hq) }

/-- There is a new region, and pages of it are mapped. -/
lemma SpaceInv.add (h : SpaceInv getPages pgd st) (vmr : Vmregion)
    (pgtbl : PtState) (htable : PtInv getPages pgd pgtbl)
    (halign : pageSize ∣ vmr.start)
    (hwords : vmr.start < 2 ^ 64 ∧ vmr.size < 2 ^ 64)
    (hobject : vmr.pmo < st.pmoCount)
    (hentry : ∀ u w, u < 2 ^ 36 → pgtbl.entryAt pgd u = some w → st.vs.entry u = some w ∨
        BackedBy st.pmos [(st.vs.vmrs, vmr)] u w) :
    SpaceInv getPages pgd
      { st with vs := { st.vs with
          vmrs := st.vs.vmrs + 1
          vmrList := (st.vs.vmrs, vmr) :: st.vs.vmrList
          pgtbl } } where
  root := h.root
  table := htable
  nodup := nodup_fst_cons h.nodup fun e he => ne_of_lt (h.named e he)
  named := forall_mem_cons.2 ⟨Nat.lt_succ_self _, fun e he => Nat.lt_succ_of_lt (h.named e he)⟩
  aligned := forall_mem_cons.2 ⟨halign, h.aligned⟩
  words := forall_mem_cons.2 ⟨hwords, h.words⟩
  mmapAddr := h.mmapAddr
  heapAddr := h.heapAddr
  objects := forall_mem_cons.2 ⟨hobject, h.objects⟩
  pmoLt := h.pmoLt
  heapNamed q hq := Nat.lt_succ_of_lt (h.heapNamed q hq)
  heapPmo q hq e he hname := by
    rcases mem_cons.1 he with rfl | he
    · exact absurd hname.symm (ne_of_lt (h.heapNamed q hq))
    · exact h.heapPmo q hq e he hname
  frames := h.frames
  backed u w hu hw := by
    rcases hentry u w hu (h.root ▸ hw) with hold | ⟨e, he, hbacked⟩
    · obtain ⟨e, he, hbacked⟩ := h.backed u w hu hold
      exact ⟨e, mem_cons_of_mem _ he, hbacked⟩
    obtain rfl := mem_singleton.1 he
    exact ⟨_, mem_cons_self, hbacked⟩

variable {len : Nat}

lemma mapLength_lt (h : len < 2 ^ 64) : mapLength len < 2 ^ 64 := by
  unfold mapLength pageSize
  split_ifs <;> omega

variable {start k : Nat}

/-- Positions in a region that starts at a page. -/
lemma position : (start + k * pageSize - start) / pageSize = k := by
  rw [Nat.add_sub_cancel_left, Nat.mul_div_cancel _ (by decide)]

lemma shift_frame (hlt : start + k * pageSize < 2 ^ 48) :
    u64 (start + k * pageSize) >>> pageShift = start / pageSize + k ∧
    start / pageSize + k < 2 ^ 36 := by
  rw [u64_of_lt (by omega), Nat.shiftRight_eq_div_pow]
  unfold pageShift pageSize at *
  omega

/-- The address of a page that is mapped at an aligned address. -/
lemma vpn_mul_of_aligned (halign : pageSize ∣ start) (hlt : start + k * pageSize < 2 ^ 48) :
    vpn (start + k * pageSize) * pageSize = start + k * pageSize := by
  obtain ⟨n, rfl⟩ := halign
  unfold vpn pageSize at *
  omega

variable {va : Nat} {pmo : Pmobject}

/-- The entries after `fill_page_table`. -/
lemma fill_entries (hfresh : FreshPages getPages pgd)
    (h : SpaceInv getPages pgd st) {flags : Nat} {pgtbl : PtState}
    (hrun : mapRangeInPgtbl getPages st.vs.pgtbl pgd va pmo.start pmo.size flags = .ok pgtbl)
    (hphys : ∀ k, k < pageRounds pmo.size → pmo.start + k * pageSize < 2 ^ 48) :
    PtInv getPages pgd pgtbl ∧ ∀ u w, pgtbl.entryAt pgd u = some w → st.vs.entry u = some w ∨
    ∃ k, k < pageRounds pmo.size ∧ u = vpn (va + k * pageSize) ∧
    getField w 12 36 = pmo.start / pageSize + k := by
  simp only [Vmspace.entry, h.root]
  rcases Nat.eq_zero_or_pos (pageRounds pmo.size) with hzero | hpos
  · rw [mapRangeInPgtbl, hzero] at hrun
    cases hrun
    exact ⟨h.table, fun u w hw => .inl hw⟩
  have hpa : pmo.start < 2 ^ 64 := by
    have := hphys 0 hpos
    omega
  obtain ⟨pt, hrun', htable, -, -, hentry⟩ := mapLoop_new hfresh flags
    (pageRounds pmo.size) st.vs.pgtbl va pmo.start h.table
  rw [mapRangeInPgtbl, hrun'] at hrun
  cases hrun
  refine ⟨htable, fun u w hw => ?_⟩
  rcases hentry hpa u w hw with hold | ⟨k, hk, hpage, hval⟩
  · exact .inl hold
  obtain ⟨hshift, hlt⟩ := shift_frame (hphys k hk)
  refine .inr ⟨k, hk, hpage, ?_⟩
  rw [hval, hshift, getField_writePage hlt]

variable {p : Nat}

/-- **`vmspace_map_range`** of an object that fits into the region. -/
theorem SpaceInv.mapRange (hfresh : FreshPages getPages pgd)
    (h : SpaceInv getPages pgd st) {flags : Nat} (hpmo : st.pmos p = some pmo)
    (hva : va < 2 ^ 64) (hlen : len < 2 ^ 64)
    (hfits : mappedEarly pmo.type → ∀ k, k < pageRounds pmo.size →
    Vmregion.Has ⟨roundDown va, mapLength len, 0, p⟩ (roundDown va + k * pageSize) ∧
    roundDown va + k * pageSize < 2 ^ 48 ∧ pmo.start + k * pageSize < 2 ^ 48)
    (hmap : MapEffect getPages st va len flags p pmo st') : SpaceInv getPages pgd st' := by
  cases hmap with
  | noMemory => exact h.alloc
  | @added pgtbl hpages =>
    have hstart : roundDown va < 2 ^ 64 := (Nat.div_mul_le_self va pageSize).trans_lt hva
    by_cases hearly : mappedEarly pmo.type = true
    · rw [if_pos hearly, h.root] at hpages
      have hfits' := hfits hearly
      obtain ⟨htable, hentry⟩ := fill_entries hfresh h hpages fun k hk => (hfits' k hk).2.2
      refine h.add _ _ htable (dvd_roundDown va) ⟨hstart, mapLength_lt hlen⟩
        (h.pmoLt p pmo hpmo) fun u w hu hw => ?_
      rcases hentry u w hw with hold | ⟨k, hk, hpage, hframe⟩
      · exact .inl hold
      obtain ⟨hhas, hva48, hpa48⟩ := hfits' k hk
      have haddr : u * pageSize = roundDown va + k * pageSize := by
        rw [hpage]
        exact vpn_mul_of_aligned (dvd_roundDown va) hva48
      refine .inr ⟨_, mem_singleton_self _, ?_, pmo, hpmo, ?_⟩
      · rw [haddr]
        exact hhas
      rw [haddr, Pmobject.HoldsAt, if_pos hearly, position]
      refine ⟨?_, hframe⟩
      unfold pageRounds pageSize at *
      omega
    · rw [if_neg hearly] at hpages
      subst hpages
      refine h.add _ _ h.table (dvd_roundDown va) ⟨hstart, mapLength_lt hlen⟩
        (h.pmoLt p pmo hpmo) fun u w _ hw => .inl ?_
      rw [Vmspace.entry, h.root]
      exact hw

/-- **`sys_handle_mmap`.** -/
theorem SpaceInv.mmap (h : SpaceInv getPages pgd st) {length prot : Nat}
    (hlen : length < 2 ^ 64) (hmap : MmapEffect st length prot st') :
    SpaceInv getPages pgd st' := by
  cases hmap with
  | refused => exact h
  | noMemory => exact (h.addPmo .anonym (mmapLength length) 0).alloc
  | added hpages hcheck =>
    have hmmap : mmapLength length < 2 ^ 64 := by
      unfold mmapLength roundUp roundDown u64 pageSize
      split_ifs <;> omega
    have hnew := (h.addPmo .anonym (mmapLength length) 0).add
      ⟨st.vs.userCurrentMmapAddr, mmapLength length, getVmrProt prot,
        st.pmoCount⟩ st.vs.pgtbl h.table h.mmapAddr.1
      ⟨h.mmapAddr.2, hmmap⟩ (Nat.lt_succ_self _) fun u w _ hw => .inl (by
        rw [Vmspace.entry]
        exact h.root.symm ▸ hw)
    refine { hnew with mmapAddr := ⟨?_, u64_lt _⟩ }
    have hsum := Nat.dvd_add h.mmapAddr.1 (Nat.dvd_of_mod_eq_zero hpages)
    exact (Nat.dvd_mod_iff (by decide)).2 hsum

/-- The pointer to the region of the heap changes. -/
lemma SpaceInv.setHeap (h : SpaceInv getPages pgd st) {o : Option Nat}
    (hnamed : ∀ q ∈ o, q < st.vs.vmrs) (hpmo : ∀ q ∈ o, ∀ e ∈ st.vs.vmrList, e.1 = q →
    ∀ pmo, st.pmos e.2.pmo = some pmo → pmo.type = .anonym) :
    SpaceInv getPages pgd { st with vs := { st.vs with heapVmr := o } } :=
  { h with heapNamed := hnamed, heapPmo := hpmo }

/-- A region that grows at its end keeps its addresses. -/
lemma Vmregion.Has.grow {vmr : Vmregion} {a addr : Nat} (h : vmr.Has a)
    (hwords : vmr.start < 2 ^ 64 ∧ vmr.size < 2 ^ 64) (haddr : addr < 2 ^ 64)
    (hge : vmr.end ≤ addr) :
    Vmregion.Has { vmr with size := u64 (vmr.size + (addr - vmr.end)) } a := by
  obtain ⟨hwrap, hend⟩ := h.noWrap hwords
  have hlo := h.1
  have hhi := h.2
  refine ⟨hlo, ?_⟩
  rw [hend] at hhi hge ⊢
  show a < u64 (vmr.start + u64 (vmr.size + (addr - (vmr.start + vmr.size))))
  rw [u64_of_lt (show vmr.size + (addr - (vmr.start + vmr.size)) < 2 ^ 64 by
    omega), u64_of_lt (by omega)]
  omega

/-- **`sys_handle_brk`.** -/
theorem SpaceInv.brk (h : SpaceInv getPages pgd st) {addr : Nat}
    (haddr : addr < 2 ^ 64) (hbrk : BrkEffect st addr st') : SpaceInv getPages pgd st' := by
  cases hbrk with
  | noMemory =>
    exact ((h.addPmo .anonym 0 0).alloc).setHeap (fun q hq => nomatch hq) fun q hq => nomatch hq
  | created =>
    have hstart : pageSize ∣ st.vs.userCurrentHeap ∧ st.vs.userCurrentHeap < 2 ^ 64 := by
      rw [h.heapAddr]
      decide
    have hnew := (h.addPmo .anonym 0 0).add
      ⟨st.vs.userCurrentHeap, 0, vmrRead ||| vmrWrite, st.pmoCount⟩
      st.vs.pgtbl h.table hstart.1 ⟨hstart.2, Nat.two_pow_pos 64⟩
      (Nat.lt_succ_self _)
      fun u w _ hw => .inl (by
        rw [Vmspace.entry]
        exact h.root.symm ▸ hw)
    refine hnew.setHeap ?_ ?_
    · intro q hq
      cases hq
      exact Nat.lt_succ_self _
    intro q hq e he hname pmo hpmo
    cases hq
    rcases mem_cons.1 he with rfl | he
    · simp only [VmState.addPmo, update_self, Option.some.injEq] at hpmo
      rw [← hpmo]
      rfl
    · exact absurd hname (ne_of_lt (h.named e he))
  | @grown q vmr pmo hheap hvmr hpmo hge =>
    have htype : pmo.type = .anonym := h.heapPmo q hheap _ hvmr rfl pmo hpmo
    have hwords : vmr.start < 2 ^ 64 ∧ vmr.size < 2 ^ 64 := h.words _ hvmr
    refine h.reshape rfl h.table rfl rfl rfl rfl ?_ ?_ ?_ ?_
    · show ((setVmr st.vs q _).vmrList.map Prod.fst).Nodup
      rw [map_fst_setVmr]
      exact h.nodup
    · intro e he
      rcases mem_setVmr he with rfl | ⟨-, he0⟩
      · exact ⟨_, hvmr, rfl, rfl, h.aligned (q, vmr) hvmr, hwords.1, u64_lt _⟩
      · exact ⟨e, he0, rfl, rfl, h.aligned e he0, h.words e he0⟩
    · exact forall_update ⟨pmo, hpmo, rfl, h.frames _ pmo hpmo⟩
        fun p pmo' _ hp => ⟨pmo', hp, rfl, h.frames p pmo' hp⟩
    intro u w hu hw
    refine (h.backed u w hu hw).mono (fun e he hhas => ?_) fun e he _ pmo0 hpmo0 => ?_
    · by_cases hq : e.1 = q
      · have heq : e = (q, vmr) := inj_on_of_nodup_map h.nodup he hvmr hq
        subst heq
        exact ⟨_, mem_map.2 ⟨_, he, if_pos rfl⟩, hhas.grow hwords haddr hge, rfl, rfl⟩
      · exact ⟨e, mem_map.2 ⟨e, he, if_neg hq⟩, hhas, rfl, rfl⟩
    by_cases hp : e.2.pmo = vmr.pmo
    · rw [hp, hpmo, Option.some.injEq] at hpmo0
      subst hpmo0
      refine ⟨{ pmo with size := u64 (pmo.size + (addr - vmr.end)) },
        by simp [hp], fun k f hk => ?_⟩
      simp only [Pmobject.HoldsAt, htype, mappedEarly] at hk ⊢
      exact hk
    · exact ⟨pmo0, by simp [hp, hpmo0], fun _ _ hk => hk⟩

/-- The page that a fault maps is aligned physical memory. -/
lemma SpaceInv.fault_page (h : SpaceInv getPages pgd st) {index pa page : Nat}
    {radix : List (Nat × Nat)} (hpmo : st.pmos p = some pmo)
    (hpage : pageSize ∣ page ∧ page < 2 ^ 48)
    (hradix : (pmo.radix.lookup index = some pa ∧ radix = pmo.radix) ∨
    (pmo.radix.lookup index = none ∧ pa = page ∧ radix = (index, page) :: pmo.radix)) :
    (pageSize ∣ pa ∧ pa < 2 ^ 48) ∧ radix.lookup index = some pa ∧
    (∀ k q, pmo.radix.lookup k = some q → radix.lookup k = some q) ∧
    ∀ k q, radix.lookup k = some q → pageSize ∣ q ∧ q < 2 ^ 48 := by
  have hold := h.frames p pmo hpmo
  rcases hradix with ⟨hfound, rfl⟩ | ⟨hnone, rfl, rfl⟩
  · exact ⟨hold index pa hfound, hfound, fun _ _ hq => hq, hold⟩
  refine ⟨hpage, by simp, fun k q hq => ?_, fun k q hq => ?_⟩
  · have hne : k ≠ index := by
      intro heq
      rw [heq, hnone] at hq
      cases hq
    rw [lookup_cons, beq_false_of_ne hne]
    exact hq
  rw [lookup_cons] at hq
  by_cases heq : k = index
  · rw [heq, beq_self_eq_true] at hq
    cases hq
    exact hpage
  · rw [beq_false_of_ne heq] at hq
    exact hold k q hq

/-- **Page faults.** -/
theorem SpaceInv.fault (hfresh : FreshPages getPages pgd)
    (h : SpaceInv getPages pgd st) {faultAddr page : Nat} {r : Int}
    (haddr : faultAddr < 2 ^ 48) (hpage : pageSize ∣ page ∧ page < 2 ^ 48)
    (hfault : FaultEffect getPages st faultAddr page st' r) : SpaceInv getPages pgd st' := by
  cases hfault with
  | noRegion hfind => exact h
  | @mapped q pa vmr pmo radix pgtbl hfind hpmo htype hsize hradix hmap =>
    obtain ⟨hmem, hlo, hhi⟩ := findVmrForVa_inv hfind
    have halign : pageSize ∣ vmr.start := h.aligned _ hmem
    obtain ⟨-, hindex⟩ := fault_offset halign hlo (by omega)
    rw [hindex] at hradix
    obtain ⟨⟨hpa, hpa48⟩, hhere, hmore, hframes⟩ := h.fault_page hpmo hpage hradix
    obtain ⟨f, rfl⟩ := hpa
    rw [mul_comm pageSize f] at *
    have hf : f < 2 ^ 36 := by
      unfold pageSize at hpa48
      omega
    rw [h.root] at hmap
    obtain ⟨pt, hmap', htable, hentry⟩ :=
      mapRange_page hfresh h.table (roundDown faultAddr) (f * pageSize) vmr.perm
    rw [mul_pageSize_shiftRight] at hentry
    rw [hmap'] at hmap
    cases hmap
    have hlazy : mappedEarly pmo.type = false := by
      rcases htype with htype | htype <;> rw [htype] <;> rfl
    refine h.reshape rfl htable rfl rfl rfl rfl h.nodup
      (fun e he => ⟨e, he, rfl, rfl, h.aligned e he, h.words e he⟩)
      (forall_update ⟨pmo, hpmo, rfl, hframes⟩
        fun p pmo' _ hp => ⟨pmo', hp, rfl, h.frames p pmo' hp⟩) fun u w hu hw => ?_
    have hw' : pgtbl.entryAt st.vs.pgd u = some w := hw
    rw [h.root, hentry, vpn_roundDown] at hw'
    by_cases heq : u = vpn faultAddr
    · -- the page that the fault has mapped
      rw [if_pos heq, Option.some.injEq] at hw'
      have haddr' : u * pageSize = roundDown faultAddr := by
        rw [heq]
        unfold vpn roundDown pageSize
        omega
      have hposition : (u * pageSize - vmr.start) / pageSize =
          (faultAddr - vmr.start) / pageSize := by
        obtain ⟨n, hn⟩ := halign
        rw [haddr', hn]
        unfold roundDown pageSize
        omega
      have hstart : vmr.start ≤ u * pageSize := by
        obtain ⟨n, hn⟩ := halign
        rw [haddr']
        unfold roundDown pageSize at *
        omega
      refine ⟨_, hmem, ⟨hstart, ?_⟩, { pmo with radix }, ?_, ?_⟩
      · rw [haddr']
        exact (Nat.div_mul_le_self _ _).trans_lt hhi
      · simp
      rw [Pmobject.HoldsAt, if_neg (by simp [hlazy]), hposition]
      refine ⟨f * pageSize, hhere, ?_⟩
      rw [← hw', getField_writePage hf, Nat.mul_div_cancel _ (by decide)]
    · rw [if_neg heq] at hw'
      have hold : st.vs.entry u = some w := by
        rw [Vmspace.entry, h.root]
        exact hw'
      refine (h.backed u w hu hold).mono (fun e he hhas => ⟨e, he, hhas, rfl, rfl⟩)
        fun e he _ pmo0 hpmo0 => ?_
      by_cases hp : e.2.pmo = vmr.pmo
      · rw [hp, hpmo, Option.some.injEq] at hpmo0
        subst hpmo0
        refine ⟨{ pmo with radix }, by simp [hp], fun k g hk => ?_⟩
        rw [Pmobject.HoldsAt, if_neg (by simp [hlazy])] at hk ⊢
        obtain ⟨pa, hpa, hg⟩ := hk
        exact ⟨pa, hmore k pa hpa, hg⟩
      · exact ⟨pmo0, by simp [hp, hpmo0], fun _ _ hk => hk⟩

/-- **`vmspace_unmap_range`** and `unmap_pmo_in_vmspace`. -/
theorem SpaceInv.unmap (h : SpaceInv getPages pgd st)
    (hclean : len = 0 → ∀ e ∈ findVmrForVa st.vs va, Untouched st.vs e.2 fun _ => true)
    (hunmap : UnmapEffect st va len st') : SpaceInv getPages pgd st' := by
  cases hunmap with
  | noRegion => exact h
  | @kept q vmr hlen hfind =>
    have hmem := (findVmrForVa_inv hfind).1
    refine h.del hmem h.table (fun _ _ hw => hw) fun u w hu hhas hw => ?_
    have hnone := (hclean hlen (q, vmr) hfind).entry (h.aligned _ hmem) hu hhas rfl
    exact Option.some_ne_none w (hw.symm.trans hnone)
  | @deleted q vmr vs' hmem hrun =>
    have halign : pageSize ∣ vmr.start := h.aligned _ hmem
    have hround : roundDown vmr.start = vmr.start := by rw [roundDown, Nat.div_mul_cancel halign]
    refine h.delUnmapped hmem hrun fun u hu hhas => .inl (vpn_round hu ?_ ?_)
    · rw [hround]
      exact hhas.1
    rw [hround]
    exact hhas.2.trans_le (Nat.mod_le _ _)

/-- An object is destroyed. -/
lemma SpaceInv.destroy (h : SpaceInv getPages pgd st)
    (hclean : ∀ e ∈ st.vs.vmrList, e.2.pmo = p → Untouched st.vs e.2 fun _ => true) :
    SpaceInv getPages pgd { st with pmos := update st.pmos p none } := by
  have hpmos : ∀ o pmo, update st.pmos p none o = some pmo → st.pmos o = some pmo := by
    intro o pmo ho
    by_cases heq : o = p
    · simp [heq] at ho
    · simpa [heq] using ho
  exact {
    h with
    pmoLt := fun o pmo ho => h.pmoLt o pmo (hpmos o pmo ho)
    heapPmo := fun q hq e he hname pmo ho =>
      h.heapPmo q hq e he hname pmo (hpmos _ pmo ho)
    frames := fun o pmo ho => h.frames o pmo (hpmos o pmo ho)
    backed := by
      intro u w hu hw
      refine (h.backed u w hu hw).mono (fun e he hhas => ⟨e, he, hhas, rfl, rfl⟩)
        fun e he hhas pmo hpmo => ⟨pmo, ?_, fun _ _ hk => hk⟩
      have hne : e.2.pmo ≠ p := by
        intro heq
        have hnone := (hclean e he heq).entry (h.aligned e he) hu hhas rfl
        have hw' : st.vs.entry u = some w := hw
        rw [hnone] at hw'
        cases hw'
      simpa [hne] using hpmo
  }

/-! ## Runs -/

lemma SpaceInv.step (hfresh : FreshPages getPages pgd)
    (h : SpaceInv getPages pgd st) {op : SpaceOp} (hall : SpaceAllowed st op)
    (hrun : spaceStep mem getPages st op = .ok st') : SpaceInv getPages pgd st' := by
  cases op with
  | call op =>
    have hrun : vmStep mem getPages st op = .ok st' := hrun
    cases op with
    | createPmo size type start =>
      by_cases hsize : size = 0
      · rw [vmStep, if_pos hsize] at hrun
        cases hrun
      rw [vmStep, if_neg hsize] at hrun
      cases hrun
      exact h.addPmo type size start
    | mapRange va len flags p =>
      obtain ⟨pmo, hpmo, heffect⟩ := mapRange_cases hrun
      obtain ⟨hva, hlen, hfits⟩ := hall
      exact h.mapRange hfresh hpmo hva hlen (hfits pmo hpmo) heffect
    | unmapRange va len => exact h.unmap hall (unmapRange_cases hrun)
    | unmapPmo p => exact h.unmap (fun hone => absurd hone one_ne_zero) (unmapPmo_cases 0 1 hrun)
    | mmap length prot flags fd => exact h.mmap hall (mmap_cases hrun)
    | munmap addr length =>
      rcases munmap_cases hrun with rfl | ⟨vs', haddr, hlength, hun, rfl⟩
      · exact h
      · exact SpaceInv.unmapVmrs _ st addr length h (Nat.dvd_add haddr hlength) hall.2 hun
    | brk addr => exact h.brk hall (brk_cases hrun)
  | fault faultAddr page =>
    obtain ⟨⟨st1, r⟩, hfault, hend⟩ := bind_eq_ok.1 hrun
    cases hend
    exact h.fault hfresh hall.1 hall.2 (vmFault_cases hfault)
  | destroyPmo p =>
    cases hrun
    exact h.destroy hall

lemma SpaceInv.init (pgd : Nat) : SpaceInv getPages pgd (initVm pgd) where
  root := rfl
  table := table_initVm getPages pgd
  nodup := nodup_nil
  named := fun _ he => absurd he not_mem_nil
  aligned := fun _ he => absurd he not_mem_nil
  words := fun _ he => absurd he not_mem_nil
  mmapAddr := by
    show pageSize ∣ mmapStart ∧ mmapStart < 2 ^ 64
    decide
  heapAddr := rfl
  objects := fun _ he => absurd he not_mem_nil
  pmoLt := fun _ _ h => nomatch h
  heapNamed := fun _ h => nomatch h
  heapPmo := fun _ h => nomatch h
  frames := fun _ _ h => nomatch h
  backed := by
    intro u w _ hw
    rw [entry_initVm] at hw
    cases hw

end

/-- **Mapped pages lie in regions.** In every run in which objects that are
mapped at once fit into their region and into 48 bits, faults are below `2 ^ 48`,
and no call takes away or moves a region that has pages left in the page table,
every page that `query_in_pgtbl` reports lies in a region, and its physical page
is the one that the object of the region holds there. -/
theorem mapped_pages_in_regions (mem : Allocator) {getPages : Nat → Nat}
    {pgd : Nat} (hfresh : FreshPages getPages pgd) (ops : List SpaceOp)
    {st : VmState}
    (hadm : Admissible (spaceStep mem getPages) SpaceAllowed (initVm pgd) ops)
    (hrun : run (spaceStep mem getPages) (initVm pgd) ops = .ok st) :
    ∀ va, va < 2 ^ 48 → ∀ query, queryInPgtbl st.vs.pgtbl st.vs.pgd va = some query →
      ∃ pa, query.pa = some pa ∧ ∃ e ∈ st.vs.vmrList,
        e.2.Has (roundDown va) ∧ ∃ pmo, st.pmos e.2.pmo = some pmo ∧
          Pmobject.HoldsAt pmo ((roundDown va - e.2.start) / pageSize) (pa / pageSize) := by
  have hinv : SpaceInv getPages pgd st :=
    run_preserves_of_admissible (fun _ _ _ h hall hstep => h.step hfresh hall hstep)
      ops _ st (SpaceInv.init pgd) hadm hrun
  intro va hva query hquery
  rw [hinv.root, queryInPgtbl_eq hinv.table] at hquery
  obtain ⟨w, hw, hresult⟩ := Option.map_eq_some_iff.1 hquery
  have hentry : st.vs.entry (vpn va) = some w := by
    rw [Vmspace.entry, hinv.root]
    exact hw
  have hpage : vpn va * pageSize = roundDown va := by
    unfold vpn roundDown pageSize
    omega
  obtain ⟨e, he, hhas, pmo, hpmo, hholds⟩ := hinv.backed (vpn va) w (vpn_lt va) hentry
  rw [hpage] at hhas hholds
  refine ⟨(getField w 12 36 <<< 12) + va % 2 ^ 12, ?_, e, he, hhas, pmo, hpmo, ?_⟩
  · rw [← hresult]
    rfl
  have hframe : ((getField w 12 36 <<< 12) + va % 2 ^ 12) / pageSize = getField w 12 36 := by
    rw [Nat.shiftLeft_eq]
    unfold pageSize
    omega
  rw [hframe]
  exact hholds

/-- A run with an object that is mapped at once, anonymous memory and a heap. -/
def regionOps : List SpaceOp := [.call (.createPmo 0x2000 .data 0x5000),
    .call (.mapRange 0x1000 0x2000 vmrRead 0), .call (.mmap 0x3000 3 0x22 (-1)),
    .fault 0x700000001234 0x9000, .call (.brk 0), .call (.brk 0x600000002000),
    .fault 0x600000000010 0xa000, .call (.unmapRange 0x1000 0x2000),
    .call (.munmap mmapStart 0x3000)]

theorem mapped_pages_in_regions_ops : ∃ st,
    run (spaceStep .always Nat.succ) (initVm 0) regionOps = .ok st ∧
    ∀ va, va < 2 ^ 48 → ∀ query, queryInPgtbl st.vs.pgtbl st.vs.pgd va = some query →
      ∃ pa, query.pa = some pa ∧ ∃ e ∈ st.vs.vmrList,
        e.2.Has (roundDown va) ∧ ∃ pmo, st.pmos e.2.pmo = some pmo ∧
          Pmobject.HoldsAt pmo ((roundDown va - e.2.start) / pageSize) (pa / pageSize) := by
  exact exists_ok (by decide +kernel) fun st =>
    mapped_pages_in_regions .always freshPages_succ regionOps (by decide +kernel)

/-- An object of two pages is mapped with length `0x1000`. Both pages are
mapped, but only the first one lies in the region. -/
theorem page_mapped_outside_region : ∃ st, run (spaceStep .always Nat.succ) (initVm 0)
      [.call (.createPmo 0x2000 .data 0x5000), .call (.mapRange 0x1000 0x1000 vmrRead 0)] = .ok st ∧
    (queryInPgtbl st.vs.pgtbl st.vs.pgd 0x2000).isSome ∧
    ∀ e ∈ st.vs.vmrList, ¬ e.2.Has 0x2000 := by decide +kernel

end ChCore.Kernel
