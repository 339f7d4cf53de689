import ChCore.Kernel.AnonymousRegions

/-!
# What `sys_handle_munmap` unmaps

`munmap` should take the addresses of its range out of every region and out of
the page table and leave all others as they are. `unmap_vmrs` does this only
when the range begins at the start of a region and runs over regions without a
gap up to its last mapped address: at a gap it stops, a range inside a region
changes nothing, a region entered in the middle is deleted as a whole, and in
all these cases the call returns 0.
-/

namespace ChCore.Kernel

open Lib.Runs

/-- An address is in a region with these permissions and this object. -/
def RegionAt (list : List (Nat × Vmregion)) (a perm pmo : Nat) : Prop :=
  ∃ e ∈ list, e.2.Has a ∧ e.2.perm = perm ∧ e.2.pmo = pmo

/-- The regions lose the addresses of the range and no others. -/
def RegionsCut (list list' : List (Nat × Vmregion)) (addr length : Nat) : Prop :=
  ∀ a perm pmo, RegionAt list' a perm pmo ↔
    RegionAt list a perm pmo ∧ ¬ (addr ≤ a ∧ a < addr + length)

/-- The law of `munmap`, for the regions and for the page table. -/
structure MunmapLaw (vs vs' : Vmspace) (addr length : Nat) : Prop where
  regions : RegionsCut vs.vmrList vs'.vmrList addr length
  pages : ∀ va, va < 2 ^ 48 → queryInPgtbl vs'.pgtbl vs'.pgd va =
    if addr ≤ va ∧ va < addr + length then none
    else queryInPgtbl vs.pgtbl vs.pgd va

/-- No region reaches into the range from below, and there is no gap in front
of a region in the range. -/
structure Tiled (list : List (Nat × Vmregion)) (addr length : Nat) : Prop where
  start : ∀ e ∈ list, e.2.Has addr → length ≠ 0 → e.2.start = addr
  noGap : ∀ e ∈ list, ∀ a, e.2.Has a → addr ≤ a → a < addr + length →
    ∀ b, addr ≤ b → b < a → ∃ e' ∈ list, e'.2.Has b

/-- The mapped pages of the range are those that the loop of
`unmap_range_in_pgtbl` meets, if there is a region to begin with. -/
def PagesMet (vs : Vmspace) (addr length : Nat) : Prop := ∀ u, u < 2 ^ 36 → vs.entry u ≠ none →
    (addr ≤ u * pageSize ∧ u * pageSize < addr + length ↔
      (length ≠ 0 ∧ ∃ e ∈ vs.vmrList, e.2.Has addr) ∧ PageIn addr length u)

/-! ## Regions -/

section

variable {list list1 list' : List (Nat × Vmregion)} {va len q : Nat}
  {vmr : Vmregion}

/-- A gap at the first address: nothing happens. -/
lemma regionsCut_gap (hgap : ∀ e ∈ list, ¬ e.2.Has va) :
    RegionsCut list list va len ↔ Tiled list va len := by
  constructor
  · intro h
    have hnone : ∀ e ∈ list, ∀ a, e.2.Has a → va ≤ a → ¬ a < va + len := by
      intro e he a hhas hlo hhi
      exact ((h a _ _).1 ⟨e, he, hhas, rfl, rfl⟩).2 ⟨hlo, hhi⟩
    exact
      { start := fun e he hhas => absurd hhas (hgap e he)
        noGap := fun e he a hhas hlo hhi =>
          absurd hhi (hnone e he a hhas hlo) }
  · intro h a perm pmo
    refine ⟨fun hat => ⟨hat, fun hin => ?_⟩, And.left⟩
    obtain ⟨e, he, hhas, -⟩ := hat
    have hne : va ≠ a := by
      rintro rfl
      exact hgap e he hhas
    obtain ⟨e', he', hhas'⟩ := h.noGap e he a hhas hin.1 hin.2 va le_rfl (lt_of_le_of_ne hin.1 hne)
    exact hgap e' he' hhas'

/-- A range inside a region that starts before it: nothing happens. -/
lemma not_regionsCut_inside (hlen : len ≠ 0) (hmem : (q, vmr) ∈ list)
    (hhas : vmr.Has va) : ¬ RegionsCut list list va len := by
  intro h
  have hat : RegionAt list va vmr.perm vmr.pmo := ⟨_, hmem, hhas, rfl, rfl⟩
  exact ((h _ _ _).1 hat).2 ⟨le_rfl, by omega⟩

/-- A range that ends in its first region. -/
lemma PageRegions.tiled_first (h : PageRegions list)
    (hmem : (q, vmr) ∈ list) (hhas : vmr.Has vmr.start)
    (hlen : len < vmr.size) : Tiled list vmr.start len := by
  have hwords : vmr.start < 2 ^ 64 ∧ vmr.size < 2 ^ 64 := h.words _ hmem
  have hend := (hhas.noWrap hwords).2
  exact {
    start := by
      intro e he hhas' _
      rw [h.apart e he (q, vmr) hmem _ hhas' hhas]
    noGap := by
      intro e he a _ hlo hhi b hlo' hlt
      refine ⟨_, hmem, hlo', ?_⟩
      show b < vmr.end
      omega
  }

/-- The first region loses its first pages. -/
lemma PageRegions.regionsCut_cut {vs : Vmspace} (h : PageRegions vs.vmrList)
    (hmem : (q, vmr) ∈ vs.vmrList) (hhas : vmr.Has vmr.start) (hlen : len < vmr.size) :
    RegionsCut vs.vmrList (setVmr vs q (vmr.tail len)).vmrList vmr.start len := by
  have hwords : vmr.start < 2 ^ 64 ∧ vmr.size < 2 ^ 64 := h.words _ hmem
  have htail : ∀ a, (vmr.tail len).Has a ↔ vmr.Has a ∧ vmr.start + len ≤ a :=
    fun _ => vmr.tail_has hwords hhas hlen
  have hend := (hhas.noWrap hwords).2
  intro a perm pmo
  constructor
  · rintro ⟨e, he, hin, hperm, hpmo⟩
    rcases mem_setVmr he with rfl | ⟨hq, he⟩
    · obtain ⟨hin, hle⟩ := (htail a).1 hin
      exact ⟨⟨_, hmem, hin, hperm, hpmo⟩, by omega⟩
    refine ⟨⟨e, he, hin, hperm, hpmo⟩, fun ⟨hlo, hhi⟩ => hq ?_⟩
    have hin' : vmr.Has a := ⟨hlo, by omega⟩
    rw [h.apart e he (q, vmr) hmem a hin hin']
  · rintro ⟨⟨e, he, hin, hperm, hpmo⟩, hout⟩
    by_cases hq : e.1 = q
    · obtain rfl : e = (q, vmr) := List.inj_on_of_nodup_map h.nodup he hmem hq
      refine ⟨(q, vmr.tail len), ?_, (htail a).2 ⟨hin, ?_⟩, hperm, hpmo⟩
      · exact List.mem_map.2 ⟨_, hmem, if_pos rfl⟩
      have hlo := hin.1
      dsimp only at hlo
      omega
    · exact ⟨e, List.mem_map.2 ⟨e, he, if_neg hq⟩, hin, hperm, hpmo⟩

/-- The first region is deleted, and the rest of the range begins behind it. -/
lemma PageRegions.regionsCut_rest (h : PageRegions list)
    (hmem : (q, vmr) ∈ list) (hrest : ∀ e, e ∈ list1 ↔ e ∈ list ∧ e ≠ (q, vmr))
    (hhas : vmr.Has vmr.start) (hlen : vmr.size ≤ len) : RegionsCut list list' vmr.start len ↔
    RegionsCut list1 list' (vmr.start + vmr.size) (len - vmr.size) := by
  have hend := (hhas.noWrap (h.words _ hmem)).2
  have hiff : ∀ a perm pmo, RegionAt list a perm pmo ∧ ¬ (vmr.start ≤ a ∧ a < vmr.start + len) ↔
        RegionAt list1 a perm pmo ∧ ¬ (vmr.start + vmr.size ≤ a ∧
          a < vmr.start + vmr.size + (len - vmr.size)) := by
    intro a perm pmo
    constructor
    · rintro ⟨⟨e, he, hin, hattr⟩, hout⟩
      refine ⟨⟨e, (hrest e).2 ⟨he, ?_⟩, hin, hattr⟩, by omega⟩
      rintro rfl
      have hlo : vmr.start ≤ a := hin.1
      have hhi : a < vmr.end := hin.2
      omega
    · rintro ⟨⟨e, he, hin, hattr⟩, hout⟩
      obtain ⟨he, hne⟩ := (hrest e).1 he
      refine ⟨⟨e, he, hin, hattr⟩, fun hboth => hne ?_⟩
      have hin' : vmr.Has a := ⟨hboth.1, by omega⟩
      exact h.apart e he (q, vmr) hmem a hin hin'
  unfold RegionsCut
  simp only [hiff]

lemma PageRegions.tiled_rest (h : PageRegions list)
    (hmem : (q, vmr) ∈ list) (hrest : ∀ e, e ∈ list1 ↔ e ∈ list ∧ e ≠ (q, vmr))
    (hhas : vmr.Has vmr.start) (hlen : vmr.size ≤ len) :
    Tiled list vmr.start len ↔ Tiled list1 (vmr.start + vmr.size) (len - vmr.size) := by
  have hend := (hhas.noWrap (h.words _ hmem)).2
  have hpos : vmr.start < vmr.end := hhas.2
  constructor
  · intro ht
    exact {
      start := by
        intro e he hin _
        obtain ⟨he, hne⟩ := (hrest e).1 he
        by_contra hstart
        -- a region that reaches across the end of the first one meets it
        have hlo := hin.1
        have hhi := hin.2
        have hlast : e.2.Has (vmr.start + vmr.size - 1) := ⟨by omega, by omega⟩
        have hlast' : vmr.Has (vmr.start + vmr.size - 1) := ⟨by omega, by omega⟩
        exact hne (h.apart e he (q, vmr) hmem _ hlast hlast')
      noGap := by
        intro e he a hin hlo hhi b hlo' hlt
        obtain ⟨e', he', hin'⟩ := ht.noGap e ((hrest e).1 he).1 a hin
          (by omega) (by omega) b (by omega) hlt
        refine ⟨e', (hrest e').2 ⟨he', ?_⟩, hin'⟩
        rintro rfl
        have hhi' : b < vmr.end := hin'.2
        omega
    }
  · intro ht
    exact {
      start := by
        intro e he hin _
        rw [h.apart e he (q, vmr) hmem _ hin hhas]
      noGap := by
        intro e he a hin hlo hhi b hlo' hlt
        by_cases hfirst : b < vmr.start + vmr.size
        · have hin' : vmr.Has b := ⟨hlo', by omega⟩
          exact ⟨_, hmem, hin'⟩
        have hne : e ≠ (q, vmr) := by
          rintro rfl
          have hhi' : a < vmr.end := hin.2
          omega
        obtain ⟨e', he', hin'⟩ := ht.noGap e ((hrest e).2 ⟨he, hne⟩) a hin
          (by omega) (by omega) b (by omega) hlt
        exact ⟨e', ((hrest e').1 he').1, hin'⟩
    }

end

section

variable {getPages : Nat → Nat} {pgd : Nat} {vs vs' : Vmspace} {va len : Nat}

/-- A region entered in the middle and deleted: the addresses before the range
are lost. -/
lemma not_regionsCut_middle {q : Nat} {vmr : Vmregion}
    (h : PageRegions vs.vmrList) (hmem : (q, vmr) ∈ vs.vmrList)
    (hhas : vmr.Has va) (hva : va ≠ vmr.start)
    (hparts : ∀ e' ∈ vs'.vmrList, ∃ e ∈ (delVmrFromVmspace vs q).vmrList,
    ∀ addr, e'.2.Has addr → e.2.Has addr) : ¬ RegionsCut vs.vmrList vs'.vmrList va len := by
  intro hcut
  have hlo := hhas.1
  have hfirst : vmr.Has vmr.start := ⟨le_rfl, hlo.trans_lt hhas.2⟩
  have hat : RegionAt vs.vmrList vmr.start vmr.perm vmr.pmo := ⟨_, hmem, hfirst, rfl, rfl⟩
  obtain ⟨e', he', hin, -⟩ := (hcut _ _ _).2 ⟨hat, by omega⟩
  obtain ⟨e, he, hpart⟩ := hparts e' he'
  obtain ⟨he, hne⟩ := (h.mem_del hmem).1 he
  exact hne (h.apart e he (q, vmr) hmem _ (hpart _ hin) hfirst)

/-- The regions after `unmap_vmrs`, by induction on its rounds. -/
lemma unmapVmrs_regionsCut {pmos : Nat → Option Pmobject} (rounds : Nat) :
    ∀ (vs : Vmspace) (va len : Nat), vs.vmrList.length < rounds →
    vs.pgd = pgd → PtInv getPages pgd vs.pgtbl → PageRegions vs.vmrList →
    pageSize ∣ len → unmapVmrs pmos rounds vs va len = .ok vs' →
    (RegionsCut vs.vmrList vs'.vmrList va len ↔ Tiled vs.vmrList va len) := by
  induction rounds with
  | zero =>
    intro vs va len hlt
    exact absurd hlt (Nat.not_lt_zero _)
  | succ rounds ih =>
    intro vs va len hlt hroot htable h hpages hrun
    cases unmapVmrs_succ hrun with
    | empty hlen heq =>
      subst hlen heq
      have hcut : RegionsCut vs'.vmrList vs'.vmrList va 0 := by
        intro a perm pmo
        exact ⟨fun hat => ⟨hat, by omega⟩, And.left⟩
      refine iff_of_true hcut ⟨fun _ _ _ hne => absurd rfl hne, ?_⟩
      intro _ _ a _ hlo hhi
      omega
    | gap hlen hfind heq =>
      subst heq
      exact regionsCut_gap (findVmrForVa_none hfind)
    | @inside q vmr hlen hfind hbig hva heq =>
      subst heq
      obtain ⟨hmem, hhas⟩ := findVmrForVa_inv hfind
      refine iff_of_false (not_regionsCut_inside hlen hmem hhas) fun ht => ?_
      exact hva (ht.start _ hmem hhas hlen).symm
    | @cut q vmr pmo hlen hfind hbig hva hpmo htype hrun =>
      obtain ⟨hmem, hhas⟩ := findVmrForVa_inv hfind
      obtain ⟨pt, -, rfl⟩ := unmapPages_inv hrun
      subst hva
      exact iff_of_true (h.regionsCut_cut hmem hhas hbig) (h.tiled_first hmem hhas hbig)
    | @delete q vmr vs1 hlen hfind hsmall hdel hrest =>
      obtain ⟨hmem, hhas⟩ := findVmrForVa_inv hfind
      obtain ⟨pt, rfl, hinv, -⟩ := unmapPages_entries hdel hroot htable
      have hsize : pageSize ∣ vmr.size := h.pages _ hmem
      have hpages' := Nat.dvd_sub hpages hsize
      have hshort : (delVmrFromVmspace vs q).vmrList.length < rounds :=
        (length_delVmr_lt hmem).trans_le (Nat.le_of_lt_succ hlt)
      by_cases hva : va = vmr.start
      · subst hva
        have hwrap := (Vmregion.Has.noWrap hhas (h.words _ hmem)).1
        rw [u64_of_lt hwrap] at hrest
        have hmem1 := fun e => h.mem_del (e := e) hmem
        rw [h.regionsCut_rest hmem hmem1 hhas hsmall, h.tiled_rest hmem hmem1 hhas hsmall]
        exact ih { delVmrFromVmspace vs q with pgtbl := pt } _ _ hshort
          hroot hinv (h.del q) hpages' hrest
      have hresult := unmapVmrs_result rounds
        { delVmrFromVmspace vs q with pgtbl := pt } _ _ hshort hroot hinv
        (h.del q) hpages' hrest
      refine iff_of_false ?_ fun ht => ?_
      · refine not_regionsCut_middle h hmem hhas hva fun e' he' => ?_
        obtain ⟨e, he, -, -, hpart⟩ := hresult.parts e' he'
        exact ⟨e, he, hpart⟩
      · exact hva (ht.start _ hmem hhas hlen).symm

/-! ## Pages -/

/-- The law for the page table, in terms of its entries. -/
lemma query_law_iff {addr length : Nat} (haddr : pageSize ∣ addr)
    (hlength : pageSize ∣ length) (hroot : vs.pgd = pgd) (hroot' : vs'.pgd = pgd)
    (htable : PtInv getPages pgd vs.pgtbl) (htable' : PtInv getPages pgd vs'.pgtbl) :
    (∀ va, va < 2 ^ 48 → queryInPgtbl vs'.pgtbl vs'.pgd va =
    if addr ≤ va ∧ va < addr + length then none else queryInPgtbl vs.pgtbl vs.pgd va) ↔
    ∀ u, u < 2 ^ 36 → vs'.entry u = if addr ≤ u * pageSize ∧ u * pageSize < addr + length then none
    else vs.entry u := by
  have hq : ∀ va, queryInPgtbl vs.pgtbl vs.pgd va = (vs.entry (vpn va)).map (queryResult 3 va) := by
    intro va
    rw [Vmspace.entry, hroot, queryInPgtbl_eq htable]
  have hq' : ∀ va, queryInPgtbl vs'.pgtbl vs'.pgd va =
      (vs'.entry (vpn va)).map (queryResult 3 va) := by
    intro va
    rw [Vmspace.entry, hroot', queryInPgtbl_eq htable']
  simp only [hq, hq']
  constructor
  · intro h u hu
    have hpage := h (u * pageSize) (by unfold pageSize; omega)
    rw [vpn_page hu] at hpage
    by_cases hin : addr ≤ u * pageSize ∧ u * pageSize < addr + length
    · rw [if_pos hin, Option.map_eq_none_iff] at hpage
      rw [if_pos hin, hpage]
    rw [if_neg hin] at hpage
    rw [if_neg hin]
    refine Option.map_injective (fun w w' heq => ?_) hpage
    exact congrArg Query.entry heq
  · intro h va hva
    have hu : vpn va < 2 ^ 36 := Nat.mod_lt _ (by decide)
    have hiff : addr ≤ va ∧ va < addr + length ↔
        addr ≤ vpn va * pageSize ∧ vpn va * pageSize < addr + length := by
      unfold vpn pageSize at *
      omega
    rw [h _ hu]
    by_cases hin : addr ≤ va ∧ va < addr + length
    · rw [if_pos hin, if_pos (hiff.1 hin), Option.map_none]
    · rw [if_neg hin, if_neg fun hpage => hin (hiff.2 hpage)]

/-- If the regions are as they should be, the pages are if the loop met them. -/
lemma UnmapResult.pages_iff {addr length : Nat} (h : UnmapResult getPages pgd vs addr length vs')
    (ht : Tiled vs.vmrList addr length) :
    (∀ u, u < 2 ^ 36 → vs'.entry u = if addr ≤ u * pageSize ∧ u * pageSize < addr + length then none
    else vs.entry u) ↔ PagesMet vs addr length := by
  have hstarts : UnmapStarts vs addr length ↔ length ≠ 0 ∧ ∃ e ∈ vs.vmrList, e.2.Has addr := by
    refine and_congr_right fun hne => exists_congr fun e => ?_
    refine and_congr_right fun he => ⟨And.left, fun hhas => ⟨hhas, fun _ => ?_⟩⟩
    exact ht.start e he hhas hne
  unfold PagesMet
  rw [← hstarts]
  refine forall₂_congr fun u hu => ?_
  by_cases hmet : UnmapStarts vs addr length ∧ PageIn addr length u
  · rw [h.cleared hmet.1 u hmet.2]
    by_cases hin : addr ≤ u * pageSize ∧ u * pageSize < addr + length
    · simp only [hin, hmet, and_self, if_true, imp_true_iff]
    rw [if_neg hin]
    refine ⟨fun hnone hne => absurd hnone.symm hne, fun himp => ?_⟩
    by_contra hne
    exact hin ((himp fun hnone => hne hnone.symm).2 hmet)
  rw [h.kept u hmet]
  by_cases hin : addr ≤ u * pageSize ∧ u * pageSize < addr + length
  · rw [if_pos hin]
    refine ⟨fun hnone hne => absurd hnone hne, fun himp => ?_⟩
    by_contra hne
    exact hmet ((himp hne).1 hin)
  · rw [if_neg hin]
    exact iff_of_true rfl fun _ => iff_of_false hin hmet

end

/-! ## Address spaces made by `mmap` and by faults -/

/-- Each mapped page was touched in a region. -/
def PagesTouched (vs : Vmspace) : Prop :=
  ∀ u, vs.entry u ≠ none → ∃ e ∈ vs.vmrList, ∃ a, e.2.Has a ∧ vpn a = u

/-- The operations that build the address space. -/
def SpaceOp.MmapOrFault : SpaceOp → Prop
  | .call (.mmap length _ _ _) => length < 2 ^ 64
  | .fault _ _ => True
  | _ => False

section

variable {mem : Allocator} {getPages : Nat → Nat} {pgd : Nat}
  {st st' : VmState}

lemma mmapOrFault_step (hfresh : FreshPages getPages pgd) {op : SpaceOp} (hop : op.MmapOrFault)
    (h : AnonInv getPages pgd st ∧ PagesTouched st.vs)
    (hstep : spaceStep mem getPages st op = .ok st') :
    AnonInv getPages pgd st' ∧ PagesTouched st'.vs := by
  obtain ⟨hinv, htouched⟩ := h
  cases op with
  | call op =>
    change vmStep mem getPages st op = _ at hstep
    cases op with
    | mmap length prot flags fd =>
      have heffect := mmap_cases hstep
      refine ⟨hinv.mmap hop heffect, ?_⟩
      cases heffect with
      | refused | noMemory => exact htouched
      | added hpages hcheck =>
        intro u hu
        obtain ⟨e, he, ha⟩ := htouched u hu
        exact ⟨e, List.mem_cons_of_mem _ he, ha⟩
    | createPmo | mapRange | unmapRange | unmapPmo | munmap | brk => exact hop.elim
  | fault faultAddr page =>
    obtain ⟨⟨st1, r⟩, hfault, hend⟩ := bind_eq_ok.1 hstep
    cases hend
    have heffect := vmFault_cases hfault
    refine ⟨hinv.fault hfresh heffect, ?_⟩
    cases heffect with
    | noRegion hfind => exact htouched
    | mapped hfind hpmo htype hsize hradix hmap =>
      have hentry := (fault_entries hfresh hinv.root hinv.table hmap).2
      intro u hu
      by_cases hpage : u = vpn faultAddr
      · obtain ⟨hmem, hhas⟩ := findVmrForVa_inv hfind
        exact ⟨_, hmem, faultAddr, hhas, hpage.symm⟩
      rw [hentry u, if_neg hpage] at hu
      exact htouched u hu
  | destroyPmo p => exact hop.elim

/-- A call with an aligned range calls `unmap_vmrs`. -/
lemma sysHandleMunmap_ok {addr length : Nat} {r : Int}
    (haddr : pageSize ∣ addr) (hlength : pageSize ∣ length)
    (hrun : sysHandleMunmap st addr length = .ok (st', r)) :
    ∃ vs', unmapVmrs st.pmos (st.vs.vmrList.length + 1) st.vs addr length =
    .ok vs' ∧ st' = { st with vs := vs' } := by
  rw [sysHandleMunmap, if_neg (by
    rw [Nat.mod_eq_zero_of_dvd haddr, Nat.mod_eq_zero_of_dvd hlength]
    decide)] at hrun
  obtain ⟨vs', hun, hend⟩ := bind_eq_ok.1 hrun
  cases hend
  exact ⟨vs', hun, rfl⟩

/-- Below `2 ^ 48` the loop meets exactly the pages of the range. -/
lemma pagesMet_of_low {vs : Vmspace} {addr length : Nat}
    (h : PageRegions vs.vmrList) (htouched : PagesTouched vs)
    (haddr : pageSize ∣ addr) (hlength : pageSize ∣ length)
    (hlow : ∀ e ∈ vs.vmrList, e.2.start + e.2.size ≤ 2 ^ 48)
    (hend : addr + length ≤ 2 ^ 48) (ht : Tiled vs.vmrList addr length) :
    PagesMet vs addr length := by
  intro u hu hne
  constructor
  · intro hin
    obtain ⟨e, he, a, hhas, rfl⟩ := htouched u hne
    have hlow' := hlow e he
    have halign := h.aligned e he
    have hlo := hhas.1
    have hhi := hhas.2
    rw [(hhas.noWrap (h.words e he)).2] at hhi
    have hpage : e.2.Has (vpn a * pageSize) := by
      refine ⟨?_, ?_⟩
      · unfold vpn pageSize at *
        omega
      rw [(hhas.noWrap (h.words e he)).2]
      unfold vpn pageSize at *
      omega
    refine ⟨⟨by omega, ?_⟩, ?_⟩
    · by_cases hfirst : addr = vpn a * pageSize
      · exact ⟨e, he, hfirst ▸ hpage⟩
      · exact ht.noGap e he _ hpage hin.1 hin.2 addr le_rfl (by omega)
    · have hround : roundDown addr = addr := Nat.div_mul_cancel haddr
      exact vpn_round hu (by omega) (by omega)
  · rintro ⟨-, k, hk, rfl⟩
    unfold pageRounds vpn pageSize at *
    omega

/-- **The law of `munmap`.** In an address space made by `sys_handle_mmap` and
page faults, a call that returns 0 has unmapped its range and nothing else if
and only if the regions tile the range from its first address on and the loop
over the pages meets the mapped ones; for regions and a range that end below
`2 ^ 48` the second condition follows from the first. -/
theorem munmap_law_iff (mem : Allocator) {getPages : Nat → Nat} {pgd : Nat}
    (hfresh : FreshPages getPages pgd) (ops : List SpaceOp)
    (hops : ∀ op ∈ ops, op.MmapOrFault) {st st' : VmState}
    (hrun : run (spaceStep mem getPages) (initVm pgd) ops = .ok st)
    {addr length : Nat} (haddr : pageSize ∣ addr) (hlength : pageSize ∣ length)
    (hret : sysHandleMunmap st addr length = .ok (st', 0)) :
    (MunmapLaw st.vs st'.vs addr length ↔
      Tiled st.vs.vmrList addr length ∧ PagesMet st.vs addr length) ∧
    ((∀ e ∈ st.vs.vmrList, e.2.start + e.2.size ≤ 2 ^ 48) → addr + length ≤ 2 ^ 48 →
      (MunmapLaw st.vs st'.vs addr length ↔ Tiled st.vs.vmrList addr length)) := by
  have hempty : PagesTouched (initVm pgd).vs := by
    intro u hu
    rw [entry_initVm] at hu
    exact absurd rfl hu
  have hkeep : ∀ st op st', AnonInv getPages pgd st ∧ PagesTouched st.vs →
      SpaceOp.MmapOrFault op → spaceStep mem getPages st op = .ok st' →
      AnonInv getPages pgd st' ∧ PagesTouched st'.vs :=
    fun _ _ _ h hop hstep => mmapOrFault_step hfresh hop h hstep
  obtain ⟨hinv, htouched⟩ := run_preserves_of_forall hkeep ops _ _
    ⟨.init getPages pgd, hempty⟩ hops hrun
  obtain ⟨vs', hun, rfl⟩ := sysHandleMunmap_ok haddr hlength hret
  have hresult := unmapVmrs_result _ _ _ _ (Nat.lt_succ_self _) hinv.root
    hinv.table hinv.regions hlength hun
  have hcut := unmapVmrs_regionsCut _ _ _ _ (Nat.lt_succ_self _) hinv.root
    hinv.table hinv.regions hlength hun
  have hpages := query_law_iff haddr hlength hinv.root hresult.root hinv.table hresult.table
  have hlaw : MunmapLaw st.vs vs' addr length ↔
      Tiled st.vs.vmrList addr length ∧ PagesMet st.vs addr length := by
    constructor
    · intro h
      have ht := hcut.1 h.regions
      exact ⟨ht, (hresult.pages_iff ht).1 (hpages.1 h.pages)⟩
    · intro ⟨ht, hmet⟩
      exact ⟨hcut.2 ht, hpages.2 ((hresult.pages_iff ht).2 hmet)⟩
  refine ⟨hlaw, fun hlow hend => hlaw.trans ⟨And.left, fun ht => ⟨ht, ?_⟩⟩⟩
  exact pagesMet_of_low hinv.regions htouched haddr hlength hlow hend ht

end

/-- A region of three pages, two of them touched. -/
def threePages : List SpaceOp := [.call (.mmap 0x3000 3 0x22 (-1)), .fault mmapStart 0x9000,
    .fault (mmapStart + 0x1234) 0xa000]

/-- The first page is unmapped. -/
theorem munmap_law_iff_first_page : ∃ st st',
    run (spaceStep .always Nat.succ) (initVm 0) threePages = .ok st ∧
    sysHandleMunmap st mmapStart 0x1000 = .ok (st', 0) ∧
    (MunmapLaw st.vs st'.vs mmapStart 0x1000 ↔ Tiled st.vs.vmrList mmapStart 0x1000 ∧
        PagesMet st.vs mmapStart 0x1000) := by
  obtain ⟨st, hrun, ⟨st', r⟩, hret, rfl⟩ : ∃ st,
      run (spaceStep .always Nat.succ) (initVm 0) threePages = .ok st ∧
      ∃ x, sysHandleMunmap st mmapStart 0x1000 = .ok x ∧ x.2 = 0 := by decide +kernel
  exact ⟨st, st', hrun, hret, (munmap_law_iff .always freshPages_succ threePages
    (by simp [threePages, SpaceOp.MmapOrFault]) hrun (by decide) (by decide) hret).1⟩

/-- Unmapping the middle page returns 0, and the page is still in its region and
still mapped. -/
theorem munmap_middle_page_stays : ∃ st st',
    run (spaceStep .always Nat.succ) (initVm 0) threePages = .ok st ∧
    sysHandleMunmap st (mmapStart + 0x1000) 0x1000 = .ok (st', 0) ∧
    (∃ e ∈ st'.vs.vmrList, e.2.Has (mmapStart + 0x1000)) ∧
    (queryInPgtbl st'.vs.pgtbl st'.vs.pgd (mmapStart + 0x1000)).isSome := by
  obtain ⟨st, hrun, ⟨st', r⟩, hret, rfl, hkept⟩ : ∃ st,
      run (spaceStep .always Nat.succ) (initVm 0) threePages = .ok st ∧
      ∃ x, sysHandleMunmap st (mmapStart + 0x1000) 0x1000 = .ok x ∧ x.2 = 0 ∧
        (∃ e ∈ x.1.vs.vmrList, e.2.Has (mmapStart + 0x1000)) ∧
        (queryInPgtbl x.1.vs.pgtbl x.1.vs.pgd (mmapStart + 0x1000)).isSome := by decide +kernel
  exact ⟨st, st', hrun, hret, hkept⟩

end ChCore.Kernel
