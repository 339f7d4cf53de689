import ChCore.Kernel.AddressSpace

/-!
# Regions of anonymous memory

Regions made by `sys_handle_mmap` consist of whole pages, and no address is in
two of them. `unmap_vmrs` keeps this: it cuts a region at its start, or deletes
regions from its first address on, and it unmaps the pages of the range it was
called for as soon as it changes a region.
-/

namespace ChCore.Kernel

open List

/-- Regions of whole pages without a common address. A region that wraps around
has no address at all. -/
structure PageRegions (list : List (Nat × Vmregion)) : Prop where
  nodup : (list.map Prod.fst).Nodup
  aligned : ∀ e ∈ list, pageSize ∣ e.2.start
  pages : ∀ e ∈ list, pageSize ∣ e.2.size
  words : ∀ e ∈ list, e.2.start < 2 ^ 64 ∧ e.2.size < 2 ^ 64
  apart : ∀ a ∈ list, ∀ b ∈ list, ∀ addr, a.2.Has addr → b.2.Has addr → a = b

section

variable {vs : Vmspace} {q : Nat} {vmr : Vmregion} {e : Nat × Vmregion}

/-- The regions that stay when one is deleted. -/
lemma PageRegions.mem_del (h : PageRegions vs.vmrList) (hmem : (q, vmr) ∈ vs.vmrList) :
    e ∈ (delVmrFromVmspace vs q).vmrList ↔ e ∈ vs.vmrList ∧ e ≠ (q, vmr) := by
  rw [delVmrFromVmspace, mem_filter, decide_eq_true_eq]
  refine and_congr_right fun he => not_congr ⟨fun hq => ?_, fun heq => ?_⟩
  · exact inj_on_of_nodup_map h.nodup he hmem hq
  · rw [heq]

lemma PageRegions.del (h : PageRegions vs.vmrList) (q : Nat) :
    PageRegions (delVmrFromVmspace vs q).vmrList := by
  have hsub : ∀ e, e ∈ (delVmrFromVmspace vs q).vmrList → e ∈ vs.vmrList :=
    fun e he => mem_of_mem_filter he
  exact
    { nodup := (filter_sublist.map Prod.fst).nodup h.nodup
      aligned := fun e he => h.aligned e (hsub e he)
      pages := fun e he => h.pages e (hsub e he)
      words := fun e he => h.words e (hsub e he)
      apart := fun a ha b hb => h.apart a (hsub a ha) b (hsub b hb) }

/-- The part of a region that stays when it is cut at its start. -/
def Vmregion.tail (vmr : Vmregion) (len : Nat) : Vmregion :=
  { vmr with size := vmr.size - len, start := u64 (vmr.start + len) }

/-- The addresses of this part. -/
lemma Vmregion.tail_has {addr len : Nat} (hwords : vmr.start < 2 ^ 64 ∧ vmr.size < 2 ^ 64)
    (hhas : vmr.Has vmr.start) (hlen : len < vmr.size) :
    (vmr.tail len).Has addr ↔ vmr.Has addr ∧ vmr.start + len ≤ addr := by
  have hwrap := (hhas.noWrap hwords).1
  unfold Vmregion.Has Vmregion.tail Vmregion.end u64
  dsimp only
  omega

lemma PageRegions.cut (h : PageRegions vs.vmrList)
    (hmem : (q, vmr) ∈ vs.vmrList) {len : Nat} (hhas : vmr.Has vmr.start)
    (hlen : len < vmr.size) (hpages : pageSize ∣ len) :
    PageRegions (setVmr vs q (vmr.tail len)).vmrList := by
  have hwords : vmr.start < 2 ^ 64 ∧ vmr.size < 2 ^ 64 := h.words _ hmem
  have hwrap := (hhas.noWrap hwords).1
  have hother : ∀ e ∈ vs.vmrList, e.1 ≠ q → ∀ addr, e.2.Has addr → ¬ (vmr.tail len).Has addr := by
    intro e he hne addr hin hin'
    have hvmr := ((vmr.tail_has hwords hhas hlen).1 hin').1
    exact hne (congrArg Prod.fst (h.apart e he (q, vmr) hmem addr hin hvmr))
  exact {
    nodup := by
      rw [map_fst_setVmr]
      exact h.nodup
    aligned := by
      refine forall_setVmr ?_ fun e he _ => h.aligned e he
      show pageSize ∣ u64 (vmr.start + len)
      rw [u64_of_lt (by omega)]
      exact Nat.dvd_add (h.aligned _ hmem) hpages
    pages := forall_setVmr (Nat.dvd_sub (h.pages _ hmem) hpages) fun e he _ => h.pages e he
    words := forall_setVmr ⟨u64_lt _, (Nat.sub_le _ _).trans_lt hwords.2⟩ fun e he _ => h.words e he
    apart := forall_setVmr (forall_setVmr (fun _ _ _ => rfl) fun b hb hbq addr hina hinb =>
        absurd hina (hother b hb hbq addr hinb))
      fun a ha haq => forall_setVmr (fun addr hina hinb => absurd hinb (hother a ha haq addr hina))
        fun b hb _ => h.apart a ha b hb
  }

/-- `add_vmr_to_vmspace` checks the last byte of the new region with `<=`, but a
region of whole pages does not end in the first byte of another. -/
lemma PageRegions.add (h : PageRegions vs.vmrList)
    (hfresh : ∀ e ∈ vs.vmrList, e.1 ≠ q) (halign : pageSize ∣ vmr.start)
    (hpages : pageSize ∣ vmr.size) (hwords : vmr.start < 2 ^ 64 ∧ vmr.size < 2 ^ 64)
    (hcheck : checkVmrIntersect vs vmr = false) : PageRegions ((q, vmr) :: vs.vmrList) := by
  have hnew : ∀ e ∈ vs.vmrList, ∀ addr, vmr.Has addr → ¬ e.2.Has addr := by
    intro e he addr hin hine
    have hwrap := (hin.noWrap hwords).1
    have hsize : vmr.size ≠ 0 := by
      intro hzero
      have hlo := hin.1
      have hhi := hin.2
      unfold Vmregion.end u64 at hhi
      omega
    rw [checkVmrIntersect, if_neg hsize] at hcheck
    have hnot := any_eq_false.1 hcheck e he
    have hor : vmr.start ≥ e.2.end ∨ vmr.start + vmr.size - 1 ≤ e.2.start := by
      by_contra hno
      refine hnot (decide_eq_true ?_)
      have hlast : u64 (vmr.start + vmr.size + (2 ^ 64 - 1)) = vmr.start + vmr.size - 1 := by
        unfold u64
        omega
      rw [hlast]
      exact hno
    have hend := (hin.noWrap hwords).2
    have hlo := hin.1
    have hhi := hin.2
    have hlo' := hine.1
    have hhi' := hine.2
    have halign' := h.aligned e he
    unfold pageSize at *
    omega
  exact {
    nodup := nodup_fst_cons h.nodup hfresh
    aligned := forall_mem_cons.2 ⟨halign, h.aligned⟩
    pages := forall_mem_cons.2 ⟨hpages, h.pages⟩
    words := forall_mem_cons.2 ⟨hwords, h.words⟩
    apart := by
      intro a ha b hb addr hina hinb
      rcases mem_cons.1 ha with rfl | ha
      · rcases mem_cons.1 hb with rfl | hb
        · rfl
        · exact (hnew b hb addr hina hinb).elim
      rcases mem_cons.1 hb with rfl | hb
      · exact (hnew a ha addr hinb hina).elim
      · exact h.apart a ha b hb addr hina hinb
  }

/-- `find_vmr_for_va` finds the region of an address. -/
lemma findVmrForVa_none {addr : Nat} (hfind : findVmrForVa vs addr = none) :
    ∀ e ∈ vs.vmrList, ¬ e.2.Has addr := by
  intro e he hhas
  exact List.find?_eq_none.1 hfind e he (decide_eq_true hhas)

end

/-! ## `unmap_vmrs` -/

/-- `unmap_vmrs` begins with a region that it can change: one that the address is
in, and if the range ends in it, one that starts there. -/
def UnmapStarts (vs : Vmspace) (va len : Nat) : Prop :=
  len ≠ 0 ∧ ∃ e ∈ vs.vmrList, e.2.Has va ∧ (len < e.2.size → e.2.start = va)

/-- The address space after `unmap_vmrs`. -/
structure UnmapResult (getPages : Nat → Nat) (pgd : Nat) (vs : Vmspace)
    (va len : Nat) (vs' : Vmspace) : Prop where
  root : vs'.pgd = pgd
  table : PtInv getPages pgd vs'.pgtbl
  vmrs : vs'.vmrs = vs.vmrs
  mmapAddr : vs'.userCurrentMmapAddr = vs.userCurrentMmapAddr
  regions : PageRegions vs'.vmrList
  parts : ∀ e' ∈ vs'.vmrList, ∃ e ∈ vs.vmrList, e'.1 = e.1 ∧
    e'.2.pmo = e.2.pmo ∧ ∀ addr, e'.2.Has addr → e.2.Has addr
  cleared : UnmapStarts vs va len → ∀ u, PageIn va len u → vs'.entry u = none
  kept : ∀ u, ¬ (UnmapStarts vs va len ∧ PageIn va len u) → vs'.entry u = vs.entry u

section

variable {getPages : Nat → Nat} {pgd : Nat} {vs vs' : Vmspace} {va len : Nat}

/-- `unmap_vmrs` may do nothing. -/
lemma UnmapResult.refl (hroot : vs.pgd = pgd)
    (htable : PtInv getPages pgd vs.pgtbl) (h : PageRegions vs.vmrList)
    (hnot : ¬ UnmapStarts vs va len) : UnmapResult getPages pgd vs va len vs where
  root := hroot
  table := htable
  vmrs := rfl
  mmapAddr := rfl
  regions := h
  parts e he := ⟨e, he, rfl, rfl, fun _ hhas => hhas⟩
  cleared hstarts := absurd hstarts hnot
  kept _ _ := rfl

variable {u : Nat}

/-- No page is mapped. -/
lemma UnmapResult.unmapped (h : UnmapResult getPages pgd vs va len vs')
    (hnone : vs.entry u = none) : vs'.entry u = none := by
  by_cases hin : UnmapStarts vs va len ∧ PageIn va len u
  · exact h.cleared hin.1 u hin.2
  · exact (h.kept u hin).trans hnone

/-- Every entry was there before. -/
lemma UnmapResult.entry_some {w : BitVec 64}
    (h : UnmapResult getPages pgd vs va len vs') (hw : vs'.entry u = some w) :
    vs.entry u = some w := by
  by_cases hin : UnmapStarts vs va len ∧ PageIn va len u
  · rw [h.cleared hin.1 u hin.2] at hw
    cases hw
  · exact (h.kept u hin).symm.trans hw

/-- The pages behind the first region are pages of the range. -/
lemma PageIn.of_rest {n : Nat} (hn : pageSize ∣ n) (hle : n ≤ len)
    (h : PageIn (u64 (va + n)) (len - n) u) : PageIn va len u := by
  obtain ⟨k, hk, rfl⟩ := h
  obtain ⟨m, rfl⟩ := hn
  refine ⟨k + m, ?_, ?_⟩
  · unfold pageRounds pageSize at *
    omega
  · rw [vpn_u64_add, add_mul, mul_comm m, add_assoc, add_comm (k * pageSize)]

/-- What `unmap_vmrs` does, by induction on its rounds. -/
lemma unmapVmrs_result {pmos : Nat → Option Pmobject} (rounds : Nat) :
    ∀ (vs : Vmspace) (va len : Nat), vs.vmrList.length < rounds →
    vs.pgd = pgd → PtInv getPages pgd vs.pgtbl → PageRegions vs.vmrList →
    pageSize ∣ len → unmapVmrs pmos rounds vs va len = .ok vs' →
    UnmapResult getPages pgd vs va len vs' := by
  induction rounds with
  | zero =>
    intro vs va len hlt
    exact absurd hlt (Nat.not_lt_zero _)
  | succ rounds ih =>
    intro vs va len hlt hroot htable h hpages hrun
    cases unmapVmrs_succ hrun with
    | empty hlen heq =>
      subst heq
      exact .refl hroot htable h fun hstarts => hstarts.1 hlen
    | gap hlen hfind heq =>
      subst heq
      refine .refl hroot htable h fun ⟨_, e, he, hhas, _⟩ => ?_
      exact findVmrForVa_none hfind e he hhas
    | @inside q vmr hlen hfind hbig hva heq =>
      subst heq
      obtain ⟨hmem, hhas⟩ := findVmrForVa_inv hfind
      refine .refl hroot htable h fun ⟨_, e, he, hhas', hstart⟩ => ?_
      obtain rfl : e = (q, vmr) := h.apart _ he _ hmem va hhas' hhas
      exact hva (hstart hbig).symm
    | @cut q vmr pmo hlen hfind hbig hva hpmo htype hrun =>
      obtain ⟨hmem, hhas⟩ := findVmrForVa_inv hfind
      have htail : unmapPages (setVmr vs q (vmr.tail len)) va len = .ok vs' := hrun
      obtain ⟨pt, rfl, hinv, hentry⟩ := unmapPages_entries htail hroot htable
      have hstarts : UnmapStarts vs va len := ⟨hlen, _, hmem, hhas, fun _ => hva.symm⟩
      subst hva
      exact {
        root := hroot
        table := hinv
        vmrs := rfl
        mmapAddr := rfl
        regions := h.cut hmem hhas hbig hpages
        parts := by
          intro e' he'
          rcases mem_setVmr he' with rfl | ⟨-, he'⟩
          · refine ⟨_, hmem, rfl, rfl, fun addr hin => ?_⟩
            exact ((vmr.tail_has (h.words _ hmem) hhas hbig).1 hin).1
          · exact ⟨e', he', rfl, rfl, fun _ hin => hin⟩
        cleared := fun _ u hu => (hentry u).trans (if_pos hu)
        kept := fun u hu =>
          (hentry u).trans (if_neg fun hin => hu ⟨hstarts, hin⟩)
      }
    | @delete q vmr vs1 hlen hfind hsmall hdel hrest =>
      obtain ⟨hmem, hhas⟩ := findVmrForVa_inv hfind
      obtain ⟨pt, rfl, hinv, hentry⟩ := unmapPages_entries hdel hroot htable
      have hstarts : UnmapStarts vs va len :=
        ⟨hlen, _, hmem, hhas, fun hbig => absurd hbig (not_lt.2 hsmall)⟩
      have hsize : pageSize ∣ vmr.size := h.pages _ hmem
      have hshort := length_delVmr_lt hmem
      have hresult := ih { delVmrFromVmspace vs q with pgtbl := pt } _ _
        (show (delVmrFromVmspace vs q).vmrList.length < rounds by omega)
        hroot hinv (h.del q) (Nat.dvd_sub hpages hsize) hrest
      exact {
        root := hresult.root
        table := hresult.table
        vmrs := hresult.vmrs
        mmapAddr := hresult.mmapAddr
        regions := hresult.regions
        parts := by
          intro e' he'
          obtain ⟨e, he, hpart⟩ := hresult.parts e' he'
          exact ⟨e, mem_of_mem_filter he, hpart⟩
        cleared := by
          intro _ u hu
          exact hresult.unmapped ((hentry u).trans (if_pos hu))
        kept := by
          intro u hu
          have hout : ¬ PageIn va len u := fun hin => hu ⟨hstarts, hin⟩
          rw [hresult.kept u fun hin =>
            hout (hin.2.of_rest hsize hsmall)]
          exact (hentry u).trans (if_neg hout)
      }

end

/-! ## Programs that use anonymous memory only -/

/-- The address space of a program that uses anonymous memory only. -/
structure AnonInv (getPages : Nat → Nat) (pgd : Nat) (st : VmState) : Prop where
  root : st.vs.pgd = pgd
  table : PtInv getPages pgd st.vs.pgtbl
  regions : PageRegions st.vs.vmrList
  named : ∀ e ∈ st.vs.vmrList, e.1 < st.vs.vmrs
  mmapAddr : pageSize ∣ st.vs.userCurrentMmapAddr ∧ st.vs.userCurrentMmapAddr < 2 ^ 64

section

variable {mem : Allocator} {getPages : Nat → Nat} {pgd : Nat}
  {st st' : VmState}

lemma AnonInv.init (getPages : Nat → Nat) (pgd : Nat) : AnonInv getPages pgd (initVm pgd) where
  root := rfl
  table := table_initVm getPages pgd
  regions :=
    { nodup := nodup_nil
      aligned := fun _ he => nomatch he
      pages := fun _ he => nomatch he
      words := fun _ he => nomatch he
      apart := fun _ he => nomatch he }
  named _ he := nomatch he
  mmapAddr := by
    show pageSize ∣ mmapStart ∧ mmapStart < 2 ^ 64
    decide

variable {length : Nat}

lemma mmapLength_lt (h : length < 2 ^ 64) : mmapLength length < 2 ^ 64 := by
  unfold mmapLength
  by_cases hmod : length % pageSize ≠ 0
  · rw [if_pos hmod, roundUp, roundDown]
    exact (Nat.div_mul_le_self _ _).trans_lt (u64_lt _)
  · rwa [if_neg hmod]

/-- The page table after a fault that mapped a page. -/
lemma fault_entries (hfresh : FreshPages getPages pgd) {vs : Vmspace}
    {faultAddr pa perm : Nat} {pgtbl : PtState} (hroot : vs.pgd = pgd)
    (htable : PtInv getPages pgd vs.pgtbl)
    (hmap : mapRangeInPgtbl getPages vs.pgtbl vs.pgd (roundDown faultAddr) pa
    pageSize perm = .ok pgtbl) : PtInv getPages pgd pgtbl ∧ ∀ u, Vmspace.entry { vs with pgtbl } u =
    if u = vpn faultAddr then some (writePage 0#64 (pa >>> pageShift) perm) else vs.entry u := by
  obtain ⟨pgtbl', hmap', hinv, hentry⟩ := mapRange_page hfresh htable (roundDown faultAddr) pa perm
  rw [hroot, hmap'] at hmap
  cases hmap
  refine ⟨hinv, fun u => ?_⟩
  rw [Vmspace.entry, Vmspace.entry, hroot, hentry, vpn_roundDown]

lemma AnonInv.mmap (h : AnonInv getPages pgd st) {prot : Nat}
    (hlength : length < 2 ^ 64) (heffect : MmapEffect st length prot st') :
    AnonInv getPages pgd st' := by
  cases heffect with
  | refused => exact h
  | noMemory => exact { h with named := fun e he => Nat.lt_succ_of_lt (h.named e he) }
  | added hpages hcheck =>
    exact {
      root := h.root
      table := h.table
      regions := by
        refine h.regions.add ?_ h.mmapAddr.1 (Nat.dvd_of_mod_eq_zero hpages)
          ⟨h.mmapAddr.2, mmapLength_lt hlength⟩ hcheck
        exact fun e he => ne_of_lt (h.named e he)
      named := by
        refine forall_mem_cons.2 ⟨Nat.lt_succ_self _, ?_⟩
        exact fun e he => Nat.lt_succ_of_lt (h.named e he)
      mmapAddr := by
        refine ⟨?_, u64_lt _⟩
        have hsum := Nat.dvd_add h.mmapAddr.1 (Nat.dvd_of_mod_eq_zero hpages)
        exact (Nat.dvd_mod_iff (by decide)).2 hsum
    }

lemma AnonInv.fault (hfresh : FreshPages getPages pgd)
    (h : AnonInv getPages pgd st) {faultAddr page : Nat} {r : Int}
    (heffect : FaultEffect getPages st faultAddr page st' r) : AnonInv getPages pgd st' := by
  cases heffect with
  | noRegion hfind => exact h
  | mapped hfind hpmo htype hsize hradix hmap =>
    exact { h with table := (fault_entries hfresh h.root h.table hmap).1 }

/-- `sys_handle_munmap` is refused, or does what `UnmapResult` says. -/
lemma AnonInv.munmap_cases (h : AnonInv getPages pgd st) {addr : Nat}
    (hrun : vmStep mem getPages st (.munmap addr length) = .ok st') :
    st' = st ∨ ∃ vs', st' = { st with vs := vs' } ∧
      UnmapResult getPages pgd st.vs addr length vs' := by
  obtain rfl | ⟨vs', -, hlength, hun, rfl⟩ := Kernel.munmap_cases hrun
  · exact .inl rfl
  exact .inr ⟨vs', rfl, unmapVmrs_result _ _ _ _ (Nat.lt_succ_self _) h.root
    h.table h.regions hlength hun⟩

lemma AnonInv.munmap (h : AnonInv getPages pgd st) {addr : Nat}
    {vs' : Vmspace} (hresult : UnmapResult getPages pgd st.vs addr length vs') :
    AnonInv getPages pgd { st with vs := vs' } where
  root := hresult.root
  table := hresult.table
  regions := hresult.regions
  named e' he' := by
    obtain ⟨e, he, hname, -⟩ := hresult.parts e' he'
    rw [hname]
    exact hresult.vmrs ▸ h.named e he
  mmapAddr := hresult.mmapAddr ▸ h.mmapAddr

end

end ChCore.Kernel
