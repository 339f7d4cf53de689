import ChCore.Kernel.AnonymousRegions

/-!
# Anonymous memory keeps its pages

A fault computes the position of a page in its memory object from the start of
the region. When `munmap` cuts a region at its start, this origin moves, and the
pages that the object already holds are found at other positions: a later fault
maps a page that is in use at another address, or replaces the page of an address
that was touched before. In runs without such faults no two pages share a
physical page, and a page keeps its physical page until it is unmapped. Programs
that never unmap the first part of a region only are of this kind.
-/

namespace ChCore.Kernel

open Function List Option Lib.Runs Lib.BitField

/-- The position that a fault computes. -/
def faultIndex (vmr : Vmregion) (faultAddr : Nat) : Nat :=
  u64 (roundDown faultAddr + 2 ^ 64 - vmr.start) / pageSize

/-- Object `p` has recorded the page at `pa` for position `k`. -/
def Recorded (st : VmState) (p k pa : Nat) : Prop :=
  ∃ pmo, st.pmos p = some pmo ∧ pmo.radix.lookup k = some pa

/-- No object has recorded the page. -/
def PageUnused (st : VmState) (page : Nat) : Prop :=
  ∀ p, p < st.pmoCount → ∀ pmo ∈ st.pmos p, page ∉ pmo.radix.map Prod.snd

instance (st : VmState) (page : Nat) : Decidable (PageUnused st page) :=
  inferInstanceAs (Decidable (∀ p, p < _ → _))

/-- The page that the object has at the position of a fault is the one that is
mapped at the address, if one is, and it is mapped nowhere else. -/
def FaultFits (st : VmState) (faultAddr : Nat) : Prop :=
  ∀ q vmr pmo, findVmrForVa st.vs faultAddr = some (q, vmr) → st.pmos vmr.pmo = some pmo →
    (∀ w, st.vs.entry (vpn faultAddr) = some w →
      ∃ pa, pmo.radix.lookup (faultIndex vmr faultAddr) = some pa ∧
        getField w 12 36 = pa / pageSize) ∧
    ∀ pa, pmo.radix.lookup (faultIndex vmr faultAddr) = some pa →
      ∀ u w, st.vs.entry u = some w → getField w 12 36 = pa / pageSize → u = vpn faultAddr

/-- The conditions for the operations. The pages that `unmap_range_in_pgtbl`
meets are told by their numbers, which repeat every `2 ^ 48` bytes. -/
def AnonAllowed (st : VmState) : SpaceOp → Prop
  | .call (.mmap length _ _ _) => length < 2 ^ 64
  | .call (.munmap addr length) => pageSize ∣ addr → pageSize ∣ length →
    ∀ u, st.vs.entry u ≠ none → PageIn addr length u →
      addr ≤ u * pageSize ∧ u * pageSize < addr + length
  | .fault faultAddr page => (pageSize ∣ page ∧ page < 2 ^ 48 ∧
    PageUnused st page) ∧ FaultFits st faultAddr
  | _ => False

/-- The invariant: mapped pages are pages of objects, each mapped once. -/
structure AnonMemInv (getPages : Nat → Nat) (pgd : Nat) (st : VmState) : Prop
    extends AnonInv getPages pgd st where
  pmoLt : ∀ p pmo, st.pmos p = some pmo → p < st.pmoCount
  frames : ∀ p k pa, Recorded st p k pa → pageSize ∣ pa ∧ pa < 2 ^ 48
  mapped : ∀ u w, st.vs.entry u = some w →
    ∃ p k pa, Recorded st p k pa ∧ getField w 12 36 = pa / pageSize
  noShare : ∀ u u' w w', st.vs.entry u = some w → st.vs.entry u' = some w' →
    getField w 12 36 = getField w' 12 36 → u = u'

section

variable {mem : Allocator} {getPages : Nat → Nat} {pgd : Nat}
  {st st' : VmState}

variable {page : Nat}

/-- A page that no object has recorded. -/
lemma PageUnused.not_recorded (h : PageUnused st page)
    (hlt : ∀ p pmo, st.pmos p = some pmo → p < st.pmoCount) {p k : Nat} :
    ¬ Recorded st p k page := by
  rintro ⟨pmo, hpmo, hlookup⟩
  obtain ⟨l1, l2, hlist, -⟩ := lookup_eq_some_iff.1 hlookup
  refine h p (hlt p pmo hpmo) pmo hpmo (mem_map.2 ⟨(k, page), ?_, rfl⟩)
  rw [hlist]
  exact mem_append_right _ mem_cons_self

variable {pa : Nat}

/-- Pages are the same if their frames are. -/
lemma eq_of_frame {pa' : Nat} (h : pageSize ∣ pa) (h' : pageSize ∣ pa')
    (heq : pa / pageSize = pa' / pageSize) : pa = pa' := by
  rw [← Nat.div_mul_cancel h, ← Nat.div_mul_cancel h', heq]

/-- A new object has recorded nothing. -/
lemma recorded_addPmo (hlt : ∀ p pmo, st.pmos p = some pmo → p < st.pmoCount)
    (vs' : Vmspace) {size p k : Nat} :
    Recorded { st.addPmo (newPmo .anonym size 0) with vs := vs' } p k pa ↔ Recorded st p k pa := by
  by_cases hp : p = st.pmoCount
  · subst hp
    constructor
    · rintro ⟨pmo, hpmo, hlookup⟩
      simp only [VmState.addPmo, update_self, Option.some.injEq] at hpmo
      subst hpmo
      cases hlookup
    · rintro ⟨pmo, hpmo, -⟩
      exact absurd (hlt _ _ hpmo) (lt_irrefl _)
  · have hsame : (st.addPmo (newPmo .anonym size 0)).pmos p = st.pmos p := update_of_ne hp _ _
    unfold Recorded
    rw [← hsame]

/-- After a fault the object has recorded one page more, or all as before. -/
lemma recorded_fault {vs' : Vmspace} {q idx : Nat} {pmo : Pmobject}
    {radix : List (Nat × Nat)} (hpmo : st.pmos q = some pmo)
    (hradix : (pmo.radix.lookup idx = some pa ∧ radix = pmo.radix) ∨
      (pmo.radix.lookup idx = none ∧ pa = page ∧ radix = (idx, page) :: pmo.radix))
    (p k pa' : Nat) :
    Recorded { st with
        vs := vs'
        pmos := update st.pmos q (some { pmo with radix }) } p k pa' ↔
      Recorded st p k pa' ∨ (p = q ∧ k = idx ∧ pa' = pa) := by
  unfold Recorded
  by_cases hp : p = q
  · subst hp
    simp only [update_self, hpmo, Option.some.injEq, exists_eq_left', true_and]
    rcases hradix with ⟨hlookup, rfl⟩ | ⟨hlookup, rfl, rfl⟩
    · refine ⟨Or.inl, ?_⟩
      rintro (hold | ⟨rfl, rfl⟩)
      · exact hold
      · exact hlookup
    by_cases hk : k = idx
    · subst hk
      simp [hlookup, eq_comm]
    have hkb : (k == idx) = false := beq_false_of_ne hk
    simp [lookup_cons, hkb, hk]
  · simp only [update_of_ne hp, hp, false_and, or_false]

/-- Everything the invariant and the conditions say about a fault that maps a
page: the entry that is written, and the page that is recorded. -/
structure FaultResult (st : VmState) (faultAddr page : Nat) (st' : VmState)
    (p k pa : Nat) (w : BitVec 64) : Prop where
  vmrList : st'.vs.vmrList = st.vs.vmrList
  mmapAddr : st'.vs.userCurrentMmapAddr = st.vs.userCurrentMmapAddr
  pmoCount : st'.pmoCount = st.pmoCount
  pmoSome : ∀ p, (st'.pmos p).isSome = (st.pmos p).isSome
  region : ∃ e ∈ st.vs.vmrList, e.2.Has faultAddr ∧ e.2.pmo = p ∧ k = faultIndex e.2 faultAddr
  entry : ∀ u, st'.vs.entry u = if u = vpn faultAddr then some w else st.vs.entry u
  frame : getField w 12 36 = pa / pageSize
  aligned : pageSize ∣ pa ∧ pa < 2 ^ 48
  recorded : ∀ p' k' pa', Recorded st' p' k' pa' ↔
    Recorded st p' k' pa' ∨ (p' = p ∧ k' = k ∧ pa' = pa)
  found : Recorded st p k pa ∨ (∀ pa', ¬ Recorded st p k pa') ∧ pa = page
  fits : FaultFits st faultAddr →
    (∀ w', st.vs.entry (vpn faultAddr) = some w' → Recorded st p k pa ∧
      getField w' 12 36 = pa / pageSize) ∧
    (Recorded st p k pa → ∀ u w', st.vs.entry u = some w' →
      getField w' 12 36 = pa / pageSize → u = vpn faultAddr)

lemma fault_result (hfresh : FreshPages getPages pgd) (h : AnonInv getPages pgd st)
    (hframes : ∀ p k pa, Recorded st p k pa → pageSize ∣ pa ∧ pa < 2 ^ 48)
    {faultAddr : Nat} {r : Int} (hpage : pageSize ∣ page ∧ page < 2 ^ 48)
    (heffect : FaultEffect getPages st faultAddr page st' r) :
    st' = st ∨ ∃ p k pa w, FaultResult st faultAddr page st' p k pa w := by
  cases heffect with
  | noRegion hfind => exact .inl rfl
  | @mapped q pa vmr pmo radix pgtbl hfind hpmo htype hsize hradix hmap =>
    obtain ⟨hmem, hhas⟩ := findVmrForVa_inv hfind
    have hentry := (fault_entries hfresh h.root h.table hmap).2
    have hrec : ∀ k' pa', Recorded st vmr.pmo k' pa' ↔ pmo.radix.lookup k' = some pa' := by
      intro k' pa'
      unfold Recorded
      simp only [hpmo, Option.some.injEq, exists_eq_left']
    have hpa : pageSize ∣ pa ∧ pa < 2 ^ 48 := by
      rcases hradix with ⟨hlookup, -⟩ | ⟨-, rfl, -⟩
      · exact hframes _ _ _ ((hrec _ _).2 hlookup)
      · exact hpage
    refine .inr ⟨vmr.pmo, faultIndex vmr faultAddr, pa,
      writePage 0#64 (pa >>> pageShift) vmr.perm, ?_⟩
    exact {
      vmrList := rfl
      mmapAddr := rfl
      pmoCount := rfl
      pmoSome := by
        intro p
        by_cases hp : p = vmr.pmo
        · subst hp
          simp [hpmo]
        · simp [update_of_ne hp]
      region := ⟨_, hmem, hhas, rfl, rfl⟩
      entry := hentry
      frame := by
        have hshift : pa >>> pageShift = pa / pageSize := Nat.shiftRight_eq_div_pow _ _
        rw [hshift, getField_writePage]
        exact Nat.div_lt_of_lt_mul hpa.2
      aligned := hpa
      recorded := recorded_fault hpmo hradix
      found := by
        rcases hradix with ⟨hlookup, -⟩ | ⟨hlookup, hpa', -⟩
        · exact .inl ((hrec _ _).2 hlookup)
        refine .inr ⟨fun pa' hnew => ?_, hpa'⟩
        have hsome := (hrec _ _).1 hnew
        rw [faultIndex, hlookup] at hsome
        cases hsome
      fits := by
        intro hfits
        obtain ⟨hsame, honly⟩ := hfits q vmr pmo hfind hpmo
        refine ⟨fun w' hw' => ?_, fun hold => honly pa ((hrec _ _).1 hold)⟩
        obtain ⟨pa', hlookup', hframe⟩ := hsame w' hw'
        have heq : pa' = pa := by
          rw [faultIndex] at hlookup'
          rcases hradix with ⟨hlookup, -⟩ | ⟨hlookup, -⟩
          · exact Option.some.inj (hlookup'.symm.trans hlookup)
          rw [hlookup] at hlookup'
          cases hlookup'
        subst heq
        exact ⟨(hrec _ _).2 hlookup', hframe⟩
    }

/-- A fault keeps the invariant. -/
lemma AnonMemInv.fault (hfresh : FreshPages getPages pgd)
    (h : AnonMemInv getPages pgd st) {faultAddr : Nat} {r : Int}
    (hpage : pageSize ∣ page ∧ page < 2 ^ 48 ∧ PageUnused st page) (hfits : FaultFits st faultAddr)
    (heffect : FaultEffect getPages st faultAddr page st' r) : AnonMemInv getPages pgd st' := by
  have hanon := h.toAnonInv.fault hfresh heffect
  rcases fault_result hfresh h.toAnonInv h.frames ⟨hpage.1, hpage.2.1⟩ heffect
    with rfl | ⟨p, k, pa, w, hr⟩
  · exact h
  -- the page of the fault is mapped at no other address
  have honly : ∀ u w', st.vs.entry u = some w' →
      getField w' 12 36 = pa / pageSize → u = vpn faultAddr := by
    intro u w' hw' hframe
    rcases hr.found with hold | ⟨-, rfl⟩
    · exact (hr.fits hfits).2 hold u w' hw' hframe
    obtain ⟨p', k', pa', hrec, hframe'⟩ := h.mapped u w' hw'
    have heq : pa' = pa := eq_of_frame (h.frames _ _ _ hrec).1
      hr.aligned.1 (hframe'.symm.trans hframe)
    rw [heq] at hrec
    exact absurd hrec (hpage.2.2.not_recorded h.pmoLt)
  exact {
    toAnonInv := hanon
    pmoLt := by
      intro p' pmo hp'
      rw [hr.pmoCount]
      have hsome := hr.pmoSome p'
      rw [hp', isSome_some, eq_comm, isSome_iff_exists] at hsome
      obtain ⟨pmo', hpmo'⟩ := hsome
      exact h.pmoLt p' pmo' hpmo'
    frames := by
      intro p' k' pa' hrec
      rcases (hr.recorded p' k' pa').1 hrec with hold | ⟨-, -, rfl⟩
      · exact h.frames p' k' pa' hold
      · exact hr.aligned
    mapped := by
      intro u w' hw'
      rw [hr.entry u] at hw'
      by_cases hu : u = vpn faultAddr
      · rw [if_pos hu] at hw'
        cases hw'
        exact ⟨p, k, pa, (hr.recorded p k pa).2 (.inr ⟨rfl, rfl, rfl⟩), hr.frame⟩
      · rw [if_neg hu] at hw'
        obtain ⟨p', k', pa', hrec, hframe⟩ := h.mapped u w' hw'
        exact ⟨p', k', pa', (hr.recorded p' k' pa').2 (.inl hrec), hframe⟩
    noShare := by
      intro u u' w1 w2 hw1 hw2 hframe
      rw [hr.entry] at hw1 hw2
      by_cases hu : u = vpn faultAddr
      · rw [if_pos hu] at hw1
        cases hw1
        by_cases hu' : u' = vpn faultAddr
        · rw [hu, hu']
        rw [if_neg hu'] at hw2
        exact absurd (honly u' w2 hw2 (hframe.symm.trans hr.frame)) hu'
      rw [if_neg hu] at hw1
      by_cases hu' : u' = vpn faultAddr
      · rw [if_pos hu'] at hw2
        cases hw2
        exact absurd (honly u w1 hw1 (hframe.trans hr.frame)) hu
      · rw [if_neg hu'] at hw2
        exact h.noShare u u' w1 w2 hw1 hw2 hframe
  }

/-- `sys_handle_munmap` keeps the invariant. -/
lemma AnonMemInv.munmap (h : AnonMemInv getPages pgd st) {addr length : Nat}
    {vs' : Vmspace} (hresult : UnmapResult getPages pgd st.vs addr length vs') :
    AnonMemInv getPages pgd { st with vs := vs' } := by
  exact {
    toAnonInv := h.toAnonInv.munmap hresult
    pmoLt := h.pmoLt
    frames := h.frames
    mapped := fun u w hw => h.mapped u w (hresult.entry_some hw)
    noShare := fun u u' w w' hw hw' =>
      h.noShare u u' w w' (hresult.entry_some hw) (hresult.entry_some hw')
  }

/-- `sys_handle_mmap` keeps the invariant: the new object has no pages. -/
lemma AnonMemInv.mmap (h : AnonMemInv getPages pgd st) {length prot : Nat}
    (hlength : length < 2 ^ 64) (heffect : MmapEffect st length prot st') :
    AnonMemInv getPages pgd st' := by
  have hanon := h.toAnonInv.mmap hlength heffect
  have hnew : ∀ vs' : Vmspace, vs'.entry = st.vs.entry → AnonInv getPages pgd
        { st.addPmo (newPmo .anonym (mmapLength length) 0) with vs := vs' } →
      AnonMemInv getPages pgd
        { st.addPmo (newPmo .anonym (mmapLength length) 0) with vs := vs' } := by
    intro vs' hentry hanon
    exact {
      toAnonInv := hanon
      pmoLt := by
        intro p pmo hp
        by_cases hcount : p = st.pmoCount
        · rw [hcount]
          exact Nat.lt_succ_self _
        have hp' : st.pmos p = some pmo := (update_of_ne hcount _ _).symm.trans hp
        exact Nat.lt_succ_of_lt (h.pmoLt p pmo hp')
      frames := fun p k pa hrec =>
        h.frames p k pa ((recorded_addPmo h.pmoLt vs').1 hrec)
      mapped := by
        intro u w hw
        have hw' : st.vs.entry u = some w := hentry ▸ hw
        obtain ⟨p, k, pa, hrec, hframe⟩ := h.mapped u w hw'
        exact ⟨p, k, pa, (recorded_addPmo h.pmoLt vs').2 hrec, hframe⟩
      noShare := by
        intro u u' w w' hw hw'
        exact h.noShare u u' w w' (hentry ▸ hw) (hentry ▸ hw')
    }
  cases heffect with
  | refused => exact h
  | noMemory | added hpages hcheck => exact hnew _ rfl hanon

lemma AnonMemInv.step (hfresh : FreshPages getPages pgd)
    (h : AnonMemInv getPages pgd st) {op : SpaceOp} (hall : AnonAllowed st op)
    (hstep : spaceStep mem getPages st op = .ok st') : AnonMemInv getPages pgd st' := by
  cases op with
  | call op =>
    change vmStep mem getPages st op = _ at hstep
    cases op with
    | mmap length prot flags fd => exact h.mmap hall (mmap_cases hstep)
    | munmap addr length =>
      rcases h.toAnonInv.munmap_cases hstep with rfl | ⟨vs', rfl, hresult⟩
      · exact h
      · exact h.munmap hresult
    | createPmo | mapRange | unmapRange | unmapPmo | brk => exact hall.elim
  | fault faultAddr page =>
    obtain ⟨⟨st1, r⟩, hfault, hend⟩ := bind_eq_ok.1 hstep
    cases hend
    exact h.fault hfresh hall.1 hall.2 (vmFault_cases hfault)
  | destroyPmo p => exact hall.elim

lemma AnonMemInv.init (getPages : Nat → Nat) (pgd : Nat) :
    AnonMemInv getPages pgd (initVm pgd) where
  toAnonInv := .init getPages pgd
  pmoLt := fun _ _ h => nomatch h
  frames := fun _ _ _ h => nomatch h
  mapped := by
    intro u w hw
    rw [entry_initVm] at hw
    cases hw
  noShare := by
    intro u u' w w' hw
    rw [entry_initVm] at hw
    cases hw

/-! ## A page keeps its frame -/

/-- The operation is a `munmap` of a range with the address. -/
def SpaceOp.Unmaps (va : Nat) : SpaceOp → Prop
  | .call (.munmap addr length) => addr ≤ va ∧ va < addr + length
  | _ => False

/-- The frame of a page. -/
def Vmspace.frame (vs : Vmspace) (u : Nat) : Option Nat :=
  (vs.entry u).map fun w => getField w 12 36

lemma AnonMemInv.step_frame (hfresh : FreshPages getPages pgd)
    (h : AnonMemInv getPages pgd st) {op : SpaceOp} (hall : AnonAllowed st op)
    (hstep : spaceStep mem getPages st op = .ok st') {va f : Nat}
    (hva : va < 2 ^ 48) (hnot : ¬ op.Unmaps va) (hframe : st.vs.frame (vpn va) = some f) :
    st'.vs.frame (vpn va) = some f := by
  obtain ⟨w, hw, hfield⟩ := map_eq_some_iff.1 hframe
  cases op with
  | call op =>
    change vmStep mem getPages st op = _ at hstep
    cases op with
    | mmap length prot flags fd =>
      cases mmap_cases hstep with
      | refused | noMemory | added => exact hframe
    | munmap addr length =>
      obtain rfl | ⟨vs', haddr, hlength, hun, rfl⟩ := munmap_cases hstep
      · exact hframe
      have hresult := unmapVmrs_result _ _ _ _ (Nat.lt_succ_self _) h.root
        h.table h.regions hlength hun
      have hout : ¬ PageIn addr length (vpn va) := by
        intro hin
        refine hnot ?_
        have hsome : st.vs.entry (vpn va) ≠ none := by
          rw [hw]
          exact nofun
        have hrange := hall haddr hlength (vpn va) hsome hin
        show addr ≤ va ∧ va < addr + length
        unfold vpn pageSize at *
        omega
      show Option.map _ (vs'.entry (vpn va)) = some f
      rw [hresult.kept _ fun hin => hout hin.2]
      exact hframe
    | createPmo | mapRange | unmapRange | unmapPmo | brk => exact hall.elim
  | fault faultAddr page =>
    obtain ⟨⟨st1, r⟩, hfault, hend⟩ := bind_eq_ok.1 hstep
    cases hend
    rcases fault_result hfresh h.toAnonInv h.frames ⟨hall.1.1, hall.1.2.1⟩ (vmFault_cases hfault)
      with rfl | ⟨p, k, pa, w', hr⟩
    · exact hframe
    rw [Vmspace.frame, hr.entry]
    by_cases hu : vpn va = vpn faultAddr
    · rw [if_pos hu, map_some, hr.frame, ← hfield]
      rw [hu] at hw
      rw [((hr.fits hall.2).1 w hw).2]
    · rw [if_neg hu]
      exact hframe
  | destroyPmo p => exact hall.elim

lemma AnonMemInv.run_frame (hfresh : FreshPages getPages pgd) {va f : Nat}
    (hva : va < 2 ^ 48) (ops : List SpaceOp) :
    ∀ st, AnonMemInv getPages pgd st → Admissible (spaceStep mem getPages) AnonAllowed st ops →
    run (spaceStep mem getPages) st ops = .ok st' → (∀ op ∈ ops, ¬ SpaceOp.Unmaps va op) →
    st.vs.frame (vpn va) = some f →
    AnonMemInv getPages pgd st' ∧ st'.vs.frame (vpn va) = some f := by
  intro st h hadm hrun hnot hframe
  refine @run_preserves_of_admissible _ _ _ _
    (fun st => AnonMemInv getPages pgd st ∧ st.vs.frame (vpn va) = some f) _ ?_ ops st st'
    ⟨h, hframe⟩ (hadm.with_requests hnot) hrun
  rintro st op st1 ⟨h, hframe⟩ ⟨hnot, hall⟩ hstep
  exact ⟨h.step hfresh hall hstep, h.step_frame hfresh hall hstep hva hnot hframe⟩

end

/-! ## Programs that do not cut regions -/

/-- No region reaches across the end of a range that is unmapped, addresses stay
below `2 ^ 48`, and `get_pages` returns pages that are not in use. -/
def NoCutAllowed (st : VmState) : SpaceOp → Prop
  | .call (.mmap length _ _ _) =>
    length < 2 ^ 64 ∧ st.vs.userCurrentMmapAddr + mmapLength length ≤ 2 ^ 48
  | .call (.munmap addr length) => addr + length ≤ 2 ^ 48 ∧
    (length = 0 ∨ ∀ e ∈ st.vs.vmrList, ¬ (e.2.Has (addr + length - 1) ∧ e.2.Has (addr + length)))
  | .fault _ page => pageSize ∣ page ∧ page < 2 ^ 48 ∧ PageUnused st page
  | _ => False

instance (st : VmState) : ∀ op, Decidable (NoCutAllowed st op) := fun op => by
  rcases op with ⟨_ | _⟩ | _ <;> (dsimp only [NoCutAllowed]; infer_instance)

/-- Every object has an origin: the address where its first page is, or was,
mapped. -/
structure Origins (st : VmState) (origin : Nat → Nat) : Prop where
  regions : ∀ e ∈ st.vs.vmrList, e.2.start = origin e.2.pmo
  below : ∀ e ∈ st.vs.vmrList, e.2.start + e.2.size ≤ st.vs.userCurrentMmapAddr
  objects : ∀ e ∈ st.vs.vmrList, e.2.pmo < st.pmoCount
  top : st.vs.userCurrentMmapAddr ≤ 2 ^ 48
  recordedBelow : ∀ p k pa, Recorded st p k pa → origin p + k * pageSize < st.vs.userCurrentMmapAddr
  own : ∀ p k pa, Recorded st p k pa → ∀ e ∈ st.vs.vmrList,
    e.2.Has (origin p + k * pageSize) → p = e.2.pmo
  distinct : ∀ p k p' k' pa, Recorded st p k pa → Recorded st p' k' pa → p = p' ∧ k = k'
  mapped : ∀ u w, st.vs.entry u = some w → ∃ p k pa, Recorded st p k pa ∧
    getField w 12 36 = pa / pageSize ∧ u * pageSize = origin p + k * pageSize

section

variable {mem : Allocator} {getPages : Nat → Nat} {pgd : Nat}
  {st st' : VmState} {origin : Nat → Nat}

/-- The page of a fault, in terms of the origin. -/
lemma Origins.index (ho : Origins st origin) (h : AnonInv getPages pgd st)
    {e : Nat × Vmregion} (he : e ∈ st.vs.vmrList) {faultAddr : Nat} (hhas : e.2.Has faultAddr) :
    origin e.2.pmo + faultIndex e.2 faultAddr * pageSize = vpn faultAddr * pageSize ∧
    e.2.Has (vpn faultAddr * pageSize) := by
  have halign := h.regions.aligned e he
  have hend := (hhas.noWrap (h.regions.words e he)).2
  have hbelow := ho.below e he
  have htop := ho.top
  have hlo := hhas.1
  have hhi := hhas.2
  have hoff := (fault_offset halign hlo (by omega)).2
  rw [faultIndex, hoff, ← ho.regions e he]
  unfold Vmregion.Has
  rw [hend]
  unfold vpn pageSize at *
  omega

/-- Such states meet the condition on faults. -/
lemma Origins.fits (ho : Origins st origin) (h : AnonMemInv getPages pgd st)
    (faultAddr : Nat) : FaultFits st faultAddr := by
  intro q vmr pmo hfind hpmo
  obtain ⟨hmem, hhas⟩ := findVmrForVa_inv hfind
  have hregion : vmr.Has faultAddr := hhas
  obtain ⟨hindex, hin⟩ := ho.index h.toAnonInv hmem hregion
  dsimp only at hindex hin
  constructor
  · intro w hw
    obtain ⟨p, k, pa, hrec, hframe, hpage⟩ := ho.mapped _ w hw
    rw [hpage] at hin
    obtain rfl : p = vmr.pmo := ho.own p k pa hrec _ hmem hin
    have hk : k = faultIndex vmr faultAddr := by
      unfold pageSize at *
      omega
    obtain ⟨pmo', hpmo', hlookup⟩ := hrec
    rw [hpmo] at hpmo'
    cases hpmo'
    exact ⟨pa, hk ▸ hlookup, hframe⟩
  · intro pa hlookup u w hw hframe
    obtain ⟨p, k, pa', hrec, hframe', hpage⟩ := ho.mapped u w hw
    have hown : Recorded st vmr.pmo (faultIndex vmr faultAddr) pa := ⟨pmo, hpmo, hlookup⟩
    have heq : pa' = pa := eq_of_frame (h.frames _ _ _ hrec).1
      (h.frames _ _ _ hown).1 (hframe'.symm.trans hframe)
    rw [heq] at hrec
    obtain ⟨rfl, rfl⟩ := ho.distinct _ _ _ _ _ hrec hown
    exact Nat.eq_of_mul_eq_mul_right (by decide) (hpage.trans hindex)

lemma Origins.allowed (ho : Origins st origin) (h : AnonMemInv getPages pgd st) {op : SpaceOp}
    (hall : NoCutAllowed st op) : AnonAllowed st op := by
  cases op with
  | call op =>
    cases op with
    | mmap length prot flags fd => exact hall.1
    | munmap addr length =>
      have hend : addr + length ≤ 2 ^ 48 := hall.1
      rintro haddr hlength u - ⟨k, hk, rfl⟩
      unfold pageRounds vpn pageSize at *
      omega
    | createPmo | mapRange | unmapRange | unmapPmo | brk => exact hall.elim
  | fault faultAddr page => exact ⟨hall, ho.fits h faultAddr⟩
  | destroyPmo p => exact hall.elim

/-- If no region reaches across the end of the range, `unmap_vmrs` only deletes
regions. -/
lemma unmapVmrs_noCut {pmos : Nat → Option Pmobject} {vs' : Vmspace}
    {top : Nat} (htop : top ≤ 2 ^ 48) (rounds : Nat) :
    ∀ (vs : Vmspace) (va len : Nat), va + len = top → PageRegions vs.vmrList →
    (∀ e ∈ vs.vmrList, ¬ (e.2.Has (top - 1) ∧ e.2.Has top)) →
    unmapVmrs pmos rounds vs va len = .ok vs' → ∀ e ∈ vs'.vmrList, e ∈ vs.vmrList := by
  induction rounds with
  | zero =>
    intro vs va len _ _ _ hrun
    cases hrun
    exact fun _ he => he
  | succ rounds ih =>
    intro vs va len hend h hnot hrun
    cases unmapVmrs_succ hrun with
    | empty hlen heq | gap hlen hfind heq | inside hlen hfind hbig hva heq =>
      exact fun _ he => heq ▸ he
    | @cut q vmr pmo hlen hfind hbig hva hpmo htype hrun =>
      obtain ⟨hmem, hhas⟩ := findVmrForVa_inv hfind
      have hregion : vmr.Has va := hhas
      have hstop := (hregion.noWrap (h.words _ hmem)).2
      have hboth : vmr.Has (top - 1) ∧ vmr.Has top := by
        unfold Vmregion.Has
        omega
      exact absurd hboth (hnot _ hmem)
    | @delete q vmr vs1 hlen hfind hsmall hdel hrest =>
      obtain ⟨pt, -, rfl⟩ := unmapPages_inv hdel
      rw [u64_of_lt (by omega)] at hrest
      have hsub : ∀ e ∈ (delVmrFromVmspace vs q).vmrList, e ∈ vs.vmrList :=
        fun _ he => mem_of_mem_filter he
      intro e he
      exact hsub e (ih { delVmrFromVmspace vs q with pgtbl := pt } _ _
        (by omega) (h.del q) (fun e he => hnot e (hsub e he)) hrest e he)

lemma Origins.munmap (ho : Origins st origin) {addr length : Nat}
    {vs' : Vmspace} (hresult : UnmapResult getPages pgd st.vs addr length vs')
    (hsub : ∀ e ∈ vs'.vmrList, e ∈ st.vs.vmrList) : Origins { st with vs := vs' } origin where
  regions e he := ho.regions e (hsub e he)
  below e he := hresult.mmapAddr ▸ ho.below e (hsub e he)
  objects e he := ho.objects e (hsub e he)
  top := hresult.mmapAddr ▸ ho.top
  recordedBelow p k pa hrec := hresult.mmapAddr ▸ ho.recordedBelow p k pa hrec
  own p k pa hrec e he := ho.own p k pa hrec e (hsub e he)
  distinct := ho.distinct
  mapped u w hw := ho.mapped u w (hresult.entry_some hw)

lemma Origins.fault (ho : Origins st origin) (h : AnonMemInv getPages pgd st)
    {faultAddr page p k pa : Nat} {w : BitVec 64} (hunused : PageUnused st page)
    (hr : FaultResult st faultAddr page st' p k pa w) : Origins st' origin := by
  obtain ⟨e, he, hhas, rfl, rfl⟩ := hr.region
  obtain ⟨hindex, hin⟩ := ho.index h.toAnonInv he hhas
  exact {
    regions := by
      rw [hr.vmrList]
      exact ho.regions
    below := by
      rw [hr.vmrList, hr.mmapAddr]
      exact ho.below
    objects := by
      rw [hr.vmrList, hr.pmoCount]
      exact ho.objects
    top := by
      rw [hr.mmapAddr]
      exact ho.top
    recordedBelow := by
      intro p' k' pa' hrec
      rw [hr.mmapAddr]
      rcases (hr.recorded p' k' pa').1 hrec with hold | ⟨rfl, rfl, -⟩
      · exact ho.recordedBelow p' k' pa' hold
      rw [hindex]
      have hend := (hin.noWrap (h.regions.words e he)).2
      exact (hin.2.trans_eq hend).trans_le (ho.below e he)
    own := by
      intro p' k' pa' hrec e' he' hin'
      rw [hr.vmrList] at he'
      rcases (hr.recorded p' k' pa').1 hrec with hold | ⟨rfl, rfl, -⟩
      · exact ho.own p' k' pa' hold e' he' hin'
      rw [hindex] at hin'
      rw [h.regions.apart e' he' e he _ hin' hin]
    distinct := by
      intro p1 k1 p2 k2 pa' hrec1 hrec2
      rcases (hr.recorded p1 k1 pa').1 hrec1 with hold1 | ⟨rfl, rfl, rfl⟩
      · rcases (hr.recorded p2 k2 pa').1 hrec2 with hold2 | ⟨rfl, rfl, rfl⟩
        · exact ho.distinct _ _ _ _ _ hold1 hold2
        rcases hr.found with hold | ⟨-, rfl⟩
        · exact ho.distinct _ _ _ _ _ hold1 hold
        · exact absurd hold1 (hunused.not_recorded h.pmoLt)
      rcases (hr.recorded p2 k2 pa').1 hrec2 with hold2 | ⟨rfl, rfl, -⟩
      · rcases hr.found with hold | ⟨-, rfl⟩
        · exact ho.distinct _ _ _ _ _ hold hold2
        · exact absurd hold2 (hunused.not_recorded h.pmoLt)
      · exact ⟨rfl, rfl⟩
    mapped := by
      intro u w' hw'
      rw [hr.entry u] at hw'
      by_cases hu : u = vpn faultAddr
      · rw [if_pos hu] at hw'
        cases hw'
        exact ⟨_, _, pa, (hr.recorded _ _ _).2 (.inr ⟨rfl, rfl, rfl⟩), hr.frame, hu ▸ hindex.symm⟩
      · rw [if_neg hu] at hw'
        obtain ⟨p', k', pa', hrec, hrest⟩ := ho.mapped u w' hw'
        exact ⟨p', k', pa', (hr.recorded _ _ _).2 (.inl hrec), hrest⟩
  }

/-- The origin of a new object is the start of its region, if it gets one. -/
lemma Origins.newObject (ho : Origins st origin) (h : AnonMemInv getPages pgd st)
    (hrec : ∀ p k pa, Recorded st' p k pa ↔ Recorded st p k pa)
    (hentry : st'.vs.entry = st.vs.entry) (hcount : st'.pmoCount = st.pmoCount + 1)
    (hcur : st.vs.userCurrentMmapAddr ≤ st'.vs.userCurrentMmapAddr)
    (htop : st'.vs.userCurrentMmapAddr ≤ 2 ^ 48) (hlist : ∀ e ∈ st'.vs.vmrList, e ∈ st.vs.vmrList ∨
    (e.2.start = st.vs.userCurrentMmapAddr ∧ e.2.pmo = st.pmoCount ∧
    e.2.start + e.2.size ≤ st'.vs.userCurrentMmapAddr)) :
    Origins st' (update origin st.pmoCount st.vs.userCurrentMmapAddr) := by
  have hsame : ∀ p, p ≠ st.pmoCount → update origin st.pmoCount
      st.vs.userCurrentMmapAddr p = origin p :=
    fun p hp => update_of_ne hp _ _
  have hold : ∀ p k pa, Recorded st p k pa → p ≠ st.pmoCount := by
    rintro p k pa ⟨pmo, hpmo, -⟩
    exact ne_of_lt (h.pmoLt p pmo hpmo)
  exact {
    regions := by
      intro e he
      rcases hlist e he with he | ⟨hstart, hpmo, -⟩
      · rw [hsame _ (ne_of_lt (ho.objects e he)), ho.regions e he]
      · rw [hpmo, update_self, hstart]
    below := by
      intro e he
      rcases hlist e he with he | ⟨-, -, hend⟩
      · exact (ho.below e he).trans hcur
      · exact hend
    objects := by
      intro e he
      rw [hcount]
      rcases hlist e he with he | ⟨-, hpmo, -⟩
      · exact Nat.lt_succ_of_lt (ho.objects e he)
      rw [hpmo]
      exact Nat.lt_succ_self _
    top := htop
    recordedBelow := by
      intro p k pa hp
      have hp := (hrec p k pa).1 hp
      rw [hsame p (hold p k pa hp)]
      exact (ho.recordedBelow p k pa hp).trans_le hcur
    own := by
      intro p k pa hp e he hin
      have hp := (hrec p k pa).1 hp
      rw [hsame p (hold p k pa hp)] at hin
      rcases hlist e he with he | ⟨hstart, -, -⟩
      · exact ho.own p k pa hp e he hin
      have hlo := hin.1
      rw [hstart] at hlo
      exact absurd (ho.recordedBelow p k pa hp) (not_lt.2 hlo)
    distinct := fun p k p' k' pa hp hp' =>
      ho.distinct p k p' k' pa ((hrec _ _ _).1 hp) ((hrec _ _ _).1 hp')
    mapped := by
      intro u w hw
      rw [hentry] at hw
      obtain ⟨p, k, pa, hp, hframe, hpage⟩ := ho.mapped u w hw
      refine ⟨p, k, pa, (hrec p k pa).2 hp, hframe, ?_⟩
      rw [hsame p (hold p k pa hp), hpage]
  }

lemma Origins.mmap (ho : Origins st origin) (h : AnonMemInv getPages pgd st) {length prot : Nat}
    (hend : st.vs.userCurrentMmapAddr + mmapLength length ≤ 2 ^ 48)
    (heffect : MmapEffect st length prot st') : ∃ origin', Origins st' origin' := by
  cases heffect with
  | refused => exact ⟨origin, ho⟩
  | noMemory =>
    exact ⟨_, ho.newObject h (fun _ _ _ => recorded_addPmo h.pmoLt _) rfl rfl
      le_rfl ho.top fun _ he => .inl he⟩
  | added hpages hcheck =>
    have hnext : u64 (st.vs.userCurrentMmapAddr + mmapLength length) =
        st.vs.userCurrentMmapAddr + mmapLength length :=
      u64_of_lt (hend.trans_lt (by decide))
    refine ⟨_, ho.newObject h (fun _ _ _ => recorded_addPmo h.pmoLt _) rfl rfl ?_ ?_ ?_⟩
    · exact (Nat.le_add_right _ _).trans_eq hnext.symm
    · exact hnext.trans_le hend
    intro e he
    rcases mem_cons.1 he with rfl | he
    · exact .inr ⟨rfl, rfl, hnext.ge⟩
    · exact .inl he

/-- One step: the condition of `NoCutAllowed` implies the exact one, and the
objects keep their origins. -/
lemma noCut_step (hfresh : FreshPages getPages pgd)
    (h : AnonMemInv getPages pgd st) (ho : ∃ origin, Origins st origin)
    {op : SpaceOp} (hall : NoCutAllowed st op) :
    AnonAllowed st op ∧ ∀ st', spaceStep mem getPages st op = .ok st' →
    AnonMemInv getPages pgd st' ∧ ∃ origin, Origins st' origin := by
  obtain ⟨origin, ho⟩ := ho
  have hanon := ho.allowed h hall
  refine ⟨hanon, fun st' hstep => ⟨h.step hfresh hanon hstep, ?_⟩⟩
  cases op with
  | call op =>
    change vmStep mem getPages st op = _ at hstep
    cases op with
    | mmap length prot flags fd => exact ho.mmap h hall.2 (mmap_cases hstep)
    | munmap addr length =>
      obtain rfl | ⟨vs', -, hlength, hun, rfl⟩ := munmap_cases hstep
      · exact ⟨origin, ho⟩
      have hresult := unmapVmrs_result _ _ _ _ (Nat.lt_succ_self _) h.root
        h.table h.regions hlength hun
      refine ⟨origin, ho.munmap hresult ?_⟩
      obtain ⟨hend, hzero | hcross⟩ := hall
      · rw [unmapVmrs, if_pos hzero] at hun
        cases hun
        exact fun _ he => he
      · exact unmapVmrs_noCut hend _ _ _ _ rfl h.regions hcross hun
    | createPmo | mapRange | unmapRange | unmapPmo | brk => exact hall.elim
  | fault faultAddr page =>
    obtain ⟨⟨st1, r⟩, hfault, hend⟩ := bind_eq_ok.1 hstep
    cases hend
    rcases fault_result hfresh h.toAnonInv h.frames ⟨hall.1, hall.2.1⟩
      (vmFault_cases hfault) with rfl | ⟨p, k, pa, w, hr⟩
    · exact ⟨origin, ho⟩
    · exact ⟨origin, ho.fault h hall.2.2 hr⟩
  | destroyPmo p => exact hall.elim

/-- Runs that never unmap the first part of a region only meet the condition on
faults. -/
lemma admissible_of_noCut (hfresh : FreshPages getPages pgd) (ops : List SpaceOp) :
    ∀ st, AnonMemInv getPages pgd st → (∃ origin, Origins st origin) →
    Admissible (spaceStep mem getPages) NoCutAllowed st ops →
    Admissible (spaceStep mem getPages) AnonAllowed st ops := by
  induction ops with
  | nil =>
    intro st _ _ _
    trivial
  | cons op ops ih =>
    intro st h ho hadm
    obtain ⟨hanon, hnext⟩ := noCut_step hfresh h ho hadm.1
    refine ⟨hanon, fun st' hstep => ?_⟩
    obtain ⟨h', ho'⟩ := hnext st' hstep
    exact ih st' h' ho' (hadm.2 st' hstep)

lemma Origins.init (pgd : Nat) : Origins (initVm pgd) id where
  regions := fun _ he => nomatch he
  below := fun _ he => nomatch he
  objects := fun _ he => nomatch he
  top := by
    show mmapStart ≤ 2 ^ 48
    decide
  recordedBelow := fun _ _ _ h => nomatch h
  own := fun _ _ _ h => nomatch h
  distinct := fun _ _ _ _ _ h => nomatch h
  mapped := by
    intro u w hw
    rw [entry_initVm] at hw
    cases hw

end

/-! ## The result -/

lemma AnonMemInv.physAddr_eq {getPages : Nat → Nat} {pgd : Nat} {st : VmState}
    (h : AnonMemInv getPages pgd st) (va : Nat) : physAddr st.vs.pgtbl st.vs.pgd va =
    (st.vs.frame (vpn va)).map fun f => f * pageSize + va % pageSize := by
  rw [h.root, Kernel.physAddr_eq h.table, Vmspace.frame, Vmspace.entry, h.root, Option.map_map]
  rfl

/-- Two pages that are mapped in `st` have two physical pages, and a page that is
mapped there is mapped to the same physical page in `st'`, if it is in no range
that is unmapped. -/
structure PagesKept (st st' : VmState) (later : List SpaceOp) : Prop where
  distinct : ∀ va1 va2 pa1 pa2, va1 < 2 ^ 48 → va2 < 2 ^ 48 →
    physAddr st.vs.pgtbl st.vs.pgd va1 = some pa1 →
    physAddr st.vs.pgtbl st.vs.pgd va2 = some pa2 →
    pa1 / pageSize = pa2 / pageSize → va1 / pageSize = va2 / pageSize
  kept : ∀ va pa, va < 2 ^ 48 → physAddr st.vs.pgtbl st.vs.pgd va = some pa →
    (∀ op ∈ later, ¬ SpaceOp.Unmaps va op) → physAddr st'.vs.pgtbl st'.vs.pgd va = some pa

lemma AnonMemInv.pagesKept {mem : Allocator} {getPages : Nat → Nat} {pgd : Nat}
    (hfresh : FreshPages getPages pgd) {later : List SpaceOp} {st st' : VmState}
    (h : AnonMemInv getPages pgd st)
    (hadm : Admissible (spaceStep mem getPages) AnonAllowed st later)
    (hrun : run (spaceStep mem getPages) st later = .ok st') : PagesKept st st' later := by
  constructor
  · intro va1 va2 pa1 pa2 hva1 hva2 hpa1 hpa2 hsame
    rw [h.physAddr_eq] at hpa1 hpa2
    obtain ⟨f1, hf1, rfl⟩ := map_eq_some_iff.1 hpa1
    obtain ⟨f2, hf2, rfl⟩ := map_eq_some_iff.1 hpa2
    obtain ⟨w1, hw1, rfl⟩ := map_eq_some_iff.1 hf1
    obtain ⟨w2, hw2, rfl⟩ := map_eq_some_iff.1 hf2
    have hframe : getField w1 12 36 = getField w2 12 36 := by
      unfold pageSize at *
      omega
    have hvpn := h.noShare _ _ w1 w2 hw1 hw2 hframe
    unfold vpn pageSize at *
    omega
  · intro va pa hva hpa hnot
    rw [h.physAddr_eq] at hpa
    obtain ⟨f, hf, rfl⟩ := map_eq_some_iff.1 hpa
    obtain ⟨h', hf'⟩ := AnonMemInv.run_frame hfresh hva later st h hadm hrun hnot hf
    rw [h'.physAddr_eq, hf', map_some]

/-- **Anonymous memory keeps its pages** in every run of `sys_handle_mmap`,
`sys_handle_munmap` and faults in which the page that a fault finds in its object
is mapped at this address or nowhere. This is so in every run in which no region
reaches across the end of a range that is unmapped. -/
theorem anonymous_pages_kept (mem : Allocator) {getPages : Nat → Nat} {pgd : Nat}
    (hfresh : FreshPages getPages pgd) (ops later : List SpaceOp) {st st' : VmState}
    (hrun : run (spaceStep mem getPages) (initVm pgd) ops = .ok st)
    (hrun' : run (spaceStep mem getPages) st later = .ok st') :
    (Admissible (spaceStep mem getPages) AnonAllowed (initVm pgd) ops →
      Admissible (spaceStep mem getPages) AnonAllowed st later → PagesKept st st' later) ∧
    (Admissible (spaceStep mem getPages) NoCutAllowed (initVm pgd) ops →
      Admissible (spaceStep mem getPages) NoCutAllowed st later → PagesKept st st' later) := by
  constructor
  · intro hadm hadm'
    have hinv : AnonMemInv getPages pgd st := run_preserves_of_admissible
        (fun _ _ _ h hall hstep => h.step hfresh hall hstep) ops _ st
        (.init getPages pgd) hadm hrun
    exact hinv.pagesKept hfresh hadm' hrun'
  · intro hadm hadm'
    have hinv : AnonMemInv getPages pgd st ∧ ∃ origin, Origins st origin :=
      run_preserves_of_admissible (fun _ _ st' h hall hstep =>
        (noCut_step hfresh h.1 h.2 hall).2 st' hstep) ops _ st
        ⟨.init getPages pgd, id, .init pgd⟩ hadm hrun
    exact hinv.1.pagesKept hfresh
      (admissible_of_noCut hfresh later st hinv.1 hinv.2 hadm') hrun'

/-- Two regions, faults in both, and the first one is unmapped. -/
def twoRegions : List SpaceOp :=
  [.call (.mmap 0x2000 3 0x22 (-1)), .call (.mmap 0x2000 3 0x22 (-1)),
    .fault mmapStart 0x9000, .fault (mmapStart + 0x2000) 0xa000]

def twoRegionsLater : List SpaceOp :=
  [.call (.munmap mmapStart 0x2000), .fault (mmapStart + 0x3000) 0xb000]

theorem anonymous_pages_kept_two_regions : ∃ st st',
    run (spaceStep .always Nat.succ) (initVm 0) twoRegions = .ok st ∧
    run (spaceStep .always Nat.succ) st twoRegionsLater = .ok st' ∧
    PagesKept st st' twoRegionsLater := by
  obtain ⟨st, hrun, st', hrun', hadm'⟩ : ∃ st,
      run (spaceStep .always Nat.succ) (initVm 0) twoRegions = .ok st ∧
      ∃ st', run (spaceStep .always Nat.succ) st twoRegionsLater = .ok st' ∧
        Admissible (spaceStep .always Nat.succ) NoCutAllowed st twoRegionsLater := by
    decide +kernel
  exact ⟨st, st', hrun, hrun', (anonymous_pages_kept .always freshPages_succ twoRegions
    twoRegionsLater hrun hrun').2 (by decide +kernel) hadm'⟩

/-- Three pages; the first two are touched, the first is unmapped, and then the
third is touched: it gets the physical page of the second. -/
theorem anonymous_page_shared : ∃ st, run (spaceStep .always Nat.succ) (initVm 0)
      [.call (.mmap 0x3000 3 0x22 (-1)), .fault mmapStart 0x9000,
        .fault (mmapStart + 0x1000) 0xa000, .call (.munmap mmapStart 0x1000),
        .fault (mmapStart + 0x2000) 0xb000] = .ok st ∧
    physAddr st.vs.pgtbl st.vs.pgd (mmapStart + 0x1000) = some 0xa000 ∧
    physAddr st.vs.pgtbl st.vs.pgd (mmapStart + 0x2000) = some 0xa000 := by decide +kernel

end ChCore.Kernel
