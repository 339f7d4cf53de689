import ChCore.Kernel.MemObject
import ChCore.Kernel.PageTableRanges
import ChCore.Kernel.PageTableRuns
import ChCore.Kernel.VmspaceRuns

/-!
# One address space with its page faults

The calls of `VmspaceRuns` together with page faults, and with the destruction of
memory objects, which `sys_map_pmos` brings about when it frees a capability.
`vmFault_cases` says all that a fault can do to the memory objects and the page
table.
-/

namespace ChCore.Kernel

open Function

/-- The system of `MemObject` with this address space only. -/
def VmState.system (st : VmState) : MemSystem :=
  { MemSystem.empty with pmos := st.pmos, vmspaces := fun _ => some st.vs }

/-- `handle_trans_fault` in this address space; `page` is the physical address
that `get_pages` returns if a page is needed. -/
def vmFault (getPages : Nat → Nat) (st : VmState) (faultAddr page : Nat) :
    Exec (VmState × Int) := do
  let (m, r) ← handleTransFault getPages st.system 0 faultAddr page
  let vs ← deref m.vmspaces 0
  return ({ st with vs, pmos := m.pmos }, r)

/-- What can happen to an address space. -/
inductive SpaceOp
  | call (op : VmOp)
  | fault (faultAddr page : Nat)
  | destroyPmo (p : Nat)
  deriving DecidableEq, Repr

/-- One step. -/
def spaceStep (mem : Allocator) (getPages : Nat → Nat) (st : VmState) : SpaceOp → Exec VmState
  | .call op => vmStep mem getPages st op
  | .fault faultAddr page => do
    let (st, _) ← vmFault getPages st faultAddr page
    return st
  | .destroyPmo p => .ok { st with pmos := update st.pmos p none }

/-- The addresses for which `find_vmr_for_va` can return the region. -/
def Vmregion.Has (vmr : Vmregion) (addr : Nat) : Prop := vmr.start ≤ addr ∧ addr < vmr.end

instance (vmr : Vmregion) (addr : Nat) : Decidable (vmr.Has addr) :=
  inferInstanceAs (Decidable (_ ∧ _))

/-- The entry of the page table for a page number. -/
def Vmspace.entry (vs : Vmspace) (u : Nat) : Option (BitVec 64) := vs.pgtbl.entryAt vs.pgd u

/-- The page table of a new address space is empty. -/
lemma table_initVm (getPages : Nat → Nat) (pgd : Nat) : PtInv getPages pgd (initVm pgd).vs.pgtbl :=
  (PtRefines.empty (fun _ => rfl) rfl).inv

lemma entry_initVm (pgd u : Nat) : (initVm pgd).vs.entry u = none := by
  have hrefines : PtRefines id pgd (initVm pgd).vs.pgtbl FlatState.empty :=
    PtRefines.empty (fun _ => rfl) rfl
  exact hrefines.entry u

/-! ## Faulting addresses -/

lemma vpn_roundDown (addr : Nat) : vpn (roundDown addr) = vpn addr := by
  rw [vpn, roundDown, Nat.mul_div_cancel _ (by decide)]
  rfl

/-- Where a faulting address is in its region. -/
lemma fault_offset {start addr : Nat} (halign : pageSize ∣ start)
    (hle : start ≤ addr) (hlt : addr < 2 ^ 64) :
    u64 (roundDown addr + 2 ^ 64 - start) ≤ addr - start ∧
    u64 (roundDown addr + 2 ^ 64 - start) / pageSize = (addr - start) / pageSize := by
  obtain ⟨n, rfl⟩ := halign
  unfold roundDown u64 pageSize at *
  omega

/-! ## Pages and regions -/

section

variable {vmr : Vmregion} {u : Nat}

/-- A page of a region has a number in it. -/
lemma Vmregion.Has.page (halign : pageSize ∣ vmr.start) (h : vmr.Has (u * pageSize)) :
    ∃ k, k < pageRounds vmr.size ∧ u * pageSize = vmr.start + k * pageSize := by
  obtain ⟨n, hn⟩ := halign
  have hlt : u * pageSize < vmr.start + vmr.size := h.2.trans_le (Nat.mod_le _ _)
  refine ⟨u - n, ?_, ?_⟩
  · have hle := h.1
    unfold pageRounds pageSize at *
    omega
  have hle := h.1
  unfold pageSize at *
  omega

lemma vpn_page (hu : u < 2 ^ 36) : vpn (u * pageSize) = u := by
  rw [vpn, Nat.mul_div_cancel _ (by decide), Nat.mod_eq_of_lt hu]

/-- The rounds of an unmapping loop meet the pages of the range. -/
lemma vpn_round {va len : Nat} (hu : u < 2 ^ 36)
    (hlo : roundDown va ≤ u * pageSize) (hhi : u * pageSize < roundDown va + len) :
    ∃ k, k < pageRounds len ∧ u = vpn (va + k * pageSize) := by
  refine ⟨u - va / pageSize, ?_, ?_⟩
  · unfold pageRounds roundDown pageSize at *
    omega
  unfold vpn roundDown pageSize at *
  omega

/-- A region with an address in it does not wrap around. -/
lemma Vmregion.Has.noWrap {addr : Nat} (h : vmr.Has addr)
    (hwords : vmr.start < 2 ^ 64 ∧ vmr.size < 2 ^ 64) :
    vmr.start + vmr.size < 2 ^ 64 ∧ vmr.end = vmr.start + vmr.size := by
  have hlo := h.1
  have hhi := h.2
  unfold Vmregion.end u64 at *
  omega

/-- The pages that `unmap_range_in_pgtbl` meets. -/
def PageIn (va len u : Nat) : Prop := ∃ k, k < pageRounds len ∧ u = vpn (va + k * pageSize)

instance (va len u : Nat) : Decidable (PageIn va len u) :=
  inferInstanceAs (Decidable (∃ k, k < _ ∧ _))

/-- The page table after `unmap_range_in_pgtbl`. -/
lemma unmapPages_entries {getPages : Nat → Nat} {pgd va len : Nat}
    {vs vs' : Vmspace} (hrun : unmapPages vs va len = .ok vs')
    (hroot : vs.pgd = pgd) (htable : PtInv getPages pgd vs.pgtbl) :
    ∃ pt, vs' = { vs with pgtbl := pt } ∧ PtInv getPages pgd pt ∧
      ∀ u, vs'.entry u = if PageIn va len u then none else vs.entry u := by
  obtain ⟨pt, hun, rfl⟩ := unmapPages_inv hrun
  rw [hroot] at hun
  obtain ⟨hinv, hclear, hkeep⟩ := unmapLoop_entries _ _ _ _ htable hun
  refine ⟨pt, rfl, hinv, fun u => ?_⟩
  rw [Vmspace.entry, Vmspace.entry, hroot]
  by_cases hin : PageIn va len u
  · obtain ⟨k, hk, rfl⟩ := hin
    rw [if_pos ⟨k, hk, rfl⟩]
    exact hclear k hk
  · rw [if_neg hin]
    exact hkeep u fun k hk hu => hin ⟨k, hk, hu⟩

end

/-! ## What a page fault does -/

section

variable {mem : Allocator} {getPages : Nat → Nat} {st st' : VmState}

/-- A page fault: there is no region, or the page of the object is mapped, which
is a new one if the object had none there. -/
inductive FaultEffect (getPages : Nat → Nat) (st : VmState)
    (faultAddr page : Nat) : VmState → Int → Prop
  | noRegion (hfind : findVmrForVa st.vs faultAddr = none) :
    FaultEffect getPages st faultAddr page st (-enomapping)
  | mapped {q pa : Nat} {vmr : Vmregion} {pmo : Pmobject}
    {radix : List (Nat × Nat)} {pgtbl : PtState}
    (hfind : findVmrForVa st.vs faultAddr = some (q, vmr))
    (hpmo : st.pmos vmr.pmo = some pmo)
    (htype : pmo.type = .anonym ∨ pmo.type = .shm)
    (hsize : u64 (roundDown faultAddr + 2 ^ 64 - vmr.start) < pmo.size)
    (hradix : (pmo.radix.lookup (u64 (roundDown faultAddr + 2 ^ 64 -
          vmr.start) / pageSize) = some pa ∧ radix = pmo.radix) ∨
      (pmo.radix.lookup (u64 (roundDown faultAddr + 2 ^ 64 - vmr.start) /
          pageSize) = none ∧ pa = page ∧
        radix = (u64 (roundDown faultAddr + 2 ^ 64 - vmr.start) / pageSize, page) :: pmo.radix))
    (hmap : mapRangeInPgtbl getPages st.vs.pgtbl st.vs.pgd
      (roundDown faultAddr) pa pageSize vmr.perm = .ok pgtbl) :
    FaultEffect getPages st faultAddr page
      { st with
        vs := { st.vs with pgtbl }
        pmos := update st.pmos vmr.pmo (some { pmo with radix }) } 0

lemma vmFault_cases {faultAddr page : Nat} {r : Int}
    (hrun : vmFault getPages st faultAddr page = .ok (st', r)) :
    FaultEffect getPages st faultAddr page st' r := by
  obtain ⟨⟨m, r'⟩, hfault, hrest⟩ := bind_eq_ok.1 hrun
  obtain ⟨vs, hvs, hend⟩ := bind_eq_ok.1 hfault
  have hst : some st.vs = some vs := deref_inv hvs
  obtain rfl := Option.some.inj hst
  cases hfind : findVmrForVa st.vs faultAddr with
  | none =>
    rw [hfind] at hend
    cases hend
    cases hrest
    exact .noRegion hfind
  | some e =>
    obtain ⟨q, vmr⟩ := e
    rw [hfind] at hend
    obtain ⟨pmo, hpmo, hend⟩ := bind_eq_ok.1 hend
    by_cases htype : pmo.type = .anonym ∨ pmo.type = .shm
    · rw [if_pos htype] at hend
      obtain ⟨hbug, hend⟩ := guard_eq_ok hend
      dsimp only at hend
      have hpmo' : st.pmos vmr.pmo = some pmo := deref_inv hpmo
      cases hlookup : pmo.radix.lookup
          (u64 (roundDown faultAddr + 2 ^ 64 - vmr.start) / pageSize) with
      | some pa =>
        rw [hlookup] at hend
        obtain ⟨pgtbl, hmap, hret⟩ := bind_eq_ok.1 hend
        cases hret
        have heffect := @FaultEffect.mapped getPages st faultAddr page q pa
          vmr pmo pmo.radix pgtbl hfind hpmo' htype (Nat.lt_of_not_le hbug)
          (.inl ⟨hlookup, rfl⟩) hmap
        have hid : update st.pmos vmr.pmo (some pmo) = st.pmos := by rw [← hpmo', update_eq_self]
        rw [hid] at heffect
        cases hrest
        exact heffect
      | none =>
        rw [hlookup] at hend
        obtain ⟨pgtbl, hmap, hret⟩ := bind_eq_ok.1 hend
        cases hret
        cases hrest
        exact .mapped hfind hpmo' htype (Nat.lt_of_not_le hbug) (.inr ⟨hlookup, rfl, rfl⟩) hmap
    · rw [if_neg htype] at hend
      cases hend

end

end ChCore.Kernel
