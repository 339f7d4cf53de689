import ChCore.Lib.Runs
import ChCore.Lib.Intervals
import ChCore.Kernel.Vmspace

/-!
# The regions of an address space are disjoint

`check_vmr_intersect` compares the last byte of the new region with the first
byte of an old one by `<=`, so a region whose last byte is the first byte of
another passes; regions that wrap around are not noticed, and `sys_handle_brk`
grows the heap region without a check. In runs without these three cases the
regions of an address space never overlap.

For each call there is a lemma that says all it can do to the regions, the memory
objects and the page table.
-/

namespace ChCore.Kernel

open Lib.Runs Function List Lib.Intervals

/-! ## The system calls -/

/-- An address space, and the memory objects that were created. -/
structure VmState where
  vs : Vmspace
  pmos : Nat → Option Pmobject
  pmoCount : Nat

def VmState.addPmo (st : VmState) (pmo : Pmobject) : VmState :=
  { st with
    pmos := update st.pmos st.pmoCount (some pmo)
    pmoCount := st.pmoCount + 1 }

/-- The region that a pointer leads to; a pointer to a region that was freed
leads nowhere. -/
def vmrAt (vs : Vmspace) (q : Nat) : Option Vmregion :=
  (vs.vmrList.find? fun e => e.1 = q).map Prod.snd

section

variable (mem : Allocator) (getPages : Nat → Nat)

/-- `sys_handle_brk`. -/
def sysHandleBrk (st : VmState) (addr : Nat) : Exec (VmState × Nat) := if addr = 0 then do
    let retval := st.vs.userCurrentHeap
    let pmo := st.pmoCount
    let st := st.addPmo (newPmo .anonym 0 0)
    let (vs, heapVmr) ← initHeapVmr mem st.vs retval pmo
    return ({ st with vs := { vs with heapVmr } }, retval)
  else
    match st.vs.heapVmr with
    | none => .error .nullDeref
    | some q => do
      let vmr ← deref (vmrAt st.vs) q
      if addr ≥ vmr.end then
        let len := addr - vmr.end
        let pmo ← deref st.pmos vmr.pmo
        let vs := setVmr st.vs q { vmr with size := u64 (vmr.size + len) }
        let pmos := update st.pmos vmr.pmo (some { pmo with size := u64 (pmo.size + len) })
        return ({ st with vs, pmos }, addr)
      else .error .bug

/-- `get_vmr_prot`. -/
def getVmrProt (prot : Nat) : Nat := (if prot &&& 1 ≠ 0 then vmrRead else 0) |||
    (if prot &&& 2 ≠ 0 then vmrWrite else 0) |||
    (if prot &&& 4 ≠ 0 then vmrExec else 0)

/-- `sys_handle_mmap`, without the arguments it does not read. -/
def sysHandleMmap (st : VmState) (length prot flags : Nat) (fd : Int) : Exec (VmState × Nat) :=
  if fd ≠ -1 then .error .bug
  else if prot >>> 3 ≠ 0 then .ok (st, 2 ^ 64 - 1)
  else if flags ≠ 0x22 then .ok (st, 2 ^ 64 - 1)
  else do
    let length := if length % pageSize ≠ 0 then roundUp length else length
    let pmo := st.pmoCount
    let st := st.addPmo (newPmo .anonym length 0)
    let (vs, mapAddr) ← vmspaceMmapWithPmo mem st.vs pmo .anonym length (getVmrProt prot)
    return ({ st with vs }, mapAddr)

/-- `sys_handle_munmap`. -/
def sysHandleMunmap (st : VmState) (addr length : Nat) : Exec (VmState × Int) :=
  if addr % pageSize ≠ 0 ∨ length % pageSize ≠ 0 then .ok (st, -einval)
  else do
    let vs ← vmspaceMunmapWithAddr st.pmos st.vs addr length
    return ({ st with vs }, 0)

/-- The calls that change the regions of an address space. The calls of
`vmspace_map_range`, `vmspace_unmap_range` and `unmap_pmo_in_vmspace` are those
of `sys_map_pmo`, `sys_map_pmos` and `sys_unmap_pmo`. -/
inductive VmOp
  | createPmo (size : Nat) (type : PmoType) (start : Nat)
  | mapRange (va len flags pmo : Nat)
  | unmapRange (va len : Nat)
  | unmapPmo (pmo : Nat)
  | mmap (length prot flags : Nat) (fd : Int)
  | munmap (addr length : Nat)
  | brk (addr : Nat)
  deriving DecidableEq, Repr

/-- One call. -/
def vmStep (st : VmState) : VmOp → Exec VmState
  | .createPmo size type start =>
    if size = 0 then .error .bug else .ok (st.addPmo (newPmo type size start))
  | .mapRange va len flags p => do
    let pmo ← deref st.pmos p
    let (vs, _) ← vmspaceMapRange mem getPages st.vs va len flags p pmo
    return { st with vs }
  | .unmapRange va len => do
    let (vs, _) ← vmspaceUnmapRange st.vs va len
    return { st with vs }
  | .unmapPmo p => do
    let (vs, _) ← unmapPmoInVmspace st.vs p
    return { st with vs }
  | .mmap length prot flags fd => do
    let (st, _) ← sysHandleMmap mem st length prot flags fd
    return st
  | .munmap addr length => do
    let (st, _) ← sysHandleMunmap st addr length
    return st
  | .brk addr => do
    let (st, _) ← sysHandleBrk mem st addr
    return st

end

/-- An empty address space, and no memory objects. -/
def initVm (pgd : Nat) : VmState := ⟨vmspaceInit pgd, fun _ => none, 0⟩

/-! ## Disjoint regions -/

/-- The regions do not wrap around, have no address in common, and so at most
one region is a candidate for an address. -/
structure RegionsDisjoint (vs : Vmspace) : Prop where
  noWrap : ∀ e ∈ vs.vmrList, e.2.start + e.2.size < 2 ^ 64
  apart : vs.vmrList.Pairwise fun a b =>
    Apart a.2.start a.2.size b.2.start b.2.size
  unique : ∀ addr, ∀ a ∈ vs.vmrList, ∀ b ∈ vs.vmrList,
    a.2.start ≤ addr ∧ addr < a.2.start + a.2.size →
    b.2.start ≤ addr ∧ addr < b.2.start + b.2.size → a = b

/-- The length of the region that `sys_handle_mmap` makes. -/
def mmapLength (length : Nat) : Nat := if length % pageSize ≠ 0 then roundUp length else length

/-- The calls after which the regions stay disjoint: a new region ends below
`2 ^ 64` and its last byte is not the first byte of another, and the heap grows
only over addresses that no other region has. -/
def VmAllowed (st : VmState) : VmOp → Prop
  | .mapRange va len _ _ =>
    roundDown va + mapLength len < 2 ^ 64 ∧ ∀ e ∈ st.vs.vmrList, 0 < e.2.size →
        e.2.start ≠ roundDown va + mapLength len - 1
  | .mmap length _ _ _ =>
    st.vs.userCurrentMmapAddr + mmapLength length < 2 ^ 64
  | .brk addr =>
    addr < 2 ^ 64 ∧ (addr = 0 ∨ ∀ q ∈ st.vs.heapVmr, ∃ e ∈ st.vs.vmrList, e.1 = q ∧
        ∀ e' ∈ st.vs.vmrList, e'.1 ≠ q → Apart e.2.start (addr - e.2.start) e'.2.start e'.2.size)
  | _ => True

instance (st : VmState) : ∀ op, Decidable (VmAllowed st op) := fun op => by
  cases op <;> (dsimp only [VmAllowed]; infer_instance)

/-! ## What the calls do -/

lemma mem_of_vmrAt {vs : Vmspace} {q : Nat} {vmr : Vmregion}
    (h : vmrAt vs q = some vmr) : (q, vmr) ∈ vs.vmrList := by
  obtain ⟨e, hfind, heq⟩ := Option.map_eq_some_iff.1 h
  have hmem := mem_of_find?_eq_some hfind
  have hname := List.find?_some hfind
  rw [decide_eq_true_eq] at hname
  rw [← heq, ← hname]
  exact hmem

section

variable {mem : Allocator} {getPages : Nat → Nat} {st st' : VmState}

/-- `sys_handle_mmap`: it is refused, there is no memory for the region, or there
is a new region. -/
inductive MmapEffect (st : VmState) (length prot : Nat) : VmState → Prop
  | refused : MmapEffect st length prot st
  | noMemory : MmapEffect st length prot
    { st.addPmo (newPmo .anonym (mmapLength length) 0) with
      vs := { st.vs with vmrs := st.vs.vmrs + 1 } }
  | added (hpages : mmapLength length % pageSize = 0)
    (hcheck : checkVmrIntersect st.vs
      ⟨st.vs.userCurrentMmapAddr, mmapLength length, getVmrProt prot, st.pmoCount⟩ = false) :
    MmapEffect st length prot
      { st.addPmo (newPmo .anonym (mmapLength length) 0) with
        vs := { st.vs with
          vmrs := st.vs.vmrs + 1
          userCurrentMmapAddr :=
            u64 (st.vs.userCurrentMmapAddr + mmapLength length)
          vmrList := (st.vs.vmrs,
            ⟨st.vs.userCurrentMmapAddr, mmapLength length, getVmrProt prot,
              st.pmoCount⟩) :: st.vs.vmrList } }

lemma mmap_cases {length prot flags : Nat} {fd : Int}
    (hrun : vmStep mem getPages st (.mmap length prot flags fd) = .ok st') :
    MmapEffect st length prot st' := by
  obtain ⟨⟨st1, r⟩, hmm, hend⟩ := bind_eq_ok.1 hrun
  cases hend
  unfold sysHandleMmap at hmm
  obtain ⟨hfd, hmm⟩ := guard_eq_ok hmm
  by_cases hprot : prot >>> 3 ≠ 0
  · rw [if_pos hprot] at hmm
    cases hmm
    exact .refused
  rw [if_neg hprot] at hmm
  by_cases hflags : flags ≠ 0x22
  · rw [if_pos hflags] at hmm
    cases hmm
    exact .refused
  rw [if_neg hflags] at hmm
  obtain ⟨⟨vs1, r'⟩, hmap, hend⟩ := bind_eq_ok.1 hmm
  cases hend
  unfold vmspaceMmapWithPmo at hmap
  cases halloc : allocVmregion mem (st.addPmo (newPmo .anonym (mmapLength length) 0)).vs with
  | mk vs2 o =>
    obtain ⟨rfl, ho⟩ := allocVmregion_inv halloc
    rw [show (if length % pageSize ≠ 0 then roundUp length else length) =
      mmapLength length from rfl, halloc] at hmap
    rcases ho with ⟨-, rfl⟩ | rfl
    · cases hmap
      exact .noMemory
    dsimp only at hmap
    obtain ⟨hpages, hmap⟩ := guard_eq_ok hmap
    rw [if_neg (by decide)] at hmap
    obtain ⟨vs3, hadd, hend⟩ := bind_eq_ok.1 hmap
    cases hend
    obtain ⟨hcheck, rfl⟩ := addVmrToVmspace_inv hadd
    exact .added (not_not.1 hpages) hcheck

/-- `vmspace_map_range`: there is no memory for the region, or there is a new
region, with the pages of the object if they exist. -/
inductive MapEffect (getPages : Nat → Nat) (st : VmState)
    (va len flags p : Nat) (pmo : Pmobject) : VmState → Prop
  | noMemory : MapEffect getPages st va len flags p pmo
    { st with vs := { st.vs with vmrs := st.vs.vmrs + 1 } }
  | added {pgtbl : PtState}
    (hpages : if mappedEarly pmo.type then
      mapRangeInPgtbl getPages st.vs.pgtbl st.vs.pgd (roundDown va) pmo.start
        pmo.size (permOf pmo.type flags) = .ok pgtbl
      else pgtbl = st.vs.pgtbl) :
    MapEffect getPages st va len flags p pmo
      { st with
        vs := { st.vs with
          vmrs := st.vs.vmrs + 1
          vmrList := (st.vs.vmrs, ⟨roundDown va, mapLength len,
            permOf pmo.type flags, p⟩) :: st.vs.vmrList
          pgtbl } }

variable {va len p : Nat}

lemma mapRange_cases {flags : Nat}
    (hrun : vmStep mem getPages st (.mapRange va len flags p) = .ok st') :
    ∃ pmo, st.pmos p = some pmo ∧ MapEffect getPages st va len flags p pmo st' := by
  obtain ⟨pmo, hpmo, hrest⟩ := bind_eq_ok.1 hrun
  refine ⟨pmo, deref_inv hpmo, ?_⟩
  obtain ⟨⟨vs1, r⟩, hmap, hend⟩ := bind_eq_ok.1 hrest
  cases hend
  rcases vmspaceMapRange_inv hmap with ⟨-, rfl⟩ | ⟨vmr, pgtbl, -, -, rfl, hpages, rfl⟩
  · exact .noMemory
  · exact .added hpages

/-- `sys_handle_brk`: there is no memory for the heap's region, the heap is new
and empty, or it grows. -/
inductive BrkEffect (st : VmState) (addr : Nat) : VmState → Prop
  | noMemory : BrkEffect st addr
    { st.addPmo (newPmo .anonym 0 0) with
      vs := { st.vs with vmrs := st.vs.vmrs + 1, heapVmr := none } }
  | created : BrkEffect st addr
    { st.addPmo (newPmo .anonym 0 0) with
      vs := { st.vs with
        vmrs := st.vs.vmrs + 1
        heapVmr := some st.vs.vmrs
        vmrList := (st.vs.vmrs, ⟨st.vs.userCurrentHeap, 0,
          vmrRead ||| vmrWrite, st.pmoCount⟩) :: st.vs.vmrList } }
  | grown {q : Nat} {vmr : Vmregion} {pmo : Pmobject}
    (hheap : st.vs.heapVmr = some q) (hvmr : (q, vmr) ∈ st.vs.vmrList)
    (hpmo : st.pmos vmr.pmo = some pmo) (hge : vmr.end ≤ addr) :
    BrkEffect st addr
      { st with
        vs := setVmr st.vs q
          { vmr with size := u64 (vmr.size + (addr - vmr.end)) }
        pmos := update st.pmos vmr.pmo
          (some { pmo with size := u64 (pmo.size + (addr - vmr.end)) }) }

lemma brk_cases {addr : Nat} (hrun : vmStep mem getPages st (.brk addr) = .ok st') :
    BrkEffect st addr st' := by
  obtain ⟨⟨st1, r⟩, hbrk, hend⟩ := bind_eq_ok.1 hrun
  cases hend
  unfold sysHandleBrk at hbrk
  by_cases hzero : addr = 0
  · rw [if_pos hzero] at hbrk
    obtain ⟨⟨vs1, heapVmr⟩, hinit, hend⟩ := bind_eq_ok.1 hbrk
    cases hend
    unfold initHeapVmr at hinit
    cases halloc : allocVmregion mem (st.addPmo (newPmo .anonym 0 0)).vs with
    | mk vs2 o =>
      obtain ⟨rfl, ho⟩ := allocVmregion_inv halloc
      rw [halloc] at hinit
      rcases ho with ⟨-, rfl⟩ | rfl
      · cases hinit
        exact .noMemory
      obtain ⟨vs3, hadd, hend⟩ := bind_eq_ok.1 hinit
      cases hend
      obtain ⟨-, rfl⟩ := addVmrToVmspace_inv hadd
      exact .created
  rw [if_neg hzero] at hbrk
  cases hheap : st.vs.heapVmr with
  | none =>
    rw [hheap] at hbrk
    cases hbrk
  | some q =>
    rw [hheap] at hbrk
    obtain ⟨vmr, hvmr, hrest⟩ := bind_eq_ok.1 hbrk
    by_cases hge : addr ≥ vmr.end
    · rw [if_pos hge] at hrest
      obtain ⟨pmo, hpmo, hend⟩ := bind_eq_ok.1 hrest
      cases hend
      exact .grown hheap (mem_of_vmrAt (deref_inv hvmr)) (deref_inv hpmo) hge
    · rw [if_neg hge] at hrest
      cases hrest

/-- `vmspace_unmap_range`: there is no region, or the region is deleted, and its
pages are unmapped unless the length is 0. -/
inductive UnmapEffect (st : VmState) (va len : Nat) : VmState → Prop
  | noRegion : UnmapEffect st va len st
  | kept {q : Nat} {vmr : Vmregion} (hlen : len = 0)
    (hfind : findVmrForVa st.vs va = some (q, vmr)) :
    UnmapEffect st va len { st with vs := delVmrFromVmspace st.vs q }
  | deleted {q : Nat} {vmr : Vmregion} {vs' : Vmspace}
    (hmem : (q, vmr) ∈ st.vs.vmrList)
    (hrun : unmapPages (delVmrFromVmspace st.vs q) vmr.start vmr.size =
      .ok vs') : UnmapEffect st va len { st with vs := vs' }

/-- The region that `vmspace_unmap_range` deletes is the one that it finds. -/
lemma unmapRange_found (hrun : vmStep mem getPages st (.unmapRange va len) = .ok st') :
    st' = st ∨ ∃ q vmr vs', findVmrForVa st.vs va = some (q, vmr) ∧ st' = { st with vs := vs' } ∧
      ((len = 0 ∧ vs' = delVmrFromVmspace st.vs q) ∨
        (len ≠ 0 ∧ unmapPages (delVmrFromVmspace st.vs q) vmr.start vmr.size = .ok vs')) := by
  obtain ⟨⟨vs1, r⟩, hun, hend⟩ := bind_eq_ok.1 hrun
  cases hend
  rcases vmspaceUnmapRange_inv hun with rfl | ⟨q, vmr, hfind, hdel⟩
  · exact .inl rfl
  · exact .inr ⟨q, vmr, vs1, hfind, rfl, hdel⟩

lemma unmapRange_cases (hrun : vmStep mem getPages st (.unmapRange va len) = .ok st') :
    UnmapEffect st va len st' := by
  rcases unmapRange_found hrun with rfl | ⟨q, vmr, vs', hfind, rfl, ⟨hlen, rfl⟩ | ⟨-, hpages⟩⟩
  · exact .noRegion
  · exact .kept hlen hfind
  · exact .deleted (findVmrForVa_inv hfind).1 hpages

/-- The region that `unmap_pmo_in_vmspace` deletes is the first one for the
object. -/
lemma unmapPmo_found (hrun : vmStep mem getPages st (.unmapPmo p) = .ok st') :
    st' = st ∨ ∃ q vmr vs', st.vs.vmrList.find? (fun e => e.2.pmo = p) = some (q, vmr) ∧
    st' = { st with vs := vs' } ∧
      unmapPages (delVmrFromVmspace st.vs q) vmr.start vmr.size = .ok vs' := by
  obtain ⟨⟨vs1, r⟩, hun, hend⟩ := bind_eq_ok.1 hrun
  cases hend
  rcases unmapPmoInVmspace_inv hun with ⟨-, rfl⟩ | ⟨q, vmr, hfind, hpages⟩
  · exact .inl rfl
  · exact .inr ⟨q, vmr, vs1, hfind, rfl, hpages⟩

lemma unmapPmo_cases (va len : Nat) (hrun : vmStep mem getPages st (.unmapPmo p) = .ok st') :
    UnmapEffect st va len st' := by
  rcases unmapPmo_found hrun with rfl | ⟨q, vmr, vs', hfind, rfl, hpages⟩
  · exact .noRegion
  · exact .deleted (mem_of_find?_eq_some hfind) hpages

/-- `sys_handle_munmap`: it is refused, or `unmap_vmrs` runs. -/
lemma munmap_cases {addr length : Nat}
    (hrun : vmStep mem getPages st (.munmap addr length) = .ok st') :
    st' = st ∨ ∃ vs', pageSize ∣ addr ∧ pageSize ∣ length ∧
    unmapVmrs st.pmos (st.vs.vmrList.length + 1) st.vs addr length = .ok vs' ∧
    st' = { st with vs := vs' } := by
  obtain ⟨⟨st1, r⟩, hmu, hend⟩ := bind_eq_ok.1 hrun
  cases hend
  unfold sysHandleMunmap at hmu
  by_cases hbad : addr % pageSize ≠ 0 ∨ length % pageSize ≠ 0
  · rw [if_pos hbad] at hmu
    cases hmu
    exact .inl rfl
  rw [if_neg hbad] at hmu
  obtain ⟨vs1, hun, hend⟩ := bind_eq_ok.1 hmu
  cases hend
  exact .inr ⟨vs1, Nat.dvd_of_mod_eq_zero (by omega), Nat.dvd_of_mod_eq_zero (by omega), hun, rfl⟩

end

/-! ## The invariant -/

/-- The invariant of the regions. Their starts are page-aligned, so a region of
whole pages cannot end one byte into another. -/
structure VmsInv (vs : Vmspace) : Prop where
  nodup : (vs.vmrList.map Prod.fst).Nodup
  named : ∀ e ∈ vs.vmrList, e.1 < vs.vmrs
  aligned : ∀ e ∈ vs.vmrList, pageSize ∣ e.2.start
  noWrap : ∀ e ∈ vs.vmrList, e.2.start + e.2.size < 2 ^ 64
  apart : ∀ a ∈ vs.vmrList, ∀ b ∈ vs.vmrList, a.1 ≠ b.1 →
    Apart a.2.start a.2.size b.2.start b.2.size
  mmapAligned : pageSize ∣ vs.userCurrentMmapAddr
  heap : vs.userCurrentHeap = heapStart

section

variable {vs vs' : Vmspace}

/-- Regions with one name are one region. -/
lemma VmsInv.eq_of_name (h : VmsInv vs) {a b : Nat × Vmregion}
    (ha : a ∈ vs.vmrList) (hb : b ∈ vs.vmrList) (hname : a.1 = b.1) : a = b :=
  inj_on_of_nodup_map h.nodup ha hb hname

lemma VmsInv.regionsDisjoint (h : VmsInv vs) : RegionsDisjoint vs where
  noWrap := h.noWrap
  apart := by
    have hpair := pairwise_map.1 h.nodup
    exact hpair.imp_of_mem fun ha hb hne => h.apart _ ha _ hb hne
  unique := by
    intro addr a ha b hb hina hinb
    by_cases hname : a.1 = b.1
    · exact h.eq_of_name ha hb hname
    · exact (h.apart a ha b hb hname addr hina.1 hina.2 hinb.1 hinb.2).elim

/-- Only the list, the names and the two addresses matter. -/
lemma VmsInv.congr (h : VmsInv vs) (hlist : vs'.vmrList = vs.vmrList) (hvmrs : vs.vmrs ≤ vs'.vmrs)
    (hmmap : vs'.userCurrentMmapAddr = vs.userCurrentMmapAddr)
    (hheap : vs'.userCurrentHeap = vs.userCurrentHeap) : VmsInv vs' where
  nodup := by
    rw [hlist]
    exact h.nodup
  named := by
    intro e he
    rw [hlist] at he
    exact lt_of_lt_of_le (h.named e he) hvmrs
  aligned := by
    rw [hlist]
    exact h.aligned
  noWrap := by
    rw [hlist]
    exact h.noWrap
  apart := by
    rw [hlist]
    exact h.apart
  mmapAligned := by
    rw [hmmap]
    exact h.mmapAligned
  heap := hheap.trans h.heap

/-- Regions can be taken away. -/
lemma VmsInv.del (h : VmsInv vs) (q : Nat) : VmsInv (delVmrFromVmspace vs q) := by
  have hsub : ∀ e, e ∈ (delVmrFromVmspace vs q).vmrList → e ∈ vs.vmrList :=
    fun e he => mem_of_mem_filter he
  exact {
    nodup := (filter_sublist.map Prod.fst).nodup h.nodup
    named := fun e he => h.named e (hsub e he)
    aligned := fun e he => h.aligned e (hsub e he)
    noWrap := fun e he => h.noWrap e (hsub e he)
    apart := fun a ha b hb => h.apart a (hsub a ha) b (hsub b hb)
    mmapAligned := h.mmapAligned
    heap := h.heap
  }

variable {vmr : Vmregion}

/-- What the check of `add_vmr_to_vmspace` says of a region that does not end
in the first byte of another. -/
lemma VmsInv.apart_of_check (h : VmsInv vs) (hcheck : checkVmrIntersect vs vmr = false)
    (hwrap : vmr.start + vmr.size < 2 ^ 64)
    (hlast : 0 < vmr.size → ∀ e ∈ vs.vmrList, 0 < e.2.size → e.2.start ≠ vmr.start + vmr.size - 1)
    {e : Nat × Vmregion} (he : e ∈ vs.vmrList) : Apart vmr.start vmr.size e.2.start e.2.size := by
  rw [apart_iff_of_size]
  by_cases hsize : vmr.size = 0
  · exact .inl hsize
  rw [checkVmrIntersect, if_neg hsize] at hcheck
  have hnot := any_eq_false.1 hcheck e he
  have hend : e.2.end = e.2.start + e.2.size := u64_of_lt (h.noWrap e he)
  have hnew : u64 (vmr.start + vmr.size + (2 ^ 64 - 1)) = vmr.start + vmr.size - 1 := by
    unfold u64
    omega
  rw [hend, hnew] at hnot
  have hor : vmr.start ≥ e.2.start + e.2.size ∨ vmr.start + vmr.size - 1 ≤ e.2.start := by
    by_contra hno
    exact hnot (decide_eq_true hno)
  have hne := hlast (Nat.pos_of_ne_zero hsize) e he
  omega

/-- A region can be added that is apart from all others. -/
lemma VmsInv.add (h : VmsInv vs) {next : Nat} (hnext : pageSize ∣ next)
    (halign : pageSize ∣ vmr.start) (hwrap : vmr.start + vmr.size < 2 ^ 64)
    (hapart : ∀ e ∈ vs.vmrList, Apart vmr.start vmr.size e.2.start e.2.size) :
    VmsInv { vs with
      vmrs := vs.vmrs + 1
      userCurrentMmapAddr := next
      vmrList := (vs.vmrs, vmr) :: vs.vmrList } where
  nodup := nodup_fst_cons h.nodup fun e he => ne_of_lt (h.named e he)
  named := forall_mem_cons.2 ⟨Nat.lt_succ_self _, fun e he => Nat.lt_succ_of_lt (h.named e he)⟩
  aligned := forall_mem_cons.2 ⟨halign, h.aligned⟩
  noWrap := forall_mem_cons.2 ⟨hwrap, h.noWrap⟩
  apart := by
    intro a ha b hb hne
    rcases mem_cons.1 ha with rfl | ha
    · rcases mem_cons.1 hb with rfl | hb
      · exact absurd rfl hne
      · exact hapart b hb
    rcases mem_cons.1 hb with rfl | hb
    · exact (hapart a ha).symm
    · exact h.apart a ha b hb hne
  mmapAligned := hnext
  heap := h.heap

variable {q : Nat}

lemma mem_setVmr {e : Nat × Vmregion} (he : e ∈ (setVmr vs q vmr).vmrList) :
    e = (q, vmr) ∨ (e.1 ≠ q ∧ e ∈ vs.vmrList) := by
  obtain ⟨e', he', heq⟩ := mem_map.1 he
  by_cases hq : e'.1 = q
  · rw [if_pos hq] at heq
    exact .inl heq.symm
  rw [if_neg hq] at heq
  subst heq
  exact .inr ⟨hq, he'⟩

lemma forall_setVmr {P : Nat × Vmregion → Prop} (hnew : P (q, vmr))
    (hold : ∀ e ∈ vs.vmrList, e.1 ≠ q → P e) : ∀ e ∈ (setVmr vs q vmr).vmrList, P e := by
  intro e he
  rcases mem_setVmr he with rfl | ⟨hne, hmem⟩
  · exact hnew
  · exact hold e hmem hne

/-- The names stay. -/
lemma map_fst_setVmr (vs : Vmspace) (q : Nat) (vmr : Vmregion) :
    (setVmr vs q vmr).vmrList.map Prod.fst = vs.vmrList.map Prod.fst := by
  simp only [setVmr, map_map]
  apply map_congr_left
  intro e _
  by_cases he : e.1 = q
  · simp [he]
  · simp [he]

/-- A region can be changed to one that is apart from the others. -/
lemma VmsInv.set (h : VmsInv vs) (hq : q < vs.vmrs)
    (halign : pageSize ∣ vmr.start) (hwrap : vmr.start + vmr.size < 2 ^ 64)
    (hapart : ∀ e ∈ vs.vmrList, e.1 ≠ q → Apart vmr.start vmr.size e.2.start e.2.size) :
    VmsInv (setVmr vs q vmr) where
  nodup := by
    rw [map_fst_setVmr]
    exact h.nodup
  named := forall_setVmr hq fun e he _ => h.named e he
  aligned := forall_setVmr halign fun e he _ => h.aligned e he
  noWrap := forall_setVmr hwrap fun e he _ => h.noWrap e he
  apart := forall_setVmr
    (forall_setVmr (fun hne => absurd rfl hne) fun b hb hbq _ => hapart b hb hbq)
    fun a ha haq => forall_setVmr (fun _ => (hapart a ha haq).symm)
      fun b hb _ hne => h.apart a ha b hb hne
  mmapAligned := h.mmapAligned
  heap := h.heap

/-! ## The calls keep it -/

lemma VmsInv.pgtbl (h : VmsInv vs) (pt : PtState) : VmsInv { vs with pgtbl := pt } :=
  h.congr rfl le_rfl rfl rfl

variable {va len : Nat}

lemma VmsInv.unmapPages (h : VmsInv vs) (hrun : unmapPages vs va len = .ok vs') : VmsInv vs' := by
  obtain ⟨pt, _, rfl⟩ := unmapPages_inv hrun
  exact h.pgtbl pt

/-- A name for a new region. -/
lemma VmsInv.alloc (h : VmsInv vs) : VmsInv { vs with vmrs := vs.vmrs + 1 } :=
  h.congr rfl (Nat.le_succ _) rfl rfl

variable {mem : Allocator}

lemma VmsInv.mapRange (h : VmsInv vs) {getPages : Nat → Nat} {flags p : Nat}
    {pmo : Pmobject} {r : Int}
    (hrun : vmspaceMapRange mem getPages vs va len flags p pmo = .ok (vs', r))
    (hwrap : roundDown va + mapLength len < 2 ^ 64)
    (hlast : ∀ e ∈ vs.vmrList, 0 < e.2.size → e.2.start ≠ roundDown va + mapLength len - 1) :
    VmsInv vs' := by
  rcases vmspaceMapRange_inv hrun with ⟨-, rfl⟩ | ⟨vmr, pgtbl, -, hcheck, rfl, -, rfl⟩
  · exact h.alloc
  exact (h.add h.mmapAligned (dvd_roundDown va) hwrap
    fun e he => h.apart_of_check hcheck hwrap (fun _ => hlast) he).pgtbl pgtbl

/-- A region of whole pages does not end in the first byte of another. -/
lemma VmsInv.mmap (h : VmsInv vs) (hpages : pageSize ∣ vmr.size)
    (hstart : vmr.start = vs.userCurrentMmapAddr)
    (hcheck : checkVmrIntersect vs vmr = false) (hwrap : vmr.start + vmr.size < 2 ^ 64) :
    VmsInv { vs with
      vmrs := vs.vmrs + 1
      userCurrentMmapAddr := u64 (vmr.start + vmr.size)
      vmrList := (vs.vmrs, vmr) :: vs.vmrList } := by
  have halign : pageSize ∣ vmr.start := hstart ▸ h.mmapAligned
  have hnext : pageSize ∣ vmr.start + vmr.size := Nat.dvd_add halign hpages
  rw [u64_of_lt hwrap]
  refine h.add hnext halign hwrap fun e he => h.apart_of_check hcheck hwrap ?_ he
  intro hpos e he _ heq
  have haligned := h.aligned e he
  rw [heq] at haligned
  have hone := Nat.dvd_sub hnext haligned
  rw [show vmr.start + vmr.size - (vmr.start + vmr.size - 1) = 1 by omega] at hone
  exact absurd hone (by decide)

/-- A region can be shrunk at its start. -/
lemma VmsInv.shrink (h : VmsInv vs) (hmem : (q, vmr) ∈ vs.vmrList)
    (hlen : len < vmr.size) (hpages : pageSize ∣ len) :
    VmsInv (setVmr vs q { vmr with size := vmr.size - len
                                   start := u64 (vmr.start + len) }) := by
  have hwrap := h.noWrap _ hmem
  have hstart : u64 (vmr.start + len) = vmr.start + len := u64_of_lt (by dsimp only at hwrap; omega)
  rw [hstart]
  apply h.set (h.named _ hmem)
  · exact Nat.dvd_add (h.aligned _ hmem) hpages
  · show vmr.start + len + (vmr.size - len) < 2 ^ 64
    dsimp only at hwrap
    omega
  intro e he hne
  exact (h.apart _ hmem e he (fun heq => hne heq.symm)).mono (Nat.le_add_right _ _)
    (show vmr.start + len + (vmr.size - len) ≤ vmr.start + vmr.size by omega)

/-- The end of the range of `unmap_vmrs` stays where it is. -/
lemma dvd_next_range {size : Nat} (hsize : size ≤ len)
    (h : pageSize ∣ va + len) : pageSize ∣ u64 (va + size) + (len - size) := by
  have hend : u64 (va + size) + (len - size) + 2 ^ 64 * ((va + size) / 2 ^ 64) = va + len := by
    unfold u64
    omega
  have hword : pageSize ∣ 2 ^ 64 * ((va + size) / 2 ^ 64) := Nat.dvd_mul_right_of_dvd (by decide) _
  rw [← hend] at h
  exact (Nat.dvd_add_left hword).1 h

lemma VmsInv.unmapVmrs {pmos : Nat → Option Pmobject} (rounds : Nat) :
    ∀ (vs : Vmspace) (va len : Nat), VmsInv vs → pageSize ∣ va + len →
    unmapVmrs pmos rounds vs va len = .ok vs' → VmsInv vs' := by
  induction rounds with
  | zero =>
    intro vs va len h _ hrun
    cases hrun
    exact h
  | succ rounds ih =>
    intro vs va len h hpages hrun
    cases unmapVmrs_succ hrun with
    | empty hlen heq | gap hlen hfind heq | inside hlen hfind hbig hva heq => exact heq ▸ h
    | @cut q vmr pmo hlen hfind hbig hva hpmo htype hcut =>
      have hmem := (findVmrForVa_inv hfind).1
      have hdvd : pageSize ∣ len := by
        rw [hva] at hpages
        exact (Nat.dvd_add_right (h.aligned _ hmem)).1 hpages
      exact (h.shrink hmem hbig hdvd).unmapPages hcut
    | @delete q vmr vs1 hlen hfind hsmall hdel hrest =>
      exact ih vs1 _ _ ((h.del q).unmapPages hdel) (dvd_next_range hsmall hpages) hrest

/-- The heap grows over addresses that no other region has. -/
lemma VmsInv.grow (h : VmsInv vs) {addr : Nat} (hmem : (q, vmr) ∈ vs.vmrList)
    (haddr : addr < 2 ^ 64) (hge : addr ≥ vmr.end)
    (hapart : ∀ e ∈ vs.vmrList, e.1 ≠ q → Apart vmr.start (addr - vmr.start) e.2.start e.2.size) :
    VmsInv (setVmr vs q { vmr with
      size := u64 (vmr.size + (addr - vmr.end)) }) := by
  have hend : vmr.end = vmr.start + vmr.size := u64_of_lt (h.noWrap _ hmem)
  have hsize : u64 (vmr.size + (addr - vmr.end)) = addr - vmr.start := by
    rw [hend, u64_of_lt] <;> omega
  rw [hsize]
  apply h.set (h.named _ hmem)
  · exact h.aligned _ hmem
  · show vmr.start + (addr - vmr.start) < 2 ^ 64
    omega
  · exact hapart

/-- Unmapping takes a region away, if there is one. -/
lemma VmsInv.unmap {st st' : VmState} (h : VmsInv st.vs)
    (heffect : UnmapEffect st va len st') : VmsInv st'.vs := by
  cases heffect with
  | noRegion => exact h
  | kept hlen hfind => exact h.del _
  | deleted hmem hun => exact (h.del _).unmapPages hun

/-- Every call keeps the invariant under its condition. -/
lemma VmsInv.step {getPages : Nat → Nat} {st st' : VmState} (h : VmsInv st.vs)
    {op : VmOp} (hall : VmAllowed st op)
    (hrun : vmStep mem getPages st op = .ok st') : VmsInv st'.vs := by
  cases op with
  | createPmo size type start =>
    by_cases hsize : size = 0
    · rw [vmStep, if_pos hsize] at hrun
      cases hrun
    rw [vmStep, if_neg hsize] at hrun
    cases hrun
    exact h
  | mapRange va len flags p =>
    obtain ⟨pmo, _, hrest⟩ := bind_eq_ok.1 hrun
    obtain ⟨⟨vs1, r⟩, hmap, hend⟩ := bind_eq_ok.1 hrest
    cases hend
    exact h.mapRange hmap hall.1 hall.2
  | unmapRange va len => exact h.unmap (unmapRange_cases hrun)
  | unmapPmo p => exact h.unmap (unmapPmo_cases 0 0 hrun)
  | mmap length prot flags fd =>
    cases mmap_cases hrun with
    | refused => exact h
    | noMemory => exact h.alloc
    | added hpages hcheck => exact h.mmap (Nat.dvd_of_mod_eq_zero hpages) rfl hcheck hall
  | munmap addr length =>
    rcases munmap_cases hrun with rfl | ⟨vs1, haddr, hlength, hun, rfl⟩
    · exact h
    · exact VmsInv.unmapVmrs _ st.vs addr length h (Nat.dvd_add haddr hlength) hun
  | brk addr =>
    cases brk_cases hrun with
    | noMemory => exact h.alloc.congr rfl le_rfl rfl rfl
    | created =>
      have hstart : pageSize ∣ st.vs.userCurrentHeap ∧ st.vs.userCurrentHeap + 0 < 2 ^ 64 := by
        rw [h.heap]
        decide
      have hadd := h.add h.mmapAligned
        (show pageSize ∣ (⟨st.vs.userCurrentHeap, 0, vmrRead ||| vmrWrite,
          st.pmoCount⟩ : Vmregion).start from hstart.1) hstart.2
        fun _ _ => apart_iff_of_size.2 (.inl rfl)
      exact hadd.congr rfl le_rfl rfl rfl
    | @grown q vmr pmo hheap hmem hpmo hge =>
      obtain ⟨haddr, hor⟩ := hall
      rcases hor with rfl | hor
      · exact h.grow hmem haddr hge fun _ _ _ => apart_iff_of_size.2 (.inl (Nat.zero_sub _))
      obtain ⟨e, he, hname, hapart⟩ := hor q hheap
      have heq : e = (q, vmr) := h.eq_of_name he hmem hname
      subst heq
      exact h.grow hmem haddr hge hapart

end

/-! ## Runs -/

lemma VmsInv.init (pgd : Nat) : VmsInv (initVm pgd).vs where
  nodup := nodup_nil
  named := fun _ he => absurd he not_mem_nil
  aligned := fun _ he => absurd he not_mem_nil
  noWrap := fun _ he => absurd he not_mem_nil
  apart := fun _ ha => absurd ha not_mem_nil
  mmapAligned := by
    show pageSize ∣ mmapStart
    decide
  heap := rfl

/-- In every run in which new regions end below `2 ^ 64` and not in the first
byte of another, and the heap grows only over free addresses, the regions are
disjoint in every state. -/
theorem vmregions_disjoint (mem : Allocator) (getPages : Nat → Nat) (pgd : Nat)
    (ops : List VmOp) {st : VmState}
    (hadm : Admissible (vmStep mem getPages) VmAllowed (initVm pgd) ops)
    (hrun : run (vmStep mem getPages) (initVm pgd) ops = .ok st) :
    RegionsDisjoint st.vs := by
  have hstep : ∀ (s : VmState) (op : VmOp) (s' : VmState), VmsInv s.vs →
      VmAllowed s op → vmStep mem getPages s op = .ok s' → VmsInv s'.vs :=
    fun _ _ _ h hall hrun => h.step hall hrun
  exact (run_preserves_of_admissible hstep ops _ st (VmsInv.init pgd) hadm hrun).regionsDisjoint

theorem vmregions_disjoint_heap_and_mmap : ∃ st, run (vmStep .always Nat.succ) (initVm 0)
        [.createPmo 0x1000 .data 0x5000, .mapRange 0x1000 0x1000 vmrRead 0,
          .brk 0, .brk 0x600000002000, .mmap 0x2345 3 0x22 (-1),
          .unmapRange 0x1000 0x1000] = .ok st ∧ RegionsDisjoint st.vs := by
  exact exists_ok (by decide) fun st => vmregions_disjoint .always Nat.succ 0 _ (by decide)

/-- A region of `0x1001` bytes is put right before another, and ends in its
first byte. -/
theorem vmregions_overlap_by_one_byte : ∃ st, run (vmStep .always Nat.succ) (initVm 0)
        [.createPmo 0x1000 .anonym 0, .mapRange 0x2000 0x1000 vmrRead 0,
          .mapRange 0x1000 0x1001 vmrRead 0] = .ok st ∧
      ¬ RegionsDisjoint st.vs := by
  refine ⟨_, rfl, ?_⟩
  intro h
  have hapart := rel_of_pairwise_cons h.apart mem_cons_self
  exact absurd hapart (by decide)

end ChCore.Kernel
