import ChCore.Kernel.PageTable
import ChCore.Kernel.CapModel

/-!
# Address spaces

`kernel/mm/vmregion.c`. A vmregion is named by the number of the
`alloc_vmregion` call that returned it, and `vmr_list` holds the regions with
their names, the one behind the list head first. An address space owns the
pages of its page table, so each has a page table memory of its own.
-/

namespace ChCore.Kernel

/-- `VMR_READ`. -/
def vmrRead : Nat := 1

/-- `ROUND_DOWN(x, PAGE_SIZE)`. -/
def roundDown (x : Nat) : Nat := x / pageSize * pageSize

/-- `ROUND_UP(x, PAGE_SIZE)`. -/
def roundUp (x : Nat) : Nat := roundDown (u64 (x + (pageSize - 1)))

/-- `pmo_type_t`. -/
inductive PmoType
  | anonym
  | data
  | shm
  | device
  | dataNocache
  | forbid
  deriving DecidableEq, Repr

/-- `struct pmobject`, with `R` for what its radix tree is modelled as. -/
structure PmobjectOf (R : Type) where
  radix : R
  start : Nat
  size : Nat
  type : PmoType
  deriving DecidableEq, Repr

/-- The radix tree is the map it stores: the pages of the object with the
physical address that was recorded for each. -/
abbrev Pmobject := PmobjectOf (List (Nat × Nat))

/-- An object that `pmo_init` has initialised. `kmalloc` returns physical
address `start` for an object whose memory is allocated at once. -/
def newPmo (type : PmoType) (size start : Nat) : Pmobject where
  radix := []
  start := if type = .data ∨ type = .dataNocache then start else 0
  size := roundUp size
  type := type

/-- `struct vmregion`; the memory object is named by its address. -/
structure Vmregion where
  start : Nat
  size : Nat
  perm : Nat
  pmo : Nat
  deriving DecidableEq, Repr

/-- `struct vmspace`, with the number of vmregions allocated for it. -/
structure Vmspace where
  vmrList : List (Nat × Vmregion)
  pgd : Nat
  pgtbl : PtState
  heapVmr : Option Nat
  userCurrentHeap : Nat
  userCurrentMmapAddr : Nat
  vmrs : Nat

def heapStart : Nat := 0x600000000000
def mmapStart : Nat := 0x700000000000

/-- The first address behind a region, as the code computes it. -/
def Vmregion.end (vmr : Vmregion) : Nat := u64 (vmr.start + vmr.size)

/-- `check_vmr_intersect`. -/
def checkVmrIntersect (vs : Vmspace) (vmr : Vmregion) : Bool := if vmr.size = 0 then false
  else
    let newStart := vmr.start
    let newEnd := u64 (newStart + vmr.size + (2 ^ 64 - 1))
    vs.vmrList.any fun e =>
      ¬ (newStart ≥ e.2.end ∨ newEnd ≤ e.2.start)

/-- `add_vmr_to_vmspace`. -/
def addVmrToVmspace (vs : Vmspace) (p : Nat) (vmr : Vmregion) : Exec Vmspace :=
  if checkVmrIntersect vs vmr then .error .bug
  else .ok { vs with vmrList := (p, vmr) :: vs.vmrList }

/-- `del_vmr_from_vmspace`. -/
def delVmrFromVmspace (vs : Vmspace) (p : Nat) : Vmspace :=
  { vs with vmrList := vs.vmrList.filter fun e => e.1 ≠ p }

/-- Write to the region with address `p`. -/
def setVmr (vs : Vmspace) (p : Nat) (vmr : Vmregion) : Vmspace :=
  { vs with
    vmrList := vs.vmrList.map fun e => if e.1 = p then (p, vmr) else e }

/-- `find_vmr_for_va`. -/
def findVmrForVa (vs : Vmspace) (addr : Nat) : Option (Nat × Vmregion) :=
  vs.vmrList.find? fun e => addr ≥ e.2.start ∧ addr < e.2.end

section

variable (mem : Allocator) (getPages : Nat → Nat)

/-- `alloc_vmregion`. -/
def allocVmregion (vs : Vmspace) : Vmspace × Option Nat := ({ vs with vmrs := vs.vmrs + 1 },
    if mem.ok vs.vmrs then some vs.vmrs else none)

/-- `fill_page_table`. -/
def fillPageTable (vs : Vmspace) (vmr : Vmregion) (pmo : Pmobject) : Exec Vmspace := do
  let pgtbl ← mapRangeInPgtbl getPages vs.pgtbl vs.pgd vmr.start pmo.start pmo.size vmr.perm
  return { vs with pgtbl }

/-- `unmap_range_in_pgtbl` on the page table of an address space. -/
def unmapPages (vs : Vmspace) (va len : Nat) : Exec Vmspace := do
  let pgtbl ← unmapRangeInPgtbl vs.pgtbl vs.pgd va len
  return { vs with pgtbl }

/-- The permissions of a region for an object of a type. -/
def permOf (type : PmoType) (flags : Nat) : Nat := match type with
  | .device => flags ||| vmrDevice
  | .dataNocache => flags ||| vmrNocache
  | _ => flags

/-- The physical pages of the object exist when it is mapped. -/
def mappedEarly : PmoType → Bool
  | .data | .dataNocache | .device => true
  | _ => false

/-- The length of the region that `vmspace_map_range` makes. -/
def mapLength (len : Nat) : Nat := if len < pageSize then pageSize else len

/-- `vmspace_map_range`. All values of `PmoType` are supported. -/
def vmspaceMapRange (vs : Vmspace) (va len flags p : Nat) (pmo : Pmobject) :
    Exec (Vmspace × Int) := do
  let va := roundDown va
  let len := if len < pageSize then pageSize else len
  match allocVmregion mem vs with
  | (vs, none) => return (vs, -enomem)
  | (vs, some q) =>
    let vmr := ⟨va, len, permOf pmo.type flags, p⟩
    let vs ← addVmrToVmspace vs q vmr
    if mappedEarly pmo.type then
      let vs ← fillPageTable getPages vs vmr pmo
      return (vs, 0)
    else return (vs, 0)

/-- `vmspace_unmap_range`. -/
def vmspaceUnmapRange (vs : Vmspace) (va len : Nat) : Exec (Vmspace × Int) :=
  match findVmrForVa vs va with
  | none => .ok (vs, -1)
  | some (q, vmr) =>
    if (va ≠ vmr.start ∨ len ≠ vmr.size) ∧ len ≠ 0 then .error .bug
    else do
      let vs := delVmrFromVmspace vs q
      if len ≠ 0 then
        let vs ← unmapPages vs va len
        return (vs, 0)
      else return (vs, 0)

/-- `unmap_pmo_in_vmspace`. -/
def unmapPmoInVmspace (vs : Vmspace) (p : Nat) : Exec (Vmspace × Int) :=
  match vs.vmrList.find? fun e => e.2.pmo = p with
  | none => .ok (vs, -enoent)
  | some (q, vmr) => do
    let vs := delVmrFromVmspace vs q
    let vs ← unmapPages vs vmr.start vmr.size
    return (vs, 0)

/-- `init_heap_vmr`; `none` is the null pointer. -/
def initHeapVmr (vs : Vmspace) (va p : Nat) : Exec (Vmspace × Option Nat) := do
  match allocVmregion mem vs with
  | (vs, none) => return (vs, none)
  | (vs, some q) =>
    let vs ← addVmrToVmspace vs q ⟨va, 0, vmrRead ||| vmrWrite, p⟩
    return (vs, some q)

/-- `vmspace_mmap_with_pmo`. -/
def vmspaceMmapWithPmo (vs : Vmspace) (p : Nat) (type : PmoType)
    (len perm : Nat) : Exec (Vmspace × Nat) := do
  match allocVmregion mem vs with
  | (vs, none) => return (vs, 2 ^ 64 - 1)
  | (vs, some q) =>
    let start := vs.userCurrentMmapAddr
    if len % pageSize ≠ 0 then .error .bug
    else
      let vs := { vs with
                  userCurrentMmapAddr := u64 (vs.userCurrentMmapAddr + len) }
      if type ≠ .anonym ∧ type ≠ .shm then .error .bug
      else
        let vs ← addVmrToVmspace vs q ⟨start, len, perm, p⟩
        return (vs, start)

/-- `unmap_vmrs`. A region is deleted before each recursive call. -/
def unmapVmrs (pmos : Nat → Option Pmobject) : Nat → Vmspace → Nat → Nat → Exec Vmspace
  | 0, vs, _, _ => .ok vs
  | rounds + 1, vs, va, len =>
    if len = 0 then .ok vs
    else
      match findVmrForVa vs va with
      | none => .ok vs
      | some (q, vmr) =>
        if vmr.size > len then
          if va ≠ vmr.start then .ok vs
          else do
            let pmo ← deref pmos vmr.pmo
            if pmo.type ≠ .anonym then .error .bug
            else
              let vs := setVmr vs q
                { vmr with size := vmr.size - len
                           start := u64 (vmr.start + len) }
              unmapPages vs va len
        else do
          let vs := delVmrFromVmspace vs q
          let vs ← unmapPages vs va len
          unmapVmrs pmos rounds vs (u64 (va + vmr.size)) (len - vmr.size)

/-- `vmspace_munmap_with_addr`. -/
def vmspaceMunmapWithAddr (pmos : Nat → Option Pmobject) (vs : Vmspace)
    (va len : Nat) : Exec Vmspace :=
  unmapVmrs pmos (vs.vmrList.length + 1) vs va len

/-- `vmspace_init` on zeroed memory; `pgd` is the page from `get_pages`. -/
def vmspaceInit (pgd : Nat) : Vmspace where
  vmrList := []
  pgd := pgd
  pgtbl := ⟨fun _ _ => 0#64, 0⟩
  heapVmr := none
  userCurrentHeap := heapStart
  userCurrentMmapAddr := mmapStart
  vmrs := 0

end

/-! ## Inversion -/

variable {vs vs' : Vmspace}

/-- Unmapping pages changes nothing but the page table. -/
lemma unmapPages_inv {va len : Nat} (h : unmapPages vs va len = .ok vs') :
    ∃ pt, unmapRangeInPgtbl vs.pgtbl vs.pgd va len = .ok pt ∧ vs' = { vs with pgtbl := pt } := by
  obtain ⟨pt, hpt, heq⟩ := bind_eq_ok.1 h
  cases heq
  exact ⟨pt, hpt, rfl⟩

variable {vmr : Vmregion}

/-- Filling the page table changes nothing else. -/
lemma fillPageTable_inv {getPages : Nat → Nat} {pmo : Pmobject}
    (h : fillPageTable getPages vs vmr pmo = .ok vs') :
    ∃ pt, mapRangeInPgtbl getPages vs.pgtbl vs.pgd vmr.start pmo.start pmo.size
    vmr.perm = .ok pt ∧ vs' = { vs with pgtbl := pt } := by
  obtain ⟨pt, hpt, heq⟩ := bind_eq_ok.1 h
  cases heq
  exact ⟨pt, hpt, rfl⟩

/-- A region with a new name. -/
lemma nodup_fst_cons {list : List (Nat × Vmregion)} {e : Nat × Vmregion}
    (h : (list.map Prod.fst).Nodup) (hnew : ∀ e' ∈ list, e'.1 ≠ e.1) :
    ((e :: list).map Prod.fst).Nodup := by
  rw [List.map_cons, List.nodup_cons]
  refine ⟨?_, h⟩
  intro hmem
  obtain ⟨e', he', hname⟩ := List.mem_map.1 hmem
  exact hnew e' he' hname

/-- The region that `find_vmr_for_va` returns. -/
lemma findVmrForVa_inv {addr q : Nat} (h : findVmrForVa vs addr = some (q, vmr)) :
    (q, vmr) ∈ vs.vmrList ∧ vmr.start ≤ addr ∧ addr < vmr.end := by
  have hbounds := List.find?_some h
  rw [decide_eq_true_eq] at hbounds
  exact ⟨List.mem_of_find?_eq_some h, hbounds.1, hbounds.2⟩

lemma allocVmregion_inv {mem : Allocator} {r : Option Nat}
    (hrun : allocVmregion mem vs = (vs', r)) : vs' = { vs with vmrs := vs.vmrs + 1 } ∧
      ((mem.ok vs.vmrs = false ∧ r = none) ∨ r = some vs.vmrs) := by
  unfold allocVmregion at hrun
  cases hrun
  refine ⟨rfl, ?_⟩
  cases mem.ok vs.vmrs with
  | true => exact .inr rfl
  | false => exact .inl ⟨rfl, rfl⟩

lemma addVmrToVmspace_inv {q : Nat} (h : addVmrToVmspace vs q vmr = .ok vs') :
    checkVmrIntersect vs vmr = false ∧ vs' = { vs with vmrList := (q, vmr) :: vs.vmrList } := by
  unfold addVmrToVmspace at h
  cases hcheck : checkVmrIntersect vs vmr with
  | true =>
    rw [hcheck, if_pos rfl] at h
    cases h
  | false =>
    rw [hcheck, if_neg (by decide)] at h
    cases h
    exact ⟨rfl, rfl⟩

lemma dvd_roundDown (x : Nat) : pageSize ∣ roundDown x := Nat.dvd_mul_left _ _

variable {va len p : Nat} {r : Int}

/-- `vmspace_map_range`: there is no memory for the region, or there is a new
region that passed the check, with the pages of the object if they exist. -/
lemma vmspaceMapRange_inv {mem : Allocator} {getPages : Nat → Nat} {flags : Nat}
    {pmo : Pmobject} (hrun : vmspaceMapRange mem getPages vs va len flags p pmo = .ok (vs', r)) :
    (mem.ok vs.vmrs = false ∧ vs' = { vs with vmrs := vs.vmrs + 1 }) ∨
      ∃ vmr pgtbl, r = 0 ∧ checkVmrIntersect vs vmr = false ∧
        vmr = ⟨roundDown va, mapLength len, permOf pmo.type flags, p⟩ ∧
        (if mappedEarly pmo.type then
          mapRangeInPgtbl getPages vs.pgtbl vs.pgd (roundDown va) pmo.start pmo.size
            (permOf pmo.type flags) = .ok pgtbl
          else pgtbl = vs.pgtbl) ∧
        vs' = { vs with
          vmrs := vs.vmrs + 1
          vmrList := (vs.vmrs, vmr) :: vs.vmrList
          pgtbl } := by
  unfold vmspaceMapRange at hrun
  cases halloc : allocVmregion mem vs with
  | mk vs1 o =>
    obtain ⟨rfl, ho⟩ := allocVmregion_inv halloc
    rw [halloc] at hrun
    rcases ho with ⟨hno, rfl⟩ | rfl
    · cases hrun
      exact .inl ⟨hno, rfl⟩
    obtain ⟨vs2, hadd, hrest⟩ := bind_eq_ok.1 hrun
    obtain ⟨hcheck, rfl⟩ := addVmrToVmspace_inv hadd
    by_cases hearly : mappedEarly pmo.type = true
    · rw [if_pos hearly] at hrest
      obtain ⟨vs3, hfill, hend⟩ := bind_eq_ok.1 hrest
      cases hend
      obtain ⟨pgtbl, hpgtbl, rfl⟩ := fillPageTable_inv hfill
      refine .inr ⟨_, pgtbl, rfl, hcheck, rfl, ?_, rfl⟩
      rw [if_pos hearly]
      exact hpgtbl
    · rw [if_neg hearly] at hrest
      cases hrest
      refine .inr ⟨_, vs.pgtbl, rfl, hcheck, rfl, ?_, rfl⟩
      rw [if_neg hearly]

/-- `vmspace_unmap_range`: there is no region, or the one that it finds is
deleted, and its pages are unmapped unless the length is 0. -/
lemma vmspaceUnmapRange_inv (hrun : vmspaceUnmapRange vs va len = .ok (vs', r)) :
    vs' = vs ∨ ∃ q vmr, findVmrForVa vs va = some (q, vmr) ∧
    ((len = 0 ∧ vs' = delVmrFromVmspace vs q) ∨
    (len ≠ 0 ∧ unmapPages (delVmrFromVmspace vs q) vmr.start vmr.size = .ok vs')) := by
  unfold vmspaceUnmapRange at hrun
  cases hfind : findVmrForVa vs va with
  | none =>
    rw [hfind] at hrun
    cases hrun
    exact .inl rfl
  | some e =>
    obtain ⟨q, vmr⟩ := e
    rw [hfind] at hrun
    dsimp only at hrun
    obtain ⟨hbug, hrun⟩ := guard_eq_ok hrun
    refine .inr ⟨q, vmr, rfl, ?_⟩
    by_cases hlen : len ≠ 0
    · rw [if_pos hlen] at hrun
      obtain ⟨vs1, hpages, hend⟩ := bind_eq_ok.1 hrun
      cases hend
      obtain ⟨rfl, rfl⟩ : va = vmr.start ∧ len = vmr.size := by
        have hnot : ¬ (va ≠ vmr.start ∨ len ≠ vmr.size) := fun h => hbug ⟨h, hlen⟩
        rwa [not_or, not_not, not_not] at hnot
      exact .inr ⟨hlen, hpages⟩
    · rw [if_neg hlen] at hrun
      cases hrun
      exact .inl ⟨not_not.1 hlen, rfl⟩

/-- `unmap_pmo_in_vmspace` deletes the first region for the object. -/
lemma unmapPmoInVmspace_inv (hrun : unmapPmoInVmspace vs p = .ok (vs', r)) :
    (vs.vmrList.find? (fun e => e.2.pmo = p) = none ∧ vs' = vs) ∨
    ∃ q vmr, vs.vmrList.find? (fun e => e.2.pmo = p) = some (q, vmr) ∧
    unmapPages (delVmrFromVmspace vs q) vmr.start vmr.size = .ok vs' := by
  unfold unmapPmoInVmspace at hrun
  cases hfind : vs.vmrList.find? fun e => e.2.pmo = p with
  | none =>
    rw [hfind] at hrun
    cases hrun
    exact .inl ⟨rfl, rfl⟩
  | some e =>
    obtain ⟨q, vmr⟩ := e
    rw [hfind] at hrun
    obtain ⟨vs1, hpages, hend⟩ := bind_eq_ok.1 hrun
    cases hend
    exact .inr ⟨q, vmr, rfl, hpages⟩

/-- A round of `unmap_vmrs` that returns: there is nothing to do, the address is
not in a region, the range ends in a region that it does not start at, a region
is cut at its start, or a region is deleted and the next round follows. -/
inductive UnmapRound (pmos : Nat → Option Pmobject) (rounds : Nat)
    (vs : Vmspace) (va len : Nat) (vs' : Vmspace) : Prop
  | empty (hlen : len = 0) (heq : vs' = vs)
  | gap (hlen : len ≠ 0) (hfind : findVmrForVa vs va = none) (heq : vs' = vs)
  | inside {q : Nat} {vmr : Vmregion} (hlen : len ≠ 0)
    (hfind : findVmrForVa vs va = some (q, vmr)) (hbig : len < vmr.size)
    (hva : va ≠ vmr.start) (heq : vs' = vs)
  | cut {q : Nat} {vmr : Vmregion} {pmo : Pmobject} (hlen : len ≠ 0)
    (hfind : findVmrForVa vs va = some (q, vmr)) (hbig : len < vmr.size)
    (hva : va = vmr.start) (hpmo : pmos vmr.pmo = some pmo)
    (htype : pmo.type = .anonym)
    (hrun : unmapPages (setVmr vs q
      { vmr with size := vmr.size - len
                 start := u64 (vmr.start + len) }) va len = .ok vs')
  | delete {q : Nat} {vmr : Vmregion} {vs1 : Vmspace} (hlen : len ≠ 0)
    (hfind : findVmrForVa vs va = some (q, vmr)) (hsmall : vmr.size ≤ len)
    (hdel : unmapPages (delVmrFromVmspace vs q) va len = .ok vs1)
    (hrest : unmapVmrs pmos rounds vs1 (u64 (va + vmr.size)) (len - vmr.size) = .ok vs')

lemma unmapVmrs_succ {pmos : Nat → Option Pmobject} {rounds : Nat}
    (hrun : unmapVmrs pmos (rounds + 1) vs va len = .ok vs') :
    UnmapRound pmos rounds vs va len vs' := by
  unfold unmapVmrs at hrun
  by_cases hlen : len = 0
  · rw [if_pos hlen] at hrun
    cases hrun
    exact .empty hlen rfl
  rw [if_neg hlen] at hrun
  cases hfind : findVmrForVa vs va with
  | none =>
    rw [hfind] at hrun
    cases hrun
    exact .gap hlen hfind rfl
  | some e =>
    obtain ⟨q, vmr⟩ := e
    rw [hfind] at hrun
    dsimp only at hrun
    by_cases hbig : vmr.size > len
    · rw [if_pos hbig] at hrun
      by_cases hva : va ≠ vmr.start
      · rw [if_pos hva] at hrun
        cases hrun
        exact .inside hlen hfind hbig hva rfl
      rw [if_neg hva] at hrun
      obtain ⟨pmo, hpmo, hrest⟩ := bind_eq_ok.1 hrun
      obtain ⟨htype, hrest⟩ := guard_eq_ok hrest
      exact .cut hlen hfind hbig (not_not.1 hva) (deref_inv hpmo) (not_not.1 htype) hrest
    · rw [if_neg hbig] at hrun
      obtain ⟨vs1, hun, hrest⟩ := bind_eq_ok.1 hrun
      exact .delete hlen hfind (Nat.le_of_not_lt hbig) hun hrest

/-! ## The recursion of `unmap_vmrs` ends -/

lemma length_delVmr_lt {q : Nat} (h : (q, vmr) ∈ vs.vmrList) :
    (delVmrFromVmspace vs q).vmrList.length < vs.vmrList.length := by
  unfold delVmrFromVmspace
  refine List.length_filter_lt_length_iff_exists.2 ⟨(q, vmr), h, ?_⟩
  simp

end ChCore.Kernel
