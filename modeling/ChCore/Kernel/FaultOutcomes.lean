import ChCore.Lib.Heaps
import ChCore.Kernel.AddressSpace

/-!
# Faults inside regions

`do_page_fault` (`kernel/arch/aarch64/irq/pgfault.c`) in any number of processes
that share memory objects. A fault inside a region reaches one of the halts of
`handle_trans_fault` in four ways: the region is longer than its object; a page
of an object that is mapped at once has lost its entry, or never had one below
`2 ^ 48`; the object is gone; or there is no memory. The first one is up to
`sys_map_pmo`, which takes any length, and the second one up to the calls that
unmap pages behind the region they delete.

What is kept, therefore, is that every region is one of a live object with
enough pages that is filled on demand, or has all its pages in the page table
(`RegionOk`).
-/

namespace ChCore.Kernel

open Function List Lib.Runs Lib.Heaps Lib.BitField

/-! ## Accesses and faults -/

/-- What a user program does at an address. -/
inductive Access
  | read
  | write
  | exec
  deriving DecidableEq, Repr

/-- The fault status codes that `do_page_fault` tells apart: `DFSC_TRANS_FAULT`
and `DFSC_PERM_FAULT`. The access flag is always set. -/
inductive FaultStatus
  | translation
  | permission
  deriving DecidableEq, Repr

/-- The `AP` and `UXN` fields of an entry forbid the access in user mode. -/
def entryDenies (entry : BitVec 64) : Access → Bool
  | .read => false
  | .write => getField entry 6 2 ≠ 1
  | .exec => getField entry 54 1 ≠ 0

/-- The fault that the hardware raises. It walks the page table as
`query_in_pgtbl` does, for addresses below `2 ^ 48`. -/
def hardwareFault (vs : Vmspace) (addr : Nat) (access : Access) : Option FaultStatus :=
  if 2 ^ 48 ≤ addr then some .translation
  else
    match queryInPgtbl vs.pgtbl vs.pgd addr with
    | none => some .translation
    | some query =>
      if entryDenies query.entry access then some .permission else none

/-- The fault handler has to get a page for the object. -/
def needsPage (st : VmState) (faultAddr : Nat) : Bool := match findVmrForVa st.vs faultAddr with
  | none => false
  | some (_, vmr) =>
    match st.pmos vmr.pmo with
    | none => false
    | some pmo =>
      (pmo.radix.lookup (u64 (roundDown faultAddr + 2 ^ 64 - vmr.start) / pageSize)).isNone

section

variable (mem : Allocator) (getPages : Nat → Nat)

/-- `handle_trans_fault` when memory can be short: `page` is the page that
`get_pages` returns, and `nodes` says whether `radix_add` gets its nodes. Both
are only asked for if the object has no page yet, and both are followed by a
`BUG_ON`. -/
def transFault (st : VmState) (faultAddr : Nat) (page : Option Nat)
    (nodes : Bool) : Exec (VmState × Int) :=
  match page, nodes with
  | some page, true => vmFault getPages st faultAddr page
  | _, _ =>
    if needsPage st faultAddr then .error .bug
    else vmFault getPages st faultAddr 0

/-- `do_page_fault`. -/
def doPageFault (st : VmState) (fsc : FaultStatus) (faultAddr : Nat)
    (page : Option Nat) (nodes : Bool) : Exec VmState :=
  match fsc with
  | .translation => do
    let (st, ret) ← transFault getPages st faultAddr page nodes
    if ret ≠ 0 then .error .bug else return st
  | .permission => .error .bug

/-! ## Processes -/

/-- The address spaces of `n` processes, and the memory objects. -/
structure Processes (n : Nat) where
  spaces : Fin n → Vmspace
  pmos : Nat → Option Pmobject
  pmoCount : Nat

namespace Processes

variable {n : Nat}

/-- What process `i` works on. -/
def view (s : Processes n) (i : Fin n) : VmState := ⟨s.spaces i, s.pmos, s.pmoCount⟩

/-- The state after process `i` has worked on its view. -/
def update (s : Processes n) (i : Fin n) (st : VmState) : Processes n :=
  ⟨Function.update s.spaces i st.vs, st.pmos, st.pmoCount⟩

/-- Address spaces without regions. -/
def init (n pgd : Nat) : Processes n := ⟨fun _ => vmspaceInit pgd, fun _ => none, 0⟩

end Processes

/-- What processes do. `call i` is a call on the address space of process `i`,
by whichever process; an object is destroyed when its last capability goes. -/
inductive ProcOp (n : Nat)
  | call (i : Fin n) (op : VmOp)
  | access (i : Fin n) (addr : Nat) (access : Access) (page : Option Nat)
    (nodes : Bool)
  | destroyPmo (p : Nat)
  deriving DecidableEq, Repr

/-- One step. -/
def procStep {n : Nat} (s : Processes n) : ProcOp n → Exec (Processes n)
  | .call i op => do
    let st ← vmStep mem getPages (s.view i) op
    return s.update i st
  | .access i addr access page nodes =>
    match hardwareFault (s.spaces i) addr access with
    | none => .ok s
    | some fsc => do
      let st ← doPageFault getPages (s.view i) fsc addr page nodes
      return s.update i st
  | .destroyPmo p => .ok { s with pmos := Function.update s.pmos p none }

end

/-! ## The calls after which faults are safe -/

/-- `PMO_ANONYM` and `PMO_SHM`. -/
def filledOnDemand : PmoType → Bool
  | .anonym | .shm => true
  | _ => false

lemma mappedEarly_of_not {type : PmoType} (hforbid : type ≠ .forbid)
    (hnot : filledOnDemand type = false) : mappedEarly type = true := by
  cases type with
  | anonym | shm => cases hnot
  | data | dataNocache | device => rfl
  | forbid => exact absurd rfl hforbid

/-- The types and sizes of the memory objects. -/
abbrev Shapes := Nat → Option (PmoType × Nat)

def shapes (pmos : Nat → Option Pmobject) : Shapes :=
  fun p => (pmos p).map fun pmo => (pmo.type, pmo.size)

lemma shapes_eq {pmos : Nat → Option Pmobject} {p : Nat} {pmo : Pmobject}
    (hpmo : pmos p = some pmo) : shapes pmos p = some (pmo.type, pmo.size) := by
  rw [shapes, hpmo]
  rfl

lemma shapes_update (pmos : Nat → Option Pmobject) (p : Nat) (o : Option Pmobject) :
    shapes (update pmos p o) = update (shapes pmos) p (o.map fun pmo => (pmo.type, pmo.size)) :=
  Function.comp_update (Option.map fun pmo : Pmobject => (pmo.type, pmo.size)) pmos p o

/-- The region is one of a live object that is filled on demand. -/
def demandRegion (shape : Shapes) (vmr : Vmregion) : Bool :=
  (shape vmr.pmo).any fun o => filledOnDemand o.1

/-- Unmapping `len` bytes from `va` on does not meet pages of regions that are
not filled on demand, other than the region `q`. -/
def SparesPages (shape : Shapes) (vs : Vmspace) (va len : Nat) (q : Option Nat) : Prop :=
  ∀ e ∈ vs.vmrList, q ≠ some e.1 → demandRegion shape e.2 = false → ∀ k, k < pageRounds e.2.size →
      ¬ PageIn va len (vpn (e.2.start + k * pageSize))

instance (shape : Shapes) (vs : Vmspace) (va len : Nat) (q : Option Nat) :
    Decidable (SparesPages shape vs va len q) :=
  inferInstanceAs (Decidable (∀ e ∈ _, _))

/-- A region has no more pages than its object, and an object that is mapped at
once is mapped below `2 ^ 48`. -/
def MapsWithin (va len : Nat) (pmo : Pmobject) : Prop :=
  pmo.type ≠ .forbid ∧ pageRounds (mapLength len) ≤ pageRounds pmo.size ∧
    (mappedEarly pmo.type = true → roundDown va + mapLength len ≤ 2 ^ 48)

instance (va len : Nat) (pmo : Pmobject) : Decidable (MapsWithin va len pmo) :=
  inferInstanceAs (Decidable (_ ∧ _))

/-- The conditions for the steps: `MapsWithin` for new regions, no pages are
unmapped behind a region that is not filled on demand, and an object that is
filled on demand is not destroyed while it has regions. -/
def FaultSafe {n : Nat} (s : Processes n) : ProcOp n → Prop
  | .call _ (.mapRange va len _ p) => ∀ pmo ∈ s.pmos p, MapsWithin va len pmo
  | .call i (.unmapRange va len) => len ≠ 0 →
    ∀ e ∈ findVmrForVa (s.spaces i) va,
      SparesPages (shapes s.pmos) (s.spaces i) e.2.start e.2.size (some e.1)
  | .call i (.unmapPmo p) =>
    ∀ e ∈ (s.spaces i).vmrList.find? fun e => e.2.pmo = p,
      SparesPages (shapes s.pmos) (s.spaces i) e.2.start e.2.size (some e.1)
  | .call i (.munmap addr length) =>
    SparesPages (shapes s.pmos) (s.spaces i) addr length none
  | .call _ (.mmap length _ _ _) => length < 2 ^ 64
  | .call _ (.brk addr) => addr < 2 ^ 64
  | .destroyPmo p =>
    (∀ pmo ∈ s.pmos p, filledOnDemand pmo.type = false) ∨
      ∀ i, ∀ e ∈ (s.spaces i).vmrList, e.2.pmo ≠ p
  | _ => True

instance {n : Nat} (s : Processes n) : ∀ op, Decidable (FaultSafe s op) := by
  rintro (⟨_, _ | _ | _ | _ | _ | _ | _⟩ | _ | _) <;> (dsimp only [FaultSafe]; infer_instance)

/-! ## The invariant -/

/-- Every address of the region has an entry. -/
def Present (vs : Vmspace) (vmr : Vmregion) : Prop :=
  ∀ addr, vmr.Has addr → addr < 2 ^ 48 ∧ (vs.entry (vpn addr)).isSome

/-- A fault in the region can be answered, or there is none. -/
structure RegionOk (shape : Shapes) (vs : Vmspace) (vmr : Vmregion) : Prop where
  fits : ∀ type size, shape vmr.pmo = some (type, size) →
    filledOnDemand type = true → pageRounds vmr.size ≤ pageRounds size
  present : demandRegion shape vmr = false → Present vs vmr

/-- The region of the heap ends where its object ends. -/
structure HeapOk (shape : Shapes) (vmr : Vmregion) : Prop where
  anonym : ∀ type size, shape vmr.pmo = some (type, size) → type = .anonym
  ends : ∀ type size, shape vmr.pmo = some (type, size) → heapStart + size = vmr.start + vmr.size
  noWrap : vmr.start + vmr.size < 2 ^ 64
  above : heapStart ≤ vmr.start

/-- The invariant of an address space over objects of given shapes, named by
numbers below `count`. -/
structure SpaceOk (getPages : Nat → Nat) (pgd : Nat) (shape : Shapes)
    (count : Nat) (vs : Vmspace) : Prop where
  root : vs.pgd = pgd
  table : PtInv getPages pgd vs.pgtbl
  aligned : ∀ e ∈ vs.vmrList, pageSize ∣ e.2.start
  named : ∀ e ∈ vs.vmrList, e.1 < vs.vmrs
  objects : ∀ e ∈ vs.vmrList, e.2.pmo < count
  mmapAddr : pageSize ∣ vs.userCurrentMmapAddr
  heapAddr : vs.userCurrentHeap = heapStart
  heapNamed : ∀ q ∈ vs.heapVmr, q < vs.vmrs
  regions : ∀ e ∈ vs.vmrList, RegionOk shape vs e.2
  heap : ∀ q ∈ vs.heapVmr, ∀ e ∈ vs.vmrList, e.1 = q → HeapOk shape e.2

/-- Object `p` is the one of the heap. -/
def HeapObject (vs : Vmspace) (p : Nat) : Prop :=
  ∃ q ∈ vs.heapVmr, ∃ e ∈ vs.vmrList, e.1 = q ∧ e.2.pmo = p

/-- The invariant of the processes: each has a heap of its own. -/
structure ProcInv (getPages : Nat → Nat) (pgd : Nat) {n : Nat} (s : Processes n) : Prop where
  pmoLt : ∀ p pmo, s.pmos p = some pmo → p < s.pmoCount
  spaces : ∀ i, SpaceOk getPages pgd (shapes s.pmos) s.pmoCount (s.spaces i)
  heaps : ∀ i j p, HeapObject (s.spaces i) p → HeapObject (s.spaces j) p → i = j

section

variable {getPages : Nat → Nat} {pgd count : Nat} {shape shape' : Shapes}
  {vs vs' : Vmspace}

variable {vmr : Vmregion} {addr : Nat}

/-- An address of a region lies in one of its pages. -/
lemma Vmregion.Has.vpn_eq (halign : pageSize ∣ vmr.start) (h : vmr.Has addr) :
    ∃ k, k < pageRounds vmr.size ∧ vpn addr = vpn (vmr.start + k * pageSize) := by
  obtain ⟨m, hm⟩ := halign
  have hlo := h.1
  have hhi : addr < vmr.start + vmr.size := h.2.trans_le (Nat.mod_le _ _)
  refine ⟨addr / pageSize - m, ?_, ?_⟩
  · unfold pageRounds pageSize at *
    omega
  unfold vpn pageSize at *
  omega

/-! ### Other shapes -/

/-- The regions stay in order when objects that are filled on demand stay, or
grow, others are not replaced, and the objects of the heap keep their sizes. -/
lemma SpaceOk.reshape (h : SpaceOk getPages pgd shape count vs) {count' : Nat}
    (hcount : count ≤ count')
    (hdemand : ∀ e ∈ vs.vmrList, demandRegion shape' e.2 = false → demandRegion shape e.2 = false)
    (hregions : ∀ e ∈ vs.vmrList, ∀ type size', shape' e.2.pmo = some (type, size') →
    ∃ size, shape e.2.pmo = some (type, size) ∧ size ≤ size')
    (hheap : ∀ p, HeapObject vs p → ∀ o, shape' p = some o → shape p = some o) :
    SpaceOk getPages pgd shape' count' vs :=
  { h with
    objects := fun e he => (h.objects e he).trans_le hcount
    regions := fun e he =>
      { fits := fun type size' hsize' hfilled => by
          obtain ⟨size, hsize, hle⟩ := hregions e he type size' hsize'
          refine ((h.regions e he).fits type size hsize hfilled).trans ?_
          exact Nat.div_le_div_right (by omega)
        present := fun hnot => (h.regions e he).present (hdemand e he hnot) }
    heap := fun q hq e he hname =>
      have hold := h.heap q hq e he hname
      have hsame := hheap e.2.pmo ⟨q, hq, e, he, hname, rfl⟩
      { hold with
        anonym := fun type size hsize => hold.anonym type size (hsame _ hsize)
        ends := fun type size hsize => hold.ends type size (hsame _ hsize) } }

/-! ### Regions and page tables -/

lemma Present.mono (h : Present vs vmr) (hentry : ∀ u, (vs.entry u).isSome → (vs'.entry u).isSome) :
    Present vs' vmr :=
  fun addr hhas => ⟨(h addr hhas).1, hentry _ (h addr hhas).2⟩

lemma RegionOk.mono (h : RegionOk shape vs vmr)
    (hentry : ∀ u, (vs.entry u).isSome → (vs'.entry u).isSome) : RegionOk shape vs' vmr where
  fits := h.fits
  present := fun hnot => (h.present hnot).mono hentry

variable (h : SpaceOk getPages pgd shape count vs)

include h

/-- The page table gets entries. -/
lemma SpaceOk.fill {pt : PtState} (htable : PtInv getPages pgd pt)
    (hentry : ∀ u, (vs.entry u).isSome → (({ vs with pgtbl := pt } : Vmspace).entry u).isSome) :
    SpaceOk getPages pgd shape count { vs with pgtbl := pt } :=
  { h with
    table := htable
    regions := fun e he => (h.regions e he).mono hentry }

/-- There is no memory for a region. -/
lemma SpaceOk.alloc : SpaceOk getPages pgd shape count { vs with vmrs := vs.vmrs + 1 } :=
  { h with
    named := fun e he => Nat.lt_succ_of_lt (h.named e he)
    heapNamed := fun q hq => Nat.lt_succ_of_lt (h.heapNamed q hq)
    regions := fun e he => (h.regions e he).mono fun _ hu => hu }

lemma SpaceOk.setMmap {a : Nat} (ha : pageSize ∣ a) :
    SpaceOk getPages pgd shape count { vs with userCurrentMmapAddr := a } :=
  { h with
    mmapAddr := ha
    regions := fun e he => (h.regions e he).mono fun _ hu => hu }

/-- The pointer to the region of the heap is set. -/
lemma SpaceOk.setHeap {o : Option Nat} (hnamed : ∀ q ∈ o, q < vs.vmrs)
    (hheap : ∀ q ∈ o, ∀ e ∈ vs.vmrList, e.1 = q → HeapOk shape e.2) :
    SpaceOk getPages pgd shape count { vs with heapVmr := o } :=
  { h with
    heapNamed := hnamed
    regions := fun e he => (h.regions e he).mono fun _ hu => hu
    heap := hheap }

lemma SpaceOk.dropHeap : SpaceOk getPages pgd shape count { vs with heapVmr := none } :=
  h.setHeap (fun _ hq => nomatch hq) fun _ hq => nomatch hq

/-- A region is added. -/
lemma SpaceOk.add (vmr : Vmregion) (halign : pageSize ∣ vmr.start) (hpmo : vmr.pmo < count)
    (hregion : RegionOk shape vs vmr) :
    SpaceOk getPages pgd shape count
      { vs with
        vmrs := vs.vmrs + 1
        vmrList := (vs.vmrs, vmr) :: vs.vmrList } where
  root := h.root
  table := h.table
  aligned := forall_mem_cons.2 ⟨halign, h.aligned⟩
  named := forall_mem_cons.2 ⟨Nat.lt_succ_self _, fun e he => Nat.lt_succ_of_lt (h.named e he)⟩
  objects := forall_mem_cons.2 ⟨hpmo, h.objects⟩
  mmapAddr := h.mmapAddr
  heapAddr := h.heapAddr
  heapNamed := fun q hq => Nat.lt_succ_of_lt (h.heapNamed q hq)
  regions := forall_mem_cons.2 ⟨hregion.mono fun _ hu => hu,
    fun e he => (h.regions e he).mono fun _ hu => hu⟩
  heap := by
    intro q hq
    refine forall_mem_cons.2 ⟨fun hname => ?_, h.heap q hq⟩
    -- the heap has an older name
    exact absurd hname (Nat.ne_of_gt (h.heapNamed q hq))

/-- A region is deleted, and its pages stay. -/
lemma SpaceOk.del (q : Nat) : SpaceOk getPages pgd shape count (delVmrFromVmspace vs q) := by
  have hsub : ∀ e ∈ (delVmrFromVmspace vs q).vmrList, e ∈ vs.vmrList :=
    fun e he => mem_of_mem_filter he
  exact {
    h with
    aligned := fun e he => h.aligned e (hsub e he)
    named := fun e he => h.named e (hsub e he)
    objects := fun e he => h.objects e (hsub e he)
    regions := fun e he => (h.regions e (hsub e he)).mono fun _ hu => hu
    heap := fun q hq e he => h.heap q hq e (hsub e he)
  }

variable {va len : Nat}

/-- Pages are unmapped. -/
lemma SpaceOk.unmapPages (hspares : SparesPages shape vs va len none)
    (hrun : unmapPages vs va len = .ok vs') : SpaceOk getPages pgd shape count vs' := by
  obtain ⟨pt, rfl, htable, hentry⟩ := unmapPages_entries hrun h.root h.table
  exact {
    h with
    table := htable
    regions := by
      intro e he
      refine { fits := (h.regions e he).fits, present := ?_ }
      intro hnot addr hhas
      obtain ⟨hlt, hsome⟩ := (h.regions e he).present hnot addr hhas
      obtain ⟨k, hk, hvpn⟩ := hhas.vpn_eq (h.aligned e he)
      refine ⟨hlt, ?_⟩
      rw [hentry, if_neg]
      · exact hsome
      rw [hvpn]
      exact hspares e he (by simp) hnot k hk
  }

variable {q : Nat}

/-- A region is deleted and its pages are unmapped. -/
lemma SpaceOk.delete (hspares : SparesPages shape vs va len (some q))
    (hrun : ChCore.Kernel.unmapPages (delVmrFromVmspace vs q) va len = .ok vs') :
    SpaceOk getPages pgd shape count vs' := by
  refine (h.del q).unmapPages ?_ hrun
  intro e he _ hnot
  obtain ⟨hmem, hne⟩ := mem_filter.1 he
  refine hspares e hmem ?_ hnot
  intro heq
  exact of_decide_eq_true hne (Option.some.inj heq).symm

/-- A region is changed. -/
lemma SpaceOk.set (vmr : Vmregion)
    (hq : q < vs.vmrs) (halign : pageSize ∣ vmr.start) (hpmo : vmr.pmo < count)
    (hregion : RegionOk shape vs vmr) (hheap : vs.heapVmr = some q → HeapOk shape vmr) :
    SpaceOk getPages pgd shape count (setVmr vs q vmr) := by
  exact {
    h with
    aligned := forall_setVmr halign fun e he _ => h.aligned e he
    named := forall_setVmr hq fun e he _ => h.named e he
    objects := forall_setVmr hpmo fun e he _ => h.objects e he
    regions := forall_setVmr (hregion.mono fun _ hu => hu)
      fun e he _ => (h.regions e he).mono fun _ hu => hu
    heap := fun q' hq' => forall_setVmr (fun hname => hheap (hq'.trans (congrArg some hname.symm)))
      fun e he _ => h.heap q' hq' e he
  }

/-- A region that is filled on demand is cut at its start. -/
lemma SpaceOk.cut (hmem : (q, vmr) ∈ vs.vmrList) (hlen : len < vmr.size)
    (halign : pageSize ∣ u64 (vmr.start + len)) (hdemand : demandRegion shape vmr = true) :
    SpaceOk getPages pgd shape count (setVmr vs q
    { vmr with size := vmr.size - len, start := u64 (vmr.start + len) }) := by
  refine h.set _ (h.named _ hmem) halign (h.objects _ hmem) ?_ ?_
  · refine
      { fits := fun type size hsize hfilled => ?_
        present := fun hnot => absurd (hdemand.symm.trans hnot) (by decide) }
    refine le_trans ?_ ((h.regions _ hmem).fits type size hsize hfilled)
    show pageRounds (vmr.size - len) ≤ pageRounds vmr.size
    exact Nat.div_le_div_right (by omega)
  intro hq
  have hold := h.heap q hq _ hmem rfl
  have hwrap : vmr.start + vmr.size < 2 ^ 64 := hold.noWrap
  have habove : heapStart ≤ vmr.start := hold.above
  have hstart : u64 (vmr.start + len) = vmr.start + len := u64_of_lt (by omega)
  exact {
    anonym := hold.anonym
    ends := fun type size hsize => by
      have hends : heapStart + size = vmr.start + vmr.size := hold.ends type size hsize
      show heapStart + size = u64 (vmr.start + len) + (vmr.size - len)
      omega
    noWrap := by
      show u64 (vmr.start + len) + (vmr.size - len) < 2 ^ 64
      omega
    above := by
      show heapStart ≤ u64 (vmr.start + len)
      omega
  }

omit h

/-! ### The rounds of `unmap_vmrs` -/

/-- The range of a round is the end of the range of the call. -/
def RestOf (addr length va len : Nat) : Prop := ∃ j, j + len = length ∧ u64 va = u64 (addr + j)

variable {length : Nat}

lemma RestOf.next {size : Nat} (h : RestOf addr length va len) (hsize : size ≤ len) :
    RestOf addr length (u64 (va + size)) (len - size) := by
  obtain ⟨j, hj, hva⟩ := h
  refine ⟨j + size, by omega, ?_⟩
  unfold u64 at *
  omega

lemma RestOf.page {u : Nat} (h : RestOf addr length va len)
    (haddr : pageSize ∣ addr) (hu : PageIn va len u) : PageIn addr length u := by
  obtain ⟨j, hj, hva⟩ := h
  obtain ⟨m, rfl⟩ := haddr
  obtain ⟨k, hk, rfl⟩ := hu
  refine ⟨(j + k * pageSize) / pageSize, ?_, ?_⟩
  · unfold pageRounds pageSize at *
    omega
  rw [← add_zero va, Nat.add_right_comm, add_zero, ← vpn_u64_add va, hva, vpn_u64_add]
  unfold vpn pageSize
  omega

lemma SparesPages.rest (h : SparesPages shape vs addr length none)
    (hrest : RestOf addr length va len) (haddr : pageSize ∣ addr)
    (hsub : ∀ e ∈ vs'.vmrList, e ∈ vs.vmrList) (q : Option Nat) : SparesPages shape vs' va len q :=
  fun e he _ hnot k hk hin =>
    h e (hsub e he) (by simp) hnot k hk (hrest.page haddr hin)

lemma SpaceOk.unmapVmrs {pmos : Nat → Option Pmobject}
    (haddr : pageSize ∣ addr) (hlength : pageSize ∣ length) (rounds : Nat) :
    ∀ (vs : Vmspace) (va len : Nat), SpaceOk getPages pgd (shapes pmos) count vs →
    SparesPages (shapes pmos) vs addr length none → RestOf addr length va len →
    unmapVmrs pmos rounds vs va len = .ok vs' → SpaceOk getPages pgd (shapes pmos) count vs' := by
  induction rounds with
  | zero =>
    intro vs va len h _ _ hrun
    cases hrun
    exact h
  | succ rounds ih =>
    intro vs va len h hspares hrest hrun
    cases unmapVmrs_succ hrun with
    | empty _ heq | gap _ _ heq | inside _ _ _ _ heq => exact heq ▸ h
    | @cut q vmr pmo _ hfind hbig hva hpmo htype hun =>
      have hmem := (findVmrForVa_inv hfind).1
      have halign : pageSize ∣ u64 (vmr.start + len) := by
        obtain ⟨j, hj, hj'⟩ := hrest
        obtain ⟨m, rfl⟩ := haddr
        obtain ⟨l, rfl⟩ := hlength
        subst hva
        unfold u64 pageSize at *
        omega
      have hdemand : demandRegion (shapes pmos) vmr = true := by
        rw [demandRegion, shapes_eq hpmo, htype]
        rfl
      refine (h.cut hmem hbig halign hdemand).unmapPages ?_ hun
      exact forall_setVmr (fun _ hnot => absurd (hdemand.symm.trans hnot) (by decide))
        fun e he _ => hspares.rest hrest haddr (fun _ h => h) none e he
    | @delete q vmr vs1 _ hfind hsmall hdel hnext =>
      have hsub : ∀ e ∈ vs1.vmrList, e ∈ vs.vmrList := by
        obtain ⟨pt, -, rfl⟩ := unmapPages_inv hdel
        exact fun e he => mem_of_mem_filter he
      have h1 := h.delete (hspares.rest hrest haddr (fun _ h => h) (some q)) hdel
      exact ih vs1 _ _ h1 (fun e he => hspares e (hsub e he)) (hrest.next hsmall) hnext

end

/-! ## Steps -/

section

variable {mem : Allocator} {getPages : Nat → Nat} {pgd : Nat}
  {st st' : VmState}

/-- What a step of one process does: its own address space stays in order, and
so do the others, which have other heaps. -/
structure StepOk (getPages : Nat → Nat) (pgd : Nat) (st st' : VmState) : Prop where
  pmoLt : (∀ p pmo, st.pmos p = some pmo → p < st.pmoCount) →
    ∀ p pmo, st'.pmos p = some pmo → p < st'.pmoCount
  own : SpaceOk getPages pgd (shapes st'.pmos) st'.pmoCount st'.vs
  others : ∀ vs, SpaceOk getPages pgd (shapes st.pmos) st.pmoCount vs →
    (∀ p, HeapObject st.vs p → ¬ HeapObject vs p) →
    SpaceOk getPages pgd (shapes st'.pmos) st'.pmoCount vs
  heap : ∀ p, HeapObject st'.vs p → HeapObject st.vs p ∨ p = st.pmoCount

variable {vs : Vmspace}

/-- A step that leaves the objects alone. -/
lemma StepOk.of_space (h : SpaceOk getPages pgd (shapes st.pmos) st.pmoCount vs)
    (hheap : ∀ p, HeapObject vs p → HeapObject st.vs p) :
    StepOk getPages pgd st { st with vs } where
  pmoLt := fun hlt => hlt
  own := h
  others := fun _ hvs _ => hvs
  heap := fun p hp => .inl (hheap p hp)

variable {vs' : Vmspace} {p : Nat}

/-- The heap of an address space with fewer regions. -/
lemma HeapObject.of_sub (h : HeapObject vs' p) (hheap : vs'.heapVmr = vs.heapVmr)
    (hsub : ∀ e ∈ vs'.vmrList, ∃ e' ∈ vs.vmrList, e'.1 = e.1 ∧ e'.2.pmo = e.2.pmo) :
    HeapObject vs p := by
  obtain ⟨q, hq, e, he, hname, hpmo⟩ := h
  obtain ⟨e', he', hname', hpmo'⟩ := hsub e he
  exact ⟨q, hheap ▸ hq, e', he', hname'.trans hname, hpmo'.trans hpmo⟩

/-- The heap when a region is changed. -/
lemma HeapObject.of_set {vmr vmr' : Vmregion} {q : Nat} {pgtbl : PtState}
    (h : HeapObject { setVmr vs q vmr' with pgtbl } p)
    (hmem : (q, vmr) ∈ vs.vmrList) (hpmo : vmr.pmo = vmr'.pmo) : HeapObject vs p :=
  h.of_sub rfl (forall_setVmr ⟨_, hmem, rfl, hpmo⟩ fun e he _ => ⟨e, he, rfl, rfl⟩)

lemma shapes_addPmo (st : VmState) (pmo : Pmobject) : shapes (st.addPmo pmo).pmos =
    update (shapes st.pmos) st.pmoCount (some (pmo.type, pmo.size)) :=
  shapes_update st.pmos st.pmoCount (some pmo)

/-- There is a new object. -/
lemma SpaceOk.addPmo (h : SpaceOk getPages pgd (shapes st.pmos) st.pmoCount vs) (pmo : Pmobject) :
    SpaceOk getPages pgd (shapes (st.addPmo pmo).pmos) (st.pmoCount + 1) vs := by
  have hold : ∀ e ∈ vs.vmrList, shapes (st.addPmo pmo).pmos e.2.pmo = shapes st.pmos e.2.pmo := by
    intro e he
    rw [shapes_addPmo]
    exact update_of_ne (ne_of_lt (h.objects e he)) _ _
  refine h.reshape (Nat.le_succ _) (fun e he hnot => ?_) (fun e he type size hsize => ?_) ?_
  · rw [demandRegion, hold e he] at hnot
    exact hnot
  · exact ⟨size, (hold e he).symm.trans hsize, le_rfl⟩
  rintro p ⟨q, hq, e, he, hname, rfl⟩ o ho
  exact (hold e he).symm.trans ho

lemma addPmo_lt (pmo : Pmobject) (h : ∀ p pmo, st.pmos p = some pmo → p < st.pmoCount) :
    ∀ p o, (st.addPmo pmo).pmos p = some o → p < st.pmoCount + 1 :=
  forall_update (Nat.lt_succ_self _) fun p o _ ho => Nat.lt_succ_of_lt (h p o ho)

variable {pmo : Pmobject}

/-- A step that makes an object. -/
lemma StepOk.of_addPmo (h : SpaceOk getPages pgd (shapes (st.addPmo pmo).pmos) (st.pmoCount + 1) vs)
    (hheap : ∀ p, HeapObject vs p → HeapObject st.vs p ∨ p = st.pmoCount) :
    StepOk getPages pgd st { st.addPmo pmo with vs } where
  pmoLt := addPmo_lt pmo
  own := h
  others := fun _ hvs _ => hvs.addPmo pmo
  heap := hheap

/-- A region for the object that was made last. -/
lemma regionOk_new {vmr : Vmregion} (hvmr : vmr.pmo = st.pmoCount)
    (hfilled : filledOnDemand pmo.type = true) (hsize : pageRounds vmr.size ≤ pageRounds pmo.size) :
    RegionOk (shapes (st.addPmo pmo).pmos) vs vmr := by
  have hshape : shapes (st.addPmo pmo).pmos vmr.pmo = some (pmo.type, pmo.size) := by
    rw [shapes_addPmo, hvmr, update_self]
  refine { fits := fun type size h _ => ?_, present := fun hnot => ?_ }
  · rw [hshape] at h
    cases h
    exact hsize
  · rw [demandRegion, hshape] at hnot
    exact absurd (hfilled.symm.trans hnot) (by decide)

/-! ### Mapping -/

variable {va len : Nat}

variable (hfresh : FreshPages getPages pgd)
  (h : SpaceOk getPages pgd (shapes st.pmos) st.pmoCount st.vs)
  (hlt : ∀ p pmo, st.pmos p = some pmo → p < st.pmoCount)

include hfresh h hlt in
/-- `vmspace_map_range`. -/
lemma StepOk.mapRange {flags : Nat} (hpmo : st.pmos p = some pmo) (hwithin : MapsWithin va len pmo)
    (heffect : MapEffect getPages st va len flags p pmo st') : StepOk getPages pgd st st' := by
  cases heffect with
  | noMemory =>
    exact .of_space h.alloc fun p hp =>
      hp.of_sub rfl fun e he => ⟨e, he, rfl, rfl⟩
  | @added pgtbl hpages =>
    obtain ⟨hforbid, hrounds, hlow⟩ := hwithin
    have hshape := shapes_eq hpmo
    obtain ⟨htable, hold, hnew⟩ : PtInv getPages pgd pgtbl ∧ (∀ u, (st.vs.entry u).isSome →
          (({ st.vs with pgtbl } : Vmspace).entry u).isSome) ∧
        (mappedEarly pmo.type = true → ∀ k, k < pageRounds pmo.size →
          (({ st.vs with pgtbl } : Vmspace).entry (vpn (roundDown va + k * pageSize))).isSome) := by
      by_cases hearly : mappedEarly pmo.type = true
      · rw [if_pos hearly, mapRangeInPgtbl, h.root] at hpages
        obtain ⟨pt, hpt, htable, -, hsome, -⟩ := mapLoop_new hfresh
          (permOf pmo.type flags) (pageRounds pmo.size) st.vs.pgtbl
          (roundDown va) pmo.start h.table
        rw [hpt] at hpages
        cases hpages
        have hentry : ∀ u, (({ st.vs with pgtbl } : Vmspace).entry u).isSome ↔
            (st.vs.entry u).isSome ∨ ∃ k, k < pageRounds pmo.size ∧
              u = vpn (roundDown va + k * pageSize) := by
          intro u
          rw [Vmspace.entry, Vmspace.entry, h.root]
          exact hsome u
        exact ⟨htable, fun u hu => (hentry u).2 (.inl hu),
          fun _ k hk => (hentry _).2 (.inr ⟨k, hk, rfl⟩)⟩
      · rw [if_neg hearly] at hpages
        subst hpages
        exact ⟨h.table, fun u hu => hu, fun hyes => absurd hyes hearly⟩
    have hfill := h.fill htable hold
    refine .of_space (hfill.add _ (dvd_roundDown va) (hlt p pmo hpmo) ?_) ?_
    · refine { fits := fun type size hsize _ => ?_, present := ?_ }
      · rw [hshape] at hsize
        cases hsize
        exact hrounds
      intro hnot addr hhas
      have hearly : mappedEarly pmo.type = true := by
        rw [demandRegion, hshape] at hnot
        exact mappedEarly_of_not hforbid hnot
      obtain ⟨k, hk, hvpn⟩ := hhas.vpn_eq (dvd_roundDown va)
      have haddr : addr < roundDown va + mapLength len := hhas.2.trans_le (Nat.mod_le _ _)
      refine ⟨haddr.trans_le (hlow hearly), ?_⟩
      rw [hvpn]
      exact hnew hearly k (lt_of_lt_of_le hk hrounds)
    · rintro p' ⟨q, hq, e, he, hname, rfl⟩
      rcases mem_cons.1 he with rfl | he
      · exact absurd hname (Nat.ne_of_gt (h.heapNamed q hq))
      · exact ⟨q, hq, e, he, hname, rfl⟩

/-- The pages of an object for `sys_handle_mmap`. -/
lemma roundUp_of_pages {x : Nat} (hlt : x < 2 ^ 64) (hpages : x % pageSize = 0) :
    roundUp x = x := by
  unfold roundUp roundDown u64 pageSize at *
  omega

include h in
/-- `sys_handle_mmap`. -/
lemma StepOk.mmap {length prot : Nat} (hlength : length < 2 ^ 64)
    (heffect : MmapEffect st length prot st') : StepOk getPages pgd st st' := by
  cases heffect with
  | refused => exact .of_space h fun _ hp => hp
  | noMemory =>
    refine .of_addPmo (h.addPmo _).alloc fun p hp => .inl ?_
    exact hp.of_sub rfl fun e he => ⟨e, he, rfl, rfl⟩
  | added hpages _ =>
    have hlt : mmapLength length < 2 ^ 64 := by
      unfold mmapLength roundUp roundDown u64 pageSize
      split <;> omega
    have hnext : pageSize ∣ u64 (st.vs.userCurrentMmapAddr + mmapLength length) := by
      have haddr := h.mmapAddr
      unfold u64 pageSize at *
      omega
    have hpmo := (h.addPmo (newPmo .anonym (mmapLength length) 0)).setMmap hnext
    refine .of_addPmo (hpmo.add _ h.mmapAddr (Nat.lt_succ_self _) (regionOk_new rfl rfl ?_)) ?_
    · show _ ≤ pageRounds (roundUp (mmapLength length))
      rw [roundUp_of_pages hlt hpages]
    rintro p ⟨q, hq, e, he, hname, rfl⟩
    rcases mem_cons.1 he with rfl | he
    · exact .inr rfl
    · exact .inl ⟨q, hq, e, he, hname, rfl⟩

/-! ### The heap -/

/-- An object of another heap grows. -/
lemma SpaceOk.growPmo {size' : Nat} (h : SpaceOk getPages pgd (shapes st.pmos) st.pmoCount vs)
    (hpmo : st.pmos p = some pmo) (hsize : pmo.size ≤ size') (hnot : ¬ HeapObject vs p) :
    SpaceOk getPages pgd (update (shapes st.pmos) p (some (pmo.type, size'))) st.pmoCount vs := by
  have hshape := shapes_eq hpmo
  refine h.reshape le_rfl (fun e _ hdemand => ?_) (fun e _ => ?_) fun p' hp' o ho => ?_
  · rw [demandRegion] at hdemand ⊢
    by_cases hp : e.2.pmo = p
    · rw [hp, update_self] at hdemand
      rw [hp, hshape]
      exact hdemand
    · rwa [update_of_ne hp] at hdemand
  · intro type size1 heq
    rcases update_eq_some heq with ⟨hp, heq⟩ | ⟨-, heq⟩
    · cases heq
      exact ⟨pmo.size, hp ▸ hshape, hsize⟩
    · exact ⟨size1, heq, le_rfl⟩
  · have hne : p' ≠ p := fun heq => hnot (heq ▸ hp')
    rwa [update_of_ne hne] at ho

variable {addr : Nat}

include h hlt in
/-- The heap grows up to `addr`. -/
lemma StepOk.grow {q : Nat}
    (haddr : addr < 2 ^ 64) {vmr : Vmregion} (hheap : st.vs.heapVmr = some q)
    (hvmr : (q, vmr) ∈ st.vs.vmrList) (hpmo : st.pmos vmr.pmo = some pmo)
    (hge : vmr.end ≤ addr) :
    StepOk getPages pgd st
      { st with
        vs := setVmr st.vs q { vmr with size := u64 (vmr.size + (addr - vmr.end)) }
        pmos := update st.pmos vmr.pmo
          (some { pmo with size := u64 (pmo.size + (addr - vmr.end)) }) } := by
  have hshape := shapes_eq hpmo
  have hold := h.heap q hheap _ hvmr rfl
  have htype : pmo.type = .anonym := hold.anonym _ _ hshape
  have hends : heapStart + pmo.size = vmr.start + vmr.size := hold.ends _ _ hshape
  have habove : heapStart ≤ vmr.start := hold.above
  have hend : vmr.end = vmr.start + vmr.size := u64_of_lt hold.noWrap
  have hsize : u64 (vmr.size + (addr - vmr.end)) = addr - vmr.start := by
    rw [hend] at hge ⊢
    rw [u64_of_lt (by omega)]
    omega
  have hpsize : u64 (pmo.size + (addr - vmr.end)) = addr - heapStart := by
    rw [hend] at hge ⊢
    rw [u64_of_lt (by omega)]
    omega
  have hle : pmo.size ≤ addr - heapStart := by omega
  have hstart : vmr.start ≤ addr := by omega
  rw [hsize, hpsize]
  have hobject : HeapObject st.vs vmr.pmo := ⟨q, hheap, _, hvmr, rfl, rfl⟩
  have hnew : ∀ type size, update (shapes st.pmos) vmr.pmo
      (some (pmo.type, addr - heapStart)) vmr.pmo = some (type, size) →
      type = .anonym ∧ size = addr - heapStart := by
    intro type size heq
    rw [update_self] at heq
    cases heq
    exact ⟨htype, rfl⟩
  refine
    { pmoLt := fun _ => forall_update (hlt _ _ hpmo) fun p o _ => hlt p o
      own := ?_
      others := fun vs hvs hapart => ?_
      heap := fun p hp => .inl ?_ }
  · -- without the pointer to it, the heap is a region like the others
    have hnone := h.dropHeap
    have hgrown := hnone.growPmo hpmo hle (by rintro ⟨q, hq, -⟩; cases hq)
    have hregion : RegionOk (update (shapes st.pmos) vmr.pmo
        (some (pmo.type, addr - heapStart))) { st.vs with heapVmr := none }
        { vmr with size := addr - vmr.start } :=
      { fits := fun type size heq _ => by
          rw [(hnew type size heq).2]
          show pageRounds (addr - vmr.start) ≤ _
          unfold pageRounds
          exact Nat.div_le_div_right (by omega)
        present := fun hnot => by
          rw [demandRegion, update_self, htype] at hnot
          cases hnot }
    rw [shapes_update]
    refine (hgrown.set { vmr with size := addr - vmr.start } (h.named _ hvmr)
      (h.aligned _ hvmr) (h.objects _ hvmr) hregion (fun hq => nomatch hq)).setHeap
      (fun q' hq' => h.heapNamed q' hq') ?_
    intro q' hq'
    rw [hheap] at hq'
    obtain rfl := Option.some.inj hq'
    refine forall_setVmr (fun _ => ?_) fun e _ hne hname => absurd hname hne
    exact {
      anonym := fun type size heq => (hnew type size heq).1
      ends := fun type size heq => by
        rw [(hnew type size heq).2, Nat.add_sub_cancel' (habove.trans hstart)]
        exact (Nat.add_sub_cancel' hstart).symm
      noWrap := (Nat.add_sub_cancel' hstart).trans_lt haddr
      above := habove
    }
  · have hgrown := hvs.growPmo hpmo hle (hapart _ hobject)
    rw [shapes_update]
    exact hgrown
  · exact HeapObject.of_set hp hvmr rfl

include h hlt in
/-- `sys_handle_brk`. -/
lemma StepOk.brk (haddr : addr < 2 ^ 64) (heffect : BrkEffect st addr st') :
    StepOk getPages pgd st st' := by
  cases heffect with
  | noMemory =>
    refine .of_addPmo (h.addPmo _).alloc.dropHeap ?_
    rintro p ⟨q, hq, -⟩
    cases hq
  | created =>
    have halign : pageSize ∣ st.vs.userCurrentHeap := by
      rw [h.heapAddr]
      decide
    have hlist := (h.addPmo (newPmo .anonym 0 0)).add
      ⟨st.vs.userCurrentHeap, 0, vmrRead ||| vmrWrite, st.pmoCount⟩ halign
      (Nat.lt_succ_self _) (regionOk_new rfl rfl le_rfl)
    have honly : ∀ q ∈ some st.vs.vmrs, ∀ e ∈ (st.vs.vmrs,
        (⟨st.vs.userCurrentHeap, 0, vmrRead ||| vmrWrite, st.pmoCount⟩ :
          Vmregion)) :: st.vs.vmrList, e.1 = q →
        e.2 = ⟨st.vs.userCurrentHeap, 0, vmrRead ||| vmrWrite, st.pmoCount⟩ := by
      intro q hq e he hname
      obtain rfl := Option.some.inj hq
      rcases mem_cons.1 he with rfl | he
      · rfl
      · exact absurd hname (ne_of_lt (h.named e he))
    refine .of_addPmo (hlist.setHeap ?_ ?_) ?_
    · intro q hq
      obtain rfl := Option.some.inj hq
      exact Nat.lt_succ_self _
    · intro q hq e he hname
      rw [honly q hq e he hname, h.heapAddr]
      have hnew : ∀ type size, shapes (st.addPmo (newPmo .anonym 0 0)).pmos
          st.pmoCount = some (type, size) → type = .anonym ∧ size = 0 := by
        intro type size heq
        rw [shapes_addPmo, update_self] at heq
        cases heq
        exact ⟨rfl, rfl⟩
      exact
        { anonym := fun type size heq => (hnew type size heq).1
          ends := fun type size heq => by rw [(hnew type size heq).2]
          noWrap := (by decide : heapStart + 0 < 2 ^ 64)
          above := le_rfl }
    · rintro p ⟨q, hq, e, he, hname, rfl⟩
      exact .inr (by rw [honly q hq e he hname])
  | grown hheap hvmr hpmo hge => exact StepOk.grow h hlt haddr hheap hvmr hpmo hge

/-! ### Unmapping -/

lemma HeapObject.of_delete {q : Nat} (h : HeapObject vs' p)
    (hrun : unmapPages (delVmrFromVmspace vs q) va len = .ok vs') : HeapObject vs p := by
  obtain ⟨pt, -, rfl⟩ := unmapPages_inv hrun
  exact h.of_sub rfl fun e he => ⟨e, mem_of_mem_filter he, rfl, rfl⟩

/-- `unmap_vmrs` makes no regions. -/
lemma HeapObject.of_unmapVmrs {pmos : Nat → Option Pmobject} (rounds : Nat) :
    ∀ (vs : Vmspace) (va len : Nat), unmapVmrs pmos rounds vs va len = .ok vs' → HeapObject vs' p →
    HeapObject vs p := by
  induction rounds with
  | zero =>
    intro vs va len hrun h
    cases hrun
    exact h
  | succ rounds ih =>
    intro vs va len hrun h
    cases unmapVmrs_succ hrun with
    | empty _ heq | gap _ _ heq | inside _ _ _ _ heq => exact heq ▸ h
    | @cut q vmr pmo _ hfind hbig hva hpmo htype hun =>
      obtain ⟨pt, -, rfl⟩ := unmapPages_inv hun
      exact h.of_set (findVmrForVa_inv hfind).1 rfl
    | delete _ _ _ hdel hnext => exact (ih _ _ _ hnext h).of_delete hdel

include h in
/-- `sys_handle_munmap`. -/
lemma StepOk.munmap {length : Nat} (hspares : SparesPages (shapes st.pmos) st.vs addr length none)
    (hrun : vmStep mem getPages st (.munmap addr length) = .ok st') :
    StepOk getPages pgd st st' := by
  rcases munmap_cases hrun with rfl | ⟨vs', haddr, hlength, hun, rfl⟩
  · exact .of_space h fun _ hp => hp
  have hok := SpaceOk.unmapVmrs haddr hlength _ st.vs addr length h hspares ⟨0, zero_add _, rfl⟩ hun
  exact .of_space hok fun p hp => HeapObject.of_unmapVmrs _ _ _ _ hun hp

include h in
/-- `vmspace_unmap_range`. -/
lemma StepOk.unmapRange (hspares : len ≠ 0 → ∀ e ∈ findVmrForVa st.vs va,
    SparesPages (shapes st.pmos) st.vs e.2.start e.2.size (some e.1))
    (hrun : vmStep mem getPages st (.unmapRange va len) = .ok st') :
    StepOk getPages pgd st st' := by
  rcases unmapRange_found hrun with rfl | ⟨q, vmr, vs', hfind, rfl, ⟨-, rfl⟩ | ⟨hlen, hpages⟩⟩
  · exact .of_space h fun _ hp => hp
  · exact .of_space (h.del q) fun p hp =>
      hp.of_sub rfl fun e he => ⟨e, mem_of_mem_filter he, rfl, rfl⟩
  · exact .of_space (h.delete (hspares hlen _ hfind) hpages) fun p hp => hp.of_delete hpages

include h in
/-- `unmap_pmo_in_vmspace`. -/
lemma StepOk.unmapPmo (hspares : ∀ e ∈ st.vs.vmrList.find? fun e => e.2.pmo = p,
    SparesPages (shapes st.pmos) st.vs e.2.start e.2.size (some e.1))
    (hrun : vmStep mem getPages st (.unmapPmo p) = .ok st') : StepOk getPages pgd st st' := by
  rcases unmapPmo_found hrun with rfl | ⟨q, vmr, vs', hfind, rfl, hpages⟩
  · exact .of_space h fun _ hp => hp
  · exact .of_space (h.delete (hspares _ hfind) hpages) fun p hp => hp.of_delete hpages

/-! ### Faults -/

include hfresh h hlt in
/-- A fault changes the page table and the pages of an object. -/
lemma StepOk.fault {faultAddr page : Nat} {r : Int}
    (heffect : FaultEffect getPages st faultAddr page st' r) : StepOk getPages pgd st st' := by
  cases heffect with
  | noRegion _ => exact .of_space h fun _ hp => hp
  | @mapped q pa vmr pmo radix pgtbl hfind hpmo htype hsize hradix hmap =>
    have hshape : shapes (update st.pmos vmr.pmo (some { pmo with radix })) = shapes st.pmos := by
      rw [shapes_update]
      exact update_eq_self_iff.2 (shapes_eq hpmo).symm
    rw [h.root] at hmap
    obtain ⟨pt, hpt, htable, hentry⟩ := mapRange_page hfresh h.table
      (roundDown faultAddr) pa vmr.perm
    rw [hpt] at hmap
    cases hmap
    have hfill := h.fill htable fun u hu => by
      rw [Vmspace.entry, h.root] at hu ⊢
      rw [hentry u]
      by_cases heq : u = vpn (roundDown faultAddr)
      · rw [if_pos heq]
        rfl
      rw [if_neg heq]
      exact hu
    refine
      { pmoLt := fun _ => forall_update (hlt _ _ hpmo) fun p o _ => hlt p o
        own := ?_
        others := fun vs hvs _ => ?_
        heap := fun p hp => .inl (hp.of_sub rfl fun e he => ⟨e, he, rfl, rfl⟩) }
    · rw [hshape]
      exact hfill
    rw [hshape]
    exact hvs

include hfresh h in
/-- A translation fault inside a region is resolved if a page is at hand. -/
lemma vmFault_resolves {access : Access} (hin : ∃ e ∈ st.vs.vmrList, e.2.Has addr)
    (hfault : hardwareFault st.vs addr access = some .translation) (page : Nat) :
    ∃ st', vmFault getPages st addr page = .ok (st', 0) := by
  obtain ⟨⟨q, vmr⟩, hfind⟩ : ∃ e, findVmrForVa st.vs addr = some e := by
    obtain ⟨e, he, hhas⟩ := hin
    refine Option.isSome_iff_exists.1 (List.find?_isSome.2 ⟨e, he, ?_⟩)
    exact decide_eq_true hhas
  obtain ⟨hmem, hlo, hhi⟩ := findVmrForVa_inv hfind
  have hhas : vmr.Has addr := ⟨hlo, hhi⟩
  have hregion := h.regions _ hmem
  have halign : pageSize ∣ vmr.start := h.aligned _ hmem
  -- otherwise the address has an entry
  have hdemand : demandRegion (shapes st.pmos) vmr = true := by
    by_contra hnot
    obtain ⟨hlow, hsome⟩ := hregion.present (by simpa using hnot) addr hhas
    rw [Vmspace.entry] at hsome
    obtain ⟨w, hw⟩ := Option.isSome_iff_exists.1 hsome
    rw [h.root] at hw
    rw [hardwareFault, if_neg (Nat.not_le.2 hlow), h.root,
      queryInPgtbl_eq h.table, hw, Option.map_some] at hfault
    dsimp only at hfault
    split at hfault <;> cases hfault
  obtain ⟨pmo, hpmo⟩ : ∃ pmo, st.pmos vmr.pmo = some pmo := by
    cases hpmo : st.pmos vmr.pmo with
    | none =>
      rw [demandRegion, shapes, hpmo] at hdemand
      cases hdemand
    | some pmo => exact ⟨pmo, rfl⟩
  have hshape := shapes_eq hpmo
  have hfilled : filledOnDemand pmo.type = true := by
    rw [demandRegion, hshape] at hdemand
    exact hdemand
  have htype : pmo.type = .anonym ∨ pmo.type = .shm := by
    cases hval : pmo.type <;> rw [hval] at hfilled <;>
      first | exact .inl rfl | exact .inr rfl | cases hfilled
  have hoffset : u64 (roundDown addr + 2 ^ 64 - vmr.start) < pmo.size := by
    have hrounds := hregion.fits _ _ hshape hfilled
    have hend : addr < vmr.start + vmr.size := hhi.trans_le (Nat.mod_le _ _)
    obtain ⟨m, hm⟩ := halign
    unfold u64 roundDown pageRounds pageSize at *
    dsimp only at hrounds
    omega
  have hderef : deref st.system.pmos vmr.pmo = .ok pmo := by simp [deref, VmState.system, hpmo]
  have hmap : ∀ pa, ∃ pt, mapRangeInPgtbl getPages st.vs.pgtbl st.vs.pgd
      (roundDown addr) pa pageSize vmr.perm = .ok pt := by
    intro pa
    obtain ⟨pt, hpt, -⟩ := mapRange_page hfresh h.table (roundDown addr) pa vmr.perm
    rw [h.root]
    exact ⟨pt, hpt⟩
  unfold vmFault handleTransFault
  rw [show deref st.system.vmspaces 0 = .ok st.vs from rfl, ok_bind, hfind]
  dsimp only
  rw [hderef, ok_bind, if_pos htype, if_neg (Nat.not_le.2 hoffset)]
  cases pmo.radix.lookup (u64 (roundDown addr + 2 ^ 64 - vmr.start) / pageSize) with
  | none =>
    obtain ⟨pt, hpt⟩ := hmap page
    dsimp only
    rw [hpt]
    exact ⟨_, rfl⟩
  | some pa =>
    obtain ⟨pt, hpt⟩ := hmap pa
    dsimp only
    rw [hpt]
    exact ⟨_, rfl⟩

include hfresh h in
/-- **One fault.** A fault inside a region halts the kernel if the access is
not permitted, or if a page is needed and there is no memory, and only then. -/
theorem doPageFault_returns_iff {access : Access} {fsc : FaultStatus}
    (hin : ∃ e ∈ st.vs.vmrList, e.2.Has addr)
    (hfault : hardwareFault st.vs addr access = some fsc) (page : Option Nat) (nodes : Bool) :
    (∃ st', doPageFault getPages st fsc addr page nodes = .ok st') ↔ fsc = .translation ∧
    (needsPage st addr = true → page.isSome = true ∧ nodes = true) := by
  cases fsc with
  | permission =>
    refine ⟨fun ⟨st', hst'⟩ => ?_, fun ⟨heq, _⟩ => ?_⟩
    · cases hst'
    · cases heq
  | translation =>
    have hresolves : ∀ page, ∃ st', (do
        let (st, ret) ← vmFault getPages st addr page
        if ret ≠ 0 then .error .bug else return st) = Except.ok st' := by
      intro page
      obtain ⟨st', hst'⟩ := vmFault_resolves hfresh h hin hfault page
      exact ⟨st', by rw [hst']; rfl⟩
    have hshort : ∀ page nodes, transFault getPages st addr page nodes =
        (if needsPage st addr = true ∧ ¬ (page.isSome = true ∧ nodes = true) then .error .bug
          else vmFault getPages st addr (if nodes then page.getD 0 else 0)) := by
      intro page nodes
      cases page <;> cases nodes <;> simp [transFault]
    rw [doPageFault, hshort]
    by_cases hneeds : needsPage st addr = true ∧ ¬ (page.isSome = true ∧ nodes = true)
    · rw [if_pos hneeds]
      refine ⟨fun ⟨st', hst'⟩ => ?_, fun ⟨_, hmem⟩ => ?_⟩
      · cases hst'
      · exact absurd (hmem hneeds.1) hneeds.2
    · rw [if_neg hneeds]
      exact ⟨fun _ => ⟨rfl, fun hpage => not_not.1 fun hno =>
        hneeds ⟨hpage, hno⟩⟩, fun _ => hresolves _⟩

include hfresh h hlt in
/-- A fault that returns. -/
lemma StepOk.pageFault {fsc : FaultStatus} {page : Option Nat} {nodes : Bool}
    (hrun : doPageFault getPages st fsc addr page nodes = .ok st') :
    StepOk getPages pgd st st' := by
  cases fsc with
  | permission => cases hrun
  | translation =>
    obtain ⟨⟨st1, ret⟩, hfault, hend⟩ := bind_eq_ok.1 hrun
    obtain rfl : st1 = st' := by
      dsimp only at hend
      split at hend <;> cases hend
      rfl
    have heffect : ∃ page, FaultEffect getPages st addr page st1 ret := by
      unfold transFault at hfault
      split at hfault
      · exact ⟨_, vmFault_cases hfault⟩
      split at hfault
      · cases hfault
      · exact ⟨_, vmFault_cases hfault⟩
    obtain ⟨page, heffect⟩ := heffect
    exact .fault hfresh h hlt heffect

end

/-! ## Runs -/

section

variable {mem : Allocator} {getPages : Nat → Nat} {pgd n : Nat}
  {s s' : Processes n}

lemma ProcInv.update (h : ProcInv getPages pgd s) (i : Fin n) {st' : VmState}
    (hstep : StepOk getPages pgd (s.view i) st') : ProcInv getPages pgd (s.update i st') := by
  have hold : ∀ j p, j ≠ i → HeapObject (s.spaces j) p → ¬ HeapObject st'.vs p := by
    intro j p hne hj hi
    rcases hstep.heap p hi with hi | rfl
    · exact hne (h.heaps j i p hj hi)
    obtain ⟨q, -, e, he, -, hpmo⟩ := hj
    exact absurd hpmo (ne_of_lt ((h.spaces j).objects e he))
  refine { pmoLt := hstep.pmoLt h.pmoLt, spaces := fun j => ?_, heaps := ?_ }
  · by_cases hj : j = i
    · subst hj
      simpa [Processes.update] using hstep.own
    have hother := hstep.others (s.spaces j) (h.spaces j) fun p hi hj' =>
      hj (h.heaps j i p hj' hi)
    simpa [Processes.update, hj] using hother
  intro j k p hj hk
  by_contra hne
  simp only [Processes.update] at hj hk
  by_cases hji : j = i
  · subst hji
    rw [update_self] at hj
    rw [update_of_ne (Ne.symm hne)] at hk
    exact hold k p (Ne.symm hne) hk hj
  rw [update_of_ne hji] at hj
  by_cases hki : k = i
  · subst hki
    rw [update_self] at hk
    exact hold j p hji hj hk
  · rw [update_of_ne hki] at hk
    exact hne (h.heaps j k p hj hk)

/-- An object is destroyed. -/
lemma ProcInv.destroy (h : ProcInv getPages pgd s) {p : Nat}
    (hall : (∀ pmo ∈ s.pmos p, filledOnDemand pmo.type = false) ∨
    ∀ i, ∀ e ∈ (s.spaces i).vmrList, e.2.pmo ≠ p) : ProcInv getPages pgd
    { s with pmos := Function.update s.pmos p none } := by
  have hnew : ∀ o pmo, shapes (Function.update s.pmos p none) o = some pmo →
      shapes s.pmos o = some pmo := by
    intro o pmo ho
    rw [shapes_update] at ho
    exact (some_of_erase ho).2
  refine { pmoLt := fun o pmo ho => ?_, spaces := fun i => ?_, heaps := h.heaps }
  · exact h.pmoLt o pmo (some_of_erase ho).2
  refine (h.spaces i).reshape le_rfl (fun e he hnot => ?_)
    (fun e _ type size hsize => ⟨size, hnew _ _ hsize, le_rfl⟩) fun o _ => hnew o
  rw [demandRegion, shapes_update] at hnot
  by_cases ho : e.2.pmo = p
  · rcases hall with hall | hnone
    · rw [demandRegion, shapes, ho]
      cases hpmo : s.pmos p with
      | none => rfl
      | some pmo => exact hall pmo hpmo
    · exact absurd ho (hnone i e he)
  · rwa [update_of_ne ho] at hnot

lemma ProcInv.step (hfresh : FreshPages getPages pgd)
    (h : ProcInv getPages pgd s) {op : ProcOp n} (hall : FaultSafe s op)
    (hrun : procStep mem getPages s op = .ok s') : ProcInv getPages pgd s' := by
  cases op with
  | call i op =>
    obtain ⟨st', hst', hend⟩ := bind_eq_ok.1 hrun
    cases hend
    have hi : SpaceOk getPages pgd (shapes (s.view i).pmos)
      (s.view i).pmoCount (s.view i).vs := h.spaces i
    refine h.update i ?_
    cases op with
    | createPmo size type start =>
      rw [vmStep] at hst'
      split at hst'
      · cases hst'
      cases hst'
      exact .of_addPmo (hi.addPmo _) fun p hp => .inl hp
    | mapRange va len flags p =>
      obtain ⟨pmo, hpmo, heffect⟩ := mapRange_cases hst'
      exact .mapRange hfresh hi h.pmoLt hpmo (hall pmo hpmo) heffect
    | unmapRange va len => exact .unmapRange hi hall hst'
    | unmapPmo p => exact .unmapPmo hi hall hst'
    | mmap length prot flags fd => exact .mmap hi hall (mmap_cases hst')
    | munmap addr length => exact .munmap hi hall hst'
    | brk addr => exact .brk hi h.pmoLt hall (brk_cases hst')
  | access i addr access page nodes =>
    rw [procStep] at hrun
    split at hrun
    · cases hrun
      exact h
    obtain ⟨st', hst', hend⟩ := bind_eq_ok.1 hrun
    cases hend
    exact h.update i (.pageFault hfresh (h.spaces i) h.pmoLt hst')
  | destroyPmo p =>
    cases hrun
    exact h.destroy hall

lemma ProcInv.init (n pgd : Nat) : ProcInv getPages pgd (Processes.init n pgd) where
  pmoLt := fun _ _ h => nomatch h
  spaces := fun _ =>
    { root := rfl
      table := table_initVm getPages pgd
      aligned := fun _ he => absurd he not_mem_nil
      named := fun _ he => absurd he not_mem_nil
      objects := fun _ he => absurd he not_mem_nil
      mmapAddr := (by decide : pageSize ∣ mmapStart)
      heapAddr := rfl
      heapNamed := fun _ h => nomatch h
      regions := fun _ he => absurd he not_mem_nil
      heap := fun _ h => nomatch h }
  heaps := by
    rintro i j p ⟨q, hq, -⟩ -
    cases hq

/-- **Faults inside regions return.** In every run in which regions have no more
pages than their objects, objects that are mapped at once lie below `2 ^ 48` and
keep their pages, and objects that are filled on demand are not destroyed while
they have regions, a fault at any address inside a region halts the kernel only
if the access is not permitted or if there is no memory for the page that it
needs. -/
theorem region_faults_return (mem : Allocator) {getPages : Nat → Nat} {pgd : Nat}
    (hfresh : FreshPages getPages pgd) {n : Nat} (ops : List (ProcOp n))
    {s : Processes n}
    (hadm : Admissible (procStep mem getPages) FaultSafe (Processes.init n pgd) ops)
    (hrun : run (procStep mem getPages) (Processes.init n pgd) ops = .ok s) :
    ∀ i addr access fsc page nodes, (∃ e ∈ (s.spaces i).vmrList, e.2.Has addr) →
      hardwareFault (s.spaces i) addr access = some fsc →
      ((∃ st, doPageFault getPages (s.view i) fsc addr page nodes = .ok st) ↔
        fsc = .translation ∧ (needsPage (s.view i) addr = true →
          page.isSome = true ∧ nodes = true)) := by
  have hinv : ProcInv getPages pgd s :=
    run_preserves_of_admissible (fun _ _ _ h hall hstep => h.step hfresh hall hstep)
      ops _ s (ProcInv.init n pgd) hadm hrun
  intro i addr access fsc page nodes hin hfault
  exact doPageFault_returns_iff hfresh (hinv.spaces i) hin hfault page nodes

end

/-- Two processes share an object, and the first one has memory of every other
kind besides. -/
def faultOps : List (ProcOp 2) := [.call 0 (.createPmo 0x2000 .shm 0),
    .call 0 (.mapRange 0x10000 0x2000 (vmrRead ||| vmrWrite) 0),
    .call 1 (.mapRange 0x40000 0x1800 vmrRead 0),
    .access 0 0x11000 .write (some 0x9000) true,
    .access 1 0x41000 .read none false,
    .call 0 (.createPmo 0x1000 .data 0x5000),
    .call 0 (.mapRange 0x20000 0x1000 vmrRead 1), .access 0 0x20000 .read none true,
    .call 0 (.mmap 0x3000 3 0x22 (-1)),
    .access 0 0x700000001234 .write (some 0xa000) true,
    .call 0 (.brk 0), .call 0 (.brk 0x600000001800),
    .access 0 0x600000001000 .write (some 0xb000) true,
    .call 0 (.unmapRange 0x10000 0x2000), .call 0 (.munmap mmapStart 0x1000)]

theorem region_faults_return_two_processes : ∃ s,
    run (procStep .always Nat.succ) (Processes.init 2 0) faultOps = .ok s ∧
    ∀ i addr access fsc page nodes, (∃ e ∈ (s.spaces i).vmrList, e.2.Has addr) →
      hardwareFault (s.spaces i) addr access = some fsc →
      ((∃ st, doPageFault Nat.succ (s.view i) fsc addr page nodes = .ok st) ↔
        fsc = .translation ∧ (needsPage (s.view i) addr = true →
          page.isSome = true ∧ nodes = true)) := by
  exact exists_ok (by decide +kernel) fun s =>
    region_faults_return .always freshPages_succ faultOps (by decide +kernel)

/-- An object of one page is mapped with a length of two pages. The first access
to the second page halts the kernel, although there is memory. -/
theorem fault_behind_object_halts : ∃ s, run (procStep .always Nat.succ) (Processes.init 1 0)
      [.call 0 (.createPmo 0x1000 .anonym 0),
        .call 0 (.mapRange 0x10000 0x2000 vmrRead 0)] = .ok s ∧
    (∃ e ∈ (s.spaces 0).vmrList, e.2.Has 0x11000) ∧
    hardwareFault (s.spaces 0) 0x11000 .read = some .translation ∧
    doPageFault Nat.succ (s.view 0) .translation 0x11000 (some 0x9000) true = .error .bug := by
  decide +kernel

end ChCore.Kernel
