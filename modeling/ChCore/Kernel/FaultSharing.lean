import ChCore.Kernel.PmoMemory
import ChCore.Kernel.AddressSpace

/-!
# Page faults in address spaces that share objects

`handle_trans_fault` with the radix trees of the objects and the contents of
physical pages. Whichever address spaces the faults come from, and in whatever
order, a page of an object gets one physical page for all of them, which is zero
when it is handed out.

The model of memory objects in `MemObject` keeps a list in place of the tree; a
fault does the same there (`handleTransFault_of_trees`).

What a run keeps is said once (`Later`): the regions, every page that an object
has, and what an address with a fault translates to.

## Main results

* `handleTransFaultIn_spec`: what one fault does
* `faults_share_pages`: every run of faults, up to the state it reaches
* `faults_on_lists`: runs on lists follow runs on trees
-/

namespace ChCore.Kernel

open Function List Option Lib.ByteMem Lib.Heaps Lib.Runs

/-- Address spaces, memory objects with their radix trees, and physical
memory. -/
structure FaultSystem where
  vmspaces : Nat → Option Vmspace
  pmos : Nat → Option (PmobjectOf Radix)
  mem : PhysMem

/-- The physical page that an object has for an index. -/
def FaultSystem.page (s : FaultSystem) (p index : Nat) : Option Nat :=
  (s.pmos p).bind fun pmo => pmo.radix.slot index

section

variable (getPages : Nat → Nat) (getPage : Nat → Option Nat)

/-- `handle_trans_fault`. -/
def handleTransFaultIn (s : FaultSystem) (v faultAddr : Nat) : Exec (FaultSystem × Int) := do
  let vs ← deref s.vmspaces v
  match findVmrForVa vs faultAddr with
  | none => return (s, -enomapping)
  | some (_, vmr) =>
    let pmo ← deref s.pmos vmr.pmo
    if pmo.type = .anonym ∨ pmo.type = .shm then
      let offset := u64 (roundDown faultAddr + 2 ^ 64 - vmr.start)
      if offset ≥ pmo.size then .error .bug
      else
        let index := offset / pageSize
        let (mem, pmo, pa) ← touchPage getPage s.mem pmo index
        let pgtbl ← mapRangeInPgtbl getPages vs.pgtbl vs.pgd
          (roundDown faultAddr) pa pageSize vmr.perm
        return ({ vmspaces := update s.vmspaces v
                    (some { vs with pgtbl })
                  pmos := update s.pmos vmr.pmo (some pmo)
                  mem }, 0)
    else .error .bug

/-- A process writes to an address; nothing happens if it is not mapped. -/
def storeUser (s : FaultSystem) (v addr : Nat) (value : UInt8) : FaultSystem :=
  match (s.vmspaces v).bind fun vs => queryInPgtbl vs.pgtbl vs.pgd addr with
  | some ⟨some pa, _⟩ =>
    { s with
      mem := { s.mem with bytes := update s.mem.bytes pa value } }
  | _ => s

/-- Page faults, and what the processes write. -/
inductive FaultOp
  | fault (v faultAddr : Nat)
  | store (v addr : Nat) (value : UInt8)
  deriving DecidableEq

/-- One step. -/
def faultStep (s : FaultSystem) : FaultOp → Exec FaultSystem
  | .fault v faultAddr => do
    let (s, _) ← handleTransFaultIn getPages getPage s v faultAddr
    return s
  | .store v addr value => .ok (storeUser s v addr value)

end

/-! ## One page in a page table -/

/-- Mapping the page of a fault. -/
lemma mapRange_fault {getPages : Nat → Nat} {root : Nat} {pt : PtState}
    (hfresh : FreshPages getPages root) (h : PtInv getPages root pt)
    {pa : Nat} (hpa : pageSize ∣ pa) (hlt : pa < 2 ^ 48) (addr flags : Nat) :
    ∃ pt', mapRangeInPgtbl getPages pt root (roundDown addr) pa pageSize flags =
    .ok pt' ∧ PtInv getPages root pt' ∧ ∀ x, physAddr pt' root x =
    if vpn x = vpn addr then some (pa + x % pageSize) else physAddr pt root x := by
  obtain ⟨f, rfl⟩ := hpa
  have hf : f < 2 ^ 36 := by
    unfold pageSize at hlt
    omega
  obtain ⟨pt', hmap, h', hentry⟩ := mapRange_page hfresh h (roundDown addr) (pageSize * f) flags
  refine ⟨pt', hmap, h', fun x => ?_⟩
  rw [physAddr_eq h', hentry, vpn_roundDown, physAddr_eq h]
  split
  · rw [map_some, mul_comm pageSize, mul_pageSize_shiftRight, getField_writePage hf]
  · rfl

/-! ## The invariant -/

/-- Regions start at pages and are no longer than their objects, if these get
their pages on demand; page tables are as the calls build them, and no physical
page is recorded twice. -/
structure FaultInv (getPages : Nat → Nat) (getPage : Nat → Option Nat)
    (s : FaultSystem) : Prop where
  table : ∀ v vs, s.vmspaces v = some vs →
    FreshPages getPages vs.pgd ∧ PtInv getPages vs.pgd vs.pgtbl
  region : ∀ v vs, s.vmspaces v = some vs → ∀ e ∈ vs.vmrList,
    pageSize ∣ e.2.start ∧ ∃ pmo, s.pmos e.2.pmo = some pmo ∧
      (pmo.type = .anonym ∨ pmo.type = .shm → e.2.size ≤ pmo.size)
  issued : ∀ p i pa, i < 2 ^ 64 → s.page p i = some pa → ∃ n, n < s.mem.pages ∧ getPage n = some pa
  single : ∀ p i p' i' pa, i < 2 ^ 64 → i' < 2 ^ 64 → s.page p i = some pa →
    s.page p' i' = some pa → p = p' ∧ i = i'

/-- The regions are disjoint, and below the addresses that page tables tell
apart. -/
structure Vmspace.UserRegions (vs : Vmspace) : Prop where
  disjoint : RegionsDisjoint vs
  low : ∀ e ∈ vs.vmrList, e.2.start + e.2.size ≤ 2 ^ 48

/-- The page table has, for an address, the page that the object of its region
has for it. -/
def FaultSystem.Translates (s : FaultSystem) (v addr : Nat) : Prop :=
  ∃ vs q vmr pa, s.vmspaces v = some vs ∧ vs.UserRegions ∧ findVmrForVa vs addr = some (q, vmr) ∧
    s.page vmr.pmo ((addr - vmr.start) / pageSize) = some pa ∧
    physAddr vs.pgtbl vs.pgd addr = some (pa + addr % pageSize)

/-- What stays in a run: the regions, what objects are, every page that an
object has, and what addresses translate to. -/
structure Later (s s' : FaultSystem) : Prop where
  regions : ∀ v, (s'.vmspaces v).map Vmspace.vmrList = (s.vmspaces v).map Vmspace.vmrList
  types : ∀ p, (s'.pmos p).map PmobjectOf.type = (s.pmos p).map PmobjectOf.type
  page : ∀ p i pa, i < 2 ^ 64 → s.page p i = some pa → s'.page p i = some pa
  translates : ∀ v addr, s.Translates v addr → s'.Translates v addr

lemma Later.refl (s : FaultSystem) : Later s s :=
  ⟨fun _ => rfl, fun _ => rfl, fun _ _ _ _ h => h, fun _ _ h => h⟩

variable {s : FaultSystem}

lemma Later.trans {s' s'' : FaultSystem} (h : Later s s') (h' : Later s' s'') : Later s s'' where
  regions v := (h'.regions v).trans (h.regions v)
  types p := (h'.types p).trans (h.types p)
  page p i pa hi hp := h'.page p i pa hi (h.page p i pa hi hp)
  translates v addr ht := h'.translates v addr (h.translates v addr ht)

/-- The faults are in regions of objects whose pages come on demand. -/
def FaultOp.OnDemand (s : FaultSystem) : FaultOp → Prop
  | .fault v addr => ∃ vs, s.vmspaces v = some vs ∧
    ∀ q vmr, findVmrForVa vs addr = some (q, vmr) → ∃ pmo, s.pmos vmr.pmo = some pmo ∧
        (pmo.type = .anonym ∨ pmo.type = .shm)
  | .store _ _ _ => True

section

variable {getPages : Nat → Nat} {getPage : Nat → Option Nat}
  {s s' : FaultSystem}

lemma FaultOp.OnDemand.later {op : FaultOp} (h : op.OnDemand s)
    (hlater : Later s s') : op.OnDemand s' := by
  cases op with
  | fault v addr =>
    obtain ⟨vs, hvs, hregion⟩ := h
    have hlist := hlater.regions v
    rw [hvs, map_some] at hlist
    obtain ⟨vs', hvs', hsame⟩ := map_eq_some_iff.1 hlist
    refine ⟨vs', hvs', fun q vmr hfind => ?_⟩
    rw [findVmrForVa, hsame] at hfind
    obtain ⟨pmo, hpmo, htype⟩ := hregion q vmr hfind
    have htypes := hlater.types vmr.pmo
    rw [hpmo, map_some] at htypes
    obtain ⟨pmo', hpmo', hsame'⟩ := map_eq_some_iff.1 htypes
    exact ⟨pmo', hpmo', hsame'.symm ▸ htype⟩
  | store v addr value => trivial

variable {pa : Nat}

lemma FaultInv.aligned (h : FaultInv getPages getPage s)
    (hfresh : FreshObjectPages getPage) {p i : Nat} (hi : i < 2 ^ 64)
    (hpa : s.page p i = some pa) : pageSize ∣ pa ∧ pa ≠ 0 := by
  obtain ⟨n, -, hn⟩ := h.issued p i pa hi hpa
  exact ⟨hfresh.aligned n pa hn, hfresh.nonzero n pa hn⟩

variable {mem' : PhysMem} {pmo pmo' : PmobjectOf Radix} {index o : Nat}

/-- The pages that the objects have after one was touched. -/
lemma page_touched (htouch : PageTouch getPage s.mem pmo index mem' pmo' pa)
    (hpmo : s.pmos o = some pmo) (vmspaces : Nat → Option Vmspace) (p i : Nat) (hi : i < 2 ^ 64) :
    FaultSystem.page ⟨vmspaces, update s.pmos o (some pmo'), mem'⟩ p i =
    if p = o ∧ i = index then some pa else s.page p i := by
  by_cases hp : p = o
  · subst hp
    simp only [FaultSystem.page, update_self, bind_some, true_and]
    cases htouch with
    | found hslot =>
      by_cases hii : i = index
      · rw [if_pos hii, hii, hslot]
      · rw [if_neg hii, hpmo, bind_some]
    | new hnone hpa hslot => rw [hslot i hi, hpmo, bind_some]
  · rw [if_neg (fun h => hp h.1)]
    simp only [FaultSystem.page, update_of_ne hp]

/-- The page that was touched is a page from `get_pages`, and no other page of
an object. -/
lemma FaultInv.touched_page (h : FaultInv getPages getPage s)
    (hfresh : FreshObjectPages getPage) (hindex : index < 2 ^ 64) (hpmo : s.pmos o = some pmo)
    (htouch : PageTouch getPage s.mem pmo index mem' pmo' pa) :
    (s.mem.pages ≤ mem'.pages ∧ mem'.pages ≤ s.mem.pages + 1) ∧
    (∃ n, n < mem'.pages ∧ getPage n = some pa) ∧
    ∀ p i, i < 2 ^ 64 → s.page p i = some pa → p = o ∧ i = index := by
  cases htouch with
  | found hslot =>
    have hpage : s.page o index = some pa := by rw [FaultSystem.page, hpmo, bind_some, hslot]
    exact ⟨⟨le_rfl, Nat.le_succ _⟩, h.issued o index pa hindex hpage,
      fun p i hi hp => h.single p i o index pa hi hindex hp hpage⟩
  | new hnone hpa hslot =>
    refine ⟨⟨Nat.le_succ _, le_rfl⟩, ⟨s.mem.pages, Nat.lt_succ_self _, hpa⟩, fun p i hi hp => ?_⟩
    obtain ⟨n, hn, hnp⟩ := h.issued p i pa hi hp
    have hsame := hfresh.distinct n s.mem.pages pa hnp hpa
    omega

variable {v : Nat} {vs : Vmspace}

/-- The state after a fault. -/
lemma FaultInv.touched (h : FaultInv getPages getPage s)
    (hfresh : FreshObjectPages getPage) {pt : PtState} (hindex : index < 2 ^ 64)
    (hvs : s.vmspaces v = some vs) (hpt : PtInv getPages vs.pgd pt) (hpmo : s.pmos o = some pmo)
    (htouch : PageTouch getPage s.mem pmo index mem' pmo' pa) :
    FaultInv getPages getPage ⟨update s.vmspaces v (some { vs with pgtbl := pt }),
        update s.pmos o (some pmo'), mem'⟩ := by
  obtain ⟨⟨hle, -⟩, hissued, hother⟩ := h.touched_page hfresh hindex hpmo htouch
  have hpair : ∀ b : Nat × Nat, b.2 < 2 ^ 64 → FaultSystem.page
      ⟨update s.vmspaces v (some { vs with pgtbl := pt }), update s.pmos o (some pmo'), mem'⟩
      b.1 b.2 = if b = (o, index) then some pa else s.page b.1 b.2 := by
    intro b hb
    rw [page_touched htouch hpmo _ _ _ hb]
    simp only [Prod.ext_iff]
  have hsize : pmo'.size = pmo.size := by cases htouch <;> rfl
  have htype : pmo'.type = pmo.type := by cases htouch <;> rfl
  have hvmspace : ∀ u us, update s.vmspaces v (some { vs with pgtbl := pt }) u = some us → ∃ us0,
        s.vmspaces u = some us0 ∧ us.vmrList = us0.vmrList ∧
        us.pgd = us0.pgd ∧ PtInv getPages us.pgd us.pgtbl := by
    intro u us hus
    by_cases hu : u = v
    · subst hu
      rw [update_self, Option.some.injEq] at hus
      subst hus
      exact ⟨vs, hvs, rfl, rfl, hpt⟩
    · rw [update_of_ne hu] at hus
      exact ⟨us, hus, rfl, rfl, (h.table u us hus).2⟩
  exact {
    table := by
      intro u us hus
      obtain ⟨us0, hus0, -, hpgd, hinv⟩ := hvmspace u us hus
      exact ⟨hpgd ▸ (h.table u us0 hus0).1, hinv⟩
    region := by
      intro u us hus e he
      obtain ⟨us0, hus0, hlist, -, -⟩ := hvmspace u us hus
      rw [hlist] at he
      obtain ⟨halign, pmo1, hpmo1, hsize1⟩ := h.region u us0 hus0 e he
      refine ⟨halign, ?_⟩
      by_cases hp : e.2.pmo = o
      · rw [hp, hpmo, Option.some.injEq] at hpmo1
        subst hpmo1
        exact ⟨pmo', by simp [hp], by rw [htype, hsize]; exact hsize1⟩
      · exact ⟨pmo1, by simpa [hp] using hpmo1, hsize1⟩
    issued := by
      intro p i q hi hq
      rcases bind_eq_some hpair (b := (p, i)) hi hq with ⟨-, rfl⟩ | ⟨-, hq⟩
      · exact hissued
      obtain ⟨n, hn, hnq⟩ := h.issued p i q hi hq
      exact ⟨n, lt_of_lt_of_le hn hle, hnq⟩
    single := by
      intro p i p' i' q hi hi' hq hq'
      exact Prod.mk.inj (bind_single hpair (fun b hb hp => Prod.ext_iff.2 (hother b.1 b.2 hb hp))
        (fun b c y hb hc hy hy' => Prod.ext_iff.2 (h.single _ _ _ _ y hb hc hy hy'))
        (p, i) (p', i') q hi hi' hq hq')
  }

lemma index_lt {addr q : Nat} {vmr : Vmregion} (hfind : findVmrForVa vs addr = some (q, vmr)) :
    (addr - vmr.start) / pageSize < 2 ^ 64 := by
  have hlt := (findVmrForVa_inv hfind).2.2.trans (u64_lt _)
  unfold pageSize
  omega

/-- Two addresses with one entry in the page table are in one page of one
region. -/
lemma Vmspace.UserRegions.same_page (h : vs.UserRegions)
    (halign : ∀ e ∈ vs.vmrList, pageSize ∣ e.2.start) {a b : Nat} {e f : Nat × Vmregion}
    (ha : findVmrForVa vs a = some e) (hb : findVmrForVa vs b = some f) (hvpn : vpn a = vpn b) :
    e = f ∧ (a - e.2.start) / pageSize = (b - e.2.start) / pageSize := by
  have hin : ∀ {x} {e : Nat × Vmregion}, findVmrForVa vs x = some e → e ∈ vs.vmrList ∧ x < 2 ^ 48 ∧
      (∃ k, e.2.start = pageSize * k) ∧
      e.2.start ≤ roundDown x ∧ roundDown x < e.2.start + e.2.size := by
    intro x e hx
    obtain ⟨hmem, hlo, hhi⟩ := findVmrForVa_inv hx
    have hend : e.2.end ≤ e.2.start + e.2.size := Nat.mod_le _ _
    have hlow := h.low e hmem
    obtain ⟨k, hk⟩ := halign e hmem
    refine ⟨hmem, by omega, ⟨k, hk⟩, ?_⟩
    unfold roundDown pageSize at *
    omega
  obtain ⟨hmemA, hltA, ⟨k, hk⟩, hhasA⟩ := hin ha
  obtain ⟨hmemB, hltB, -, hhasB⟩ := hin hb
  have hpage : a / pageSize = b / pageSize := by
    unfold vpn pageSize at *
    omega
  rw [roundDown, hpage] at hhasA
  refine ⟨h.disjoint.unique _ e hmemA f hmemB hhasA hhasB, ?_⟩
  rw [hk]
  unfold pageSize at *
  omega

/-- What stays when the page of a fault is mapped. -/
lemma FaultInv.later_touched (h : FaultInv getPages getPage s) {pt : PtState} {addr q : Nat}
    {vmr : Vmregion} (hvs : s.vmspaces v = some vs) (hfind : findVmrForVa vs addr = some (q, vmr))
    (hpmo : s.pmos vmr.pmo = some pmo)
    (hentry : ∀ x, physAddr pt vs.pgd x =
      if vpn x = vpn addr then some (pa + x % pageSize) else physAddr vs.pgtbl vs.pgd x)
    (htouch : PageTouch getPage s.mem pmo ((addr - vmr.start) / pageSize) mem' pmo' pa) :
    Later s ⟨update s.vmspaces v (some { vs with pgtbl := pt }),
      update s.pmos vmr.pmo (some pmo'), mem'⟩ := by
  have hpage : ∀ p i q, i < 2 ^ 64 → s.page p i = some q →
      FaultSystem.page ⟨update s.vmspaces v (some { vs with pgtbl := pt }),
        update s.pmos vmr.pmo (some pmo'), mem'⟩ p i = some q := by
    intro p i q hi hq
    rw [page_touched htouch hpmo _ p i hi]
    by_cases hpi : p = vmr.pmo ∧ i = (addr - vmr.start) / pageSize
    · rw [if_pos hpi]
      rw [hpi.1, hpi.2, FaultSystem.page, hpmo, bind_some] at hq
      cases htouch with
      | found hslot => rw [← hslot, hq]
      | new hnone hpa hslot => simp [hnone] at hq
    · rw [if_neg hpi]
      exact hq
  refine ⟨fun u => ?_, fun p => ?_, hpage, ?_⟩
  · by_cases hu : u = v
    · subst hu
      simp [hvs]
    · simp [hu]
  · have htype : pmo'.type = pmo.type := by cases htouch <;> rfl
    by_cases hp : p = vmr.pmo
    · subst hp
      simp [hpmo, htype]
    · simp [hp]
  rintro u x ⟨us, r, reg, y, hus, hregions, hx, hy, hphys⟩
  have hkeep := hpage _ _ _ (index_lt hx) hy
  by_cases hu : u = v
  · subst hu
    obtain rfl : us = vs := by simpa [hus] using hvs
    refine ⟨{ us with pgtbl := pt }, r, reg, y, update_self _ _ _,
      ⟨⟨hregions.1.1, hregions.1.2, hregions.1.3⟩, hregions.2⟩, hx, hkeep, ?_⟩
    rw [hentry]
    split_ifs with hvpn
    · -- the page is mapped again, and the object has the same page for it
      obtain ⟨heq, hindex⟩ :=
        hregions.same_page (fun e he => (h.region u us hus e he).1) hx hfind hvpn
      cases heq
      rw [hindex, page_touched htouch hpmo _ _ _ (index_lt hfind), if_pos ⟨rfl, rfl⟩] at hkeep
      rw [Option.some.inj hkeep]
    · exact hphys
  · exact ⟨us, r, reg, y, (update_of_ne hu _ _).trans hus, hregions, hx, hkeep, hphys⟩

/-- **A page fault** maps the page of the object for the faulting address, and
the page is zero if it is a new one. -/
theorem handleTransFaultIn_spec (hfresh : FreshObjectPages getPage)
    (hphys : ∀ n pa, getPage n = some pa → pa < 2 ^ 48)
    (hnext : ∃ pa, getPage s.mem.pages = some pa)
    (h : FaultInv getPages getPage s) {addr q : Nat} {vmr : Vmregion} (hvs : s.vmspaces v = some vs)
    (hfind : findVmrForVa vs addr = some (q, vmr)) (hpmo : s.pmos vmr.pmo = some pmo)
    (htype : pmo.type = .anonym ∨ pmo.type = .shm) :
    ∃ s' vs' pa, handleTransFaultIn getPages getPage s v addr = .ok (s', 0) ∧
    FaultInv getPages getPage s' ∧ Later s s' ∧
    s'.mem.pages ≤ s.mem.pages + 1 ∧ s'.vmspaces v = some vs' ∧
    s'.page vmr.pmo ((addr - vmr.start) / pageSize) = some pa ∧
    physAddr vs'.pgtbl vs'.pgd addr = some (pa + addr % pageSize) ∧
    (s.page vmr.pmo ((addr - vmr.start) / pageSize) = none →
    ∀ j, j < pageSize → s'.mem.bytes (pa + j) = 0) ∧
    (vs.UserRegions → s'.Translates v addr) := by
  obtain ⟨hmem, hlo, hhi⟩ := findVmrForVa_inv hfind
  obtain ⟨halign, pmo0, hpmo0, hsize⟩ := h.region v vs hvs _ hmem
  dsimp only at halign hpmo0 hsize
  obtain rfl : pmo = pmo0 := by simpa [hpmo] using hpmo0
  have hshort := hsize htype
  have hend : vmr.end ≤ vmr.start + vmr.size := Nat.mod_le _ _
  have haddr : addr < 2 ^ 64 := hhi.trans (u64_lt _)
  obtain ⟨hoff, hindexEq⟩ := fault_offset halign hlo haddr
  have hindex := index_lt hfind
  have hpage : s.page vmr.pmo ((addr - vmr.start) / pageSize) =
      pmo.radix.slot ((addr - vmr.start) / pageSize) := by
    rw [FaultSystem.page, hpmo, bind_some]
  obtain ⟨mem', pmo', pa, htouch, hcases⟩ := touchPage_cases hfresh hnext htype hindex fun pa hpa =>
      (h.aligned hfresh hindex (hpage.trans hpa)).2
  obtain ⟨⟨-, hpages⟩, ⟨n, -, hn⟩, -⟩ := h.touched_page hfresh hindex hpmo hcases
  obtain ⟨hroot, hpt⟩ := h.table v vs hvs
  obtain ⟨pt', hmap, hpt', hphysAddr⟩ := mapRange_fault hroot hpt
    (hfresh.aligned n pa hn) (hphys n pa hn) addr vmr.perm
  have haddrPa : physAddr pt' vs.pgd addr = some (pa + addr % pageSize) := by
    rw [hphysAddr, if_pos rfl]
  have hnew := page_touched hcases hpmo (update s.vmspaces v (some { vs with pgtbl := pt' }))
    vmr.pmo _ hindex
  rw [if_pos ⟨rfl, rfl⟩] at hnew
  refine ⟨_, { vs with pgtbl := pt' }, pa, ?_, h.touched hfresh hindex hvs hpt' hpmo hcases,
    h.later_touched hvs hfind hpmo hphysAddr hcases, hpages, update_self _ _ _, hnew,
    haddrPa, fun hnone j hj => ?_, fun hregions => ⟨_, q, vmr, pa, update_self _ _ _,
      ⟨⟨hregions.1.1, hregions.1.2, hregions.1.3⟩, hregions.2⟩, hfind, hnew, haddrPa⟩⟩
  · have hnot : ¬ u64 (roundDown addr + 2 ^ 64 - vmr.start) ≥ pmo.size := by omega
    simp only [handleTransFaultIn, deref, hvs, hfind, hpmo, htype, if_true,
      if_neg hnot, hindexEq, htouch, hmap, ok_bind, pure_eq_ok]
  · rw [hpage] at hnone
    cases hcases with
    | found hslot => simp [hslot] at hnone
    | new _ hpa hslot => exact fill_of_inside hj

/-! ## Runs -/

/-- What processes write to their pages changes nothing else. -/
lemma storeUser_eq (v addr : Nat) (value : UInt8) : ∃ bytes, storeUser s v addr value =
    { s with mem := { s.mem with bytes } } := by
  unfold storeUser
  split
  · exact ⟨_, rfl⟩
  · exact ⟨s.mem.bytes, rfl⟩

/-- Every step is taken, and keeps the invariant. -/
lemma faultStep_spec (hfresh : FreshObjectPages getPage)
    (hphys : ∀ n pa, getPage n = some pa → pa < 2 ^ 48)
    (hnext : ∃ pa, getPage s.mem.pages = some pa)
    (h : FaultInv getPages getPage s) {op : FaultOp} (hop : op.OnDemand s) :
    ∃ s', faultStep getPages getPage s op = .ok s' ∧ FaultInv getPages getPage s' ∧ Later s s' ∧
    s'.mem.pages ≤ s.mem.pages + 1 := by
  cases op with
  | fault v addr =>
    obtain ⟨vs, hvs, hregion⟩ := hop
    cases hfind : findVmrForVa vs addr with
    | none =>
      refine ⟨s, ?_, h, Later.refl s, Nat.le_succ _⟩
      simp [faultStep, handleTransFaultIn, deref, hvs, hfind]
    | some e =>
      obtain ⟨pmo, hpmo, htype⟩ := hregion e.1 e.2 hfind
      obtain ⟨s', vs', pa, hfault, h', hlater, hpages, -⟩ :=
        handleTransFaultIn_spec hfresh hphys hnext h hvs hfind hpmo htype
      exact ⟨s', by simp [faultStep, hfault], h', hlater, hpages⟩
  | store v addr value =>
    obtain ⟨bytes, heq⟩ := storeUser_eq (s := s) v addr value
    refine ⟨_, rfl, ?_, ?_, ?_⟩
    · rw [heq]
      exact ⟨h.table, h.region, h.issued, h.single⟩
    · rw [heq]
      exact ⟨fun _ => rfl, fun _ => rfl, fun _ _ _ _ hp => hp, fun _ _ ht => ht⟩
    rw [heq]
    exact Nat.le_succ _

/-- There are enough pages for so many faults. -/
def HasPages (getPage : Nat → Option Nat) (s : FaultSystem) (count : Nat) : Prop :=
  ∀ n, n < s.mem.pages + count → ∃ pa, getPage n = some pa

lemma faultRun_spec (hfresh : FreshObjectPages getPage)
    (hphys : ∀ n pa, getPage n = some pa → pa < 2 ^ 48) (ops : List FaultOp) (count : Nat) :
    ∀ s, FaultInv getPages getPage s → (∀ op ∈ ops, op.OnDemand s) →
    HasPages getPage s (ops.length + count) →
    ∃ s', run (faultStep getPages getPage) s ops = .ok s' ∧
    FaultInv getPages getPage s' ∧ Later s s' ∧ HasPages getPage s' count := by
  induction ops with
  | nil =>
    intro s h _ hroom
    rw [length_nil, zero_add] at hroom
    exact ⟨s, rfl, h, Later.refl s, hroom⟩
  | cons op ops ih =>
    intro s h hops hroom
    rw [HasPages, length_cons] at hroom
    obtain ⟨s1, hstep, h₁, hlater1, hpages1⟩ := faultStep_spec hfresh hphys
      (hroom s.mem.pages (by omega)) h (hops op mem_cons_self)
    obtain ⟨s2, hrun, h2, hlater2, hroom2⟩ := ih s1 h₁
      (fun o ho => (hops o (mem_cons_of_mem op ho)).later hlater1)
      (fun n hn => hroom n (by omega))
    exact ⟨s2, by rw [run_cons_ok _ hstep, hrun], h2, hlater1.trans hlater2, hroom2⟩

/-- **Page faults share pages.** After any interleaving of faults of any number
of address spaces, with the processes writing to their pages in between, an
index of an object has one physical page, which no other index of an object has.
Each fault in the run has mapped that page at the faulting address, and the page
was zero if the index had none before. In the state reached every address with a
fault still translates to the page of its index, where the regions do not
overlap. -/
theorem faults_share_pages (hfresh : FreshObjectPages getPage)
    (hphys : ∀ n pa, getPage n = some pa → pa < 2 ^ 48) {s0 : FaultSystem}
    (hstart : FaultInv getPages getPage s0) (ops : List FaultOp)
    (hops : ∀ op ∈ ops, op.OnDemand s0)
    (hroom : HasPages getPage s0 ops.length) :
    ∃ s, run (faultStep getPages getPage) s0 ops = .ok s ∧
      (∀ p i p' i' pa, i < 2 ^ 64 → i' < 2 ^ 64 → s.page p i = some pa →
        s.page p' i' = some pa → p = p' ∧ i = i') ∧
      ∀ before v addr after, ops = before ++ .fault v addr :: after →
        ∃ s1, run (faultStep getPages getPage) s0 before = .ok s1 ∧
          ∀ vs q vmr, s1.vmspaces v = some vs → findVmrForVa vs addr = some (q, vmr) → ∃ s2 vs2 pa,
              handleTransFaultIn getPages getPage s1 v addr = .ok (s2, 0) ∧
              s2.vmspaces v = some vs2 ∧
              s.page vmr.pmo ((addr - vmr.start) / pageSize) = some pa ∧
              physAddr vs2.pgtbl vs2.pgd addr = some (pa + addr % pageSize) ∧
              (s1.page vmr.pmo ((addr - vmr.start) / pageSize) = none →
                ∀ j, j < pageSize → s2.mem.bytes (pa + j) = 0) ∧
              (vs.UserRegions → s.Translates v addr) := by
  obtain ⟨s, hrun, hinv, -, -⟩ := faultRun_spec hfresh hphys ops 0 s0 hstart hops hroom
  refine ⟨s, hrun, hinv.single, ?_⟩
  intro before v addr after hsplit
  subst hsplit
  rw [length_append] at hroom
  obtain ⟨s1, hbefore, h₁, hlater1, hroom1⟩ := faultRun_spec hfresh hphys before _ s0 hstart
      (fun op hop => hops op (mem_append_left _ hop)) hroom
  rw [HasPages, length_cons] at hroom1
  refine ⟨s1, hbefore, fun vs q vmr hvs hfind => ?_⟩
  have hfault : FaultOp.OnDemand s1 (.fault v addr) :=
    (hops _ (mem_append_right _ mem_cons_self)).later hlater1
  obtain ⟨vs', hvs', hregion⟩ := hfault
  obtain rfl : vs = vs' := by simpa [hvs] using hvs'
  obtain ⟨pmo, hpmo, htype⟩ := hregion q vmr hfind
  obtain ⟨s2, vs2, pa, hhandle, h2, hlater2, hpages2, hvs2, hpage, hphysAddr,
      hzero, htranslates⟩ := handleTransFaultIn_spec hfresh hphys
    (hroom1 s1.mem.pages (by omega)) h₁ hvs hfind hpmo htype
  -- the rest of the run keeps the page, and what the address translates to
  have hstep : faultStep getPages getPage s1 (.fault v addr) = .ok s2 := by
    simp [faultStep, hhandle]
  obtain ⟨s3, hafter, -, hlater3, -⟩ := faultRun_spec hfresh hphys after 0 s2 h2
    (fun op hop => ((hops op (mem_append_right _
      (mem_cons_of_mem _ hop))).later hlater1).later hlater2)
    (fun n hn => hroom1 n (by omega))
  rw [run_append hbefore, run_cons_ok _ hstep, hafter] at hrun
  cases hrun
  exact ⟨s2, vs2, pa, hhandle, hvs2, hlater3.page _ _ pa (index_lt hfind) hpage, hphysAddr, hzero,
    fun hregions => hlater3.translates v addr (htranslates hregions)⟩

end

/-- Two address spaces with regions for one object of type `PMO_SHM`. -/
def sharedObject : FaultSystem where
  vmspaces v := if v = 0 then
      some { vmspaceInit 0 with vmrList := [(0, ⟨0x1000, 0x2000, vmrWrite, 7⟩)] }
    else if v = 1 then
      some { vmspaceInit 0 with vmrList := [(0, ⟨0x9000, 0x2000, vmrWrite, 7⟩)] }
    else none
  pmos p := if p = 7 then some ⟨newRadix, 0, 0x2000, .shm⟩ else none
  mem := ⟨fun _ => 5, 0⟩

/-- All physical pages below `2 ^ 48` but page 0. -/
def pagesBelow (n : Nat) : Option Nat := if n < 2 ^ 36 - 1 then some ((n + 1) * pageSize) else none

lemma freshObjectPages_below : FreshObjectPages pagesBelow where
  aligned n pa h := by
    obtain ⟨-, hpa⟩ := ite_none_right_eq_some.1 h
    cases hpa
    exact Dvd.intro_left _ rfl
  nonzero n pa h := by
    obtain ⟨-, hpa⟩ := ite_none_right_eq_some.1 h
    cases hpa
    unfold pageSize
    omega
  distinct m n pa hm hn := by
    obtain ⟨-, hpa⟩ := ite_none_right_eq_some.1 hm
    obtain ⟨-, heq⟩ := ite_none_right_eq_some.1 hn
    cases hpa
    rw [Option.some.injEq, pageSize] at heq
    omega

lemma pagesBelow_lt (n pa : Nat) (h : pagesBelow n = some pa) : pa < 2 ^ 48 := by
  obtain ⟨hn, hpa⟩ := ite_none_right_eq_some.1 h
  cases hpa
  unfold pageSize
  omega

lemma sharedObject_space {v : Nat} {vs : Vmspace} (hvs : sharedObject.vmspaces v = some vs) :
    ∃ start, (start = 0x1000 ∨ start = 0x9000) ∧
    vs = { vmspaceInit 0 with vmrList := [(0, ⟨start, 0x2000, vmrWrite, 7⟩)] } := by
  dsimp only [sharedObject] at hvs
  split at hvs
  · exact ⟨_, .inl rfl, (Option.some.inj hvs).symm⟩
  · exact ⟨_, .inr rfl, (Option.some.inj (ite_none_right_eq_some.1 hvs).2).symm⟩

lemma sharedObject_inv : FaultInv Nat.succ pagesBelow sharedObject where
  table v vs hvs := by
    have hzero : PtInv Nat.succ 0 (vmspaceInit 0).pgtbl := (PtRefines.empty (fun _ => rfl) rfl).inv
    obtain ⟨start, -, rfl⟩ := sharedObject_space hvs
    exact ⟨freshPages_succ, hzero⟩
  region v vs hvs e he := by
    obtain ⟨start, rfl | rfl, rfl⟩ := sharedObject_space hvs <;> obtain rfl := mem_singleton.1 he
    · exact ⟨by decide, _, rfl, fun _ => by decide⟩
    · exact ⟨by decide, _, rfl, fun _ => by decide⟩
  issued p i pa _ h := by
    by_cases hp : p = 7
    · simp [FaultSystem.page, sharedObject, hp, newRadix_slot] at h
    · simp [FaultSystem.page, sharedObject, hp] at h
  single p i _ _ pa _ _ h _ := by
    by_cases hp : p = 7
    · simp [FaultSystem.page, sharedObject, hp, newRadix_slot] at h
    · simp [FaultSystem.page, sharedObject, hp] at h

/-- Both processes touch the second page of the object, and the first one writes
to it in between. -/
def sharedFaults : List FaultOp :=
  [.fault 0 0x2010, .store 0 0x2010 1, .fault 1 0xa020, .fault 1 0x9000]

lemma sharedFaults_onDemand (op : FaultOp) (h : op ∈ sharedFaults) : op.OnDemand sharedObject := by
  have hall : ∀ v addr vs, sharedObject.vmspaces v = some vs →
      FaultOp.OnDemand sharedObject (.fault v addr) := by
    intro v addr vs hvs
    refine ⟨vs, hvs, fun q vmr hfind => ?_⟩
    obtain ⟨start, -, rfl⟩ := sharedObject_space hvs
    cases mem_singleton.1 (findVmrForVa_inv hfind).1
    exact ⟨_, rfl, .inr rfl⟩
  simp only [sharedFaults, mem_cons, not_mem_nil, or_false] at h
  rcases h with rfl | rfl | rfl | rfl
  · exact hall 0 _ _ rfl
  · trivial
  · exact hall 1 _ _ rfl
  · exact hall 1 _ _ rfl

lemma sharedObject_regions {v : Nat} {vs : Vmspace} (hvs : sharedObject.vmspaces v = some vs) :
    vs.UserRegions := by
  obtain ⟨start, rfl | rfl, rfl⟩ := sharedObject_space hvs <;>
    exact ⟨⟨by decide, by simp, fun _ => by simp⟩, by decide⟩

/-- The first fault of the run. -/
theorem faults_share_pages_two_processes :
    ∃ s, run (faultStep Nat.succ pagesBelow) sharedObject sharedFaults = .ok s ∧
      (∀ p i p' i' pa, i < 2 ^ 64 → i' < 2 ^ 64 → s.page p i = some pa →
        s.page p' i' = some pa → p = p' ∧ i = i') ∧
      ∃ s2 vs2 pa, handleTransFaultIn Nat.succ pagesBelow sharedObject 0 0x2010 = .ok (s2, 0) ∧
        s2.vmspaces 0 = some vs2 ∧ s.page 7 1 = some pa ∧
        physAddr vs2.pgtbl vs2.pgd 0x2010 = some (pa + 0x10) ∧
        (∀ j, j < pageSize → s2.mem.bytes (pa + j) = 0) ∧ s.Translates 0 0x2010 := by
  have hroom : HasPages pagesBelow sharedObject sharedFaults.length := by
    intro n hn
    have hlt : n < 4 := hn
    exact ⟨_, if_pos (by omega)⟩
  obtain ⟨s, hrun, hsingle, hfaults⟩ := faults_share_pages freshObjectPages_below
    pagesBelow_lt sharedObject_inv sharedFaults sharedFaults_onDemand hroom
  obtain ⟨s1, hnil, hfirst⟩ := hfaults [] 0 0x2010 _ rfl
  cases hnil
  obtain ⟨s2, vs2, pa, hfault, hvs2, hpage, hphys, hzero, htranslates⟩ :=
    hfirst _ 0 ⟨0x1000, 0x2000, vmrWrite, 7⟩ rfl (by decide)
  exact ⟨s, hrun, hsingle, s2, vs2, pa, hfault, hvs2, hpage, hphys,
    hzero (newRadix_slot 1), htranslates (sharedObject_regions (v := 0) rfl)⟩

/-! ## Lists in place of trees -/

/-- The object with a list of pages that its tree holds. -/
structure SameObject (tree : PmobjectOf Radix) (list : Pmobject) : Prop where
  holds : tree.radix.Holds list.radix
  start : tree.start = list.start
  size : tree.size = list.size
  type : tree.type = list.type

/-- The system of `MemObject` for a system with trees. -/
structure SameSystem (s : FaultSystem) (m : MemSystem) : Prop where
  vmspaces : s.vmspaces = m.vmspaces
  pmos : ∀ p, Option.Rel SameObject (s.pmos p) (m.pmos p)

/-- The list that the tree holds after a page was touched. -/
lemma touchPage_sameObject {getPage : Nat → Option Nat} {mem mem' : PhysMem}
    {pmo pmo' : PmobjectOf Radix} {list : Pmobject} {index pa page : Nat}
    (h : SameObject pmo list) (hindex : index < 2 ^ 64)
    (hpage : getPage mem.pages = some page) (hnonzero : page ≠ 0)
    (htouch : touchPage getPage mem pmo index = .ok (mem', pmo', pa)) :
    (list.radix.lookup index = some pa ∧ pmo' = pmo) ∨ (list.radix.lookup index = none ∧ pa = page ∧
    SameObject pmo' { list with radix := (index, page) :: list.radix }) := by
  unfold touchPage at htouch
  have hget : getPageFromPmo pmo index = (list.radix.lookup index).getD 0 := by
    rw [getPageFromPmo, radixGet_eq, h.holds.slot index hindex]
  by_cases hzero : getPageFromPmo pmo index = 0
  · have hnone : list.radix.lookup index = none := (h.holds.get_eq_zero hindex).1 hzero
    rw [if_pos hzero, newZeroPage, hpage, ok_bind] at htouch
    obtain ⟨pmo1, hcommit, hend⟩ := bind_eq_ok.1 htouch
    cases hend
    obtain ⟨radix', hadd, hholds⟩ := h.holds.add hindex hnonzero hnone
    unfold commitPageToPmo at hcommit
    split at hcommit
    · cases hcommit
    rw [hadd, ok_bind] at hcommit
    cases hcommit
    exact .inr ⟨hnone, rfl, hholds, h.start, h.size, h.type⟩
  · rw [if_neg hzero] at htouch
    cases htouch
    refine .inl ⟨?_, rfl⟩
    cases hlookup : list.radix.lookup index with
    | none => simp [hget, hlookup] at hzero
    | some q => rw [hget, hlookup, getD_some]

lemma SameSystem.update {m : MemSystem} (h : SameSystem s m)
    {tree : PmobjectOf Radix} {list : Pmobject} (hsame : SameObject tree list)
    (v o : Nat) (vs : Vmspace) (mem : PhysMem) (frames : List Nat) :
    SameSystem ⟨update s.vmspaces v (some vs), update s.pmos o (some tree), mem⟩
    (((m.setPmo o list).take frames).setVmspace v vs) where
  vmspaces := by
    rw [h.vmspaces]
    rfl
  pmos p := by
    by_cases hp : p = o
    · subst hp
      simpa [MemSystem.setVmspace, MemSystem.take, MemSystem.setPmo] using hsame
    · simpa [MemSystem.setVmspace, MemSystem.take, MemSystem.setPmo, hp] using h.pmos p

/-- A fault does the same to lists as to trees. -/
lemma handleTransFault_of_trees {getPages : Nat → Nat}
    {getPage : Nat → Option Nat} {s' : FaultSystem} {m : MemSystem}
    (h : SameSystem s m) {page : Nat} (hpage : getPage s.mem.pages = some page)
    (hnonzero : page ≠ 0) {v addr : Nat} {r : Int}
    (hrun : handleTransFaultIn getPages getPage s v addr = .ok (s', r)) :
    ∃ m', handleTransFault getPages m v addr page = .ok (m', r) ∧ SameSystem s' m' := by
  obtain ⟨vs, hvs, hrest⟩ := bind_eq_ok.1 hrun
  have hvs' : m.vmspaces v = some vs := h.vmspaces ▸ deref_inv hvs
  cases hfind : findVmrForVa vs addr with
  | none =>
    rw [hfind] at hrest
    cases hrest
    exact ⟨m, by simp [handleTransFault, deref, hvs', hfind], h⟩
  | some e =>
    obtain ⟨q, vmr⟩ := e
    rw [hfind] at hrest
    obtain ⟨pmo, hpmo, hrest⟩ := bind_eq_ok.1 hrest
    have hrel := h.pmos vmr.pmo
    rw [deref_inv hpmo] at hrel
    cases hlist : m.pmos vmr.pmo with
    | none =>
      rw [hlist] at hrel
      cases hrel
    | some list =>
      rw [hlist] at hrel
      have hsame : SameObject pmo list := by
        cases hrel with
        | some hsame => exact hsame
      by_cases htype : pmo.type = .anonym ∨ pmo.type = .shm
      · rw [if_pos htype] at hrest
        obtain ⟨hbug, hrest⟩ := guard_eq_ok hrest
        obtain ⟨⟨mem', pmo', pa⟩, htouch, hrest⟩ := bind_eq_ok.1 hrest
        obtain ⟨pgtbl, hmap, hend⟩ := bind_eq_ok.1 hrest
        cases hend
        have hindex : u64 (roundDown addr + 2 ^ 64 - vmr.start) / pageSize < 2 ^ 64 :=
          (Nat.div_le_self _ _).trans_lt (u64_lt _)
        have hcases := touchPage_sameObject hsame hindex hpage hnonzero htouch
        rw [hsame.size] at hbug
        rw [hsame.type] at htype
        rcases hcases with ⟨hlookup, hpmo'⟩ | ⟨hlookup, hpa, hsame'⟩
        · subst hpmo'
          refine ⟨m.setVmspace v { vs with pgtbl }, ?_, ?_, ?_⟩
          · simp only [handleTransFault, deref, hvs', hfind, hlist,
              htype, if_true, if_neg hbug, hlookup, hmap, ok_bind,
              pure_eq_ok]
          · rw [h.vmspaces]
            rfl
          have hid : update s.pmos vmr.pmo (some pmo') = s.pmos := by
            rw [← deref_inv hpmo, update_eq_self]
          rw [hid]
          exact h.pmos
        · subst hpa
          refine ⟨_, ?_, h.update hsame' v vmr.pmo { vs with pgtbl } mem' [pa / pageSize]⟩
          simp only [handleTransFault, deref, hvs', hfind, hlist, htype,
            if_true, if_neg hbug, hlookup, hmap, ok_bind, pure_eq_ok]
      · rw [if_neg htype] at hrest
        cases hrest

/-- A fault at `f.2.1` in address space `f.1` of a system with lists. -/
def listFault (getPages : Nat → Nat) (m : MemSystem) (f : Nat × Nat × Nat) : Exec MemSystem := do
  let (m, _) ← handleTransFault getPages m f.1 f.2.1 f.2.2
  return m

def FaultOp.fault? : FaultOp → Option (Nat × Nat)
  | .fault v addr => some (v, addr)
  | .store .. => none

/-- **Lists do in place of trees**, whatever the processes touch and write. -/
theorem faults_on_lists {getPages : Nat → Nat} {getPage : Nat → Option Nat}
    (hpage : ∀ n, ∃ page, getPage n = some page ∧ page ≠ 0) (ops : List FaultOp) :
    ∀ {s s' : FaultSystem} {m : MemSystem}, SameSystem s m →
      run (faultStep getPages getPage) s ops = .ok s' →
      ∃ faults m', run (listFault getPages) m faults = .ok m' ∧ SameSystem s' m' ∧
        faults.map (fun f => (f.1, f.2.1)) = ops.filterMap FaultOp.fault? := by
  induction ops with
  | nil =>
    intro s s' m h hrun
    cases hrun
    exact ⟨[], m, rfl, h, rfl⟩
  | cons op ops ih =>
    intro s s' m h hrun
    obtain ⟨s1, hstep, hrest⟩ := run_cons_inv hrun
    cases op with
    | fault v addr =>
      obtain ⟨⟨s2, r⟩, hfault, hend⟩ := bind_eq_ok.1 hstep
      cases hend
      obtain ⟨page, hget, hne⟩ := hpage s.mem.pages
      obtain ⟨m1, hlist, h1⟩ := handleTransFault_of_trees h hget hne hfault
      obtain ⟨faults, m', hfaults, h', heq⟩ := ih h1 hrest
      refine ⟨(v, addr, page) :: faults, m', ?_, h', by simp [heq, FaultOp.fault?]⟩
      rw [run_cons_ok faults (by simp [listFault, hlist] : _ = Except.ok m1), hfaults]
    | store v addr value =>
      cases hstep
      refine ih ?_ hrest
      unfold storeUser
      split
      · exact ⟨h.vmspaces, h.pmos⟩
      · exact h

/-- The system with lists for `sharedObject`. -/
def sharedLists : MemSystem :=
  { MemSystem.empty with vmspaces := sharedObject.vmspaces
                         pmos := fun p => if p = 7 then some ⟨[], 0, 0x2000, .shm⟩ else none }

theorem faults_on_lists_two_processes : ∃ s,
    run (faultStep Nat.succ fun n => some (n + 1)) sharedObject sharedFaults = .ok s ∧ ∃ faults m,
      run (listFault Nat.succ) sharedLists faults = .ok m ∧ SameSystem s m ∧
        faults.map (fun f => (f.1, f.2.1)) = [(0, 0x2010), (1, 0xa020), (1, 0x9000)] := by
  refine exists_ok (by decide +kernel) fun s hrun =>
    faults_on_lists (fun n => ⟨_, rfl, n.succ_ne_zero⟩) sharedFaults ⟨rfl, fun p => ?_⟩ hrun
  by_cases hp : p = 7
  · simpa [sharedObject, sharedLists, hp] using
      (⟨⟨fun key _ => newRadix_slot key, by simp⟩, rfl, rfl, rfl⟩ : SameObject _ _)
  · simp [sharedObject, sharedLists, hp]

end ChCore.Kernel
