import ChCore.Kernel.MemOps
import ChCore.Kernel.PageTableRuns

/-!
# No mapped page is free

Runs of any number of processes that create, map, unmap and fault in memory
objects and pass their capabilities around. A mapping holds no reference to
its object, and `unmap_pmo_in_vmspace` takes away one region only, so an object
can be destroyed while it is still mapped elsewhere. In runs in which the last
reference to an object goes only when no other region is for it, every mapped
page belongs to a live object.
-/

namespace ChCore.Kernel

open Lib.BitField Function List Lib.Runs

/-- The physical address that address space `v` maps `va` to. -/
def MemSystem.translate (m : MemSystem) (v va : Nat) : Option Nat := (m.vmspaces v).bind fun vs =>
    (queryInPgtbl vs.pgtbl vs.pgd va).bind Query.pa

/-- Every page that an address space maps belongs to a live memory object, and
has not been given back. -/
structure NoDangling (m : MemSystem) : Prop where
  owned : ∀ v va pa, m.translate v va = some pa →
    ∃ o pmo, m.pmos o = some pmo ∧ (m.caps.objects o).isSome ∧ pa / pageSize ∈ pmo.frames
  kept : ∀ v va pa, m.translate v va = some pa → pa / pageSize ∉ m.returned

/-! ## The condition on the calls -/

/-- Page frames that an entry can point at and no memory object has. -/
def FramesFree (m : MemSystem) (frames : List Nat) : Prop := ∀ f ∈ frames, f < 2 ^ 36 ∧
    ∀ o, o < m.caps.allocs → ∀ pmo ∈ m.pmos o, f ∉ pmo.frames

/-- Object `o` can be destroyed: it is no process, and no region is for it. -/
def Destroyable (m : MemSystem) (o : Nat) (object : Object) : Prop :=
  object.type ≠ .capGroup ∧ NoRegion m o

/-- A request of `sys_map_pmos` that gives away the only reference to an object
is not for an object that is mapped already. -/
def RequestOk (cur : Nat) (targetCap : Int) (m : MemSystem) (request : PmoMapRequest) : Prop :=
  request.freeCap = 1 → ∀ p ∈ slotObject m.caps cur request.pmoCap,
    ∀ object ∈ m.caps.objects p, object.refcount = 1 →
      slotObject m.caps cur targetCap = some cur → NoRegion m p

/-- A request of `sys_map_pmos` as a step. -/
def requestStep (mem : Allocator) (getPages : Nat → Nat) (cur : Nat)
    (targetCap : Int) (m : MemSystem) (request : PmoMapRequest) :
    Exec MemSystem := do
  let (m, _) ← mapRequest mem getPages m cur targetCap request
  return m

/-- The condition on a step. -/
def MemAllowed (mem : Allocator) (getPages : Nat → Nat) (m : MemSystem) : MemOp → Prop
  | .createPmo _ size type start =>
    size ≤ 2 ^ 64 - pageSize ∧ type ≠ .device ∧ pageSize ∣ start ∧
      FramesFree m (newPmo type size start).frames
  | .mapPmo cur _ pmoCap _ _ len =>
    ∀ p ∈ slotObject m.caps cur pmoCap, ∀ pmo ∈ m.pmos p,
      mappedEarly pmo.type = true → len = wholeObject ∨ pmo.size ≤ len
  | .mapPmos cur targetCap requests =>
    Admissible (requestStep mem getPages cur targetCap) (RequestOk cur targetCap) m requests
  | .capFree capGroup slotId =>
    ∀ o ∈ slotObject m.caps capGroup slotId, ∀ object ∈ m.caps.objects o,
      object.refcount = 1 → Destroyable m o object
  | .capFreeAll capGroup slotId =>
    ∀ o ∈ slotObject m.caps capGroup slotId, ∀ object ∈ m.caps.objects o, Destroyable m o object
  | .pageFault _ _ page =>
    pageSize ∣ page ∧ page ≠ 0 ∧ FramesFree m [page / pageSize]
  | _ => True

instance (m : MemSystem) (frames : List Nat) : Decidable (FramesFree m frames) :=
  inferInstanceAs (Decidable (∀ f ∈ frames, _))

instance (m : MemSystem) (o : Nat) (object : Object) : Decidable (Destroyable m o object) :=
  inferInstanceAs (Decidable (_ ∧ _))

instance (cur : Nat) (targetCap : Int) (m : MemSystem)
    (request : PmoMapRequest) : Decidable (RequestOk cur targetCap m request) :=
  inferInstanceAs (Decidable (_ → _))

instance (mem : Allocator) (getPages : Nat → Nat) (m : MemSystem) :
    ∀ op, Decidable (MemAllowed mem getPages m op) := fun op => by
  cases op <;> (dsimp only [MemAllowed]; infer_instance)

/-! ## Steps -/

section

variable {mem : Allocator} (hmem : ∀ n, mem.ok n = true)
  {getPages : Nat → Nat} {pgd : Nat} (hfresh : FreshPages getPages pgd)
  {m m' : MemSystem}

lemma MemInv.framesFree (h : MemInv getPages pgd m []) {frames : List Nat}
    (hfree : FramesFree m frames) : ∀ f ∈ frames, ∀ o, ¬ m.Owns o f := by
  intro f hf o hown
  obtain ⟨pmo, hpmo, hmem⟩ := hown
  exact (hfree f hf).2 o (h.pmo_lt hpmo) pmo hpmo hmem

variable {o v : Nat} {vs : Vmspace}

lemma MemInv.noRegion (h : MemInv getPages pgd m []) (hregion : NoRegion m o)
    (hvs : m.vmspaces v = some vs) : ∀ e ∈ vs.vmrList, e.2.pmo ≠ o :=
  hregion v (h.vms_lt hvs) vs hvs

variable {cur : Nat} {targetCap r : Int}

include hmem hfresh in
lemma mapRequest_inv (h : MemInv getPages pgd m []) {request : PmoMapRequest}
    (hok : RequestOk cur targetCap m request)
    (hrun : mapRequest mem getPages m cur targetCap request = .ok (m', r)) :
    MemInv getPages pgd m' [] := by
  obtain ⟨⟨m1, r1⟩, hmap, hrest⟩ := bind_eq_ok.1 hrun
  obtain ⟨h1, hkeeps, _, hmapped⟩ := sysMapPmo_inv hmem hfresh h (fun _ _ _ _ _ => .inl rfl) hmap
  by_cases hfree : r1 ≥ 0 ∧ request.freeCap = 1
  · dsimp only at hrest
    rw [if_pos hfree] at hrest
    obtain ⟨m2, hun, hend⟩ := bind_eq_ok.1 hrest
    cases hend
    refine unmapAndFree_inv h1 ?_ hun
    intro p object hslot hobj hone
    obtain ⟨p', target, v, vs, vs', q, vmr, hslotp, hslott, hslotv, hvs, hvms,
      hlist, hvmr, htwo⟩ := (hmapped hfree.1).result
    have hsame : some p = some p' := hslot.symm.trans (hkeeps.slot _ _ _ hslotp)
    cases hsame
    have hcount := h1.caps.count p object hobj
    -- a second process would hold a second capability
    have htarget : target = cur := by
      by_contra hne
      obtain ⟨object', hobj', hcopies⟩ := htwo hne
      rw [hobj] at hobj'
      cases hobj'
      rw [hone] at hcount
      omega
    subst htarget
    obtain ⟨object0, hobj0, hone0⟩ := hkeeps.refcount_one h.caps hslotp hobj (by omega)
    have hregion := hok hfree.2 p hslotp object0 hobj0 hone0 hslott
    refine ⟨v, vs', q, vmr, vs.vmrList, hslotv, ?_, hlist, hvmr, h.noRegion hregion hvs, ?_⟩
    · rw [hvms, update_self]
    intro w ws hne hws
    rw [hvms, update_of_ne hne] at hws
    exact h.noRegion hregion hws
  · dsimp only at hrest
    rw [if_neg hfree] at hrest
    cases hrest
    exact h1

include hmem hfresh in
lemma mapRequests_inv (requests : List PmoMapRequest) :
    ∀ (m : MemSystem) (ret : Int), MemInv getPages pgd m [] →
    Admissible (requestStep mem getPages cur targetCap) (RequestOk cur targetCap) m requests →
    mapRequests mem getPages cur targetCap m requests ret = .ok (m', r) →
    MemInv getPages pgd m' [] := by
  induction requests with
  | nil =>
    intro m ret h _ hrun
    cases hrun
    exact h
  | cons request requests ih =>
    intro m ret h hadm hrun
    obtain ⟨⟨m1, r1⟩, hreq, hrest⟩ := bind_eq_ok.1 hrun
    have h1 := mapRequest_inv hmem hfresh h hadm.1 hreq
    apply ih m1 _ h1 _ hrest
    apply hadm.2 m1
    rw [requestStep, hreq, ok_bind]
    rfl

lemma sysUnmapPmo_inv (h : MemInv getPages pgd m []) {pmoCap : Int}
    {addr : Nat} (hrun : sysUnmapPmo m cur targetCap pmoCap addr = .ok (m', r)) :
    MemInv getPages pgd m' [] := by
  unfold sysUnmapPmo at hrun
  obtain ⟨⟨caps1, got1⟩, hget1, hrun⟩ := bind_eq_ok.1 hrun
  rcases h.get hget1 with ⟨rfl, rfl⟩ | ⟨p, objp, rfl, hslotp, _, _, _, hkeeps1, h1⟩
  · cases hrun
    exact h
  have hslotp1 := hkeeps1.slot _ _ _ hslotp
  obtain ⟨⟨caps2, got2⟩, hget2, hrun⟩ := bind_eq_ok.1 hrun
  rcases h1.get hget2 with ⟨rfl, rfl⟩ | ⟨target, objt, rfl, hslott, _, _, _, hkeeps2, h2⟩
  · obtain ⟨m2, hput, hend⟩ := bind_eq_ok.1 hrun
    cases hend
    exact (h1.put hslotp1 hput).1
  have hslotp2 := hkeeps2.slot _ _ _ hslotp1
  have hslott2 := hkeeps2.slot _ _ _ hslott
  obtain ⟨⟨caps3, got3⟩, hget3, hrun⟩ := bind_eq_ok.1 hrun
  rcases h2.get hget3 with ⟨rfl, rfl⟩ | ⟨v, objv, rfl, hslotv, _, _, _, hkeeps3, h3⟩
  · obtain ⟨m4, hput4, hrun⟩ := bind_eq_ok.1 hrun
    obtain ⟨h4, hkeeps4, _, _⟩ := h2.put hslott2 hput4
    obtain ⟨m5, hput5, hend⟩ := bind_eq_ok.1 hrun
    cases hend
    exact (h4.put (hkeeps4.slot _ _ _ hslotp2) hput5).1
  obtain ⟨vs, hvs, hrun⟩ := bind_eq_ok.1 hrun
  obtain ⟨pmo, hpmo, hrun⟩ := bind_eq_ok.1 hrun
  obtain ⟨⟨vs', r'⟩, hunmap, hrun⟩ := bind_eq_ok.1 hrun
  replace hvs := deref_inv hvs
  have hsize := (h.pmo p pmo (deref_inv hpmo)).pos
  have hvs' := (h.vms v vs hvs).unmapRange (by omega) hunmap
  have h4 := h3.setVmspace (h3.vmsLive v vs hvs) hvs'
  obtain ⟨m5, hput5, hrun⟩ := bind_eq_ok.1 hrun
  obtain ⟨h5, hkeeps5, _, _⟩ := h4.put (hkeeps3.slot _ _ _ hslotv) hput5
  obtain ⟨m6, hput6, hrun⟩ := bind_eq_ok.1 hrun
  have hkeeps35 := hkeeps3.trans hkeeps5
  obtain ⟨h6, hkeeps6, _, _⟩ := h5.put (hkeeps35.slot _ _ _ hslott2) hput6
  obtain ⟨m7, hput7, hend⟩ := bind_eq_ok.1 hrun
  cases hend
  exact (h6.put (hkeeps6.slot _ _ _ (hkeeps35.slot _ _ _ hslotp2)) hput7).1

/-! ### Page faults -/

variable {q : Nat}

lemma findVmr_covers {va : Nat} {vmr : Vmregion}
    (halign : pageSize ∣ vmr.start) (hfind : findVmrForVa vs va = some (q, vmr)) :
    vmr.Covers (vpn (roundDown va)) := by
  have hin := List.find?_some hfind
  simp only [decide_eq_true_eq] at hin
  have hend : vmr.end ≤ vmr.start + vmr.size := Nat.mod_le _ _
  obtain ⟨s, hs⟩ := halign
  refine ⟨va / pageSize - s, ?_, ?_⟩
  · unfold pageRounds pageSize at *
    omega
  congr 1
  unfold roundDown pageSize at *
  omega

lemma pageRounds_pageSize : pageRounds pageSize = 1 := by decide

include hfresh in
/-- An entry for the page that faulted, to a page of the object. -/
lemma MemInv.mapPage (h : MemInv getPages pgd m [])
    (hvs : m.vmspaces v = some vs) {va pa : Nat} {vmr : Vmregion}
    (hfind : findVmrForVa vs va = some (q, vmr)) (hpa : pageSize ∣ pa)
    (hown : m.Owns vmr.pmo (pa / pageSize)) {pt : PtState}
    (hmap : mapRangeInPgtbl getPages vs.pgtbl vs.pgd (roundDown va) pa pageSize vmr.perm = .ok pt) :
    MemInv getPages pgd (m.setVmspace v { vs with pgtbl := pt }) [] := by
  have hmapped := h.vms v vs hvs
  have hmem : (q, vmr) ∈ vs.vmrList := mem_of_find?_eq_some hfind
  have hcovers := findVmr_covers (hmapped.aligned _ hmem) hfind
  have hlt : pa / pageSize < 2 ^ 36 := by
    obtain ⟨pmo, hpmo, hf⟩ := hown
    exact (h.pmo _ pmo hpmo).frame _ hf
  rw [hmapped.root, ← Nat.div_mul_cancel hpa] at hmap
  apply h.setVmspace (h.vmsLive v vs hvs)
  apply hmapped.mapPages hfresh hmem _ hlt _ pageRounds_pageSize hmap
  · intro k hk
    obtain rfl : k = 0 := by omega
    rw [zero_mul, add_zero]
    exact hcovers
  · intro k hk
    obtain rfl : k = 0 := by omega
    exact hown

lemma frames_of_lazy {pmo : Pmobject} (htype : pmo.type = .anonym ∨ pmo.type = .shm) :
    pmo.frames = pmo.radix.map fun e => e.2 / pageSize := by
  unfold Pmobject.frames
  rcases htype with htype | htype <;> rw [htype]

/-- A page is added to an object that gets its pages when they are used. -/
lemma MemInv.commitPage (h : MemInv getPages pgd m []) {p index page : Nat}
    {pmo : Pmobject} (hpmo : m.pmos p = some pmo)
    (htype : pmo.type = .anonym ∨ pmo.type = .shm) (hpage : pageSize ∣ page)
    (hfree : FramesFree m [page / pageSize]) : MemInv getPages pgd ((m.setPmo p
    { pmo with radix := (index, page) :: pmo.radix }).take [page / pageSize]) [] := by
  have hok := h.pmo p pmo hpmo
  have hframes : Pmobject.frames
      { pmo with radix := (index, page) :: pmo.radix } = page / pageSize :: pmo.frames := by
    rw [frames_of_lazy htype, frames_of_lazy (by exact htype)]
    rfl
  have hnew := hfree _ mem_cons_self
  apply h.addFrames (h.pmoLive p pmo hpmo)
  · exact
      { hok with
        radix := forall_mem_cons.2 ⟨hpage, hok.radix⟩
        frame := by
          rw [hframes]
          exact forall_mem_cons.2 ⟨hnew.1, hok.frame⟩ }
  · intro f hown
    obtain ⟨pmo', hpmo', hf⟩ := hown
    rw [hpmo] at hpmo'
    cases hpmo'
    rw [hframes]
    exact mem_cons_of_mem _ hf
  · intro f hf
    rw [hframes] at hf
    rcases mem_cons.1 hf with rfl | hold
    · exact .inr mem_cons_self
    · exact .inl ⟨pmo, hpmo, hold⟩
  · exact h.framesFree hfree

include hfresh in
lemma handleTransFault_inv (h : MemInv getPages pgd m [])
    {faultAddr page : Nat} (hpage : pageSize ∣ page) (hfree : FramesFree m [page / pageSize])
    (hrun : handleTransFault getPages m v faultAddr page = .ok (m', r)) :
    MemInv getPages pgd m' [] := by
  obtain ⟨vs, hvs, hrun⟩ := bind_eq_ok.1 hrun
  replace hvs := deref_inv hvs
  cases hfind : findVmrForVa vs faultAddr with
  | none =>
    rw [hfind] at hrun
    cases hrun
    exact h
  | some e =>
    obtain ⟨q, vmr⟩ := e
    rw [hfind] at hrun
    obtain ⟨pmo, hpmo, hrun⟩ := bind_eq_ok.1 hrun
    replace hpmo := deref_inv hpmo
    by_cases htype : pmo.type = .anonym ∨ pmo.type = .shm
    · rw [if_pos htype] at hrun
      dsimp only at hrun
      split at hrun
      · cases hrun
      cases hlookup : pmo.radix.lookup
          (u64 (roundDown faultAddr + 2 ^ 64 - vmr.start) / pageSize) with
      | none =>
        rw [hlookup] at hrun
        obtain ⟨pt, hmap, hend⟩ := bind_eq_ok.1 hrun
        cases hend
        apply (h.commitPage hpmo htype hpage hfree).mapPage hfresh hvs hfind hpage _ hmap
        refine ⟨_, update_self _ _ _, ?_⟩
        rw [frames_of_lazy (by exact htype)]
        exact mem_cons_self
      | some pa =>
        rw [hlookup] at hrun
        obtain ⟨pt, hmap, hend⟩ := bind_eq_ok.1 hrun
        cases hend
        obtain ⟨l1, l2, hradix, _⟩ := lookup_eq_some_iff.1 hlookup
        have hmem : (u64 (roundDown faultAddr + 2 ^ 64 - vmr.start) /
            pageSize, pa) ∈ pmo.radix := by
          rw [hradix]
          exact mem_append_right _ mem_cons_self
        apply h.mapPage hfresh hvs hfind ((h.pmo _ _ hpmo).radix _ hmem) _ hmap
        refine ⟨pmo, hpmo, ?_⟩
        rw [frames_of_lazy htype]
        exact mem_map.2 ⟨_, hmem, rfl⟩
    · rw [if_neg htype] at hrun
      cases hrun

/-! ### New objects -/

lemma newPmo_ok {type : PmoType} {size start : Nat} (hsize : size ≠ 0)
    (hle : size ≤ 2 ^ 64 - pageSize) (htype : type ≠ .device) (hstart : pageSize ∣ start)
    (hframes : ∀ f ∈ (newPmo type size start).frames, f < 2 ^ 36) :
    PmoOk (newPmo type size start) where
  size := Nat.dvd_mul_left _ _
  pos := by
    show 0 < (size + (pageSize - 1)) % 2 ^ 64 / pageSize * pageSize
    unfold pageSize at *
    omega
  start := by
    show pageSize ∣ if _ then start else 0
    split
    · exact hstart
    · exact Nat.dvd_zero _
  radix := by
    intro e he
    cases he
  type := htype
  frame := hframes

include hmem in
lemma sysCreatePmo_inv (h : MemInv getPages pgd m []) {size start : Nat}
    {type : PmoType} (hle : size ≤ 2 ^ 64 - pageSize) (htype : type ≠ .device)
    (hstart : pageSize ∣ start) (hfree : FramesFree m (newPmo type size start).frames)
    (hrun : sysCreatePmo mem m cur size type start = .ok (m', r)) : MemInv getPages pgd m' [] := by
  unfold sysCreatePmo at hrun
  obtain ⟨hsize, hrun⟩ := guard_eq_ok hrun
  obtain ⟨caps1, halloc, _⟩ := objAlloc_spec hmem h.caps .pmo
  rw [halloc] at hrun
  obtain ⟨⟨caps2, cap⟩, hcap, hrun⟩ := bind_eq_ok.1 hrun
  obtain ⟨_, hpos, hlive, hlives, hgroups, hcaps⟩ :=
    objAlloc_capAlloc_inv h.caps hmem h.groups halloc fun o ho => by
      cases ho
      exact hcap
  dsimp only at hrun
  rw [if_neg (by omega)] at hrun
  cases hrun
  have h2 := h.setCaps hcaps hgroups hlives
  have hfresh : ∀ f, ¬ m.Owns m.caps.allocs f := by
    intro f hown
    obtain ⟨pmo, hpmo, _⟩ := hown
    exact absurd (h.pmo_lt hpmo) (lt_irrefl _)
  apply h2.addFrames hlive
  · exact newPmo_ok hsize hle htype hstart fun f hf => (hfree f hf).1
  · intro f hown
    exact absurd hown (hfresh f)
  · intro f hf
    exact .inr hf
  · exact h.framesFree hfree

lemma VmsMapped.init (owns : Nat → Nat → Prop) : VmsMapped getPages pgd owns (vmspaceInit pgd) where
  root := rfl
  table := (PtRefines.empty (fun _ => rfl) rfl).inv
  nodup := nodup_nil
  named := by
    intro e he
    cases he
  aligned := by
    intro e he
    cases he
  backed := by
    intro u w hw
    have hempty : PtRefines getPages pgd (vmspaceInit pgd).pgtbl
        FlatState.empty := PtRefines.empty (fun _ => rfl) rfl
    rw [hempty.entry] at hw
    cases hw

variable {g : Nat}

include hmem in
lemma createRootCapGroup_inv (h : MemInv getPages pgd m [])
    (hrun : createRootCapGroup mem pgd m = .ok (m', g)) : MemInv getPages pgd m' [] := by
  unfold createRootCapGroup at hrun
  obtain ⟨caps1, halloc1, _⟩ := objAlloc_spec hmem h.caps .capGroup
  rw [halloc1] at hrun
  obtain ⟨⟨caps2, slotId1⟩, hcap1, hrun⟩ := bind_eq_ok.1 hrun
  obtain ⟨_, _, _, hlives1, hgroups1, hcaps1⟩ :=
    objAlloc_capAlloc_inv h.caps hmem h.groups halloc1 fun o ho => by
      cases ho
      exact hcap1
  dsimp only at hrun
  obtain ⟨hslot1, hrun⟩ := guard_eq_ok hrun
  obtain ⟨caps3, halloc3, _⟩ := objAlloc_spec hmem hcaps1 .vmspace
  rw [halloc3] at hrun
  obtain ⟨⟨caps4, slotId2⟩, hcap2, hrun⟩ := bind_eq_ok.1 hrun
  obtain ⟨_, _, hlive, hlives2, hgroups2, hcaps2⟩ :=
    objAlloc_capAlloc_inv hcaps1 hmem hgroups1 halloc3 fun o ho => by
      cases ho
      exact hcap2
  dsimp only at hrun
  obtain ⟨hslot2, hrun⟩ := guard_eq_ok hrun
  cases hrun
  have h2 := h.setCaps hcaps2 hgroups2 fun o ho => hlives2 o (hlives1 o ho)
  exact h2.setVmspace hlive (VmsMapped.init _)

/-! ### Capabilities -/

lemma referenced_update {s s' : CapState} {x : Option Object}
    (hobj : s'.objects = update s.objects o x) (hne : q ≠ o)
    (hq : Referenced s q) : Referenced s' q := by
  obtain ⟨object, hobject, hpos⟩ := hq
  refine ⟨object, ?_, hpos⟩
  rw [hobj, update_of_ne hne, hobject]

variable {caps : CapState}

/-- An object is destroyed. -/
lemma MemInv.destroy (h : MemInv getPages pgd m [])
    (hobj : caps.objects = update m.caps.objects o none) (hgroups : NoGroupFreed caps)
    (hcaps : CapInv caps fun o => ([] : List Nat).count o)
    (hregion : NoRegion m o) : MemInv getPages pgd (m.reap caps) [] := by
  apply h.reap hcaps hgroups
  intro q hq
  by_cases hqo : q = o
  · refine .inr ⟨?_, hqo ▸ hregion⟩
    rw [hobj, hqo, update_self]
  · exact .inl (referenced_update hobj hqo hq)

lemma MemInv.capFree (h : MemInv getPages pgd m []) {i : Int}
    (hok : ∀ o ∈ slotObject m.caps g i, ∀ object ∈ m.caps.objects o,
    object.refcount = 1 → Destroyable m o object)
    (hrun : ChCore.Kernel.capFree m.caps g i = .ok (caps, r)) :
    MemInv getPages pgd (m.reap caps) [] := by
  rcases capFree_inv h.caps h.groups hrun with rfl | ⟨o, object, p, hslot, ho, hmem, hmore, hlast⟩
  · exact h.reap h.caps h.groups fun _ hq => .inl hq
  have hcount := h.caps.count o object ho
  have hpos := length_pos_of_mem hmem
  by_cases hone : object.refcount = 1
  · obtain ⟨hgroup, hregion⟩ := hok o hslot object ho hone
    obtain ⟨hobj, hgroups, hcaps⟩ := hlast hone hgroup
    exact h.destroy hobj hgroups hcaps hregion
  obtain ⟨hobj, hgroups, hcaps⟩ := hmore (by omega)
  apply h.reap hcaps hgroups
  intro q hq
  refine .inl ?_
  by_cases hqo : q = o
  · refine ⟨_, by rw [hobj, hqo, update_self], ?_⟩
    show 0 < object.refcount - 1
    omega
  · exact referenced_update hobj hqo hq

lemma MemInv.capFreeAll (h : MemInv getPages pgd m []) {i : Int}
    (hok : ∀ o ∈ slotObject m.caps g i, ∀ object ∈ m.caps.objects o, Destroyable m o object)
    (hrun : ChCore.Kernel.capFreeAll m.caps g i = .ok (caps, r)) :
    MemInv getPages pgd (m.reap caps) [] := by
  rcases capFreeAll_inv h.caps h.groups hrun with rfl | ⟨o, object, hslot, ho, hdead⟩
  · exact h.reap h.caps h.groups fun _ hq => .inl hq
  obtain ⟨hgroup, hregion⟩ := hok o hslot object ho
  obtain ⟨hobj, hgroups, hcaps⟩ := hdead rfl hgroup
  exact h.destroy hobj hgroups hcaps hregion

include hmem hfresh in
/-- One step keeps the invariant. -/
lemma memStep_inv (op : MemOp) (h : MemInv getPages pgd m []) (hok : MemAllowed mem getPages m op)
    (hrun : memStep mem getPages pgd m op = .ok m') : MemInv getPages pgd m' [] := by
  cases op with
  | createProcess =>
    obtain ⟨⟨m1, g⟩, hcall, hend⟩ := bind_eq_ok.1 hrun
    cases hend
    exact createRootCapGroup_inv hmem h hcall
  | createPmo cur size type start =>
    obtain ⟨⟨m1, r⟩, hcall, hend⟩ := bind_eq_ok.1 hrun
    cases hend
    obtain ⟨hle, htype, hstart, hfree⟩ := hok
    exact sysCreatePmo_inv hmem h hle htype hstart hfree hcall
  | mapPmo cur targetCap pmoCap addr perm len =>
    obtain ⟨⟨m1, r⟩, hcall, hend⟩ := bind_eq_ok.1 hrun
    cases hend
    exact (sysMapPmo_inv hmem hfresh h hok hcall).1
  | mapPmos cur targetCap requests =>
    obtain ⟨⟨m1, r⟩, hcall, hend⟩ := bind_eq_ok.1 hrun
    cases hend
    unfold sysMapPmos at hcall
    split at hcall
    · cases hcall
      exact h
    · exact mapRequests_inv hmem hfresh requests m 0 h hok hcall
  | unmapPmo cur targetCap pmoCap addr =>
    obtain ⟨⟨m1, r⟩, hcall, hend⟩ := bind_eq_ok.1 hrun
    cases hend
    exact sysUnmapPmo_inv h hcall
  | capCopy src dest slotId =>
    obtain ⟨⟨caps, r⟩, hcall, hend⟩ := bind_eq_ok.1 hrun
    cases hend
    obtain ⟨hkeeps, hcaps, _⟩ := capCopy_inv h.caps hmem hcall
    exact h.reap hcaps (hkeeps.noGroupFreed h.groups) fun o ho => .inl (hkeeps.referenced o ho)
  | capMove src dest slotId =>
    obtain ⟨⟨caps, r⟩, hcall, hend⟩ := bind_eq_ok.1 hrun
    cases hend
    obtain ⟨hlives, hgroups, hcaps⟩ := capMove_inv h.caps hmem h.groups hcall
    exact h.reap hcaps hgroups fun o ho => .inl (hlives o ho)
  | capFree capGroup slotId =>
    obtain ⟨⟨caps, r⟩, hcall, hend⟩ := bind_eq_ok.1 hrun
    cases hend
    exact h.capFree hok hcall
  | capFreeAll capGroup slotId =>
    obtain ⟨⟨caps, r⟩, hcall, hend⟩ := bind_eq_ok.1 hrun
    cases hend
    exact h.capFreeAll hok hcall
  | pageFault v faultAddr page =>
    obtain ⟨⟨m1, r⟩, hcall, hend⟩ := bind_eq_ok.1 hrun
    cases hend
    obtain ⟨hpage, _, hfree⟩ := hok
    exact handleTransFault_inv hfresh h hpage hfree hcall

end

/-! ## Runs -/

lemma MemInv.empty (getPages : Nat → Nat) (pgd : Nat) : MemInv getPages pgd MemSystem.empty [] where
  caps := CapInv.init
  groups := by
    intro e he
    cases he
  pmoLive := by
    intro o pmo ho
    cases ho
  vmsLive := by
    intro v vs hv
    cases hv
  vms := by
    intro v vs hv
    cases hv
  pmo := by
    intro o pmo ho
    cases ho
  kept := by
    intro o f _ hret
    cases hret
  disjoint := by
    intro o o' f ho
    obtain ⟨pmo, hpmo, _⟩ := ho
    cases hpmo

lemma MemInv.translate {getPages : Nat → Nat} {pgd : Nat} {m : MemSystem}
    (h : MemInv getPages pgd m []) {v va pa : Nat}
    (hpa : m.translate v va = some pa) : ∃ o, m.Owns o (pa / pageSize) := by
  obtain ⟨vs, hvs, hquery⟩ := Option.bind_eq_some_iff.1 hpa
  have hmapped := h.vms v vs hvs
  rw [hmapped.root, queryInPgtbl_eq hmapped.table] at hquery
  obtain ⟨q, hq, hres⟩ := Option.bind_eq_some_iff.1 hquery
  obtain ⟨w, hw, rfl⟩ := Option.map_eq_some_iff.1 hq
  obtain ⟨e, _, _, hown⟩ := hmapped.backed _ w hw
  have hval : (getField w 12 36 <<< 12) + va % 2 ^ 12 = pa := Option.some.inj hres
  have hframe : pa / pageSize = getField w 12 36 := by
    rw [← hval, Nat.shiftLeft_eq]
    unfold pageSize
    omega
  exact ⟨e.2.pmo, hframe ▸ hown⟩

lemma MemInv.noDangling {getPages : Nat → Nat} {pgd : Nat} {m : MemSystem}
    (h : MemInv getPages pgd m []) : NoDangling m where
  owned := by
    intro v va pa hpa
    obtain ⟨o, pmo, hpmo, hf⟩ := h.translate hpa
    obtain ⟨object, hobj, _⟩ := h.pmoLive o pmo hpmo
    exact ⟨o, pmo, hpmo, by rw [hobj]; rfl, hf⟩
  kept := by
    intro v va pa hpa
    obtain ⟨o, hown⟩ := h.translate hpa
    exact h.kept o _ hown

/-- **No mapped page is free.** In every state that a run reaches in which the
last reference to a memory object goes only when no other region is for it,
every mapped page belongs to a live memory object. -/
theorem mapped_pages_live (mem : Allocator) (hmem : ∀ n, mem.ok n = true)
    (getPages : Nat → Nat) (pgd : Nat) (hfresh : FreshPages getPages pgd)
    (ops : List MemOp) (m : MemSystem)
    (hadm : Admissible (memStep mem getPages pgd) (MemAllowed mem getPages) MemSystem.empty ops)
    (hrun : run (memStep mem getPages pgd) MemSystem.empty ops = .ok m) :
    NoDangling m := by
  have hstep : ∀ m op m', MemInv getPages pgd m [] → MemAllowed mem getPages m op →
      memStep mem getPages pgd m op = .ok m' → MemInv getPages pgd m' [] :=
    fun m op m' h hok hrun => memStep_inv hmem hfresh op h hok hrun
  have h := run_preserves_of_admissible hstep ops MemSystem.empty m
    (MemInv.empty getPages pgd) hadm hrun
  exact h.noDangling

/-- A process maps an object, touches it, unmaps it and gives up its
capability. -/
theorem mapped_pages_live_one_page : ∃ m, run (memStep .always Nat.succ 0) MemSystem.empty
      [.createProcess, .createPmo 0 0x1000 .anonym 0,
        .mapPmo 0 0 2 0x10000 1 wholeObject, .pageFault 5 0x10008 0x7000,
        .unmapPmo 0 0 2 0x10000, .capFree 0 2] = .ok m ∧ NoDangling m := by
  exact exists_ok (by decide +kernel) fun m => mapped_pages_live .always (fun _ => rfl) Nat.succ 0
    freshPages_succ _ m (by decide +kernel)

/-- A process maps an object at two addresses; with `free_cap` set for the
second one only that mapping goes away with the object. -/
theorem mapped_page_returned : ∃ m, run (memStep .always Nat.succ 0) MemSystem.empty
      [.createProcess, .createPmo 0 0x1000 .data 0x5000, .mapPmo 0 0 2 0x10000 1 wholeObject,
        .mapPmos 0 0 [⟨2, 0x20000, 1, 1⟩]] = .ok m ∧ ¬ NoDangling m := by
  refine exists_ok_imp (p := fun m => m.translate 5 0x10000 = some 0x5000 ∧
      0x5000 / pageSize ∈ m.returned) (by decide +kernel) ?_
  rintro m - ⟨hmapped, hreturned⟩ h
  exact h.kept 5 0x10000 0x5000 hmapped hreturned

end ChCore.Kernel
