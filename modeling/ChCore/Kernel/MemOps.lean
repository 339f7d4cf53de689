import ChCore.Kernel.MemInvariant

/-!
# The system calls on memory objects keep the invariant

The functions of `MemObject` are followed call by call. References that are
taken with `obj_get` are given back before a system call returns; as long as
the capability they came from exists, giving them back destroys nothing.
-/

namespace ChCore.Kernel

open Lib.BitField Function List Lib.Heaps

/-! ## Address spaces -/

section

variable {getPages : Nat → Nat} {pgd : Nat} {owns : Nat → Nat → Prop}
  {vs vs' : Vmspace}

lemma pageRounds_mono {a b : Nat} (h : a ≤ b) : pageRounds a ≤ pageRounds b :=
  Nat.div_le_div_right (Nat.add_le_add_right h _)

/-- A region is added that has no entries yet. -/
lemma VmsMapped.add (h : VmsMapped getPages pgd owns vs) (vmr : Vmregion)
    (halign : pageSize ∣ vmr.start) :
    VmsMapped getPages pgd owns { vs with
      vmrs := vs.vmrs + 1
      vmrList := (vs.vmrs, vmr) :: vs.vmrList } where
  root := h.root
  table := h.table
  nodup := nodup_fst_cons h.nodup fun e he => ne_of_lt (h.named e he)
  named := forall_mem_cons.2 ⟨Nat.lt_succ_self _, fun e he => Nat.lt_succ_of_lt (h.named e he)⟩
  aligned := forall_mem_cons.2 ⟨halign, h.aligned⟩
  backed := by
    intro u w hw
    obtain ⟨e, he, hcov, hown⟩ := h.backed u w hw
    exact ⟨e, mem_cons_of_mem _ he, hcov, hown⟩

/-- The frames of an object that is mapped when its region is made. -/
lemma PmoOk.early {pmo : Pmobject} (h : PmoOk pmo) (hearly : mappedEarly pmo.type = true) :
    pmo.start = pmo.start / pageSize * pageSize ∧
    pmo.start / pageSize + pageRounds pmo.size ≤ 2 ^ 36 ∧
    ∀ k, k < pageRounds pmo.size → pmo.start / pageSize + k ∈ pmo.frames := by
  have hrounds : pageRounds pmo.size = pmo.size / pageSize := by
    obtain ⟨n, hn⟩ := h.size
    rw [hn, mul_comm, pageRounds_mul, Nat.mul_div_cancel n (by decide)]
  have hframes : pmo.frames = (List.range (pmo.size / pageSize)).map
      fun k => pmo.start / pageSize + k := by
    unfold Pmobject.frames
    have htype := h.type
    cases ht : pmo.type with
    | data | dataNocache => rfl
    | device => exact absurd ht htype
    | anonym | shm | forbid => rw [ht] at hearly; cases hearly
  have hmem : ∀ k, k < pageRounds pmo.size → pmo.start / pageSize + k ∈ pmo.frames := by
    intro k hk
    rw [hframes]
    exact mem_map.2 ⟨k, mem_range.2 (hrounds ▸ hk), rfl⟩
  refine ⟨(Nat.div_mul_cancel h.start).symm, ?_, hmem⟩
  have hpos : 0 < pageRounds pmo.size := by
    rw [hrounds]
    exact Nat.div_pos (Nat.le_of_dvd h.pos h.size) (by decide)
  have := h.frame _ (hmem (pageRounds pmo.size - 1) (by omega))
  omega

variable {r : Int}

/-- `vmspace_map_range`, for an object that is not longer than the region. -/
lemma VmsMapped.mapRange {mem : Allocator} (hmem : ∀ n, mem.ok n = true)
    (hfresh : FreshPages getPages pgd) (h : VmsMapped getPages pgd owns vs)
    {va len flags p : Nat} {pmo : Pmobject} (hpmo : PmoOk pmo) (howns : ∀ f ∈ pmo.frames, owns p f)
    (hlen : mappedEarly pmo.type = true → pmo.size ≤ len)
    (hrun : vmspaceMapRange mem getPages vs va len flags p pmo = .ok (vs', r)) :
    VmsMapped getPages pgd owns vs' ∧ r = 0 ∧
    ∃ q vmr, vs'.vmrList = (q, vmr) :: vs.vmrList ∧ vmr.pmo = p := by
  rcases vmspaceMapRange_inv hrun with ⟨hno, -⟩ | ⟨vmr, pgtbl, rfl, -, rfl, hpages, rfl⟩
  · rw [hmem] at hno
    cases hno
  refine ⟨?_, rfl, _, _, rfl, rfl⟩
  have h1 := h.add ⟨_, mapLength len, permOf pmo.type flags, p⟩ (dvd_roundDown va)
  by_cases hearly : mappedEarly pmo.type = true
  · rw [if_pos hearly] at hpages
    obtain ⟨hstart, hbound, hframes⟩ := hpmo.early hearly
    rw [h.root, hstart] at hpages
    refine h1.mapPages hfresh mem_cons_self ?_ hbound
      (fun k hk => howns _ (hframes k hk)) rfl hpages
    intro k hk
    refine ⟨k, lt_of_lt_of_le hk (pageRounds_mono ?_), rfl⟩
    have hle := hlen hearly
    show pmo.size ≤ if len < pageSize then pageSize else len
    split
    · omega
    · exact hle
  · rw [if_neg hearly] at hpages
    subst hpages
    exact h1

/-- `vmspace_unmap_range` with a length. -/
lemma VmsMapped.unmapRange (h : VmsMapped getPages pgd owns vs) {va len : Nat}
    (hlen : len ≠ 0) (hrun : vmspaceUnmapRange vs va len = .ok (vs', r)) :
    VmsMapped getPages pgd owns vs' := by
  rcases vmspaceUnmapRange_inv hrun with rfl | ⟨q, vmr, hfind, ⟨hzero, -⟩ | ⟨-, hun⟩⟩
  · exact h
  · exact absurd hzero hlen
  · exact (h.del (findVmrForVa_inv hfind).1 hun).1

/-- `unmap_pmo_in_vmspace` removes the first region for the object. -/
lemma VmsMapped.unmapPmo (h : VmsMapped getPages pgd owns vs) {p : Nat}
    (hrun : unmapPmoInVmspace vs p = .ok (vs', r)) :
    VmsMapped getPages pgd owns vs' ∧ (∀ e ∈ vs'.vmrList, e ∈ vs.vmrList) ∧
    ∀ q vmr l, vs.vmrList = (q, vmr) :: l → vmr.pmo = p → vs'.vmrList = l := by
  rcases unmapPmoInVmspace_inv hrun with ⟨hfind, rfl⟩ | ⟨q, vmr, hfind, hun⟩
  · refine ⟨h, fun _ he => he, ?_⟩
    intro q vmr l hlist hp
    rw [hlist, List.find?_cons_of_pos (by simpa using hp)] at hfind
    cases hfind
  have hmem : (q, vmr) ∈ vs.vmrList := mem_of_find?_eq_some hfind
  obtain ⟨h1, hlist1⟩ := h.del hmem hun
  refine ⟨h1, ?_, ?_⟩
  · intro e he
    rw [hlist1] at he
    exact mem_of_mem_filter he
  intro q' vmr' l hlist hp
  rw [hlist, List.find?_cons_of_pos (by simpa using hp)] at hfind
  cases hfind
  have hnodup := h.nodup
  rw [hlist, List.map_cons, List.nodup_cons] at hnodup
  rw [hlist1, hlist, filter_cons_of_neg (by simp), filter_eq_self]
  intro e he
  refine decide_eq_true ?_
  intro hname
  exact hnodup.1 (mem_map.2 ⟨e, he, hname⟩)

end

/-! ## References -/

section

variable {getPages : Nat → Nat} {pgd : Nat} {m m' : MemSystem}
  {gets : List Nat}

lemma CapKeeps.noGroupFreed {s s' : CapState} (h : CapKeeps s s')
    (hno : NoGroupFreed s) : NoGroupFreed s' := by
  intro e he
  rw [h.freed] at he
  exact hno e he

/-- `obj_get` in a system call. -/
lemma MemInv.get (h : MemInv getPages pgd m gets) {g : Nat} {i : Int}
    {type : ObjectType} {caps : CapState} {r : Option Nat}
    (hrun : objGet m.caps g i type = .ok (caps, r)) :
    (r = none ∧ m.caps = caps) ∨ ∃ o object, r = some o ∧
    slotObject m.caps g i = some o ∧ m.caps.objects o = some object ∧
    object.type = type ∧ slotObject caps = slotObject m.caps ∧
    CapKeeps m.caps caps ∧ MemInv getPages pgd { m with caps } (o :: gets) := by
  rcases objGet_inv h.caps hrun with ⟨hr, heq⟩ |
    ⟨o, object, hr, hslot, ho, htype, hslots, hkeeps, hcaps⟩
  · exact .inl ⟨hr, heq.symm⟩
  refine .inr ⟨o, object, hr, hslot, ho, htype, hslots, hkeeps, ?_⟩
  apply h.setCaps _ (hkeeps.noGroupFreed h.groups) hkeeps.referenced
  rw [count_cons_eq]
  exact hcaps

variable {o : Nat}

/-- `obj_put` of an object that has a slot. -/
lemma MemInv.put_of_copies (h : MemInv getPages pgd m (o :: gets))
    {object : Object} (ho : m.caps.objects o = some object)
    (hne : object.copies ≠ []) (hrun : m.put o = .ok m') :
    MemInv getPages pgd m' gets ∧ CapKeeps m.caps m'.caps ∧
    m'.pmos = m.pmos ∧ m'.vmspaces = m.vmspaces := by
  obtain ⟨caps, hput, hend⟩ := bind_eq_ok.1 hrun
  cases hend
  obtain ⟨hkeeps, hcaps⟩ := objPut_keeps h.caps ho hne (count_pos_iff.2 mem_cons_self) hput
  rw [← count_erase_eq, erase_cons_head] at hcaps
  rw [h.reap_eq hkeeps.referenced]
  exact ⟨h.setCaps hcaps (hkeeps.noGroupFreed h.groups) hkeeps.referenced, hkeeps, rfl, rfl⟩

/-- `obj_put` while a capability for the object exists. -/
lemma MemInv.put (h : MemInv getPages pgd m (o :: gets)) {g : Nat} {i : Int}
    (hslot : slotObject m.caps g i = some o) (hrun : m.put o = .ok m') :
    MemInv getPages pgd m' gets ∧ CapKeeps m.caps m'.caps ∧
    m'.pmos = m.pmos ∧ m'.vmspaces = m.vmspaces := by
  obtain ⟨object, ho, hne⟩ := h.caps.copies_ne_nil hslot
  exact h.put_of_copies ho hne hrun

/-- `obj_put` of the last reference to a memory object without regions. -/
lemma MemInv.put_last (h : MemInv getPages pgd m [o]) {object : Object}
    (ho : m.caps.objects o = some object) (hnil : object.copies = [])
    (htype : object.type ≠ .capGroup) (hregion : NoRegion m o) (hrun : m.put o = .ok m') :
    MemInv getPages pgd m' [] := by
  obtain ⟨caps, hput, hend⟩ := bind_eq_ok.1 hrun
  cases hend
  have hlast : object.refcount = 1 := by
    rw [h.caps.count o object ho, hnil, count_singleton_self]
    rfl
  obtain ⟨hobj, hgroups, hcaps⟩ := dropRef_last h.caps ho
    (count_pos_iff.2 mem_cons_self) hlast htype h.groups hput
  rw [← count_erase_eq, erase_cons_head] at hcaps
  apply h.reap hcaps hgroups
  intro q hq
  by_cases hqo : q = o
  · rw [hqo, hobj, update_self]
    exact .inr ⟨rfl, hregion⟩
  obtain ⟨objq, hobjq, hpos⟩ := hq
  refine .inl ⟨objq, ?_, hpos⟩
  rw [hobj, update_of_ne hqo, hobjq]

end

/-! ## Mapping and unmapping -/

section

variable {mem : Allocator} (hmem : ∀ n, mem.ok n = true)
  {getPages : Nat → Nat} {pgd : Nat} (hfresh : FreshPages getPages pgd)
  {m m' : MemSystem}

/-- What a mapping call that succeeds has done. -/
structure Mapped (m m' : MemSystem) (cur : Nat) (targetCap pmoCap : Int) : Prop where
  result : ∃ p target v vs vs' q vmr, slotObject m.caps cur pmoCap = some p ∧
    slotObject m.caps cur targetCap = some target ∧
    slotObject m'.caps target 1 = some v ∧ m.vmspaces v = some vs ∧
    m'.vmspaces = update m.vmspaces v (some vs') ∧
    vs'.vmrList = (q, vmr) :: vs.vmrList ∧ vmr.pmo = p ∧
    (target ≠ cur → ∃ object, m'.caps.objects p = some object ∧ 1 < object.copies.length)

include hmem hfresh in
/-- `sys_map_pmo`, when an object that is mapped at once is mapped whole. -/
lemma sysMapPmo_inv (h : MemInv getPages pgd m []) {cur : Nat}
    {targetCap pmoCap r : Int} {addr perm len : Nat}
    (hlen : ∀ p, slotObject m.caps cur pmoCap = some p → ∀ pmo,
    m.pmos p = some pmo → mappedEarly pmo.type = true → len = wholeObject ∨ pmo.size ≤ len)
    (hrun : sysMapPmo mem getPages m cur targetCap pmoCap addr perm len = .ok (m', r)) :
    MemInv getPages pgd m' [] ∧ CapKeeps m.caps m'.caps ∧ m'.pmos = m.pmos ∧
    (0 ≤ r → Mapped m m' cur targetCap pmoCap) := by
  unfold sysMapPmo at hrun
  obtain ⟨⟨caps1, got1⟩, hget1, hrun⟩ := bind_eq_ok.1 hrun
  have hneg : ¬ (0 ≤ -ecapbility) := by decide
  rcases h.get hget1 with ⟨rfl, rfl⟩ | ⟨p, objp, rfl, hslotp, hop, _, hslots1, hkeeps1, h1⟩
  · cases hrun
    exact ⟨h, CapKeeps.refl _, rfl, fun hr => absurd hr hneg⟩
  obtain ⟨pmo, hpmo, hrun⟩ := bind_eq_ok.1 hrun
  replace hpmo := deref_inv hpmo
  obtain ⟨⟨caps2, got2⟩, hget2, hrun⟩ := bind_eq_ok.1 hrun
  rcases h1.get hget2 with ⟨rfl, rfl⟩ | ⟨target, objt, rfl, hslott, _, _, hslots2, hkeeps2, h2⟩
  · obtain ⟨m2, hput, hend⟩ := bind_eq_ok.1 hrun
    cases hend
    obtain ⟨h', hkeeps', hpmos', _⟩ := h1.put (hkeeps1.slot _ _ _ hslotp) hput
    exact ⟨h', hkeeps1.trans hkeeps', hpmos', fun hr => absurd hr hneg⟩
  obtain ⟨⟨caps3, got3⟩, hget3, hrun⟩ := bind_eq_ok.1 hrun
  rcases h2.get hget3 with ⟨rfl, _⟩ | ⟨v, objv, rfl, hslotv, _, _, _, hkeeps3, h3⟩
  · cases hrun
  obtain ⟨vs, hvs, hrun⟩ := bind_eq_ok.1 hrun
  replace hvs := deref_inv hvs
  obtain ⟨⟨vs', r0⟩, hmap, hrun⟩ := bind_eq_ok.1 hrun
  -- the region is added to the address space
  have hown : ∀ f ∈ pmo.frames, m.Owns p f := fun f hf => ⟨pmo, hpmo, hf⟩
  have hlen' : mappedEarly pmo.type = true →
      pmo.size ≤ if len = wholeObject then pmo.size else len := by
    intro hearly
    rcases hlen p hslotp pmo hpmo hearly with hall | hle
    · rw [if_pos hall]
    split
    · exact le_rfl
    · exact hle
  obtain ⟨hvs', rfl, q, vmr, hlist, hvmr⟩ := (h.vms v vs hvs).mapRange hmem
    hfresh (h.pmo p pmo hpmo) hown hlen' hmap
  have h4 := h3.setVmspace (h3.vmsLive v vs hvs) hvs'
  -- the capability is copied to another process
  obtain ⟨⟨caps5, r5⟩, hcopy, hrun⟩ := bind_eq_ok.1 hrun
  have hcopied : CapKeeps caps3 caps5 ∧ (0 ≤ r5 → target ≠ cur →
      ∃ object, caps5.objects p = some object ∧ 1 < object.copies.length) ∧
      MemInv getPages pgd
        { (({ m with caps := caps3 } : MemSystem).setVmspace v vs') with
          caps := caps5 } [v, target, p] := by
    rw [giveCap, if_neg (by decide)] at hcopy
    by_cases htarget : target ≠ cur
    · rw [if_pos htarget] at hcopy
      obtain ⟨hkeeps5, hcaps5, htwo⟩ := capCopy_inv h4.caps hmem hcopy
      refine ⟨hkeeps5, ?_, h4.setCaps hcaps5 (hkeeps5.noGroupFreed h4.groups) hkeeps5.referenced⟩
      intro hr _
      obtain ⟨o, object, hslot, hobj, hcopies⟩ := htwo hr
      have hslotp3 := hkeeps3.slot _ _ _ (hkeeps2.slot _ _ _ (hkeeps1.slot _ _ _ hslotp))
      have heq : some o = some p := hslot.symm.trans hslotp3
      cases heq
      exact ⟨object, hobj, hcopies⟩
    · rw [if_neg htarget] at hcopy
      cases hcopy
      exact ⟨CapKeeps.refl _, fun _ hne => absurd hne htarget, h4⟩
  obtain ⟨hkeeps5, htwo, h5⟩ := hcopied
  -- the references are given back
  obtain ⟨m6, hput6, hrun⟩ := bind_eq_ok.1 hrun
  have hslotv5 := hkeeps5.slot _ _ _ (hkeeps3.slot _ _ _ hslotv)
  obtain ⟨h6, hkeeps6, hpmos6, hvms6⟩ := h5.put hslotv5 hput6
  obtain ⟨m7, hput7, hrun⟩ := bind_eq_ok.1 hrun
  have hslott6 := hkeeps6.slot _ _ _ (hkeeps5.slot _ _ _
    (hkeeps3.slot _ _ _ (hkeeps2.slot _ _ _ hslott)))
  obtain ⟨h7, hkeeps7, hpmos7, hvms7⟩ := h6.put hslott6 hput7
  obtain ⟨m8, hput8, hend⟩ := bind_eq_ok.1 hrun
  cases hend
  have hkeeps05 := hkeeps1.trans (hkeeps2.trans (hkeeps3.trans hkeeps5))
  have hslotp7 := hkeeps7.slot _ _ _ (hkeeps6.slot _ _ _ (hkeeps05.slot _ _ _ hslotp))
  obtain ⟨h8, hkeeps8, hpmos8, hvms8⟩ := h7.put hslotp7 hput8
  have hputs := hkeeps6.trans (hkeeps7.trans hkeeps8)
  refine ⟨h8, hkeeps05.trans hputs, hpmos8.trans (hpmos7.trans hpmos6), ?_⟩
  intro hr
  refine ⟨p, target, v, vs, vs', q, vmr, hslotp, ?_, hputs.slot _ _ _ hslotv5,
    hvs, hvms8.trans (hvms7.trans hvms6), hlist, hvmr, ?_⟩
  · rw [← hslots1]
    exact hslott
  intro hne
  obtain ⟨object, hobj, hcopies⟩ := htwo hr hne
  obtain ⟨object', hobj', _, hsub⟩ := hputs.object p object hobj
  refine ⟨object', hobj', ?_⟩
  have hnodup := h5.caps.nodup p object hobj
  have hle := (subperm_of_subset hnodup hsub).length_le
  omega

/-- The only region for memory object `p` is the first one of the address space
of process `cur`. -/
def OnlyFirstRegion (m : MemSystem) (cur p : Nat) : Prop :=
  ∃ v vs q vmr l, slotObject m.caps cur 1 = some v ∧ m.vmspaces v = some vs ∧
    vs.vmrList = (q, vmr) :: l ∧ vmr.pmo = p ∧ (∀ e ∈ l, e.2.pmo ≠ p) ∧
    ∀ v' vs', v' ≠ v → m.vmspaces v' = some vs' → ∀ e ∈ vs'.vmrList, e.2.pmo ≠ p

/-- A capability that has the only reference is the only copy. -/
lemma CapKeeps.refcount_one {s s' : CapState} (hkeeps : CapKeeps s s')
    (h : CapInv s fun _ => 0) {g o : Nat} {i : Int} (hslot : slotObject s g i = some o)
    {object' : Object} (ho' : s'.objects o = some object') (hone : object'.copies.length ≤ 1) :
    ∃ object, s.objects o = some object ∧ object.refcount = 1 := by
  obtain ⟨object, ho, hne⟩ := h.copies_ne_nil hslot
  obtain ⟨object1, ho1, _, hsub⟩ := hkeeps.object o object ho
  rw [ho'] at ho1
  cases ho1
  have hle := (subperm_of_subset (h.nodup o object ho) hsub).length_le
  have hpos := length_pos_of_ne_nil hne
  have hcount := h.count o object ho
  exact ⟨object, ho, by omega⟩

/-- The second half of a request of `sys_map_pmos`. -/
lemma unmapAndFree_inv (h : MemInv getPages pgd m []) {cur : Nat} {pmoCap : Int}
    (hlast : ∀ p object, slotObject m.caps cur pmoCap = some p →
    m.caps.objects p = some object → object.refcount = 1 → OnlyFirstRegion m cur p)
    (hrun : unmapAndFree m cur pmoCap = .ok m') : MemInv getPages pgd m' [] := by
  unfold unmapAndFree at hrun
  obtain ⟨⟨caps1, got1⟩, hget1, hrun⟩ := bind_eq_ok.1 hrun
  rcases h.get hget1 with ⟨rfl, _⟩ | ⟨p, objp, rfl, hslotp, hop, htypep, hslots1, hkeeps1, h1⟩
  · cases hrun
  obtain ⟨⟨caps2, got2⟩, hget2, hrun⟩ := bind_eq_ok.1 hrun
  rcases h1.get hget2 with ⟨rfl, _⟩ | ⟨v, objv, rfl, hslotv, hov, htypev, _, hkeeps2, h2⟩
  · cases hrun
  obtain ⟨vs, hvs, hrun⟩ := bind_eq_ok.1 hrun
  replace hvs := deref_inv hvs
  obtain ⟨⟨vs', r⟩, hunmap, hrun⟩ := bind_eq_ok.1 hrun
  obtain ⟨hvs', _, hfirst⟩ := (h.vms v vs hvs).unmapPmo hunmap
  have h3 := h2.setVmspace (h2.vmsLive v vs hvs) hvs'
  obtain ⟨⟨caps4, r4⟩, hfree, hrun⟩ := bind_eq_ok.1 hrun
  have hkeeps02 := hkeeps1.trans hkeeps2
  have hslotp2 := hkeeps02.slot _ _ _ hslotp
  obtain ⟨objp2, hop2, htypep2, _⟩ := hkeeps02.object p objp hop
  have hnevp : v ≠ p := by
    intro heq
    obtain ⟨objp1, hop1, htypep1, _⟩ := hkeeps1.object p objp hop
    rw [heq] at hov
    have hsame : objv = objp1 := Option.some.inj (hov.symm.trans hop1)
    rw [hsame, htypep1, htypep] at htypev
    cases htypev
  have hov2 := (h2.caps).copies_ne_nil (hkeeps2.slot _ _ _ hslotv)
  -- the capability goes; the references that are held keep the object
  have hfreed : ∃ objp4, caps4.objects p = some objp4 ∧
      objp4.type = .pmo ∧ (objp4.copies = [] → objp2.copies.length ≤ 1) ∧
      (∀ q, q ≠ p → caps4.objects q = caps2.objects q) ∧
      (∀ q, Referenced caps2 q → Referenced caps4 q) ∧ NoGroupFreed caps4 ∧
      CapInv caps4 fun o => [v, p].count o := by
    rcases capFree_inv h3.caps h3.groups hfree with hsame |
      ⟨o, objo, c, hslot, hobj, hmemc, hmore, _⟩
    · have heq : caps4 = caps2 := hsame
      rw [heq]
      refine ⟨objp2, hop2, htypep2.trans htypep, ?_, fun _ _ => rfl,
        fun _ hq => hq, h3.groups, h3.caps⟩
      intro hnil
      rw [hnil]
      exact Nat.zero_le _
    have heq : some o = some p := hslot.symm.trans hslotp2
    cases heq
    have hsame : objo = objp2 := Option.some.inj (hobj.symm.trans hop2)
    subst hsame
    have hcount := h3.caps.count p objo hobj
    have hlen := length_pos_of_mem hmemc
    have hheld : 0 < [v, p].count p := count_pos_iff.2 (by simp)
    have hgt : 1 < objo.refcount := by omega
    obtain ⟨hobj4, hgroups4, hcaps4⟩ := hmore hgt
    have hobj4' : caps4.objects = update caps2.objects p
        (some { objo with copies := objo.copies.erase c
                          refcount := objo.refcount - 1 }) := hobj4
    have hself4 : caps4.objects p = some { objo with
        copies := objo.copies.erase c
        refcount := objo.refcount - 1 } := by
      rw [hobj4', update_self]
    refine ⟨_, hself4, htypep2.trans htypep, ?_, ?_, ?_, hgroups4, hcaps4⟩
    · intro hnil
      have hzero := congrArg List.length hnil
      rw [length_erase_of_mem hmemc, length_nil] at hzero
      omega
    · intro q hq
      rw [hobj4', update_of_ne hq]
    intro q hq
    by_cases hqp : q = p
    · rw [hqp]
      exact ⟨_, hself4, show 0 < objo.refcount - 1 by omega⟩
    obtain ⟨objq, hobjq, hpos⟩ := hq
    exact ⟨objq, by rw [hobj4', update_of_ne hqp, hobjq], hpos⟩
  obtain ⟨objp4, hop4, htypep4, hlen4, hother, hlives, hgroups4, hcaps4⟩ := hfreed
  have h4 := h3.setCaps hcaps4 hgroups4 hlives
  obtain ⟨m5, hput5, hput6⟩ := bind_eq_ok.1 hrun
  rw [h3.reap_eq hlives] at hput5
  obtain ⟨objv2, hobjv2, hnev2⟩ := hov2
  obtain ⟨h5, hkeeps5, _, hvms5⟩ := h4.put_of_copies ((hother v hnevp).trans hobjv2) hnev2 hput5
  obtain ⟨objp5, hop5, htypep5, hsub5⟩ := hkeeps5.object p objp4 hop4
  by_cases hnil : objp5.copies = []
  · -- the last reference goes
    have hnil4 : objp4.copies = [] := by
      rw [eq_nil_iff_forall_not_mem]
      intro c hc
      have := hsub5 c hc
      rw [hnil] at this
      cases this
    obtain ⟨objp0, hop0, hone⟩ := hkeeps02.refcount_one h.caps hslotp hop2 (hlen4 hnil4)
    obtain ⟨v', vs0, q, vmr, l, hslotv', hvs0, hlist, hvmr, hrest, hothers⟩ :=
      hlast p objp0 hslotp hop0 hone
    have hslotv0 : slotObject m.caps cur 1 = some v := by
      rw [← hslots1]
      exact hslotv
    rw [hslotv0] at hslotv'
    cases hslotv'
    rw [hvs] at hvs0
    cases hvs0
    have htype : objp5.type ≠ .capGroup := by
      rw [htypep5, htypep4]
      decide
    apply h5.put_last hop5 hnil htype _ hput6
    intro w _ ws hws e he
    rw [hvms5] at hws
    rcases update_eq_some hws with ⟨_, heq⟩ | ⟨hne, hold⟩
    · cases heq
      rw [hfirst q vmr l hlist hvmr] at he
      exact hrest e he
    · exact hothers w ws hne hold e he
  · exact (h5.put_of_copies hop5 hnil hput6).1

end

end ChCore.Kernel
