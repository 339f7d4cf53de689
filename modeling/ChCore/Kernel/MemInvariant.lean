import ChCore.Kernel.PageTableRanges
import ChCore.Kernel.CapEffects
import ChCore.Kernel.MemObject

/-!
# The invariant of memory objects and mappings

Mappings hold no references to memory objects. What keeps a page mapped only
as long as its object lives is that every page table entry lies in a region of
the object it points into (`VmsMapped`), and that an object is destroyed only
when no region is left for it.
-/

namespace ChCore.Kernel

open Lib.BitField Function List Lib.Heaps

/-- Page number `u` is one of the pages of the region. -/
def Vmregion.Covers (vmr : Vmregion) (u : Nat) : Prop :=
  ∃ k, k < pageRounds vmr.size ∧ u = vpn (vmr.start + k * pageSize)

/-- The mappings of an address space, where `owns o f` says that frame `f`
belongs to memory object `o`. -/
structure VmsMapped (getPages : Nat → Nat) (pgd : Nat)
    (owns : Nat → Nat → Prop) (vs : Vmspace) : Prop where
  root : vs.pgd = pgd
  table : PtInv getPages pgd vs.pgtbl
  nodup : (vs.vmrList.map Prod.fst).Nodup
  named : ∀ e ∈ vs.vmrList, e.1 < vs.vmrs
  aligned : ∀ e ∈ vs.vmrList, pageSize ∣ e.2.start
  backed : ∀ u w, vs.pgtbl.entryAt pgd u = some w →
    ∃ e ∈ vs.vmrList, e.2.Covers u ∧ owns e.2.pmo (getField w 12 36)

section

variable {getPages : Nat → Nat} {pgd : Nat} {owns owns' : Nat → Nat → Prop}
  {vs vs' : Vmspace}

lemma VmsMapped.mono (h : VmsMapped getPages pgd owns vs)
    (howns : ∀ e ∈ vs.vmrList, ∀ f, owns e.2.pmo f → owns' e.2.pmo f) :
    VmsMapped getPages pgd owns' vs :=
  { h with
    backed := by
      intro u w hw
      obtain ⟨e, he, hcov, hown⟩ := h.backed u w hw
      exact ⟨e, he, hcov, howns e he _ hown⟩ }

/-- Entries for pages of a region, into the object of the region. -/
lemma VmsMapped.mapPages (hfresh : FreshPages getPages pgd)
    (h : VmsMapped getPages pgd owns vs) {e : Nat × Vmregion}
    (he : e ∈ vs.vmrList) {va f n flags : Nat}
    (hpages : ∀ k, k < n → e.2.Covers (vpn (va + k * pageSize)))
    (hframes : f + n ≤ 2 ^ 36) (howns : ∀ k, k < n → owns e.2.pmo (f + k))
    {len : Nat} (hlen : pageRounds len = n) {pt : PtState}
    (hrun : mapRangeInPgtbl getPages vs.pgtbl pgd va (f * pageSize) len flags =
    .ok pt) : VmsMapped getPages pgd owns { vs with pgtbl := pt } := by
  obtain ⟨pt', hrun', hinv, hentry⟩ := mapLoop_entries hfresh flags n vs.pgtbl va f hframes h.table
  rw [mapRangeInPgtbl, hlen, hrun'] at hrun
  cases hrun
  exact {
    h with
    table := hinv
    backed := by
      intro u w hw
      rcases hentry u w hw with hold | ⟨k, hk, hu, hval⟩
      · exact h.backed u w hold
      refine ⟨e, he, ?_, ?_⟩
      · rw [hu]
        exact hpages k hk
      rw [hval, getField_writePage (by omega)]
      exact howns k hk
  }

/-- A region goes away together with the entries of its pages. -/
lemma VmsMapped.del (h : VmsMapped getPages pgd owns vs) {q : Nat}
    {vmr : Vmregion} (hmem : (q, vmr) ∈ vs.vmrList)
    (hrun : unmapPages (delVmrFromVmspace vs q) vmr.start vmr.size = .ok vs') :
    VmsMapped getPages pgd owns vs' ∧ vs'.vmrList = vs.vmrList.filter fun e => e.1 ≠ q := by
  obtain ⟨pt, hun, rfl⟩ := unmapPages_inv hrun
  have hroot : (delVmrFromVmspace vs q).pgd = pgd := h.root
  rw [hroot] at hun
  obtain ⟨hinv, hentry⟩ := unmapLoop_inv _ _ _ _ h.table hun
  have hsub : ∀ e, e ∈ vs.vmrList.filter (fun e => e.1 ≠ q) →
      e ∈ vs.vmrList := fun e he => mem_of_mem_filter he
  refine ⟨?_, rfl⟩
  exact {
    root := h.root
    table := hinv
    nodup := (filter_sublist.map Prod.fst).nodup h.nodup
    named := fun e he => h.named e (hsub e he)
    aligned := fun e he => h.aligned e (hsub e he)
    backed := by
      intro u w hw
      obtain ⟨hold, hout⟩ := hentry u w hw
      obtain ⟨e, he, hcov, hown⟩ := h.backed u w hold
      refine ⟨e, ?_, hcov, hown⟩
      refine mem_filter.2 ⟨he, decide_eq_true ?_⟩
      -- the region that was removed covers no entry any more
      intro hq
      have heq : e = (q, vmr) := inj_on_of_nodup_map h.nodup he hmem hq
      subst heq
      obtain ⟨k, hk, hu⟩ := hcov
      exact hout k hk hu
  }

end

/-! ## The system -/

/-- Frame `f` belongs to memory object `o`. -/
def MemSystem.Owns (m : MemSystem) (o f : Nat) : Prop := ∃ pmo, m.pmos o = some pmo ∧ f ∈ pmo.frames

/-- What is known of a memory object that is not a device. -/
structure PmoOk (pmo : Pmobject) : Prop where
  size : pageSize ∣ pmo.size
  pos : 0 < pmo.size
  start : pageSize ∣ pmo.start
  radix : ∀ e ∈ pmo.radix, pageSize ∣ e.2
  type : pmo.type ≠ .device
  frame : ∀ f ∈ pmo.frames, f < 2 ^ 36

/-- The invariant, while the references in `gets` are held. -/
structure MemInv (getPages : Nat → Nat) (pgd : Nat) (m : MemSystem) (gets : List Nat) : Prop where
  caps : CapInv m.caps fun o => gets.count o
  groups : NoGroupFreed m.caps
  pmoLive : ∀ o pmo, m.pmos o = some pmo → Referenced m.caps o
  vmsLive : ∀ v vs, m.vmspaces v = some vs → Referenced m.caps v
  vms : ∀ v vs, m.vmspaces v = some vs → VmsMapped getPages pgd m.Owns vs
  pmo : ∀ o pmo, m.pmos o = some pmo → PmoOk pmo
  kept : ∀ o f, m.Owns o f → f ∉ m.returned
  disjoint : ∀ o o' f, m.Owns o f → m.Owns o' f → o = o'

/-- No region of an address space is for memory object `o`. -/
def NoRegion (m : MemSystem) (o : Nat) : Prop :=
  ∀ v, v < m.caps.allocs → ∀ vs ∈ m.vmspaces v, ∀ e ∈ vs.vmrList, e.2.pmo ≠ o

instance (m : MemSystem) (o : Nat) : Decidable (NoRegion m o) :=
  inferInstanceAs (Decidable (∀ v, v < m.caps.allocs → _))

section

variable {getPages : Nat → Nat} {pgd : Nat} {m : MemSystem} {gets gets' : List Nat}

variable {v : Nat} {vs : Vmspace}

lemma MemInv.vms_lt (h : MemInv getPages pgd m gets)
    (hv : m.vmspaces v = some vs) : v < m.caps.allocs := by
  obtain ⟨object, ho, _⟩ := h.vmsLive v vs hv
  exact h.caps.objectLt v object ho

variable {o : Nat} {pmo : Pmobject}

lemma MemInv.pmo_lt (h : MemInv getPages pgd m gets)
    (ho : m.pmos o = some pmo) : o < m.caps.allocs := by
  obtain ⟨object, hobj, _⟩ := h.pmoLive o pmo ho
  exact h.caps.objectLt o object hobj

variable {caps : CapState}

lemma reap_pmos : (m.reap caps).pmos o = some pmo ↔ (caps.objects o).isSome ∧ m.pmos o = some pmo :=
  Option.ite_none_right_eq_some

lemma reap_vmspaces : (m.reap caps).vmspaces v = some vs ↔
    (caps.objects v).isSome ∧ m.vmspaces v = some vs :=
  Option.ite_none_right_eq_some

variable (h : MemInv getPages pgd m gets)
include h

/-- **Capability calls.** Every object stays referenced, or is destroyed and no
region is for it. -/
theorem MemInv.reap (hcaps : CapInv caps fun o => gets'.count o) (hgroups : NoGroupFreed caps)
    (hlives : ∀ o, Referenced m.caps o →
    Referenced caps o ∨ (caps.objects o = none ∧ NoRegion m o)) :
    MemInv getPages pgd (m.reap caps) gets' := by
  have hstays : ∀ o, Referenced m.caps o → (caps.objects o).isSome → Referenced caps o := by
    intro o ho hsome
    rcases hlives o ho with href | ⟨hnone, _⟩
    · exact href
    rw [hnone] at hsome
    cases hsome
  have howns : ∀ o f, (m.reap caps).Owns o f → m.Owns o f := by
    intro o f hown
    obtain ⟨pmo, hpmo, hf⟩ := hown
    exact ⟨pmo, (reap_pmos.1 hpmo).2, hf⟩
  exact {
    caps := hcaps
    groups := hgroups
    pmoLive := by
      intro o pmo ho
      obtain ⟨hsome, hpmo⟩ := reap_pmos.1 ho
      exact hstays o (h.pmoLive o pmo hpmo) hsome
    vmsLive := by
      intro v vs hv
      obtain ⟨hsome, hvs⟩ := reap_vmspaces.1 hv
      exact hstays v (h.vmsLive v vs hvs) hsome
    vms := by
      intro v vs hv
      have hvs := (reap_vmspaces.1 hv).2
      apply (h.vms v vs hvs).mono
      intro e he f hown
      obtain ⟨pmo, hpmo, hf⟩ := hown
      refine ⟨pmo, reap_pmos.2 ⟨?_, hpmo⟩, hf⟩
      rcases hlives _ (h.pmoLive _ pmo hpmo) with ⟨object, hobj, _⟩ | ⟨_, hregion⟩
      · rw [hobj]
        rfl
      · exact absurd rfl (hregion v (h.vms_lt hvs) vs hvs e he)
    pmo := fun o pmo ho => h.pmo o pmo (reap_pmos.1 ho).2
    kept := by
      intro o f hown hret
      rcases mem_append.1 hret with hnew | hold
      · -- a frame of an object that was destroyed is in no other object
        obtain ⟨q, hq, hfq⟩ := mem_flatMap.1 hnew
        have hdead := (mem_filter.1 hq).2
        cases hpq : m.pmos q with
        | none =>
          rw [hpq] at hfq
          cases hfq
        | some pmoq =>
          rw [hpq] at hfq
          have heq : o = q := h.disjoint o q f (howns o f hown) ⟨pmoq, hpq, hfq⟩
          subst heq
          obtain ⟨pmo, hpmo, _⟩ := hown
          rw [Option.isNone_iff_eq_none] at hdead
          have hsome := (reap_pmos.1 hpmo).1
          rw [hdead] at hsome
          cases hsome
      · exact h.kept o f (howns o f hown) hold
    disjoint := fun o o' f ho ho' =>
      h.disjoint o o' f (howns o f ho) (howns o' f ho')
  }

/-- When nothing is destroyed only the capabilities change. -/
lemma MemInv.reap_eq (hlives : ∀ o, Referenced m.caps o → Referenced caps o) :
    m.reap caps = { m with caps } := by
  have hpmo : ∀ o pmo, m.pmos o = some pmo → (caps.objects o).isSome := by
    intro o pmo ho
    obtain ⟨object, hobj, _⟩ := hlives o (h.pmoLive o pmo ho)
    rw [hobj]
    rfl
  have hvms : ∀ v vs, m.vmspaces v = some vs → (caps.objects v).isSome := by
    intro v vs hv
    obtain ⟨object, hobj, _⟩ := hlives v (h.vmsLive v vs hv)
    rw [hobj]
    rfl
  have hpmos : (m.reap caps).pmos = m.pmos := by
    funext o
    cases ho : m.pmos o with
    | none =>
      show (if (caps.objects o).isSome then m.pmos o else none) = none
      rw [ho, ite_self]
    | some pmo => exact reap_pmos.2 ⟨hpmo o pmo ho, ho⟩
  have hvmspaces : (m.reap caps).vmspaces = m.vmspaces := by
    funext v
    cases hv : m.vmspaces v with
    | none =>
      show (if (caps.objects v).isSome then m.vmspaces v else none) = none
      rw [hv, ite_self]
    | some vs => exact reap_vmspaces.2 ⟨hvms v vs hv, hv⟩
  have hreturned : (m.reap caps).returned = m.returned := by
    show ((m.destroyed caps).flatMap fun o =>
      ((m.pmos o).map Pmobject.frames).getD []) ++ m.returned = m.returned
    rw [flatMap_eq_nil_iff.2, nil_append]
    intro o ho
    have hdead := (mem_filter.1 ho).2
    cases hpo : m.pmos o with
    | none => rfl
    | some pmo =>
      have hsome := hpmo o pmo hpo
      rw [Option.isNone_iff_eq_none] at hdead
      rw [hdead] at hsome
      cases hsome
  calc m.reap caps = ⟨caps, (m.reap caps).pmos, (m.reap caps).vmspaces,
          (m.reap caps).returned⟩ := rfl
    _ = { m with caps } := by rw [hpmos, hvmspaces, hreturned]

lemma MemInv.setCaps (hcaps : CapInv caps fun o => gets'.count o) (hgroups : NoGroupFreed caps)
    (hlives : ∀ o, Referenced m.caps o → Referenced caps o) :
    MemInv getPages pgd { m with caps } gets' := by
  rw [← h.reap_eq hlives]
  exact h.reap hcaps hgroups fun o ho => .inl (hlives o ho)

/-- An address space changes. -/
lemma MemInv.setVmspace (hlive : Referenced m.caps v) (hvs : VmsMapped getPages pgd m.Owns vs) :
    MemInv getPages pgd (m.setVmspace v vs) gets :=
  { h with
    vmsLive := forall_update hlive fun v' vs' _ hv' => h.vmsLive v' vs' hv'
    vms := forall_update hvs fun v' vs' _ hv' => h.vms v' vs' hv' }

/-- A memory object gets frames that no object has. -/
lemma MemInv.addFrames {new : List Nat} (hlive : Referenced m.caps o) (hok : PmoOk pmo)
    (hold : ∀ f, m.Owns o f → f ∈ pmo.frames) (hnew : ∀ f ∈ pmo.frames, m.Owns o f ∨ f ∈ new)
    (hfree : ∀ f ∈ new, ∀ o', ¬ m.Owns o' f) :
    MemInv getPages pgd ((m.setPmo o pmo).take new) gets := by
  have hself : ∀ f, ((m.setPmo o pmo).take new).Owns o f ↔ f ∈ pmo.frames := by
    intro f
    constructor
    · intro hown
      obtain ⟨pmo', hpmo', hf⟩ := hown
      rcases update_eq_some hpmo' with ⟨_, heq⟩ | ⟨hne, _⟩
      · cases heq
        exact hf
      · exact absurd rfl hne
    · intro hf
      exact ⟨pmo, update_self _ _ _, hf⟩
  have hother : ∀ o' f, o' ≠ o → (((m.setPmo o pmo).take new).Owns o' f ↔ m.Owns o' f) := by
    intro o' f hne
    show (∃ pmo', update m.pmos o (some pmo) o' = some pmo' ∧ _) ↔ _
    rw [update_of_ne hne]
    rfl
  exact {
    caps := h.caps
    groups := h.groups
    pmoLive := forall_update hlive fun o' pmo' _ ho' => h.pmoLive o' pmo' ho'
    vmsLive := h.vmsLive
    vms := by
      intro v vs hv
      apply (h.vms v vs hv).mono
      intro e _ f hown
      by_cases heo : e.2.pmo = o
      · rw [heo] at hown ⊢
        exact (hself f).2 (hold f hown)
      · exact (hother _ f heo).2 hown
    pmo := forall_update hok fun o' pmo' _ ho' => h.pmo o' pmo' ho'
    kept := by
      intro o' f hown hret
      obtain ⟨hret', hnot⟩ := mem_filter.1 hret
      by_cases heo : o' = o
      · rw [heo] at hown
        rcases hnew f ((hself f).1 hown) with howned | hin
        · exact h.kept o f howned hret'
        · exact absurd hin (of_decide_eq_true hnot)
      · exact h.kept o' f ((hother o' f heo).1 hown) hret'
    disjoint := by
      have hcross : ∀ o' f, o' ≠ o → f ∈ pmo.frames → ¬ m.Owns o' f := by
        intro o' f hne hf hown
        rcases hnew f hf with howned | hin
        · exact hne (h.disjoint o' o f hown howned)
        · exact hfree f hin o' hown
      intro o' o'' f ho' ho''
      by_cases he' : o' = o
      · subst he'
        by_cases he'' : o'' = o'
        · exact he''.symm
        exact absurd ((hother o'' f he'').1 ho'') (hcross o'' f he'' ((hself f).1 ho'))
      by_cases he'' : o'' = o
      · subst he''
        exact absurd ((hother o' f he').1 ho') (hcross o' f he' ((hself f).1 ho''))
      · exact h.disjoint o' o'' f ((hother o' f he').1 ho') ((hother o'' f he'').1 ho'')
  }

end

end ChCore.Kernel
