import ChCore.Kernel.CapRuns

/-!
# The rights of copies

`cap_alloc` writes the rights of its slot, and `cap_copy` does not: the rights of
a copy are what the memory from `kmalloc` held before.
-/

namespace ChCore.Kernel

open Lib.Runs Lib.Heaps

/-- For every slot that is new from `s` to `s'`, `P` holds. -/
def Places (P : Nat → ObjectSlot → Prop) (s s' : CapState) : Prop :=
  ∀ p slot, s'.slots p = some slot → s.slots p = some slot ∨ P p slot

section

variable {mem : Allocator} {s s' : CapState} {P : Nat → ObjectSlot → Prop} {r : Int}

lemma Places.refl (s : CapState) : Places P s s := fun _ _ hp => .inl hp

lemma Places.new {p : Nat} {slot : ObjectSlot} (hP : P p slot) (s : CapState) :
    Places P s (s.setSlot p (some slot)) :=
  forall_update (.inr hP) fun _ _ _ hp => .inl hp

lemma capAlloc_places {g o rights : Nat} (hrun : capAlloc mem s g o rights = .ok (s', r)) :
    Places (fun _ slot => slot.object = o ∧ slot.rights = rights ∧
    ∃ object, s.objects o = some object ∧ object.refcount = 0) s s' := by
  obtain ⟨t, -, hrun⟩ := bind_eq_ok.1 hrun
  obtain ⟨⟨slotId, t1, n⟩, -, hrun⟩ := bind_eq_ok.1 hrun
  dsimp only at hrun
  split at hrun
  · cases hrun
    exact .refl s
  split at hrun
  · obtain ⟨t2, -, hrun⟩ := bind_eq_ok.1 hrun
    cases hrun
    exact .refl s
  obtain ⟨object, hobj, hrun⟩ := bind_eq_ok.1 hrun
  obtain ⟨hcount, hrun⟩ := guard_eq_ok hrun
  obtain ⟨t2, -, hrun⟩ := bind_eq_ok.1 hrun
  cases hrun
  exact .new ⟨rfl, rfl, object, deref_inv hobj, not_not.1 hcount⟩ s

lemma capCopy_places {src dest : Nat} {i : Int} (hrun : capCopy mem s src dest i = .ok (s', r)) :
    Places (fun p slot => slot.rights = mem.junk p) s s' := by
  obtain ⟨t, -, hrun⟩ := bind_eq_ok.1 hrun
  split at hrun
  · cases hrun
    exact .refl s
  obtain ⟨slot, -, hrun⟩ := bind_eq_ok.1 hrun
  split at hrun
  · cases hrun
    exact .refl s
  obtain ⟨t1, -, hrun⟩ := bind_eq_ok.1 hrun
  obtain ⟨⟨slotId, t2, n⟩, -, hrun⟩ := bind_eq_ok.1 hrun
  dsimp only at hrun
  split at hrun
  · cases hrun
    exact .refl s
  split at hrun
  · obtain ⟨t3, -, hrun⟩ := bind_eq_ok.1 hrun
    cases hrun
    exact .refl s
  obtain ⟨t3, -, hrun⟩ := bind_eq_ok.1 hrun
  split at hrun
  · cases hrun
  obtain ⟨slot', -, hrun⟩ := bind_eq_ok.1 hrun
  obtain ⟨object, -, hrun⟩ := bind_eq_ok.1 hrun
  obtain ⟨t4, -, hrun⟩ := bind_eq_ok.1 hrun
  cases hrun
  exact .new rfl s

lemma dropRef_slots {o : Nat} (hrun : dropRef s o = .ok s') : s'.slots = s.slots := by
  obtain ⟨object, -, hrun⟩ := bind_eq_ok.1 hrun
  dsimp only at hrun
  split at hrun
  · obtain ⟨object', -, hrun⟩ := bind_eq_ok.1 hrun
    obtain ⟨-, hrun⟩ := guard_eq_ok hrun
    cases hrun
    split_ifs <;> rfl
  · cases hrun
    rfl

lemma Places.free {s1 : CapState} (h : Places P s s1) {g : Nat} {i : Int}
    (hrun : capFree s1 g i = .ok (s', r)) : Places P s s' := by
  obtain ⟨t, -, hrun⟩ := bind_eq_ok.1 hrun
  split at hrun
  · cases hrun
    exact h
  obtain ⟨slot, -, hrun⟩ := bind_eq_ok.1 hrun
  split at hrun
  · cases hrun
    exact h
  obtain ⟨t1, -, hrun⟩ := bind_eq_ok.1 hrun
  obtain ⟨object, -, hrun⟩ := bind_eq_ok.1 hrun
  obtain ⟨s2, hdrop, hrun⟩ := bind_eq_ok.1 hrun
  cases hrun
  intro p x hx
  rw [dropRef_slots hdrop] at hx
  rcases update_eq_some hx with ⟨-, heq⟩ | ⟨-, hx⟩
  · cases heq
  · exact h p x hx

end

variable {mem : Allocator} {o : Nat} {c c' : CapSystem}

/-- The calls of a chain. A further `cap_alloc` of object `o` finds references to
it, and does not make a slot. -/
def InChain (o : Nat) (c : CapSystem) : CapOp → Prop
  | .capAlloc _ obj _ => obj = o → ∀ object, c.state.objects o = some object → object.refcount ≠ 0
  | .objAlloc _ | .capCopy _ _ _ | .capMove _ _ _ => True
  | .capFree _ _ | .capFreeAll _ _ | .objGet _ _ _ | .objPut _ => False

lemma capStep_places {op : CapOp} (hop : InChain o c op) (hstep : capStep mem c op = .ok c') :
    Places (fun p slot => slot.object = o → slot.rights = mem.junk p) c.state c'.state := by
  cases op with
  | objAlloc type =>
    cases hstep
    have hslots : (objAlloc mem c.state type).1.slots = c.state.slots := by
      unfold objAlloc
      dsimp only
      split_ifs
      · split <;> rfl
      · rfl
      · rfl
    exact fun p slot hp => .inl (hslots ▸ hp)
  | capAlloc g obj rights =>
    obtain ⟨⟨s, r⟩, hrun, hstep⟩ := bind_eq_ok.1 hstep
    cases hstep
    refine fun p slot hp => (capAlloc_places hrun p slot hp).imp_right ?_
    rintro ⟨hobj, -, object, halive, hzero⟩ ho
    obtain rfl : obj = o := hobj.symm.trans ho
    exact absurd hzero (hop rfl object halive)
  | capCopy src dest i =>
    obtain ⟨⟨s, r⟩, hrun, hstep⟩ := bind_eq_ok.1 hstep
    cases hstep
    exact fun p slot hp => (capCopy_places hrun p slot hp).imp_right fun hjunk _ => hjunk
  | capMove src dest i =>
    obtain ⟨⟨s, r⟩, hrun, hstep⟩ := bind_eq_ok.1 hstep
    obtain ⟨⟨s1, r1⟩, hcopy, hrun⟩ := bind_eq_ok.1 hrun
    have hplaces : Places (fun p slot => slot.rights = mem.junk p) c.state s := by
      dsimp only at hrun
      split at hrun
      · cases hrun
        exact capCopy_places hcopy
      obtain ⟨⟨s2, r2⟩, hfree, hrun⟩ := bind_eq_ok.1 hrun
      obtain ⟨-, hrun⟩ := guard_eq_ok hrun
      cases hrun
      exact (capCopy_places hcopy).free hfree
    cases hstep
    exact fun p slot hp => (hplaces p slot hp).imp_right fun hjunk _ => hjunk
  | capFree | capFreeAll | objGet | objPut => exact hop.elim

/-- **The rights of copies.** In every chain of calls after the first capability
of an object, the slots of its copies get the rights of the first one if and
only if their memory held them before. -/
theorem copied_rights_iff (mem : Allocator) {c c1 c' : CapSystem} {g o rights : Nat}
    {ops : List CapOp} (hfirst : capStep mem c (.capAlloc g o rights) = .ok c1)
    (hops : Admissible (capStep mem) (InChain o) c1 ops)
    (hrun : run (capStep mem) c1 ops = .ok c') :
    (∀ p slot, c1.state.slots p = some slot →
      c.state.slots p = some slot ∨ slot.object = o ∧ slot.rights = rights) ∧
    ((∀ p slot, c1.state.slots p = none → c'.state.slots p = some slot → slot.object = o →
      slot.rights = rights) ↔
    ∀ p slot, c1.state.slots p = none → c'.state.slots p = some slot → slot.object = o →
      mem.junk p = rights) := by
  have hstep : ∀ c2 op c3, Places (fun p slot => slot.object = o → slot.rights = mem.junk p)
      c1.state c2.state → InChain o c2 op → capStep mem c2 op = .ok c3 →
      Places _ c1.state c3.state :=
    fun c2 op c3 hinv hop hstep p slot hp =>
      (capStep_places hop hstep p slot hp).elim (hinv p slot) .inr
  have hjunk := run_preserves_of_admissible hstep ops c1 c' (.refl _) hops hrun
  constructor
  · obtain ⟨⟨s, r⟩, halloc, hfirst⟩ := bind_eq_ok.1 hfirst
    cases hfirst
    exact fun p slot hp => (capAlloc_places halloc p slot hp).imp_right fun h => ⟨h.1, h.2.1⟩
  · refine forall_congr' fun p => forall_congr' fun slot => forall_congr' fun hnone =>
      forall_congr' fun hp => forall_congr' fun ho => ?_
    rcases hjunk p slot hp with hold | hnew
    · rw [hnone] at hold
      cases hold
    · rw [hnew ho]

/-- A group that holds itself, and a semaphore with one copy; the memory of slots
holds `junk`. -/
def copySemaphore (junk : Nat) : Exec CapSystem :=
  run (capStep ⟨fun _ => true, fun _ => junk⟩) initCaps
    [.objAlloc .capGroup, .capAlloc 0 0 0, .objAlloc .semaphore, .capAlloc 0 5 7, .capCopy 0 0 1]

theorem copied_rights_same : ∃ c c1 c', capStep ⟨fun _ => true, fun _ => 7⟩ c (.capAlloc 0 5 7) =
      .ok c1 ∧ copySemaphore 7 = .ok c' ∧ ∀ p slot, c1.state.slots p = none →
        c'.state.slots p = some slot → slot.object = 5 → slot.rights = 7 := by
  obtain ⟨c', hrun, -⟩ : ∃ c', copySemaphore 7 = .ok c' ∧ True := by decide
  obtain ⟨c0, hc0, hrun0⟩ := run_cons_inv hrun
  obtain ⟨c1, hc1, hrun1⟩ := run_cons_inv hrun0
  obtain ⟨c2, hc2, hrun2⟩ := run_cons_inv hrun1
  obtain ⟨c3, hfirst, hrun3⟩ := run_cons_inv hrun2
  have hops : Admissible (capStep ⟨fun _ => true, fun _ => 7⟩) (InChain 5) c3 [.capCopy 0 0 1] :=
    ⟨trivial, fun _ _ => trivial⟩
  exact ⟨c2, c3, c', hfirst, hrun, (copied_rights_iff _ hfirst hops hrun3).2.2 fun _ _ _ _ _ => rfl⟩

/-- The object and the rights of a slot. -/
def CapSystem.rightsAt (c : CapSystem) (p : Nat) : Option (Nat × Nat) :=
  (c.state.slots p).map fun slot => (slot.object, slot.rights)

/-- The copy has the rights 0 for a semaphore that was allocated with the rights 7. -/
theorem copied_rights_lost : ∃ c, copySemaphore 0 = .ok c ∧
    c.rightsAt 6 = some (5, 7) ∧ c.rightsAt 7 = some (5, 0) := by decide +kernel

end ChCore.Kernel
