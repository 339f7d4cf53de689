import ChCore.Kernel.CapOps

/-!
# What a capability call does to other objects

The subsystems that keep data in kernel objects have to know which objects a
capability call destroys. Taking a reference, giving it back while a slot is
left, and copying a capability destroy none (`CapKeeps`). Freeing a
capability destroys at most its object, and does so exactly when it held the
last reference.
-/

namespace ChCore.Kernel

open Function List Option

/-- Object `o` is alive and referenced. -/
def Referenced (s : CapState) (o : Nat) : Prop :=
  ∃ object, s.objects o = some object ∧ 0 < object.refcount

/-- No object is destroyed, and no capability is taken away. -/
structure CapKeeps (s s' : CapState) : Prop where
  referenced : ∀ o, Referenced s o → Referenced s' o
  object : ∀ o object, s.objects o = some object → ∃ object',
    s'.objects o = some object' ∧ object'.type = object.type ∧
      ∀ p ∈ object.copies, p ∈ object'.copies
  slot : ∀ g i o, slotObject s g i = some o → slotObject s' g i = some o
  freed : s'.freed = s.freed

lemma CapKeeps.refl (s : CapState) : CapKeeps s s where
  referenced := fun _ h => h
  object := fun _ object h => ⟨object, h, rfl, fun _ hp => hp⟩
  slot := fun _ _ _ h => h
  freed := rfl

lemma CapKeeps.trans {s s' s'' : CapState} (h : CapKeeps s s')
    (h' : CapKeeps s' s'') : CapKeeps s s'' where
  referenced := fun o ho => h'.referenced o (h.referenced o ho)
  object := by
    intro o object ho
    obtain ⟨object', ho', htype, hsub⟩ := h.object o object ho
    obtain ⟨object'', ho'', htype', hsub'⟩ := h'.object o object' ho'
    exact ⟨object'', ho'', htype'.trans htype, fun p hp => hsub' p (hsub p hp)⟩
  slot := fun g i o hs => h'.slot g i o (h.slot g i o hs)
  freed := h'.freed.trans h.freed

/-- The counter of an object changes, and stays positive. -/
lemma CapKeeps.setObject {s : CapState} {o : Nat} {object object' : Object}
    (ho : s.objects o = some object) (htype : object'.type = object.type)
    (hcopies : object'.copies = object.copies) (hpos : 0 < object'.refcount) :
    CapKeeps s (s.setObject o (some object')) where
  referenced := by
    intro q hq
    by_cases hqo : q = o
    · subst hqo
      exact ⟨object', update_self _ _ _, hpos⟩
    obtain ⟨objq, hobjq, hposq⟩ := hq
    exact ⟨objq, (update_of_ne hqo _ _).trans hobjq, hposq⟩
  object := by
    intro q objq hq
    by_cases hqo : q = o
    · subst hqo
      rw [ho] at hq
      cases hq
      exact ⟨object', update_self _ _ _, htype, fun p hp => hcopies ▸ hp⟩
    · exact ⟨objq, (update_of_ne hqo _ _).trans hq, rfl, fun _ hp => hp⟩
  slot := fun _ _ _ h => h
  freed := rfl

section

variable {s s' : CapState} {refs : Nat → Nat} (h : CapInv s refs)

lemma bind_deref_isSome {α β : Type} {heap : Nat → Option α} {p : Nat}
    {f : α → Exec β} {b : β} (hrun : (deref heap p >>= f) = .ok b) : (heap p).isSome := by
  cases hp : heap p with
  | none =>
    unfold deref at hrun
    rw [hp] at hrun
    cases hrun
  | some a => rfl

variable {g o : Nat} {i : Int}

include h in
/-- The object of a slot has it among its copies. -/
lemma CapInv.copies_ne_nil (hslot : slotObject s g i = some o) :
    ∃ object, s.objects o = some object ∧ object.copies ≠ [] := by
  unfold slotObject at hslot
  cases hg : s.groups g with
  | none =>
    rw [hg] at hslot
    cases hslot
  | some t =>
    rw [hg, bind_some] at hslot
    cases hp : getSlot t i with
    | none =>
      rw [hp] at hslot
      cases hslot
    | some p =>
      rw [hp, bind_some] at hslot
      obtain ⟨slot, object, hs, _, _, _, ho, hmem⟩ := h.owner g t i p hg hp
      rw [hs] at hslot
      cases hslot
      exact ⟨object, ho, ne_nil_of_mem hmem⟩

include h in
/-- `obj_get`. -/
lemma objGet_inv {type : ObjectType} {r : Option Nat} (hrun : objGet s g i type = .ok (s', r)) :
    (r = none ∧ s' = s) ∨ ∃ o object, r = some o ∧
    slotObject s g i = some o ∧ s.objects o = some object ∧
    object.type = type ∧ slotObject s' = slotObject s ∧ CapKeeps s s' ∧
    CapInv s' (update refs o (refs o + 1)) := by
  have hg := bind_deref_isSome hrun
  rcases getOpaque_spec h hg i (some type) with hnone |
    ⟨o, object, ho, hpos, hslot, htype, hsome, hinv⟩
  · rw [objGet, hnone] at hrun
    cases hrun
    exact .inl ⟨rfl, rfl⟩
  rw [objGet, hsome] at hrun
  cases hrun
  refine .inr ⟨o, object, rfl, hslot, ho, ?_, rfl, ?_, hinv⟩
  · rcases htype with hno | heq
    · cases hno
    · exact (Option.some.inj heq).symm
  · exact CapKeeps.setObject ho rfl rfl (Nat.succ_pos _)

variable {object : Object}

include h in
/-- Dropping a reference while another is left. -/
lemma dropRef_keeps (ho : s.objects o = some object) (hheld : 0 < refs o)
    (hmore : 1 < object.refcount) (hrun : dropRef s o = .ok s') : s'.objects = update s.objects o
    (some { object with refcount := object.refcount - 1 }) ∧
      CapKeeps s s' ∧ CapInv s' (update refs o (refs o - 1)) := by
  obtain ⟨hdrop, hinv⟩ := dropRef_more h ho hheld hmore
  rw [hdrop] at hrun
  cases hrun
  exact ⟨rfl, CapKeeps.setObject ho rfl rfl (show 0 < object.refcount - 1 by omega), hinv⟩

include h in
/-- `obj_put` of an object that has a slot. -/
lemma objPut_keeps (ho : s.objects o = some object)
    (hcopies : object.copies ≠ []) (hheld : 0 < refs o) (hrun : objPut s o = .ok s') :
    CapKeeps s s' ∧ CapInv s' (update refs o (refs o - 1)) := by
  have hcount := h.count o object ho
  have hlen := length_pos_of_ne_nil hcopies
  exact (dropRef_keeps h ho hheld (by omega) hrun).2

include h in
/-- Dropping the last reference of an object that is not a capability group. -/
lemma dropRef_last (ho : s.objects o = some object) (hheld : 0 < refs o)
    (hlast : object.refcount = 1) (htype : object.type ≠ .capGroup)
    (hno : NoGroupFreed s) (hrun : dropRef s o = .ok s') :
    s'.objects = update s.objects o none ∧ NoGroupFreed s' ∧
    CapInv s' (update refs o (refs o - 1)) := by
  have hcount := h.count o object ho
  have hcopies : object.copies = [] := by
    rw [← length_eq_zero_iff]
    omega
  obtain ⟨s1, heq, hobj, _, _, _, hfreed, _⟩ := dropRef_one ho hlast hcopies
  rw [heq] at hrun
  cases hrun
  have hno' : NoGroupFreed s' := by
    intro e he
    rw [hfreed] at he
    rcases mem_cons.1 he with rfl | he
    · exact htype
    · exact hno e he
  obtain ⟨s2, hrun2, _, hinv⟩ := dropRef_spec h hheld
  rw [heq] at hrun2
  cases hrun2
  exact ⟨hobj, hno', hinv hno'⟩

variable {r : Int}

include h in
/-- `cap_free`: nothing happens, or the object of the slot loses a slot and a
reference, and is destroyed if that was the last one. -/
lemma capFree_inv (hno : NoGroupFreed s) (hrun : capFree s g i = .ok (s', r)) :
    s' = s ∨ ∃ o object p, slotObject s g i = some o ∧
      s.objects o = some object ∧ p ∈ object.copies ∧
      (1 < object.refcount →
        s'.objects = update s.objects o (some { object with
          copies := object.copies.erase p
          refcount := object.refcount - 1 }) ∧
        NoGroupFreed s' ∧ CapInv s' refs) ∧
      (object.refcount = 1 → object.type ≠ .capGroup →
        s'.objects = update s.objects o none ∧ NoGroupFreed s' ∧
        CapInv s' refs) := by
  obtain ⟨t, hg⟩ := isSome_iff_exists.1 (bind_deref_isSome hrun)
  cases hp : getSlot t i with
  | none =>
    rw [capFree_none hg hp] at hrun
    cases hrun
    exact .inl rfl
  | some p =>
    obtain ⟨slot, object, t', hslot, ho, hmem, hinv, heq⟩ := capFree_eq h hg hp
    rw [heq] at hrun
    obtain ⟨s1, hdrop, hend⟩ := bind_eq_ok.1 hrun
    cases hend
    have hself : (withoutSlot s g slot.object p t' object).objects
        slot.object = some { object with copies := object.copies.erase p } :=
      update_self _ _ _
    have hheld : 0 < update refs slot.object (refs slot.object + 1) slot.object := by
      rw [update_self]
      omega
    refine .inr ⟨slot.object, object, p, slotObject_eq hg hp hslot, ho, hmem, ?_, ?_⟩
    · intro hmore
      obtain ⟨hobj, hkeeps, hinv'⟩ := dropRef_keeps hinv hself hheld hmore hdrop
      rw [refs_restore] at hinv'
      refine ⟨?_, ?_, hinv'⟩
      · rw [hobj]
        exact update_idem _ _ _
      intro e he
      rw [hkeeps.freed] at he
      exact hno e he
    · intro hlast htype
      obtain ⟨hobj, hno', hinv'⟩ := dropRef_last hinv hself hheld hlast htype hno hdrop
      rw [refs_restore] at hinv'
      exact ⟨hobj.trans (update_idem _ _ _), hno', hinv'⟩

include h in
/-- `cap_free_all`: nothing happens, or the object of the slot is destroyed. -/
lemma capFreeAll_inv (hno : NoGroupFreed s) (hrun : capFreeAll s g i = .ok (s', r)) :
    s' = s ∨ ∃ o object, slotObject s g i = some o ∧ s.objects o = some object ∧
    (refs o = 0 → object.type ≠ .capGroup → s'.objects = update s.objects o none ∧ NoGroupFreed s' ∧
    CapInv s' refs) := by
  obtain ⟨⟨s1, got⟩, hget, hrest⟩ := bind_eq_ok.1 hrun
  have hg := bind_deref_isSome hget
  rcases getOpaque_spec h hg i none with hnone | ⟨o, object, ho, hpos, hslot, _, hsome, hinv⟩
  · rw [hnone] at hget
    cases hget
    cases hrest
    exact .inl rfl
  rw [hsome] at hget
  cases hget
  refine .inr ⟨o, object, hslot, ho, ?_⟩
  intro hrefs htype
  have hself : (s.setObject o (some { object with refcount := object.refcount + 1 })).objects o =
      some { object with refcount := object.refcount + 1 } :=
    update_self _ _ _
  have hheld : 0 < update refs o (refs o + 1) o := by
    rw [update_self]
    omega
  obtain ⟨s2, hloop, hfreed, ⟨object', hobj, htype', hnil⟩, hinv2, _, _⟩ :=
    freeCopies_spec object.copies.length _ _ o _ hinv hheld hself le_rfl
  simp only [deref_eq hself, ok_bind] at hrest
  rw [show ({ object with refcount := object.refcount + 1 } :
    Object).copies = object.copies from rfl] at hloop
  rw [hloop, ok_bind] at hrest
  obtain ⟨s3, hput, hend⟩ := bind_eq_ok.1 hrest
  cases hend
  have hobj2 : s2.objects o = some object' := by rw [hobj, update_self]
  have hlast : object'.refcount = 1 := by
    rw [hinv2.count o object' hobj2, hnil, update_self, hrefs]
    rfl
  have hno2 : NoGroupFreed s2 := by
    intro e he
    rw [hfreed] at he
    exact hno e he
  obtain ⟨hobj3, hno3, hinv3⟩ := dropRef_last hinv2 hobj2 hheld hlast
    (by rw [htype']; exact htype) hno2 hput
  rw [refs_restore] at hinv3
  refine ⟨?_, hno3, hinv3⟩
  rw [hobj3, hobj, update_idem]
  exact update_idem _ _ _

/-! ## Calls that allocate -/

variable {mem : Allocator} (hmem : ∀ n, mem.ok n = true)

lemma Evolves.referenced_of_freed (hev : Evolves s s')
    (hfreed : s'.freed = s.freed) (h : CapInv s refs) (ho : Referenced s o) : Referenced s' o := by
  obtain ⟨object, hobj, hpos⟩ := ho
  rcases hev.referenced o object hobj hpos with hstays | hin
  · exact hstays
  rw [hfreed] at hin
  obtain ⟨e, he, rfl⟩ := mem_map.1 hin
  rw [(h.freedDead e he).1] at hobj
  cases hobj

include hmem h in
/-- `cap_copy` of a capability; when it succeeds the object has two slots. -/
lemma capCopy_inv {src dest : Nat} (hrun : capCopy mem s src dest i = .ok (s', r)) :
    CapKeeps s s' ∧ CapInv s' refs ∧ (0 ≤ r → ∃ o object, slotObject s src i = some o ∧
    s'.objects o = some object ∧ 1 < object.copies.length) := by
  obtain ⟨t, hg⟩ := isSome_iff_exists.1 (bind_deref_isSome hrun)
  cases hp : getSlot t i with
  | none =>
    simp only [capCopy, deref_eq hg, ok_bind, hp, pure_eq_ok] at hrun
    cases hrun
    refine ⟨CapKeeps.refl s, h, ?_⟩
    intro hneg
    exact absurd hneg (by decide)
  | some p =>
    obtain ⟨slot, object, hslot, _, _, hval, ho, hmemp⟩ := h.owner src t i p hg hp
    have hdest : (s.groups dest).isSome := by
      simp only [capCopy, deref_eq hg, ok_bind, hp, deref_eq hslot, hval,
        Bool.true_eq_false, if_false] at hrun
      exact bind_deref_isSome hrun
    obtain ⟨slot', object', j, t2, n, s1, hslot', ho', hpos, hpn, hs1, heq,
      hinv, hle, hkept⟩ := capCopy_eq hmem h hg hdest hp
    rw [hslot] at hslot'
    cases hslot'
    rw [ho] at ho'
    cases ho'
    rw [heq] at hrun
    cases hrun
    have hself : s'.objects slot.object = some { object with
        refcount := object.refcount + 1
        copies := insertAfter p n object.copies } := by
      rw [hs1]
      exact update_self _ _ _
    have hperm := insertAfter_perm p n object.copies
    refine ⟨?_, hinv, ?_⟩
    · exact {
        referenced := by
          intro q hq
          by_cases hqo : q = slot.object
          · rw [hqo]
            exact ⟨_, hself, Nat.succ_pos _⟩
          obtain ⟨objq, hobjq, hposq⟩ := hq
          refine ⟨objq, ?_, hposq⟩
          rw [hs1]
          exact (update_of_ne hqo _ _).trans hobjq
        object := by
          intro q objq hobjq
          by_cases hqo : q = slot.object
          · subst hqo
            rw [ho] at hobjq
            cases hobjq
            exact ⟨_, hself, rfl, fun c hc =>
              hperm.mem_iff.2 (mem_cons_of_mem _ hc)⟩
          · refine ⟨objq, ?_, rfl, fun _ hc => hc⟩
            rw [hs1]
            exact (update_of_ne hqo _ _).trans hobjq
        slot := by
          intro g k o hslot'
          unfold slotObject at hslot'
          cases hgt : s.groups g with
          | none =>
            rw [hgt] at hslot'
            cases hslot'
          | some t1 =>
            rw [hgt, bind_some] at hslot'
            cases hq : getSlot t1 k with
            | none =>
              rw [hq] at hslot'
              cases hslot'
            | some q =>
              rw [hq, bind_some] at hslot'
              obtain ⟨slotq, hslotq, hoq⟩ := map_eq_some_iff.1 hslot'
              obtain ⟨t', hgt', hq'⟩ := hkept g t1 k q hgt hq
              have hlt := h.slotLt q slotq hslotq
              have hslotq' : s'.slots q = some slotq := by
                rw [hs1]
                exact (update_of_ne (by omega) _ _).trans hslotq
              rw [slotObject_eq hgt' hq' hslotq', hoq]
        freed := by
          rw [hs1]
          rfl
      }
    · intro _
      refine ⟨slot.object, _, slotObject_eq hg hp hslot, hself, ?_⟩
      have hlen := length_pos_of_mem hmemp
      rw [hperm.length_eq, length_cons]
      omega

include hmem h in
/-- `cap_move` destroys nothing. -/
lemma capMove_inv {src dest : Nat} (hno : NoGroupFreed s)
    (hrun : capMove mem s src dest i = .ok (s', r)) :
    (∀ o, Referenced s o → Referenced s' o) ∧ NoGroupFreed s' ∧ CapInv s' refs := by
  obtain ⟨⟨s1, r1⟩, hcopy, hrest⟩ := bind_eq_ok.1 hrun
  have hsrc := bind_deref_isSome hcopy
  by_cases hd : (s.groups dest).isSome
  · obtain ⟨s2, r2, heq, hfreed, hev, hinv⟩ := capMove_spec hmem h hsrc hd i
    rw [heq] at hrun
    cases hrun
    refine ⟨fun o ho => hev.referenced_of_freed hfreed h ho, ?_, hinv⟩
    intro e he
    rw [hfreed] at he
    exact hno e he
  -- without a destination only a missing capability returns
  obtain ⟨t, hg⟩ := isSome_iff_exists.1 hsrc
  cases hp : getSlot t i with
  | none =>
    simp only [capCopy, deref_eq hg, ok_bind, hp, pure_eq_ok] at hcopy
    cases hcopy
    have hneg : -ecapbility < 0 := by decide
    dsimp only at hrest
    rw [if_pos hneg] at hrest
    cases hrest
    exact ⟨fun _ ho => ho, hno, h⟩
  | some p =>
    obtain ⟨slot, object, hslot, _, _, hval, _⟩ := h.owner src t i p hg hp
    simp only [capCopy, deref_eq hg, ok_bind, hp, deref_eq hslot, hval,
      Bool.true_eq_false, if_false] at hcopy
    exact absurd (bind_deref_isSome hcopy) hd

include hmem h in
/-- `obj_alloc` followed by `cap_alloc` makes an object with one slot. -/
lemma objAlloc_capAlloc_inv {type : ObjectType} {rights : Nat} {s1 : CapState}
    {got : Option Nat} (hno : NoGroupFreed s) (halloc : objAlloc mem s type = (s1, got))
    (hrun : ∀ o, got = some o → capAlloc mem s1 g o rights = .ok (s', r)) :
    got = some s.allocs ∧ 0 ≤ r ∧ Referenced s' s.allocs ∧
    (∀ o, Referenced s o → Referenced s' o) ∧ NoGroupFreed s' ∧ CapInv s' refs := by
  obtain ⟨s2, heq, hfreed, hobj, hev, hinv⟩ := objAlloc_spec hmem h type
  rw [heq] at halloc
  cases halloc
  have hcap := hrun s.allocs rfl
  have hg := bind_deref_isSome hcap
  have ho : s1.objects s.allocs = some ⟨type, [], 0⟩ := by rw [hobj, update_self]
  rcases capAlloc_spec hmem hinv hg ho rights with
    ⟨hne, _⟩ | ⟨s3, r3, heq3, hr, hfreed3, hobj3, hev3, hinv3⟩
  · exact absurd rfl hne
  rw [heq3] at hcap
  cases hcap
  refine ⟨rfl, hr, ?_, ?_, ?_, hinv3⟩
  · exact ⟨_, by rw [hobj3, update_self], Nat.one_pos⟩
  · intro o href
    exact hev3.referenced_of_freed hfreed3 hinv (hev.referenced_of_freed hfreed h href)
  intro e he
  rw [hfreed3, hfreed] at he
  exact hno e he

end

end ChCore.Kernel
