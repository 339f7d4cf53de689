import ChCore.Kernel.CapInvariant

/-!
# Specifications of the capability functions

Each function is traced back to the moves of `CapInvariant`. All of them
return on live groups, and they keep the invariant as long as no capability
group is destroyed, which only the last reference to one does.
-/

namespace ChCore.Kernel

open Function List Option

/-- Taking a reference and dropping it again. -/
lemma refs_restore (refs : Nat → Nat) (o : Nat) : update (update refs o (refs o + 1)) o
    (update refs o (refs o + 1) o - 1) = refs := by
  rw [update_self, update_idem, Nat.add_sub_cancel, update_eq_self]

/-! ## References that are held -/

lemma count_cons_eq (l : List Nat) (o : Nat) : (fun q => (o :: l).count q) =
    update (fun q => l.count q) o (l.count o + 1) := by
  funext q
  by_cases hq : q = o
  · subst hq
    rw [update_self, count_cons_self]
  · rw [update_of_ne hq, count_cons_of_ne (Ne.symm hq)]

lemma count_erase_eq (l : List Nat) (o : Nat) : (fun q => (l.erase o).count q) =
    update (fun q => l.count q) o (l.count o - 1) := by
  funext q
  by_cases hq : q = o
  · subst hq
    rw [update_self, count_erase_self]
  · rw [update_of_ne hq, count_erase_of_ne hq]

/-- The object that slot number `i` of group `g` points at. -/
def slotObject (s : CapState) (g : Nat) (i : Int) : Option Nat :=
  (s.groups g).bind fun t => (getSlot t i).bind fun p =>
    (s.slots p).map ObjectSlot.object

variable {s : CapState} {g p : Nat} {t : SlotTable} {i : Int}

lemma slotObject_eq {slot : ObjectSlot} (hg : s.groups g = some t)
    (hp : getSlot t i = some p) (hslot : s.slots p = some slot) :
    slotObject s g i = some slot.object := by
  rw [slotObject, hg, bind_some, hp, bind_some, hslot, map_some]

/-! ## Freeing one capability -/

variable {refs : Nat → Nat}

/-- `__cap_free` of a used slot number removes the slot and drops its
reference. -/
lemma capFree_eq (h : CapInv s refs) (hg : s.groups g = some t) (hp : getSlot t i = some p) :
    ∃ slot object t', s.slots p = some slot ∧
    s.objects slot.object = some object ∧ p ∈ object.copies ∧
    CapInv (withoutSlot s g slot.object p t' object)
    (update refs slot.object (refs slot.object + 1)) ∧
    capFree s g i = (dropRef (withoutSlot s g slot.object p t' object) slot.object >>=
    fun s => .ok (s, 0)) := by
  obtain ⟨slot, object, hslot, hid, hgrp, hval, ho, hmem⟩ := h.owner g t i p hg hp
  obtain ⟨n, rfl, hn, _⟩ := getSlot_some hp
  obtain ⟨t', hfree, hok, hget⟩ := freeSlotId_spec (h.table g t hg) hn (Or.inl rfl)
  refine ⟨slot, object, t', hslot, ho, hmem, h.removeSlot hg hok hget hp hslot ho, ?_⟩
  simp only [capFree, deref_eq hg, ok_bind, hp, deref_eq hslot, hval,
    Bool.true_eq_false, if_false, hfree, pure_eq_ok]
  rw [show deref (s.setGroup g (some t')).objects slot.object = .ok object from
    deref_eq ho, ok_bind]
  rfl

lemma withoutSlot_evolves {o : Nat} {t' : SlotTable} {object : Object}
    (ho : s.objects o = some object) (hpos : 0 < object.refcount) :
    Evolves s (withoutSlot s g o p t' object) ∧ NoneBorn s (withoutSlot s g o p t' object) :=
  ⟨Evolves.of_update rfl hpos rfl, NoneBorn.of_update ho rfl hpos⟩

lemma capFree_none (hg : s.groups g = some t) (hp : getSlot t i = none) :
    capFree s g i = .ok (s, -ecapbility) := by
  simp only [capFree, deref_eq hg, ok_bind, hp, pure_eq_ok]

/-- `cap_free`. -/
lemma capFree_spec (h : CapInv s refs) (hg : (s.groups g).isSome) (i : Int) :
    ∃ s' r, capFree s g i = .ok (s', r) ∧ Evolves s s' ∧ (NoGroupFreed s' → CapInv s' refs) := by
  obtain ⟨t, ht⟩ := isSome_iff_exists.1 hg
  cases hp : getSlot t i with
  | none => exact ⟨s, _, capFree_none ht hp, Evolves.refl s, fun _ => h⟩
  | some p =>
    obtain ⟨slot, object, t', _, ho, hmem, hinv, hrun⟩ := capFree_eq h ht hp
    have hpos : 0 < object.refcount := by
      have := h.count _ object ho
      have := length_pos_of_mem hmem
      omega
    obtain ⟨hev, hborn⟩ := @withoutSlot_evolves s g p _ t' object ho hpos
    obtain ⟨s', hdrop, hev', hinv'⟩ := dropRef_spec (o := slot.object) hinv
      (by rw [update_self]; omega)
    refine ⟨s', 0, by rw [hrun, hdrop, ok_bind], hev.trans hborn hev', ?_⟩
    intro hno
    have := hinv' hno
    rw [refs_restore] at this
    exact this

/-! ## References -/

/-- `get_opaque` fails without a change, or takes a reference to an object that
a slot points at. -/
lemma getOpaque_spec (h : CapInv s refs) (hg : (s.groups g).isSome) (i : Int)
    (type : Option ObjectType) : getOpaque s g i type = .ok (s, none) ∨
    ∃ o object, s.objects o = some object ∧ 0 < object.refcount ∧
    slotObject s g i = some o ∧ (type = none ∨ type = some object.type) ∧
    getOpaque s g i type = .ok (s.setObject o
    (some { object with refcount := object.refcount + 1 }), some o) ∧
      CapInv (s.setObject o (some { object with refcount := object.refcount + 1 }))
        (update refs o (refs o + 1)) := by
  obtain ⟨t, ht⟩ := isSome_iff_exists.1 hg
  have hvalid := isValidSlotId_eq (h.table g t ht) i
  cases hp : getSlot t i with
  | none =>
    left
    rw [hp] at hvalid
    simp only [getOpaque, deref_eq ht, ok_bind, hvalid,
      isSome_none, Bool.false_eq_true, if_false, pure_eq_ok]
  | some p =>
    rw [hp] at hvalid
    obtain ⟨slot, object, hslot, _, _, hval, ho, hmem⟩ := h.owner g t i p ht hp
    by_cases htype : type = none ∨ type = some object.type
    · right
      have hcount := h.count _ object ho
      have hlen := length_pos_of_mem hmem
      refine ⟨slot.object, object, ho, by omega, slotObject_eq ht hp hslot, htype, ?_, ?_⟩
      · simp only [getOpaque, deref_eq ht, ok_bind, hvalid,
          isSome_some, if_true, hp, deref_eq hslot, hval,
          Bool.true_eq_false, if_false, deref_eq ho, if_pos htype, pure_eq_ok]
      apply h.setRefcount ho
      · rfl
      show object.refcount + 1 = _
      omega
    · left
      simp only [getOpaque, deref_eq ht, ok_bind, hvalid,
        isSome_some, if_true, hp, deref_eq hslot, hval,
        Bool.true_eq_false, if_false, deref_eq ho, if_neg htype, pure_eq_ok]

/-! ## Freeing all capabilities of an object -/

lemma nextIn_cons (p : Nat) (l : List Nat) : nextIn p (p :: l) = l.head? := by
  rw [nextIn, if_pos rfl]

/-- The loop of `cap_free_all` empties the list of the object, which stays
alive because of the reference that is held. -/
lemma freeCopies_spec (rounds : Nat) :
    ∀ (s : CapState) (refs : Nat → Nat) (o : Nat) (object : Object),
    CapInv s refs → 0 < refs o → s.objects o = some object → object.copies.length ≤ rounds →
    ∃ s', freeCopies rounds s o object.copies.head? = .ok s' ∧ s'.freed = s.freed ∧
    (∃ object', s'.objects = update s.objects o (some object') ∧
    object'.type = object.type ∧ object'.copies = []) ∧
    CapInv s' refs ∧ Evolves s s' ∧ NoneBorn s s' := by
  induction rounds with
  | zero =>
    intro s refs o object h hpos ho hlen
    have hnil : object.copies = [] := length_eq_zero_iff.1 (Nat.le_zero.1 hlen)
    rw [hnil]
    exact ⟨s, rfl, rfl, ⟨object, (update_eq_self_iff.2 ho.symm).symm,
      rfl, hnil⟩, h, Evolves.refl s, fun _ obj hq hq' => ⟨obj, hq, hq'⟩⟩
  | succ rounds ih =>
    intro s refs o object h hpos ho hlen
    cases hcopies : object.copies with
    | nil =>
      exact ⟨s, rfl, rfl, ⟨object, (update_eq_self_iff.2 ho.symm).symm, rfl, hcopies⟩, h,
        Evolves.refl s, fun _ obj hq hq' => ⟨obj, hq, hq'⟩⟩
    | cons c rest =>
      obtain ⟨slot, t, hslot, hso, hg, hget⟩ :=
        h.copy o object c ho (by rw [hcopies]; exact mem_cons_self)
      obtain ⟨slot', object', t', hslot', ho', hmem, hinv, hrun⟩ := capFree_eq h hg hget
      rw [hslot] at hslot'
      cases hslot'
      rw [hso] at ho' hinv hrun
      rw [ho] at ho'
      cases ho'
      have hcount := h.count o object ho
      have hlen' : object.copies.length = rest.length + 1 := by rw [hcopies, length_cons]
      have hself : (withoutSlot s slot.capGroup o c t' object).objects o =
          some { object with copies := object.copies.erase c } :=
        update_self _ _ _
      obtain ⟨hdrop, hinv'⟩ := dropRef_more hinv hself (by rw [update_self]; omega)
        (by show 1 < object.refcount; omega)
      rw [refs_restore] at hinv'
      have herase : object.copies.erase c = rest := by rw [hcopies, erase_cons_head]
      -- the state after the first capability is gone
      obtain ⟨s1, hs1⟩ : ∃ s1, s1 = (withoutSlot s slot.capGroup o c t'
        object).setObject o (some { object with
          copies := object.copies.erase c
          refcount := object.refcount - 1 }) := ⟨_, rfl⟩
      have hobj1 : s1.objects = update s.objects o
          (some { object with copies := rest
                              refcount := object.refcount - 1 }) := by
        rw [hs1, ← herase]
        exact update_idem _ _ _
      have hev1 : Evolves s s1 := Evolves.of_update hobj1 (by show 0 < object.refcount - 1; omega)
          (by rw [hs1]; rfl)
      have hborn1 : NoneBorn s s1 := NoneBorn.of_update ho hobj1 (by omega)
      obtain ⟨s', hloop, hfreed, ⟨object', hobj', htype, hnil⟩, hinv'', hev, hborn⟩ := ih s1 refs o
          { object with copies := rest, refcount := object.refcount - 1 }
          (hs1 ▸ hinv') hpos (by rw [hobj1, update_self])
          (by show rest.length ≤ rounds; omega)
      refine ⟨s', ?_, ?_, ⟨object', ?_, htype, hnil⟩, hinv'', hev1.trans hborn1 hev, ?_⟩
      · rw [← hloop, List.head?_cons, freeCopies]
        simp only [deref_eq ho, ok_bind, deref_eq hslot, hrun, hdrop,
          ne_eq, not_true_eq_false, if_false, hcopies, nextIn_cons]
        rw [hs1, hcopies]
      · rw [hfreed, hs1]
        rfl
      · rw [hobj', hobj1, update_idem]
      · intro q obj' hq hq'
        obtain ⟨obj1, hq1, hq1'⟩ := hborn q obj' hq hq'
        exact hborn1 q obj1 hq1 hq1'

/-- `cap_free_all`. -/
lemma capFreeAll_spec (h : CapInv s refs) (hg : (s.groups g).isSome) (i : Int) :
    ∃ s' r, capFreeAll s g i = .ok (s', r) ∧ Evolves s s' ∧ (NoGroupFreed s' → CapInv s' refs) := by
  rcases getOpaque_spec h hg i none with hnone | ⟨o, object, ho, hpos, _, _, hsome, hinv⟩
  · refine ⟨s, -ecapbility, ?_, Evolves.refl s, fun _ => h⟩
    simp only [capFreeAll, hnone, ok_bind, pure_eq_ok]
  have hself : (s.setObject o (some { object with refcount := object.refcount + 1 })).objects o =
      some { object with refcount := object.refcount + 1 } :=
    update_self _ _ _
  have hev1 : Evolves s (s.setObject o (some { object with refcount := object.refcount + 1 })) :=
    Evolves.of_update rfl (Nat.succ_pos _) rfl
  have hborn1 : NoneBorn s (s.setObject o (some { object with refcount := object.refcount + 1 })) :=
    NoneBorn.of_update ho rfl hpos
  obtain ⟨s2, hloop, _, _, hinv2, hev2, hborn2⟩ :=
    freeCopies_spec object.copies.length _ _ o _ hinv (by rw [update_self]; omega) hself le_rfl
  obtain ⟨s3, hdrop, hev3, hinv3⟩ := dropRef_spec (o := o) hinv2 (by rw [update_self]; omega)
  refine ⟨s3, 0, ?_, ?_, ?_⟩
  · simp only [capFreeAll, hsome, ok_bind, deref_eq hself]
    rw [show ({ object with refcount := object.refcount + 1 } :
      Object).copies = object.copies from rfl] at hloop
    simp only [hloop, ok_bind, objPut, hdrop, pure_eq_ok]
  · refine hev1.trans hborn1 (hev2.trans hborn2 hev3)
  intro hno
  have := hinv3 hno
  rw [refs_restore] at this
  exact this

/-! ## New slots -/

lemma insertAfter_perm (prev new : Nat) (l : List Nat) :
    (insertAfter prev new l).Perm (new :: l) := by
  induction l with
  | nil => exact List.Perm.refl _
  | cons a l ih =>
    unfold insertAfter
    by_cases ha : a = prev
    · rw [if_pos ha]
      exact List.Perm.swap new a l
    rw [if_neg ha]
    exact (ih.cons a).trans (List.Perm.swap new a l)

section

variable {mem : Allocator} (hmem : ∀ n, mem.ok n = true)

variable {s : CapState} {refs : Nat → Nat}

include hmem in
/-- `alloc_slot_id` in a group of the state, together with the slot that is
installed afterwards. -/
lemma allocInstall_spec (h : CapInv s refs) {g : Nat} {t : SlotTable} (hg : s.groups g = some t) :
    ∃ (i : Nat) (t1 t2 : SlotTable) (n : Nat),
    allocSlotId mem t s.allocs = .ok ((i : Int), t1, n) ∧ s.allocs ≤ n ∧
    (∀ j, getSlot t1 j = getSlot t j) ∧ getSlot t i = none ∧
    installSlot t1 (i : Int) n = .ok t2 ∧ TableOk t2 none ∧
    ∀ j : Int, getSlot t2 j = if j = i then some n else getSlot t j := by
  obtain ⟨i, t1, n, halloc, hle, hok1, hget1⟩ := allocSlotId_spec hmem (h.table g t hg) s.allocs
  obtain ⟨t2, hinst, hok2, hget2⟩ := installSlot_spec hok1 n
  obtain ⟨hi, hfree⟩ := hok1.free i rfl
  refine ⟨i, t1, t2, n, halloc, hle, hget1, ?_, hinst, hok2, ?_⟩
  · rw [← hget1, getSlot_nat, if_pos hi, hfree]
  intro j
  rw [hget2, hget1]

variable {src dest : Nat}

include hmem in
/-- `cap_copy` of a used slot number adds a slot for the same object. -/
lemma capCopy_eq (h : CapInv s refs) {p : Nat} {ts : SlotTable} {i : Int}
    (hs : s.groups src = some ts) (hd : (s.groups dest).isSome)
    (hp : getSlot ts i = some p) :
    ∃ slot object j t2 n s', s.slots p = some slot ∧
      s.objects slot.object = some object ∧ 0 < object.refcount ∧ p < n ∧
      s' = withSlot s dest slot.object n (n + 1) t2
        { object with refcount := object.refcount + 1
                      copies := insertAfter p n object.copies }
        ⟨(j : Nat), dest, true, mem.junk n, slot.object⟩ ∧
      capCopy mem s src dest i = .ok (s', (j : Int)) ∧ CapInv s' refs ∧
      s.allocs ≤ n ∧ ∀ g t k q, s.groups g = some t → getSlot t k = some q →
        ∃ t', s'.groups g = some t' ∧ getSlot t' k = some q := by
  obtain ⟨td, hd⟩ := isSome_iff_exists.1 hd
  obtain ⟨slot, object, hslot, hid, hgrp, hval, ho, hmemp⟩ := h.owner src ts i p hs hp
  obtain ⟨j, t1, t2, n, halloc, hle, hget1, hnone, hinst, hok2, hget2⟩ :=
    allocInstall_spec hmem h hd
  have hpn : p < n := lt_of_lt_of_le (h.slotLt p slot hslot) hle
  have hcount := h.count _ object ho
  have hlen := length_pos_of_mem hmemp
  refine ⟨slot, object, j, t2, n, _, hslot, ho, by omega, hpn, rfl, ?_, ?_, hle, ?_⟩
  · have hsrc : ∃ ts1, update s.groups dest (some t1) src = some ts1 ∧ getSlot ts1 i = some p := by
      by_cases hsd : src = dest
      · subst hsd
        rw [hs] at hd
        cases hd
        exact ⟨t1, update_self _ _ _, by rw [hget1, hp]⟩
      · exact ⟨ts, by rw [update_of_ne hsd, hs], hp⟩
    obtain ⟨ts1, hs1, hp1⟩ := hsrc
    have hjne : ¬ ((j : Int) = -1) := by omega
    simp only [capCopy, deref_eq hs, ok_bind, hp, deref_eq hslot, hval,
      Bool.true_eq_false, if_false, deref_eq hd, halloc, if_neg hjne, hmem,
      not_true_eq_false, CapState.setGroup, deref_eq hs1, hp1, deref_eq ho,
      CapState.setObject, CapState.setSlot, hinst, pure_eq_ok,
      update_idem]
    rfl
  · exact h.addSlot hd hok2 hget2 hnone ho hle (Nat.lt_succ_self n)
      ⟨rfl, rfl, rfl, rfl⟩ (insertAfter_perm p n object.copies) rfl
  · intro g t k q hg hq
    by_cases hgd : g = dest
    · subst hgd
      rw [hg] at hd
      cases hd
      refine ⟨t2, update_self _ _ _, ?_⟩
      rw [hget2, if_neg, hq]
      rintro rfl
      rw [hnone] at hq
      cases hq
    · exact ⟨t, (update_of_ne hgd _ _).trans hg, hq⟩

include hmem in
/-- `cap_copy`. -/
lemma capCopy_spec (h : CapInv s refs) (hs : (s.groups src).isSome)
    (hd : (s.groups dest).isSome) (i : Int) :
    ∃ s' r, capCopy mem s src dest i = .ok (s', r) ∧ Evolves s s' ∧ CapInv s' refs := by
  obtain ⟨ts, hs⟩ := isSome_iff_exists.1 hs
  cases hp : getSlot ts i with
  | none =>
    refine ⟨s, -ecapbility, ?_, Evolves.refl s, h⟩
    simp only [capCopy, deref_eq hs, ok_bind, hp, pure_eq_ok]
  | some p =>
    obtain ⟨slot, object, j, t2, n, s', _, ho, hpos, _, hs', hrun, hinv, _⟩ :=
      capCopy_eq hmem h hs hd hp
    refine ⟨s', _, hrun, ?_, hinv⟩
    exact Evolves.of_update (by rw [hs']; rfl) (Nat.succ_pos _) (by rw [hs']; rfl)

include hmem in
/-- `cap_move`. -/
lemma capMove_spec (h : CapInv s refs) (hs : (s.groups src).isSome)
    (hd : (s.groups dest).isSome) (i : Int) :
    ∃ s' r, capMove mem s src dest i = .ok (s', r) ∧ s'.freed = s.freed ∧
    Evolves s s' ∧ CapInv s' refs := by
  obtain ⟨ts, hs⟩ := isSome_iff_exists.1 hs
  cases hp : getSlot ts i with
  | none =>
    refine ⟨s, -ecapbility, ?_, rfl, Evolves.refl s, h⟩
    have hneg : (-ecapbility : Int) < 0 := by decide
    simp only [capMove, capCopy, deref_eq hs, ok_bind, hp, pure_eq_ok, if_pos hneg]
  | some p =>
    obtain ⟨slot, object, j, t2, n, s1, hslot, ho, hpos, hpn, hs1, hrun, hinv,
      _, hkept⟩ := capCopy_eq hmem h hs hd hp
    obtain ⟨ts1, hts1, hp1⟩ := hkept src ts i p hs hp
    obtain ⟨slot', object', t', hslot', ho', hmem', hinv', hfree⟩ := capFree_eq hinv hts1 hp1
    -- the slot that is freed is the one that was copied
    have hslotp : s1.slots p = some slot := by
      rw [hs1]
      exact (update_of_ne (ne_of_lt hpn) _ _).trans hslot
    rw [hslotp] at hslot'
    cases hslot'
    have hobj1 : s1.objects slot.object = some { object with
        refcount := object.refcount + 1
        copies := insertAfter p n object.copies } := by
      rw [hs1]
      exact update_self _ _ _
    rw [hobj1] at ho'
    cases ho'
    have hself : (withoutSlot s1 src slot.object p t' { object with
        refcount := object.refcount + 1
        copies := insertAfter p n object.copies }).objects slot.object =
        some _ := update_self _ _ _
    obtain ⟨hdrop, hinv''⟩ := dropRef_more hinv' hself (by rw [update_self]; omega)
      (by show 1 < object.refcount + 1; omega)
    rw [refs_restore] at hinv''
    refine ⟨_, 0, ?_, by rw [hs1]; rfl, ?_, hinv''⟩
    · have hnonneg : ¬ ((j : Int) < 0) := by omega
      simp only [capMove, hrun, ok_bind, if_neg hnonneg, hfree, hdrop,
        ne_eq, not_true_eq_false, if_false, pure_eq_ok]
    refine @Evolves.of_update s _ slot.object { object with
      copies := (insertAfter p n object.copies).erase p } ?_ hpos
      (by rw [hs1]; rfl)
    show update (update s1.objects _ _) _ _ = _
    rw [update_idem, hs1]
    show update (update s.objects _ _) _ _ = _
    rw [update_idem]
    rfl

include hmem in
/-- `cap_alloc` halts at its assertion when the object is already in use;
otherwise it adds the first slot of the object. -/
lemma capAlloc_spec (h : CapInv s refs) {g o : Nat} {object : Object}
    (hg : (s.groups g).isSome) (ho : s.objects o = some object) (rights : Nat) :
    (object.refcount ≠ 0 ∧ capAlloc mem s g o rights = .error .bug) ∨
    ∃ s' r, capAlloc mem s g o rights = .ok (s', r) ∧ 0 ≤ r ∧
      s'.freed = s.freed ∧ s'.objects = update s.objects o (some
        { object with copies := (s'.allocs - 1) :: object.copies
                      refcount := 1 }) ∧
      Evolves s s' ∧ CapInv s' refs := by
  obtain ⟨t, hg⟩ := isSome_iff_exists.1 hg
  obtain ⟨i, t1, t2, n, halloc, hle, _, hnone, hinst, hok2, hget2⟩ := allocInstall_spec hmem h hg
  have hnonneg : ¬ ((i : Int) < 0) := by omega
  by_cases hcount : object.refcount = 0
  · right
    refine ⟨withSlot s g o n (n + 1) t2 { object with copies := n :: object.copies, refcount := 1 }
        ⟨(i : Int), g, true, rights, o⟩, i, ?_, by omega, rfl, rfl, ?_, ?_⟩
    · simp only [capAlloc, deref_eq hg, ok_bind, halloc, if_neg hnonneg,
        hmem, not_true_eq_false, if_false, CapState.setGroup, deref_eq ho,
        hcount, ne_eq, CapState.setSlot, CapState.setObject, hinst, pure_eq_ok,
        update_idem]
      rfl
    · exact Evolves.of_update rfl Nat.one_pos rfl
    · exact h.addSlot hg hok2 hget2 hnone ho hle (Nat.lt_succ_self n)
        ⟨rfl, rfl, rfl, rfl⟩ (List.Perm.refl _)
        (by show 1 = object.refcount + 1; omega)
  · left
    refine ⟨hcount, ?_⟩
    simp only [capAlloc, deref_eq hg, ok_bind, halloc, if_neg hnonneg,
      hmem, not_true_eq_false, if_false, CapState.setGroup, deref_eq ho,
      ne_eq, hcount, not_false_eq_true, if_true]

include hmem in
/-- `obj_alloc` adds an object without references, and for a capability group
an empty slot table. -/
lemma objAlloc_spec (h : CapInv s refs) (type : ObjectType) :
    ∃ s', objAlloc mem s type = (s', some s.allocs) ∧ s'.freed = s.freed ∧
    s'.objects = update s.objects s.allocs (some ⟨type, [], 0⟩) ∧
    Evolves s s' ∧ CapInv s' refs := by
  by_cases htype : type = .capGroup
  · refine ⟨{ s with
      objects := update s.objects s.allocs (some ⟨type, [], 0⟩)
      groups := update s.groups s.allocs (some (emptyTable bitsPerLong))
      allocs := s.allocs + 1 + 3 }, ?_, rfl, rfl, ?_⟩
    · have hinit : slotTableInit mem (s.allocs + 1) 2 =
          (some (emptyTable bitsPerLong), s.allocs + 1 + 3) := by
        simp only [slotTableInit, hmem, not_true_eq_false, if_false]
        rfl
      simp only [objAlloc, hmem, if_true, if_pos htype, CapState.setObject,
        CapState.setGroup, hinit]
    refine h.addObject rfl rfl (.inr ⟨_, rfl, emptyTable_ok (by decide) (Nat.dvd_refl _), ?_⟩)
      (by show s.allocs < s.allocs + 1 + 3; omega) rfl rfl
    intro j
    rw [getSlot]
    split
    · rfl
    · exact getD_replicate_self _ _ _
  · refine ⟨{ s with
      objects := update s.objects s.allocs (some ⟨type, [], 0⟩)
      allocs := s.allocs + 1 }, ?_, rfl, rfl, ?_⟩
    · simp only [objAlloc, hmem, if_true, if_neg htype, CapState.setObject]
    · exact h.addObject rfl rfl (Or.inl rfl) (Nat.lt_succ_self _) rfl rfl

end

end ChCore.Kernel
