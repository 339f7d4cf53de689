import ChCore.Lib.Heaps
import ChCore.Kernel.CapModel

/-!
# The reference invariant of capabilities

`CapInv s refs` says that the slot tables, the slots and the objects describe
each other: every used slot number leads to a slot that names it, every slot is
on the list of the object it points at, and the counter of an object is the
length of that list plus the references `refs` that functions hold.

Four moves change such a state: a slot is added, a slot is removed, a reference
is taken, a reference is dropped. Every function of `capability.c` is a
sequence of them.
-/

namespace ChCore.Kernel

open Function List Lib.Heaps

/-- The invariant, with `refs o` references to object `o` outside the slots. -/
structure CapInv (s : CapState) (refs : Nat → Nat) : Prop where
  table : ∀ g t, s.groups g = some t → TableOk t none
  owner : ∀ g t i p, s.groups g = some t → getSlot t i = some p →
    ∃ slot object, s.slots p = some slot ∧ slot.slotId = i ∧
      slot.capGroup = g ∧ slot.isvalid = true ∧
      s.objects slot.object = some object ∧ p ∈ object.copies
  copy : ∀ o object p, s.objects o = some object → p ∈ object.copies →
    ∃ slot t, s.slots p = some slot ∧ slot.object = o ∧
      s.groups slot.capGroup = some t ∧ getSlot t slot.slotId = some p
  nodup : ∀ o object, s.objects o = some object → object.copies.Nodup
  count : ∀ o object, s.objects o = some object → object.refcount = object.copies.length + refs o
  dead : ∀ o, s.objects o = none → refs o = 0
  objectLt : ∀ o object, s.objects o = some object → o < s.allocs
  slotLt : ∀ p slot, s.slots p = some slot → p < s.allocs
  groupLt : ∀ g t, s.groups g = some t → g < s.allocs
  freedDead : ∀ e ∈ s.freed, s.objects e.1 = none ∧ e.1 < s.allocs
  freedOnce : (s.freed.map Prod.fst).Nodup
  deinits : s.deinits = s.freed.filter fun e => objDeinitTbl e.2

/-- Before anything is allocated. -/
lemma CapInv.init : CapInv ⟨fun _ => none, fun _ => none, fun _ => none, 0, [], []⟩ fun _ => 0 where
  table := fun _ _ h => nomatch h
  owner := fun _ _ _ _ h => nomatch h
  copy := fun _ _ _ h => nomatch h
  nodup := fun _ _ h => nomatch h
  count := fun _ _ h => nomatch h
  dead := fun _ _ => rfl
  objectLt := fun _ _ h => nomatch h
  slotLt := fun _ _ h => nomatch h
  groupLt := fun _ _ h => nomatch h
  freedDead := fun _ h => absurd h not_mem_nil
  freedOnce := nodup_nil
  deinits := rfl

/-- How objects may change from `s` to `s'`: an object that is referenced stays
referenced or is freed, and only such objects are freed. -/
structure Evolves (s s' : CapState) : Prop where
  referenced : ∀ o object, s.objects o = some object → 0 < object.refcount →
    (∃ object', s'.objects o = some object' ∧ 0 < object'.refcount) ∨ o ∈ s'.freed.map Prod.fst
  kept : ∀ o, o ∈ s.freed.map Prod.fst → o ∈ s'.freed.map Prod.fst
  freed : ∀ o, o ∈ s'.freed.map Prod.fst → o ∈ s.freed.map Prod.fst ∨
    ∃ object, s.objects o = some object ∧ 0 < object.refcount

/-- No capability group has been destroyed. -/
def NoGroupFreed (s : CapState) : Prop := ∀ e ∈ s.freed, e.2 ≠ .capGroup

lemma Evolves.refl (s : CapState) : Evolves s s where
  referenced := fun _ object h hpos => .inl ⟨object, h, hpos⟩
  kept := fun _ h => h
  freed := fun _ h => .inl h

/-- Every object that is referenced in `s'` was referenced in `s`. -/
def NoneBorn (s s' : CapState) : Prop :=
  ∀ o object', s'.objects o = some object' → 0 < object'.refcount →
    ∃ object, s.objects o = some object ∧ 0 < object.refcount

variable {s s' : CapState}

lemma Evolves.trans {s'' : CapState} (h : Evolves s s')
    (hborn : NoneBorn s s') (h' : Evolves s' s'') : Evolves s s'' where
  referenced := by
    intro o object ho hpos
    rcases h.referenced o object ho hpos with ⟨object', ho', hpos'⟩ | hfreed
    · exact h'.referenced o object' ho' hpos'
    · exact .inr (h'.kept o hfreed)
  kept := fun o ho => h'.kept o (h.kept o ho)
  freed := by
    intro o ho
    rcases h'.freed o ho with hfreed | ⟨object', ho', hpos'⟩
    · exact h.freed o hfreed
    · exact .inr (hborn o object' ho' hpos')

variable {o : Nat} {object : Object}

lemma NoneBorn.of_update {object' : Object} (ho : s.objects o = some object)
    (hobj : s'.objects = update s.objects o (some object'))
    (hpos : 0 < object.refcount) : NoneBorn s s' := by
  intro q obj' hq hpos'
  rw [hobj] at hq
  rcases update_eq_some hq with ⟨rfl, -⟩ | ⟨-, hq⟩
  · exact ⟨object, ho, hpos⟩
  · exact ⟨obj', hq, hpos'⟩

/-- A change of objects that frees none and keeps counters positive. -/
lemma Evolves.of_update (hobj : s'.objects = update s.objects o (some object))
    (hpos : 0 < object.refcount) (hfreed : s'.freed = s.freed) : Evolves s s' where
  referenced := by
    intro q object' hq hpos'
    left
    rw [hobj]
    by_cases hqo : q = o
    · subst hqo
      exact ⟨object, by rw [update_self], hpos⟩
    · exact ⟨object', by rw [update_of_ne hqo, hq], hpos'⟩
  kept := by
    intro q hq
    rw [hfreed]
    exact hq
  freed := by
    intro q hq
    rw [hfreed] at hq
    exact .inl hq

lemma deref_eq {α : Type} {heap : Nat → Option α} {p : Nat} {a : α}
    (h : heap p = some a) : deref heap p = .ok a := by
  unfold deref
  rw [h]

/-! ## Adding and removing a slot -/

section

variable {s : CapState} {refs : Nat → Nat} {g o p n : Nat} {i : Int}
  {t t' : SlotTable} {object object' : Object} {slot : ObjectSlot}

/-- An object that has been freed is not there to be changed. -/
lemma CapInv.freed_update (h : CapInv s refs) (ho : s.objects o = some object) :
    ∀ e ∈ s.freed, update s.objects o (some object') e.1 = none ∧ e.1 < s.allocs := by
  intro e he
  obtain ⟨hdead, hlt⟩ := h.freedDead e he
  refine ⟨?_, hlt⟩
  rw [update_of_ne, hdead]
  intro heo
  rw [heo, ho] at hdead
  cases hdead

lemma CapInv.dead_update (h : CapInv s refs) {r : Nat} :
    ∀ q, update s.objects o (some object') q = none → update refs o r q = 0 := by
  intro q hq
  obtain ⟨hqo, hq⟩ := none_of_update hq
  rw [update_of_ne hqo]
  exact h.dead q hq

/-- The slot `p` at number `i` of group `g` changes: it is made, or it goes. -/
lemma CapInv.relink (h : CapInv s refs) {x : Option ObjectSlot} {r : Nat}
    (hg : s.groups g = some t) (ho : s.objects o = some object) (ht' : TableOk t' none)
    (hn : s.allocs ≤ n) (hget : ∀ j, getSlot t' j = if j = i then x.map fun _ => p else getSlot t j)
    (hnum : ∀ q, getSlot t i = some q → q = p)
    (hold : ∀ slot, s.slots p = some slot → slot.slotId = i ∧ slot.capGroup = g ∧ slot.object = o)
    (hnew : ∀ slot, x = some slot → p < n ∧ slot.slotId = i ∧ slot.capGroup = g ∧
      slot.isvalid = true ∧ slot.object = o)
    (hmem : ∀ q, q ∈ object'.copies ↔ (q ≠ p ∧ q ∈ object.copies) ∨ (q = p ∧ x.isSome))
    (hnodup : object'.copies.Nodup) (hcount : object'.refcount = object'.copies.length + r) :
    CapInv { s with
      groups := update s.groups g (some t')
      slots := update s.slots p x
      objects := update s.objects o (some object')
      allocs := n } (update refs o r) where
  table := forall_update ht' fun g' t'' _ hg' => h.table g' t'' hg'
  owner := by
    intro g' t'' j q hg' hq
    -- the number leads to the new slot, or to another one as before
    have hcases : (q = p ∧ g' = g ∧ j = i ∧ ∃ slot, x = some slot) ∨
        (q ≠ p ∧ ∃ t₀, s.groups g' = some t₀ ∧ getSlot t₀ j = some q) := by
      have hother : ∀ t₀, s.groups g' = some t₀ → getSlot t₀ j = some q →
          ¬ (g' = g ∧ j = i) → q ≠ p := by
        rintro t₀ hg0 hq0 hne rfl
        obtain ⟨slot, _, hs, hi, hgr, _⟩ := h.owner g' t₀ j q hg0 hq0
        obtain ⟨hi', hgr', -⟩ := hold slot hs
        exact hne ⟨hgr.symm.trans hgr', hi.symm.trans hi'⟩
      rcases update_eq_some hg' with ⟨rfl, heq⟩ | ⟨hgg, hg0⟩
      · cases heq
        rw [hget] at hq
        by_cases hj : j = i
        · rw [if_pos hj] at hq
          obtain ⟨slot, hx, rfl⟩ := Option.map_eq_some_iff.1 hq
          exact .inl ⟨rfl, rfl, hj, slot, hx⟩
        · rw [if_neg hj] at hq
          exact .inr ⟨hother t hg hq fun heq => hj heq.2, t, hg, hq⟩
      · exact .inr ⟨hother t'' hg0 hq fun heq => hgg heq.1, t'', hg0, hq⟩
    rcases hcases with ⟨rfl, rfl, rfl, slot, rfl⟩ | ⟨hqp, t₀, hg0, hq0⟩
    · obtain ⟨-, hid, hgrp, hval, rfl⟩ := hnew slot rfl
      exact ⟨slot, object', update_self _ _ _, hid, hgrp, hval, update_self _ _ _,
        (hmem q).2 (.inr ⟨rfl, rfl⟩)⟩
    obtain ⟨slot, obj, hs, hid, hgrp, hval, hobj, hin⟩ := h.owner g' t₀ j q hg0 hq0
    have hslot : update s.slots p x q = some slot := (update_of_ne hqp _ _).trans hs
    by_cases hoo : slot.object = o
    · subst hoo
      rw [ho] at hobj
      cases hobj
      exact ⟨slot, object', hslot, hid, hgrp, hval, update_self _ _ _, (hmem q).2 (.inl ⟨hqp, hin⟩)⟩
    · exact ⟨slot, obj, hslot, hid, hgrp, hval, (update_of_ne hoo _ _).trans hobj, hin⟩
  copy := by
    -- the other slots keep their numbers
    have hlift : ∀ q obj c, s.objects q = some obj → c ∈ obj.copies → c ≠ p →
        ∃ slot t'', update s.slots p x c = some slot ∧ slot.object = q ∧
          update s.groups g (some t') slot.capGroup = some t'' ∧
          getSlot t'' slot.slotId = some c := by
      intro q obj c hq hin hcp
      obtain ⟨slot, t₀, hs, hso, hg0, hget0⟩ := h.copy q obj c hq hin
      have hslot : update s.slots p x c = some slot := (update_of_ne hcp _ _).trans hs
      by_cases hgg : slot.capGroup = g
      · subst hgg
        rw [hg] at hg0
        cases hg0
        refine ⟨slot, t', hslot, hso, update_self _ _ _, ?_⟩
        rw [hget, if_neg, hget0]
        intro hi
        rw [hi] at hget0
        exact hcp (hnum c hget0)
      · exact ⟨slot, t₀, hslot, hso, (update_of_ne hgg _ _).trans hg0, hget0⟩
    intro q obj c hq hin
    rcases update_eq_some hq with ⟨rfl, heq⟩ | ⟨hqo, hq0⟩
    · cases heq
      rcases (hmem c).1 hin with ⟨hcp, hin⟩ | ⟨rfl, hsome⟩
      · exact hlift q object c ho hin hcp
      obtain ⟨slot, rfl⟩ := Option.isSome_iff_exists.1 hsome
      obtain ⟨-, hid, rfl, -, hso⟩ := hnew slot rfl
      refine ⟨slot, t', update_self _ _ _, hso, update_self _ _ _, ?_⟩
      rw [hid, hget, if_pos rfl]
      rfl
    · refine hlift q obj c hq0 hin ?_
      rintro rfl
      obtain ⟨slot, _, hs, hso, _⟩ := h.copy q obj c hq0 hin
      exact hqo (hso.symm.trans (hold slot hs).2.2)
  nodup := forall_update hnodup fun q obj _ hq => h.nodup q obj hq
  count := by
    refine forall_update ?_ fun q obj hqo hq => ?_
    · rw [update_self]
      exact hcount
    rw [update_of_ne hqo]
    exact h.count q obj hq
  dead := h.dead_update
  objectLt := forall_update ((h.objectLt o object ho).trans_le hn)
    fun q obj _ hq => (h.objectLt q obj hq).trans_le hn
  slotLt := by
    intro q slot hq
    rcases update_eq_some hq with ⟨rfl, heq⟩ | ⟨_, hq⟩
    · exact (hnew slot heq).1
    · exact (h.slotLt q slot hq).trans_le hn
  groupLt := forall_update ((h.groupLt g t hg).trans_le hn)
    fun g' t'' _ hg' => (h.groupLt g' t'' hg').trans_le hn
  freedDead e he := (h.freed_update ho e he).imp_right fun hlt => hlt.trans_le hn
  freedOnce := h.freedOnce
  deinits := h.deinits

/-- The state with a new slot `p` at number `i` of group `g`. -/
def withSlot (s : CapState) (g o p n : Nat) (t' : SlotTable)
    (object' : Object) (slot : ObjectSlot) : CapState :=
  { s with
    groups := update s.groups g (some t')
    slots := update s.slots p (some slot)
    objects := update s.objects o (some object')
    allocs := n }

lemma CapInv.addSlot (h : CapInv s refs) {i : Nat} (hg : s.groups g = some t)
    (ht' : TableOk t' none) (hget : ∀ j : Int, getSlot t' j = if j = i then some p else getSlot t j)
    (hnone : getSlot t i = none) (ho : s.objects o = some object) (hp : s.allocs ≤ p) (hn : p < n)
    (hslot : slot.slotId = i ∧ slot.capGroup = g ∧ slot.isvalid = true ∧ slot.object = o)
    (hperm : object'.copies.Perm (p :: object.copies))
    (hcount : object'.refcount = object.refcount + 1) :
    CapInv (withSlot s g o p n t' object' slot) refs := by
  have hfresh : ∀ slot, s.slots p ≠ some slot :=
    fun slot hs => absurd (h.slotLt p slot hs) (Nat.not_lt.2 hp)
  have hnot : p ∉ object.copies := by
    intro hin
    obtain ⟨slot, _, hs, _⟩ := h.copy o object p ho hin
    exact hfresh slot hs
  rw [← update_eq_self o refs]
  refine h.relink hg ho ht' (hp.trans hn.le) hget ?_ (fun slot hs => absurd hs (hfresh slot))
    ?_ ?_ ?_ ?_
  · intro q hq
    rw [hnone] at hq
    cases hq
  · intro slot' heq
    cases heq
    exact ⟨hn, hslot⟩
  · intro q
    rw [hperm.mem_iff, mem_cons]
    constructor
    · rintro (rfl | hin)
      · exact .inr ⟨rfl, rfl⟩
      refine .inl ⟨?_, hin⟩
      rintro rfl
      exact hnot hin
    · rintro (⟨-, hin⟩ | ⟨rfl, -⟩)
      · exact .inr hin
      · exact .inl rfl
  · rw [hperm.nodup_iff, nodup_cons]
    exact ⟨hnot, h.nodup o object ho⟩
  · have := h.count o object ho
    rw [hcount, hperm.length_eq, length_cons]
    omega

/-- The state without slot `p`, which pointed at `o`. The reference of the
slot is still counted. -/
def withoutSlot (s : CapState) (g o p : Nat) (t' : SlotTable) (object : Object) : CapState :=
  { s with
    groups := update s.groups g (some t')
    slots := update s.slots p none
    objects := update s.objects o
      (some { object with copies := object.copies.erase p }) }

lemma CapInv.removeSlot (h : CapInv s refs) (hg : s.groups g = some t) (ht' : TableOk t' none)
    (hget : ∀ j : Int, getSlot t' j = if j = i then none else getSlot t j)
    (hp : getSlot t i = some p) (hslot : s.slots p = some slot)
    (ho : s.objects slot.object = some object) : CapInv (withoutSlot s g slot.object p t' object)
    (update refs slot.object (refs slot.object + 1)) := by
  obtain ⟨slot0, object0, hs0, hid, hgrp, -, ho0, hin⟩ := h.owner g t i p hg hp
  rw [hslot] at hs0
  cases hs0
  rw [ho] at ho0
  cases ho0
  have hnodup := h.nodup slot.object object ho
  refine h.relink hg ho ht' le_rfl hget ?_ ?_ nofun ?_ (hnodup.erase p) ?_
  · intro q hq
    rw [hp] at hq
    exact (Option.some.inj hq).symm
  · intro slot' hs
    rw [hslot] at hs
    cases hs
    exact ⟨hid, hgrp, rfl⟩
  · intro q
    rw [hnodup.mem_erase_iff]
    exact ⟨.inl, fun hq => hq.resolve_right fun hnone => Bool.false_ne_true hnone.2⟩
  have hcount := h.count _ object ho
  have hlen := length_erase_of_mem hin
  have hpos := length_pos_of_mem hin
  show object.refcount = (object.copies.erase p).length + _
  omega

end

/-! ## Adding an object -/

variable {refs : Nat → Nat}

/-- A new object without references, and for a capability group a slot table
without slots. -/
lemma CapInv.addObject (h : CapInv s refs) {type : ObjectType}
    (hobj : s'.objects = update s.objects s.allocs (some ⟨type, [], 0⟩))
    (hslots : s'.slots = s.slots) (hgroups : s'.groups = s.groups ∨
    ∃ t, s'.groups = update s.groups s.allocs (some t) ∧ TableOk t none ∧ ∀ j, getSlot t j = none)
    (hallocs : s.allocs < s'.allocs) (hfreed : s'.freed = s.freed)
    (hdeinits : s'.deinits = s.deinits) : Evolves s s' ∧ CapInv s' refs := by
  obtain ⟨objects, slots, groups, allocs, freed, deinits⟩ := s'
  dsimp only at hobj hslots hgroups hallocs hfreed hdeinits
  subst hobj hslots hfreed hdeinits
  have hnoObj : s.objects s.allocs = none := by
    cases hq : s.objects s.allocs with
    | none => rfl
    | some q => exact absurd (h.objectLt _ q hq) (lt_irrefl _)
  have hsame : ∀ q obj', s.objects q = some obj' →
      update s.objects s.allocs (some ⟨type, [], 0⟩) q = some obj' :=
    fun q obj' hq => (update_of_ne (ne_of_lt (h.objectLt q obj' hq)) _ _).trans hq
  have hgrpBack : ∀ g t, groups g = some t →
      s.groups g = some t ∨ (g = s.allocs ∧ TableOk t none ∧ ∀ j, getSlot t j = none) := by
    intro g t hg
    rcases hgroups with rfl | ⟨t0, rfl, hok, hempty⟩
    · exact .inl hg
    rcases update_eq_some hg with ⟨rfl, ht⟩ | ⟨_, hg'⟩
    · cases ht
      exact .inr ⟨rfl, hok, hempty⟩
    · exact .inl hg'
  have hgrpSame : ∀ g t, s.groups g = some t → groups g = some t := by
    intro g t hg
    rcases hgroups with rfl | ⟨t0, rfl, _, _⟩
    · exact hg
    · exact (update_of_ne (ne_of_lt (h.groupLt g t hg)) _ _).trans hg
  constructor
  · exact
      { referenced := fun q obj' hq hpos => .inl ⟨obj', hsame q obj' hq, hpos⟩
        kept := fun _ hq => hq
        freed := fun _ hq => .inl hq }
  · exact {
      table := by
        intro g t hg
        rcases hgrpBack g t hg with hg' | ⟨_, hok, _⟩
        · exact h.table g t hg'
        · exact hok
      owner := by
        intro g t i p hg hp
        rcases hgrpBack g t hg with hg' | ⟨_, _, hempty⟩
        · obtain ⟨slot, obj', hs, hi, hgr, hv, ho, hm⟩ := h.owner g t i p hg' hp
          exact ⟨slot, obj', hs, hi, hgr, hv, hsame _ obj' ho, hm⟩
        · rw [hempty] at hp
          exact absurd hp (by simp)
      copy := by
        intro q obj' p hq hm
        rcases update_eq_some hq with ⟨_, heq⟩ | ⟨_, hq'⟩
        · cases heq
          exact absurd hm (by simp)
        obtain ⟨slot, t, hs, ho, hg, hget⟩ := h.copy q obj' p hq' hm
        exact ⟨slot, t, hs, ho, hgrpSame _ t hg, hget⟩
      nodup := forall_update nodup_nil fun q obj' _ hq => h.nodup q obj' hq
      count := by
        refine forall_update ?_ fun q obj' _ hq => h.count q obj' hq
        have := h.dead _ hnoObj
        show 0 = 0 + refs s.allocs
        omega
      dead := fun q hq => h.dead q (none_of_update hq).2
      objectLt := forall_update hallocs fun q obj' _ hq => (h.objectLt q obj' hq).trans hallocs
      slotLt := fun p slot hp => (h.slotLt p slot hp).trans hallocs
      groupLt := by
        intro g t hg
        rcases hgrpBack g t hg with hg' | ⟨rfl, _, _⟩
        · exact lt_trans (h.groupLt g t hg') hallocs
        · exact hallocs
      freedDead := by
        intro e he
        obtain ⟨hdead, hlt⟩ := h.freedDead e he
        exact ⟨(update_of_ne (ne_of_lt hlt) _ _).trans hdead, hlt.trans hallocs⟩
      freedOnce := h.freedOnce
      deinits := h.deinits
    }

/-! ## Taking and dropping references -/

/-- The counter of an object changes together with the references to it. -/
lemma CapInv.setRefcount (h : CapInv s refs) {object' : Object}
    (ho : s.objects o = some object) (hcopies : object'.copies = object.copies)
    {r : Nat} (hcount : object'.refcount = object.copies.length + r) :
    CapInv (s.setObject o (some object')) (update refs o r) := by
  have hfix : ∀ q obj, s.objects q = some obj → ∃ obj',
      update s.objects o (some object') q = some obj' ∧ obj'.copies = obj.copies := by
    intro q obj hq
    by_cases hqo : q = o
    · subst hqo
      rw [ho] at hq
      cases hq
      exact ⟨object', update_self _ _ _, hcopies⟩
    · exact ⟨obj, (update_of_ne hqo _ _).trans hq, rfl⟩
  exact {
    table := h.table
    owner := by
      intro g t i p hg hp
      obtain ⟨slot, obj, hs, hi, hgr, hv, hobj, hmem⟩ := h.owner g t i p hg hp
      obtain ⟨obj', hobj', hc⟩ := hfix _ obj hobj
      exact ⟨slot, obj', hs, hi, hgr, hv, hobj', hc ▸ hmem⟩
    copy := by
      intro q obj p hq
      revert q obj
      refine forall_update ?_ fun q obj _ hq => h.copy q obj p hq
      rw [hcopies]
      exact h.copy o object p ho
    nodup := forall_update (hcopies ▸ h.nodup o object ho) fun q obj _ hq => h.nodup q obj hq
    count := by
      refine forall_update ?_ fun q obj hqo hq => ?_
      · rw [update_self, hcount, hcopies]
      rw [update_of_ne hqo]
      exact h.count q obj hq
    dead := h.dead_update
    objectLt := forall_update (h.objectLt o object ho) fun q obj _ hq => h.objectLt q obj hq
    slotLt := h.slotLt
    groupLt := h.groupLt
    freedDead := h.freed_update ho
    freedOnce := h.freedOnce
    deinits := h.deinits
  }

/-- An object without slots can be freed. -/
lemma CapInv.destroy (h : CapInv s refs) (ho : s.objects o = some object)
    (hcopies : object.copies = []) (hobj : s'.objects = update s.objects o none)
    (hslots : s'.slots = s.slots) (hgroups : s'.groups = s.groups) (hallocs : s'.allocs = s.allocs)
    (hfreed : s'.freed = (o, object.type) :: s.freed) (hdeinits : s'.deinits =
    if objDeinitTbl object.type then (o, object.type) :: s.deinits else s.deinits) :
    CapInv s' (update refs o 0) := by
  obtain ⟨objects, slots, groups, allocs, freed, deinits⟩ := s'
  dsimp only at hobj hslots hgroups hallocs hfreed hdeinits
  subst hobj hslots hgroups hallocs hfreed hdeinits
  have hnotFreed : o ∉ s.freed.map Prod.fst := by
    intro hmem
    obtain ⟨e, he, rfl⟩ := mem_map.1 hmem
    rw [(h.freedDead e he).1] at ho
    exact absurd ho (by simp)
  exact {
    table := h.table
    owner := by
      intro g t i p hg hp
      obtain ⟨slot, obj', hs, hi, hgr, hv, ho', hmem⟩ := h.owner g t i p hg hp
      have hne : slot.object ≠ o := by
        intro heq
        rw [heq, ho] at ho'
        cases ho'
        rw [hcopies] at hmem
        exact absurd hmem (by simp)
      exact ⟨slot, obj', hs, hi, hgr, hv, (update_of_ne hne _ _).trans ho', hmem⟩
    copy := fun q obj' p hq hmem => h.copy q obj' p (some_of_erase hq).2 hmem
    nodup := fun q obj' hq => h.nodup q obj' (some_of_erase hq).2
    count := by
      intro q obj' hq
      obtain ⟨hne, hq'⟩ := some_of_erase hq
      rw [update_of_ne hne]
      exact h.count q obj' hq'
    dead := by
      intro q hq
      by_cases hqo : q = o
      · subst hqo
        exact update_self _ _ _
      replace hq := (update_of_ne hqo _ _).symm.trans hq
      rw [update_of_ne hqo]
      exact h.dead q hq
    objectLt := fun q obj' hq => h.objectLt q obj' (some_of_erase hq).2
    slotLt := h.slotLt
    groupLt := h.groupLt
    freedDead := by
      intro e he
      rcases mem_cons.1 he with rfl | he'
      · exact ⟨update_self _ _ _, h.objectLt o object ho⟩
      obtain ⟨hdead, hlt⟩ := h.freedDead e he'
      by_cases heo : e.1 = o
      · rw [heo]
        exact ⟨update_self _ _ _, h.objectLt o object ho⟩
      · exact ⟨(update_of_ne heo _ _).trans hdead, hlt⟩
    freedOnce := nodup_cons.2 ⟨hnotFreed, h.freedOnce⟩
    deinits := by rw [filter_cons, h.deinits]
  }

/-- Dropping the last reference, which is not one of a slot. -/
lemma dropRef_one (ho : s.objects o = some object) (hone : object.refcount = 1)
    (hcopies : object.copies = []) : ∃ s', dropRef s o = .ok s' ∧
    s'.objects = update s.objects o none ∧ s'.slots = s.slots ∧
    s'.groups = (if object.type = .capGroup then update s.groups o none else s.groups) ∧
    s'.allocs = s.allocs ∧ s'.freed = (o, object.type) :: s.freed ∧
    s'.deinits = if objDeinitTbl object.type then (o, object.type) :: s.deinits else s.deinits := by
  have hself : (s.setObject o (some { object with refcount := object.refcount - 1 })).objects o =
      some { object with refcount := object.refcount - 1 } :=
    update_self _ _ _
  simp only [dropRef, deref_eq ho, ok_bind, if_pos hone]
  unfold freeObject
  rw [deref_eq hself, ok_bind, if_neg (by rw [hcopies]; simp)]
  refine ⟨_, rfl, ?_⟩
  cases object.type <;> exact ⟨update_idem _ _ _, rfl, rfl, rfl, rfl, rfl⟩

/-- Dropping one of several references. -/
lemma dropRef_more (h : CapInv s refs) (ho : s.objects o = some object)
    (hpos : 0 < refs o) (hmore : 1 < object.refcount) :
    dropRef s o = .ok (s.setObject o (some { object with refcount := object.refcount - 1 })) ∧
    CapInv (s.setObject o (some { object with refcount := object.refcount - 1 }))
      (update refs o (refs o - 1)) := by
  have hcount := h.count o object ho
  constructor
  · simp only [dropRef, deref_eq ho, ok_bind,
      if_neg (show ¬ object.refcount = 1 by omega), pure_eq_ok]
  · apply h.setRefcount ho
    · rfl
    show object.refcount - 1 = _
    omega

/-- Dropping a reference that is held: the object is freed exactly when that
was the last one. -/
lemma dropRef_spec (h : CapInv s refs) (hpos : 0 < refs o) :
    ∃ s', dropRef s o = .ok s' ∧ Evolves s s' ∧
    (NoGroupFreed s' → CapInv s' (update refs o (refs o - 1))) := by
  cases ho : s.objects o with
  | none =>
    have := h.dead o ho
    omega
  | some object =>
    have hcount := h.count o object ho
    by_cases hone : object.refcount = 1
    · -- the last reference
      have hcopies : object.copies = [] := by
        rw [← length_eq_zero_iff]
        omega
      obtain ⟨s', hrun, hobj, hslots, hgroups, hallocs, hfreed, hdeinits⟩ :=
        dropRef_one ho hone hcopies
      refine ⟨s', hrun, ?_, ?_⟩
      · exact {
          referenced := by
            intro q obj' hq hq'
            by_cases hqo : q = o
            · right
              rw [hfreed, hqo]
              exact mem_cons_self
            left
            exact ⟨obj', by rw [hobj, update_of_ne hqo, hq], hq'⟩
          kept := by
            intro q hq
            rw [hfreed]
            exact mem_cons_of_mem _ hq
          freed := by
            intro q hq
            rw [hfreed] at hq
            rcases mem_cons.1 hq with rfl | hq'
            · exact .inr ⟨object, ho, by omega⟩
            · exact .inl hq'
        }
      · intro hno
        have htype : object.type ≠ .capGroup :=
          hno (o, object.type) (by rw [hfreed]; exact mem_cons_self)
        have hgroups' : s'.groups = s.groups := by
          rw [hgroups]
          exact if_neg htype
        have hzero : refs o - 1 = 0 := by omega
        rw [hzero]
        exact h.destroy ho hcopies hobj hslots hgroups' hallocs hfreed hdeinits
    · obtain ⟨hrun, hinv⟩ := dropRef_more h ho hpos (by omega)
      refine ⟨_, hrun, ?_, fun _ => hinv⟩
      exact Evolves.of_update rfl (by show 0 < object.refcount - 1; omega) rfl

end ChCore.Kernel
