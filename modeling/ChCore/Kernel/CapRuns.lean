import ChCore.Lib.Runs
import ChCore.Kernel.CapOps

/-!
# Runs of the capability functions

The state machine whose requests are the calls of the capability functions, in
any order and by any number of capability groups. `total` counts what refers
to an object: the slots of all groups, and the references that callers of
`obj_get` still hold. In every state that is reached the counter of an object
is that number, and an object is freed in the step in which it becomes zero.
-/

namespace ChCore.Kernel

open Lib.Runs List

/-- The kernel memory, and the references that were taken with `obj_get` and
not yet given back. -/
structure CapSystem where
  state : CapState
  gets : List Nat

/-- A call of a capability function. -/
inductive CapOp
  | objAlloc (type : ObjectType)
  | capAlloc (capGroup obj rights : Nat)
  | capCopy (src dest : Nat) (srcSlotId : Int)
  | capMove (src dest : Nat) (srcSlotId : Int)
  | capFree (capGroup : Nat) (slotId : Int)
  | capFreeAll (capGroup : Nat) (slotId : Int)
  | objGet (capGroup : Nat) (slotId : Int) (type : ObjectType)
  | objPut (obj : Nat)
  deriving DecidableEq, Repr

/-- One call. -/
def capStep (mem : Allocator) (c : CapSystem) : CapOp → Exec CapSystem
  | .objAlloc type => .ok { c with state := (objAlloc mem c.state type).1 }
  | .capAlloc capGroup obj rights => do
    let (s, _) ← capAlloc mem c.state capGroup obj rights
    return { c with state := s }
  | .capCopy src dest srcSlotId => do
    let (s, _) ← capCopy mem c.state src dest srcSlotId
    return { c with state := s }
  | .capMove src dest srcSlotId => do
    let (s, _) ← capMove mem c.state src dest srcSlotId
    return { c with state := s }
  | .capFree capGroup slotId => do
    let (s, _) ← capFree c.state capGroup slotId
    return { c with state := s }
  | .capFreeAll capGroup slotId => do
    let (s, _) ← capFreeAll c.state capGroup slotId
    return { c with state := s }
  | .objGet capGroup slotId type => do
    let (s, obj) ← objGet c.state capGroup slotId type
    return ⟨s, obj.toList ++ c.gets⟩
  | .objPut obj => do
    let s ← objPut c.state obj
    return ⟨s, c.gets.erase obj⟩

/-- Nothing is allocated yet. -/
def initCaps : CapSystem := ⟨⟨fun _ => none, fun _ => none, fun _ => none, 0, [], []⟩, []⟩

/-- The pointers that a call is given are valid: groups are alive, an object
that gets its first capability exists, and a reference that is put was taken.
-/
def PointersValid (c : CapSystem) : CapOp → Prop
  | .objAlloc _ => True
  | .capAlloc capGroup obj _ =>
    (c.state.groups capGroup).isSome ∧ (c.state.objects obj).isSome
  | .capCopy src dest _ =>
    (c.state.groups src).isSome ∧ (c.state.groups dest).isSome
  | .capMove src dest _ =>
    (c.state.groups src).isSome ∧ (c.state.groups dest).isSome
  | .capFree capGroup _ => (c.state.groups capGroup).isSome
  | .capFreeAll capGroup _ => (c.state.groups capGroup).isSome
  | .objGet capGroup _ _ => (c.state.groups capGroup).isSome
  | .objPut obj => obj ∈ c.gets

/-- The calls of a run: valid pointers, and no capability group is destroyed. -/
def CapAllowed (mem : Allocator) (c : CapSystem) (op : CapOp) : Prop := PointersValid c op ∧
    ∀ c', capStep mem c op = .ok c' → NoGroupFreed c'.state

instance (c : CapSystem) : ∀ op, Decidable (PointersValid c op) := fun op => by
  cases op <;> (dsimp only [PointersValid]; infer_instance)

instance (s : CapState) : Decidable (NoGroupFreed s) :=
  inferInstanceAs (Decidable (∀ e ∈ s.freed, e.2 ≠ .capGroup))

instance (mem : Allocator) (c : CapSystem) (op : CapOp) : Decidable (CapAllowed mem c op) := by
  unfold CapAllowed
  infer_instance

/-! ## Counting -/

/-- Slot `p` points at object `o`. -/
def pointsAt (s : CapState) (o p : Nat) : Bool := (s.slots p).any fun slot => slot.object = o

/-- The slots of group `g` that point at object `o`. -/
def slotsIn (s : CapState) (o g : Nat) : List Nat := match s.groups g with
  | none => []
  | some t => (List.range t.slotsSize).filterMap fun i : Nat =>
    (getSlot t (i : Int)).filter (pointsAt s o)

/-- The slots of all capability groups that point at object `o`. -/
def slotsOf (s : CapState) (o : Nat) : List Nat := (List.range s.allocs).flatMap (slotsIn s o)

/-- Everything that refers to object `o`. -/
def CapSystem.total (c : CapSystem) (o : Nat) : Nat := (slotsOf c.state o).length + c.gets.count o

/-- **References are counted.** -/
structure RefCounted (c : CapSystem) : Prop where
  refcount : ∀ o object, c.state.objects o = some object → object.refcount = c.total o
  copies : ∀ o object, c.state.objects o = some object →
    object.copies.Perm (slotsOf c.state o) ∧ object.copies.Nodup
  freed : ∀ o, o ∈ c.state.freed.map Prod.fst → c.state.objects o = none ∧ c.total o = 0
  freedOnce : (c.state.freed.map Prod.fst).Nodup
  deinits : c.state.deinits = c.state.freed.filter fun e => objDeinitTbl e.2

/-- The objects that a step frees are those to which nothing refers any more
after it. -/
def FreedExactly (c c' : CapSystem) : Prop :=
  ∀ o, (o ∈ c'.state.freed.map Prod.fst ∧ o ∉ c.state.freed.map Prod.fst) ↔
    (0 < c.total o ∧ c'.total o = 0)

variable {s : CapState} {o : Nat}

lemma pointsAt_iff {p : Nat} {slot : ObjectSlot} (h : s.slots p = some slot) :
    pointsAt s o p = true ↔ slot.object = o := by
  simp [pointsAt, h]

lemma mem_slotsIn (s : CapState) (o g p : Nat) :
    p ∈ slotsIn s o g ↔ ∃ t, s.groups g = some t ∧ ∃ i : Nat,
    i < t.slotsSize ∧ getSlot t i = some p ∧ pointsAt s o p = true := by
  unfold slotsIn
  cases ht : s.groups g with
  | none => simp
  | some t =>
    simp only [mem_filterMap, mem_range, Option.filter_eq_some_iff,
      Option.some.injEq, exists_eq_left']

variable {refs : Nat → Nat}

lemma mem_slotsOf (h : CapInv s refs) (o p : Nat) :
    p ∈ slotsOf s o ↔ ∃ object, s.objects o = some object ∧ p ∈ object.copies := by
  constructor
  · intro hmem
    obtain ⟨g, _, hg⟩ := mem_flatMap.1 hmem
    obtain ⟨t, ht, i, _, hget, hpts⟩ := (mem_slotsIn s o g p).1 hg
    obtain ⟨slot, object, hs, _, _, _, ho, hp⟩ := h.owner g t i p ht hget
    rw [pointsAt_iff hs] at hpts
    exact ⟨object, hpts ▸ ho, hp⟩
  · rintro ⟨object, ho, hp⟩
    obtain ⟨slot, t, hs, hso, hg, hget⟩ := h.copy o object p ho hp
    obtain ⟨i, hi, hlt, _⟩ := getSlot_some hget
    refine mem_flatMap.2 ⟨slot.capGroup, mem_range.2 (h.groupLt _ t hg), ?_⟩
    rw [mem_slotsIn]
    exact ⟨t, hg, i, hlt, hi ▸ hget, (pointsAt_iff hs).2 hso⟩

lemma nodup_slotsOf (h : CapInv s refs) (o : Nat) : (slotsOf s o).Nodup := by
  unfold slotsOf
  rw [nodup_flatMap]
  constructor
  · intro g _
    unfold slotsIn
    cases ht : s.groups g with
    | none => exact nodup_nil
    | some t =>
      refine List.Nodup.filterMap ?_ nodup_range
      intro i j p hi hj
      -- a slot names the number that leads to it
      obtain ⟨slot, _, hs, hid, _⟩ := h.owner g t i p ht (Option.filter_eq_some_iff.1 hi).1
      obtain ⟨slot', _, hs', hid', _⟩ := h.owner g t j p ht (Option.filter_eq_some_iff.1 hj).1
      rw [hs] at hs'
      cases hs'
      omega
  · refine List.Pairwise.imp ?_ nodup_range
    intro g g' hne p hp hp'
    obtain ⟨t, ht, i, _, hget, _⟩ := (mem_slotsIn s o g p).1 hp
    obtain ⟨t', ht', j, _, hget', _⟩ := (mem_slotsIn s o g' p).1 hp'
    obtain ⟨slot, _, hs, _, hgr, _⟩ := h.owner g t i p ht hget
    obtain ⟨slot', _, hs', _, hgr', _⟩ := h.owner g' t' j p ht' hget'
    rw [hs] at hs'
    cases hs'
    exact hne (hgr.symm.trans hgr')

lemma copies_perm (h : CapInv s refs) {object : Object} (ho : s.objects o = some object) :
    object.copies.Perm (slotsOf s o) := by
  rw [perm_ext_iff_of_nodup (h.nodup o object ho) (nodup_slotsOf h o)]
  intro p
  rw [mem_slotsOf h]
  constructor
  · intro hp
    exact ⟨object, ho, hp⟩
  · rintro ⟨object', ho', hp⟩
    rw [ho] at ho'
    cases ho'
    exact hp

/-- The invariant of a run. -/
def SystemInv (c : CapSystem) : Prop := CapInv c.state fun o => c.gets.count o

variable {c : CapSystem}

lemma SystemInv.total_live (h : SystemInv c) {object : Object}
    (ho : c.state.objects o = some object) : object.refcount = c.total o := by
  rw [CapInv.count h o object ho, CapSystem.total, (copies_perm h ho).length_eq]

lemma SystemInv.total_dead (h : SystemInv c) (ho : c.state.objects o = none) : c.total o = 0 := by
  have hempty : slotsOf c.state o = [] := by
    rw [eq_nil_iff_forall_not_mem]
    intro p hp
    obtain ⟨object, ho', _⟩ := (mem_slotsOf h o p).1 hp
    rw [ho] at ho'
    exact absurd ho' (by simp)
  have hgets : c.gets.count o = 0 := CapInv.dead h o ho
  rw [CapSystem.total, hempty, hgets]
  rfl

lemma SystemInv.refCounted (h : SystemInv c) : RefCounted c where
  refcount := fun _ _ ho => h.total_live ho
  copies := fun o object ho => ⟨copies_perm h ho, CapInv.nodup h o object ho⟩
  freed := by
    intro o ho
    obtain ⟨e, he, rfl⟩ := mem_map.1 ho
    have hdead := (CapInv.freedDead h e he).1
    exact ⟨hdead, h.total_dead hdead⟩
  freedOnce := CapInv.freedOnce h
  deinits := CapInv.deinits h

lemma SystemInv.freedExactly {c' : CapSystem} (h : SystemInv c)
    (h' : SystemInv c') (hev : Evolves c.state c'.state) : FreedExactly c c' := by
  intro o
  constructor
  · rintro ⟨hin, hnot⟩
    refine ⟨?_, (h'.refCounted.freed o hin).2⟩
    rcases hev.freed o hin with hold | ⟨object, ho, hpos⟩
    · exact absurd hold hnot
    rw [← h.total_live ho]
    exact hpos
  · rintro ⟨hpos, hzero⟩
    cases ho : c.state.objects o with
    | none =>
      rw [h.total_dead ho] at hpos
      exact absurd hpos (lt_irrefl 0)
    | some object =>
      rw [← h.total_live ho] at hpos
      have hnot : o ∉ c.state.freed.map Prod.fst := by
        intro hin
        rw [(h.refCounted.freed o hin).1] at ho
        exact absurd ho (by simp)
      refine ⟨?_, hnot⟩
      rcases hev.referenced o object ho hpos with ⟨object', ho', hpos'⟩ | hfreed
      · rw [h'.total_live ho', hzero] at hpos'
        exact absurd hpos' (lt_irrefl 0)
      · exact hfreed

/-! ## Steps -/

/-- The one call with valid pointers that does not return: `cap_alloc` of an
object that already has references. -/
def HaltsInCapAlloc (mem : Allocator) (c : CapSystem) (op : CapOp) : Prop :=
  ∃ capGroup obj rights object, op = .capAlloc capGroup obj rights ∧
    c.state.objects obj = some object ∧ object.refcount ≠ 0 ∧
    capStep mem c op = .error .bug

/-- Every call with valid pointers returns, but for that one. -/
lemma capStep_spec {mem : Allocator} (hmem : ∀ n, mem.ok n = true)
    (h : SystemInv c) {op : CapOp} (hop : PointersValid c op) :
    (∃ c', capStep mem c op = .ok c' ∧ Evolves c.state c'.state ∧
    (NoGroupFreed c'.state → SystemInv c')) ∨ HaltsInCapAlloc mem c op := by
  cases op with
  | objAlloc type =>
    left
    obtain ⟨s', hrun, _, _, hev, hinv⟩ := objAlloc_spec hmem h type
    refine ⟨{ c with state := s' }, ?_, hev, fun _ => hinv⟩
    simp only [capStep, hrun]
  | capAlloc g o rights =>
    obtain ⟨object, ho⟩ := Option.isSome_iff_exists.1 hop.2
    rcases capAlloc_spec hmem h hop.1 ho rights with ⟨hne, hbug⟩ | ⟨s', r, hrun, _, _, _, hev, hinv⟩
    · right
      refine ⟨g, o, rights, object, rfl, ho, hne, ?_⟩
      simp only [capStep, hbug, error_bind]
    left
    refine ⟨{ c with state := s' }, ?_, hev, fun _ => hinv⟩
    simp only [capStep, hrun, ok_bind, pure_eq_ok]
  | capCopy src dest i =>
    left
    obtain ⟨s', r, hrun, hev, hinv⟩ := capCopy_spec hmem h hop.1 hop.2 i
    refine ⟨{ c with state := s' }, ?_, hev, fun _ => hinv⟩
    simp only [capStep, hrun, ok_bind, pure_eq_ok]
  | capMove src dest i =>
    left
    obtain ⟨s', r, hrun, _, hev, hinv⟩ := capMove_spec hmem h hop.1 hop.2 i
    refine ⟨{ c with state := s' }, ?_, hev, fun _ => hinv⟩
    simp only [capStep, hrun, ok_bind, pure_eq_ok]
  | capFree g i =>
    left
    obtain ⟨s', r, hrun, hev, hinv⟩ := capFree_spec h hop i
    refine ⟨{ c with state := s' }, ?_, hev, hinv⟩
    simp only [capStep, hrun, ok_bind, pure_eq_ok]
  | capFreeAll g i =>
    left
    obtain ⟨s', r, hrun, hev, hinv⟩ := capFreeAll_spec h hop i
    refine ⟨{ c with state := s' }, ?_, hev, hinv⟩
    simp only [capStep, hrun, ok_bind, pure_eq_ok]
  | objGet g i type =>
    left
    rcases getOpaque_spec h hop i (some type) with hnone | ⟨o, object, ho, hpos, _, _, hsome, hinv⟩
    · refine ⟨c, ?_, Evolves.refl _, fun _ => h⟩
      simp only [capStep, objGet, hnone, ok_bind, pure_eq_ok, Option.toList_none, nil_append]
    refine ⟨⟨c.state.setObject o (some { object with
      refcount := object.refcount + 1 }), o :: c.gets⟩, ?_, ?_, ?_⟩
    · simp only [capStep, objGet, hsome, ok_bind, pure_eq_ok, Option.toList_some, singleton_append]
    · exact Evolves.of_update rfl (Nat.succ_pos _) rfl
    intro _
    unfold SystemInv
    rw [count_cons_eq]
    exact hinv
  | objPut o =>
    left
    obtain ⟨s', hrun, hev, hinv⟩ := dropRef_spec h (count_pos_iff.2 hop)
    refine ⟨⟨s', c.gets.erase o⟩, ?_, hev, ?_⟩
    · simp only [capStep, objPut, hrun, ok_bind, pure_eq_ok]
    intro hno
    unfold SystemInv
    rw [count_erase_eq]
    exact hinv hno

lemma systemInv_init : SystemInv initCaps := CapInv.init

/-! ## Whole runs -/

end ChCore.Kernel
