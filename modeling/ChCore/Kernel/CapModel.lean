import ChCore.Kernel.SlotTable

/-!
# Kernel objects and capabilities

`kernel/object/capability.c` and the reference functions of
`kernel/object/cap_group.c`. A block of kernel memory is named by the number
of the allocation that returned it, so an address is never used twice and a
freed block is one whose entry is `none`: following a pointer to it is a fault.

A capability group is the opaque part of an object of type `TYPE_CAP_GROUP`,
so it has the address of that object. The list `copies_head` of an object
holds the slots that are linked into it, the one behind `copies_head.next`
first. Reference counters are natural numbers: no run makes `2 ^ 64`
references.
-/

namespace ChCore.Kernel

open Function

/-- `enum object_type`. -/
inductive ObjectType
  | capGroup
  | thread
  | connection
  | pmo
  | vmspace
  | semaphore
  deriving DecidableEq, Repr

/-- `obj_deinit_tbl[type]` is not null. -/
def objDeinitTbl : ObjectType → Bool
  | .semaphore => false
  | _ => true

/-- `struct object`, without the part that belongs to its type. -/
structure Object where
  type : ObjectType
  copies : List Nat
  refcount : Nat
  deriving DecidableEq, Repr

/-- `struct object_slot`. -/
structure ObjectSlot where
  slotId : Int
  capGroup : Nat
  isvalid : Bool
  rights : Nat
  object : Nat
  deriving DecidableEq, Repr

/-- The kernel memory that capabilities live in. `freed` and `deinits` log
the objects whose memory was freed and whose destructor was called. -/
structure CapState where
  objects : Nat → Option Object
  slots : Nat → Option ObjectSlot
  groups : Nat → Option SlotTable
  allocs : Nat
  freed : List (Nat × ObjectType)
  deinits : List (Nat × ObjectType)

namespace CapState

def setObject (s : CapState) (o : Nat) (object : Option Object) : CapState :=
  { s with objects := update s.objects o object }

def setSlot (s : CapState) (p : Nat) (slot : Option ObjectSlot) : CapState :=
  { s with slots := update s.slots p slot }

def setGroup (s : CapState) (g : Nat) (t : Option SlotTable) : CapState :=
  { s with groups := update s.groups g t }

end CapState

/-- Follow a pointer. -/
def deref {α : Type} (heap : Nat → Option α) (p : Nat) : Exec α := match heap p with
  | some a => .ok a
  | none => .error .nullDeref

lemma deref_inv {α : Type} {heap : Nat → Option α} {p : Nat} {a : α}
    (h : deref heap p = .ok a) : heap p = some a := by
  unfold deref at h
  cases hp : heap p with
  | none =>
    rw [hp] at h
    cases h
  | some b =>
    rw [hp] at h
    cases h
    rfl

/-- `list_add(&new->copies, &prev->copies)`: link `new` behind `prev`. -/
def insertAfter (prev new : Nat) : List Nat → List Nat
  | [] => [new]
  | a :: l => if a = prev then a :: new :: l else a :: insertAfter prev new l

/-- The element behind `p`; `none` is the list head. -/
def nextIn (p : Nat) : List Nat → Option Nat
  | [] => none
  | a :: l => if a = p then l.head? else nextIn p l

section

variable (mem : Allocator)

/-- `obj_alloc`, and for a capability group also `cap_group_init`. The
address is the result; `none` is the null pointer. `cap_group_init` ignores a
failure of `slot_table_init`, which leaves a table without arrays. -/
def objAlloc (s : CapState) (type : ObjectType) : CapState × Option Nat := let o := s.allocs
  let s := { s with allocs := s.allocs + 1 }
  if mem.ok o then
    let s := s.setObject o (some ⟨type, [], 0⟩)
    if type = .capGroup then
      match slotTableInit mem s.allocs 2 with
      | (some t, n) => ({ s with allocs := n }.setGroup o (some t), some o)
      | (none, n) =>
        ({ s with allocs := n }.setGroup o (some ⟨bitsPerLong, [], [], []⟩), some o)
    else (s, some o)
  else (s, none)

/-- `cap_alloc`. -/
def capAlloc (s : CapState) (capGroup obj rights : Nat) : Exec (CapState × Int) := do
  let t ← deref s.groups capGroup
  let (slotId, t, n) ← allocSlotId mem t s.allocs
  let s := { s with allocs := n }.setGroup capGroup (some t)
  if slotId < 0 then return (s, -enomem)
  else
    let slot := s.allocs
    let s := { s with allocs := s.allocs + 1 }
    if ¬ mem.ok slot then
      let t ← freeSlotId t slotId
      return (s.setGroup capGroup (some t), -enomem)
    else
      let object ← deref s.objects obj
      let s := s.setSlot slot (some ⟨slotId, capGroup, true, rights, obj⟩)
      if object.refcount ≠ 0 then .error .bug
      else
        let s := s.setObject obj
          (some { object with copies := slot :: object.copies, refcount := 1 })
        let t ← installSlot t slotId slot
        return (s.setGroup capGroup (some t), slotId)

/-- `__free_object`. -/
def freeObject (s : CapState) (o : Nat) : Exec CapState := do
  let object ← deref s.objects o
  let s := if objDeinitTbl object.type then
      let s := { s with deinits := (o, object.type) :: s.deinits }
      -- `cap_group_deinit` frees the arrays of the slot table
      if object.type = .capGroup then s.setGroup o none else s
    else s
  if object.copies ≠ [] then .error .bug
  else return { s with freed := (o, object.type) :: s.freed }.setObject o none

/-- The end of `__cap_free` and of `obj_put`: drop one reference. -/
def dropRef (s : CapState) (o : Nat) : Exec CapState := do
  let object ← deref s.objects o
  let oldRefcount := object.refcount
  let s := s.setObject o (some { object with refcount := oldRefcount - 1 })
  if oldRefcount = 1 then freeObject s o else return s

/-- `__cap_free` and `cap_free`. -/
def capFree (s : CapState) (capGroup : Nat) (slotId : Int) : Exec (CapState × Int) := do
  let t ← deref s.groups capGroup
  match getSlot t slotId with
  | none => return (s, -ecapbility)
  | some p =>
    let slot ← deref s.slots p
    if slot.isvalid = false then return (s, -ecapbility)
    else
      let t ← freeSlotId t slotId
      let s := s.setGroup capGroup (some t)
      let object ← deref s.objects slot.object
      let s := s.setObject slot.object (some { object with copies := object.copies.erase p })
      let s := s.setSlot p none
      let s ← dropRef s slot.object
      return (s, 0)

/-- `cap_copy`. The rights of the new slot are not written. -/
def capCopy (s : CapState) (src dest : Nat) (srcSlotId : Int) : Exec (CapState × Int) := do
  let t ← deref s.groups src
  match getSlot t srcSlotId with
  | none => return (s, -ecapbility)
  | some p =>
    let srcSlot ← deref s.slots p
    if srcSlot.isvalid = false then return (s, -ecapbility)
    else
      let t ← deref s.groups dest
      let (destSlotId, t, n) ← allocSlotId mem t s.allocs
      let s := { s with allocs := n }.setGroup dest (some t)
      if destSlotId = -1 then return (s, -enomem)
      else
        let destSlot := s.allocs
        let s := { s with allocs := s.allocs + 1 }
        if ¬ mem.ok destSlot then
          let t ← freeSlotId t destSlotId
          return (s.setGroup dest (some t), -enomem)
        else
          let tSrc ← deref s.groups src
          match getSlot tSrc srcSlotId with
          | none => .error .nullDeref
          | some p =>
            let srcSlot ← deref s.slots p
            let object ← deref s.objects srcSlot.object
            let s := s.setObject srcSlot.object
              (some { object with
                      refcount := object.refcount + 1
                      copies := insertAfter p destSlot object.copies })
            let s := s.setSlot destSlot (some ⟨destSlotId, dest, true, mem.junk destSlot,
                srcSlot.object⟩)
            let t ← installSlot t destSlotId destSlot
            return (s.setGroup dest (some t), destSlotId)

/-- `cap_move`. -/
def capMove (s : CapState) (src dest : Nat) (srcSlotId : Int) : Exec (CapState × Int) := do
  let (s, r) ← capCopy mem s src dest srcSlotId
  if r < 0 then return (s, r)
  else
    let (s, r) ← capFree s src srcSlotId
    if r ≠ 0 then .error .bug else return (s, r)

/-- `get_opaque`; with a type the capability has to be one of that type. -/
def getOpaque (s : CapState) (capGroup : Nat) (slotId : Int)
    (type : Option ObjectType) : Exec (CapState × Option Nat) := do
  let t ← deref s.groups capGroup
  if ← isValidSlotId t slotId then
    match getSlot t slotId with
    | none => .error .nullDeref
    | some p =>
      let slot ← deref s.slots p
      if slot.isvalid = false then .error .bug
      else
        let object ← deref s.objects slot.object
        if type = none ∨ type = some object.type then
          let s := s.setObject slot.object (some { object with refcount := object.refcount + 1 })
          return (s, some slot.object)
        else return (s, none)
  else return (s, none)

/-- `obj_get`. -/
def objGet (s : CapState) (capGroup : Nat) (slotId : Int)
    (type : ObjectType) : Exec (CapState × Option Nat) :=
  getOpaque s capGroup slotId (some type)

/-- `obj_put`. -/
def objPut (s : CapState) (obj : Nat) : Exec CapState := dropRef s obj

/-- The loop of `cap_free_all`. The element after the current one is read
before the current one is freed. -/
def freeCopies : Nat → CapState → Nat → Option Nat → Exec CapState
  | _, s, _, none => .ok s
  | 0, _, _, some _ => .error .bug
  | rounds + 1, s, o, some cur => do
    let object ← deref s.objects o
    let tmp := nextIn cur object.copies
    let slot ← deref s.slots cur
    let (s, r) ← capFree s slot.capGroup slot.slotId
    if r ≠ 0 then .error .bug
    else freeCopies rounds s o tmp

/-- `cap_free_all`. -/
def capFreeAll (s : CapState) (capGroup : Nat) (slotId : Int) : Exec (CapState × Int) := do
  match ← getOpaque s capGroup slotId none with
  | (s, none) => return (s, -ecapbility)
  | (s, some o) =>
    let object ← deref s.objects o
    let s ← freeCopies object.copies.length s o object.copies.head?
    let s ← objPut s o
    return (s, 0)

end

end ChCore.Kernel
