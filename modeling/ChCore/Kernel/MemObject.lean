import ChCore.Kernel.Vmspace

/-!
# Memory objects

The system calls of `kernel/object/memory.c` that create, map and unmap memory
objects, the page fault handler, and the destructor of memory objects. A
process is a capability group whose slots 0 and 1 hold the group itself and its
address space, as `create_root_cap_group` sets it up.

Memory objects and address spaces are the opaque parts of kernel objects, so
they have the addresses of those. Physical memory is counted in page frames;
`returned` are the frames that were given back to the buddy allocator or to
`kfree` and have not been handed out again.
-/

namespace ChCore.Kernel

/-- `EPERM`. -/
def eperm : Int := 1

/-- `ENOMAPPING`. -/
def enomapping : Int := 203

/-- The arguments `-1` that stand for the size of the object. -/
def wholeObject : Nat := 2 ^ 64 - 1

structure MemSystem where
  caps : CapState
  pmos : Nat → Option Pmobject
  vmspaces : Nat → Option Vmspace
  returned : List Nat

/-- The page frames that belong to a memory object, which are the ones that
`pmo_deinit` gives back. -/
def Pmobject.frames (pmo : Pmobject) : List Nat := match pmo.type with
  | .data | .dataNocache =>
    (List.range (pmo.size / pageSize)).map fun k => pmo.start / pageSize + k
  | .anonym | .shm => pmo.radix.map fun e => e.2 / pageSize
  | .device | .forbid => []

namespace MemSystem

/-- The objects that a capability call destroys. -/
def destroyed (m : MemSystem) (caps : CapState) : List Nat :=
  (List.range m.caps.allocs).filter fun o => (caps.objects o).isNone

/-- The state after a capability call. `__free_object` calls the destructors
of the objects that are freed: `pmo_deinit` gives the memory of a memory object
back, and `vmspace_deinit` frees the page table. -/
def reap (m : MemSystem) (caps : CapState) : MemSystem where
  caps := caps
  pmos := fun o => if (caps.objects o).isSome then m.pmos o else none
  vmspaces := fun v => if (caps.objects v).isSome then m.vmspaces v else none
  returned := ((m.destroyed caps).flatMap fun o =>
    ((m.pmos o).map Pmobject.frames).getD []) ++ m.returned

/-- Page frames are handed out. -/
def take (m : MemSystem) (frames : List Nat) : MemSystem :=
  { m with returned := m.returned.filter fun f => f ∉ frames }

def setVmspace (m : MemSystem) (v : Nat) (vs : Vmspace) : MemSystem :=
  { m with vmspaces := Function.update m.vmspaces v (some vs) }

def setPmo (m : MemSystem) (o : Nat) (pmo : Pmobject) : MemSystem :=
  { m with pmos := Function.update m.pmos o (some pmo) }

/-- `obj_put`. -/
def put (m : MemSystem) (o : Nat) : Exec MemSystem := do
  let caps ← objPut m.caps o
  return m.reap caps

end MemSystem

section

variable (mem : Allocator) (getPages : Nat → Nat) (pgd : Nat)

/-- `create_root_cap_group`. -/
def createRootCapGroup (m : MemSystem) : Exec (MemSystem × Nat) :=
  match objAlloc mem m.caps .capGroup with
  | (_, none) => .error .bug
  | (caps, some g) => do
    let (caps, slotId) ← capAlloc mem caps g g 0
    if slotId ≠ 0 then .error .bug
    else
      match objAlloc mem caps .vmspace with
      | (_, none) => .error .bug
      | (caps, some v) =>
        let (caps, slotId) ← capAlloc mem caps g v 0
        if slotId ≠ 1 then .error .bug
        else return ({ m with caps }.setVmspace v (vmspaceInit pgd), g)

/-- `sys_create_pmo` with a type that exists. -/
def sysCreatePmo (m : MemSystem) (cur size : Nat) (type : PmoType)
    (start : Nat) : Exec (MemSystem × Int) :=
  if size = 0 then .error .bug
  else
    match objAlloc mem m.caps .pmo with
    | (caps, none) => .ok ({ m with caps }, -enomem)
    | (caps, some o) => do
      let pmo := newPmo type size start
      let (caps, cap) ← capAlloc mem caps cur o 0
      if cap < 0 then
        -- `obj_free` frees the object without calling its destructor
        return ({ m with caps := caps.setObject o none }.take pmo.frames, cap)
      else return (({ m with caps }.setPmo o pmo).take pmo.frames, cap)

/-- In `sys_map_pmo`, with the result `r` of `vmspace_map_range`: a process for
which an object was mapped gets a capability for it. -/
def giveCap (caps : CapState) (r : Int) (cur target : Nat) (pmoCap : Int) : Exec (CapState × Int) :=
  if r ≠ 0 then .ok (caps, -eperm)
  else if target ≠ cur then capCopy mem caps cur target pmoCap
  else .ok (caps, 0)

/-- `sys_map_pmo`. -/
def sysMapPmo (m : MemSystem) (cur : Nat) (targetCap pmoCap : Int)
    (addr perm len : Nat) : Exec (MemSystem × Int) := do
  match ← objGet m.caps cur pmoCap .pmo with
  | (caps, none) => return ({ m with caps }, -ecapbility)
  | (caps, some p) =>
    let pmo ← deref m.pmos p
    let len := if len = wholeObject then pmo.size else len
    match ← objGet caps cur targetCap .capGroup with
    | (caps, none) =>
      let m ← { m with caps }.put p
      return (m, -ecapbility)
    | (caps, some target) =>
      match ← objGet caps target 1 .vmspace with
      | (_, none) => .error .bug
      | (caps, some v) =>
        let vs ← deref m.vmspaces v
        let (vs, r) ← vmspaceMapRange mem getPages vs addr len perm p pmo
        let m := { m with caps }.setVmspace v vs
        let (caps, r) ← giveCap mem m.caps r cur target pmoCap
        let m ← { m with caps }.put v
        let m ← m.put target
        let m ← m.put p
        return (m, r)

/-- `struct pmo_map_request`. -/
structure PmoMapRequest where
  pmoCap : Int
  addr : Nat
  perm : Nat
  freeCap : Nat
  deriving DecidableEq, Repr

/-- What `sys_map_pmos` does after a request with `free_cap` was mapped. -/
def unmapAndFree (m : MemSystem) (cur : Nat) (pmoCap : Int) : Exec MemSystem := do
  match ← objGet m.caps cur pmoCap .pmo with
  | (_, none) => .error .bug
  | (caps, some p) =>
    match ← objGet caps cur 1 .vmspace with
    | (_, none) => .error .bug
    | (caps, some v) =>
      let vs ← deref m.vmspaces v
      let (vs, _) ← unmapPmoInVmspace vs p
      let m := { m with caps }.setVmspace v vs
      let (caps, _) ← capFree m.caps cur pmoCap
      let m ← (m.reap caps).put v
      m.put p

/-- One request of `sys_map_pmos`. -/
def mapRequest (m : MemSystem) (cur : Nat) (targetCap : Int)
    (request : PmoMapRequest) : Exec (MemSystem × Int) := do
  let (m, mapRet) ← sysMapPmo mem getPages m cur targetCap request.pmoCap
    request.addr request.perm wholeObject
  if mapRet ≥ 0 ∧ request.freeCap = 1 then
    let m ← unmapAndFree m cur request.pmoCap
    return (m, mapRet)
  else return (m, mapRet)

/-- The loop of `sys_map_pmos`. -/
def mapRequests (cur : Nat) (targetCap : Int) :
    MemSystem → List PmoMapRequest → Int → Exec (MemSystem × Int)
  | m, [], ret => .ok (m, ret)
  | m, request :: requests, ret => do
    let (m, mapRet) ← mapRequest mem getPages m cur targetCap request
    mapRequests cur targetCap m requests (if mapRet < 0 then -einval else ret)

/-- `MAX_CNT`. -/
def maxCnt : Nat := 32

/-- `sys_map_pmos`. -/
def sysMapPmos (m : MemSystem) (cur : Nat) (targetCap : Int)
    (requests : List PmoMapRequest) : Exec (MemSystem × Int) :=
  if requests.length > maxCnt then .ok (m, -einval)
  else mapRequests mem getPages cur targetCap m requests 0

/-- `sys_unmap_pmo`. -/
def sysUnmapPmo (m : MemSystem) (cur : Nat) (targetCap pmoCap : Int)
    (addr : Nat) : Exec (MemSystem × Int) := do
  match ← objGet m.caps cur pmoCap .pmo with
  | (caps, none) => return ({ m with caps }, -eperm)
  | (caps, some p) =>
    match ← objGet caps cur targetCap .capGroup with
    | (caps, none) =>
      let m ← { m with caps }.put p
      return (m, -eperm)
    | (caps, some target) =>
      match ← objGet caps target 1 .vmspace with
      | (caps, none) =>
        let m ← { m with caps }.put target
        let m ← m.put p
        return (m, -eperm)
      | (caps, some v) =>
        let vs ← deref m.vmspaces v
        let pmo ← deref m.pmos p
        let (vs, ret) ← vmspaceUnmapRange vs addr pmo.size
        let m ← ({ m with caps }.setVmspace v vs).put v
        let m ← m.put target
        let m ← m.put p
        return (m, if ret ≠ 0 then -eperm else ret)

/-- `handle_trans_fault`; `page` is the physical address of the page that
`get_pages` returns if one is needed. -/
def handleTransFault (m : MemSystem) (v faultAddr page : Nat) : Exec (MemSystem × Int) := do
  let vs ← deref m.vmspaces v
  match findVmrForVa vs faultAddr with
  | none => return (m, -enomapping)
  | some (_, vmr) =>
    let pmo ← deref m.pmos vmr.pmo
    if pmo.type = .anonym ∨ pmo.type = .shm then
      let offset := u64 (roundDown faultAddr + 2 ^ 64 - vmr.start)
      if offset ≥ pmo.size then .error .bug
      else
        let index := offset / pageSize
        let (m, pa) := match pmo.radix.lookup index with
          | none =>
            ((m.setPmo vmr.pmo
              { pmo with radix := (index, page) :: pmo.radix }).take [page / pageSize], page)
          | some pa => (m, pa)
        let pgtbl ← mapRangeInPgtbl getPages vs.pgtbl vs.pgd
          (roundDown faultAddr) pa pageSize vmr.perm
        return (m.setVmspace v { vs with pgtbl }, 0)
    else .error .bug

/-- What processes can do with memory objects. `cur` is the capability group
of the caller. -/
inductive MemOp
  | createProcess
  | createPmo (cur size : Nat) (type : PmoType) (start : Nat)
  | mapPmo (cur : Nat) (targetCap pmoCap : Int) (addr perm len : Nat)
  | mapPmos (cur : Nat) (targetCap : Int) (requests : List PmoMapRequest)
  | unmapPmo (cur : Nat) (targetCap pmoCap : Int) (addr : Nat)
  | capCopy (src dest : Nat) (slotId : Int)
  | capMove (src dest : Nat) (slotId : Int)
  | capFree (capGroup : Nat) (slotId : Int)
  | capFreeAll (capGroup : Nat) (slotId : Int)
  | pageFault (v faultAddr page : Nat)
  deriving DecidableEq, Repr

/-- One step. -/
def memStep (m : MemSystem) : MemOp → Exec MemSystem
  | .createProcess => do
    let (m, _) ← createRootCapGroup mem pgd m
    return m
  | .createPmo cur size type start => do
    let (m, _) ← sysCreatePmo mem m cur size type start
    return m
  | .mapPmo cur targetCap pmoCap addr perm len => do
    let (m, _) ← sysMapPmo mem getPages m cur targetCap pmoCap addr perm len
    return m
  | .mapPmos cur targetCap requests => do
    let (m, _) ← sysMapPmos mem getPages m cur targetCap requests
    return m
  | .unmapPmo cur targetCap pmoCap addr => do
    let (m, _) ← sysUnmapPmo m cur targetCap pmoCap addr
    return m
  | .capCopy src dest slotId => do
    let (caps, _) ← ChCore.Kernel.capCopy mem m.caps src dest slotId
    return m.reap caps
  | .capMove src dest slotId => do
    let (caps, _) ← ChCore.Kernel.capMove mem m.caps src dest slotId
    return m.reap caps
  | .capFree capGroup slotId => do
    let (caps, _) ← ChCore.Kernel.capFree m.caps capGroup slotId
    return m.reap caps
  | .capFreeAll capGroup slotId => do
    let (caps, _) ← ChCore.Kernel.capFreeAll m.caps capGroup slotId
    return m.reap caps
  | .pageFault v faultAddr page => do
    let (m, _) ← handleTransFault getPages m v faultAddr page
    return m

end

/-- Nothing exists yet. -/
def MemSystem.empty : MemSystem :=
  ⟨⟨fun _ => none, fun _ => none, fun _ => none, 0, [], []⟩, fun _ => none, fun _ => none, []⟩

end ChCore.Kernel
