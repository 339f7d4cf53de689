import ChCore.Kernel.Base

/-!
# The round-robin scheduler and semaphores

`sched/policy_rr.c`, `sched/sched.c`, `semaphore/semaphore.c` and the parts of
`object/thread.c` that create threads and set their affinity.

Every function runs on a CPU, which is its argument where the source calls
`smp_get_cpu_id`. Threads are named by `ThreadId`, which stands for the address
of a `struct thread`. A list of the kernel (`struct list_head`) is the list of
the threads whose nodes are linked in it. A function that ends in
`eret_to_thread` has no result for its caller.
-/

namespace ChCore.Kernel

open Function

/-- `PLAT_CPU_NUM`. -/
def platCpuNum : Nat := 4

instance : NeZero platCpuNum := ⟨by decide⟩

abbrev Cpu := Fin platCpuNum

/-- `DEFAULT_BUDGET`. -/
def defaultBudget : Nat := 10

/-- `NO_AFF`. -/
def noAff : Int := -1

/-- Reduction to the value of an unsigned 32-bit variable. -/
def u32 (n : Nat) : Nat := n % 2 ^ 32

lemma u32_of_lt {n : Nat} (h : n < 2 ^ 32) : u32 n = n := Nat.mod_eq_of_lt h

/-- Decrement of an unsigned 32-bit variable. -/
def u32Pred (n : Nat) : Nat := u32 (n + (2 ^ 32 - 1))

lemma u32Pred_succ {n : Nat} (h : n < 2 ^ 32) : u32Pred (n + 1) = n := by
  have hsum : n + 1 + (2 ^ 32 - 1) = n + 2 ^ 32 := by omega
  rw [u32Pred, u32, hsum, Nat.add_mod_right, Nat.mod_eq_of_lt h]

/-! ## Threads -/

/-- Addresses of threads: the static idle threads, and the threads that were
allocated, in the order of their allocation. -/
inductive ThreadId
  | idle (cpu : Cpu)
  | obj (n : Nat)
  deriving DecidableEq, Repr

inductive ThreadState
  | init | ready | inter | running | exit | waiting
  deriving DecidableEq, Repr

inductive ThreadExitState
  | running | exiting | exited
  deriving DecidableEq, Repr

inductive ThreadType
  | idle | kernel | user | shadow | tests
  deriving DecidableEq, Repr

/-- `prev_thread`: `NULL`, `THREAD_ITSELF` or a thread. -/
inductive PrevThread
  | null
  | itself
  | thread (t : ThreadId)
  deriving DecidableEq, Repr

/-- The saved registers that the kernel writes. -/
structure ExecCont where
  x0 : Nat := 0
  x1 : Nat := 0
  spEl0 : Nat := 0
  elrEl1 : Nat := 0
  deriving DecidableEq, Repr

/-- `struct thread` with its `thread_ctx`. A scheduling context is named by
the thread that it was allocated for. -/
structure Thread where
  ec : ExecCont := {}
  sc : Option ThreadId := none
  type : ThreadType := .user
  state : ThreadState := .init
  affinity : Int := noAff
  cpuid : Nat := 0
  threadExitState : ThreadExitState := .running
  prevThread : PrevThread := .null
  activeConn : Option Nat := none
  /-- `cap_group->pid`. -/
  pid : Nat := 0
  deriving DecidableEq, Repr

/-- `struct queue_meta`. -/
structure QueueMeta where
  queueHead : List ThreadId
  queueLen : Nat
  deriving DecidableEq, Repr

structure Semaphore where
  semCount : Nat
  waitingThreadsCount : Nat
  waitingThreads : List ThreadId
  deriving DecidableEq, Repr

/-- What is done with the ready queues. -/
inductive QueueEvent
  /-- `rr_sched_enqueue` has put `t` on the queue of CPU `cpu`. -/
  | enqueued (cpu : Cpu) (t : ThreadId)
  /-- `rr_sched_choose_thread` has returned `t` on `cpu`; the queue was
  `queue`. -/
  | chosen (cpu : Cpu) (queue : List ThreadId) (t : ThreadId)

/-- What the scheduler and the semaphores keep. -/
structure SchedState where
  threads : ThreadId → Thread
  /-- How many threads have been allocated. -/
  threadCount : Nat
  /-- The `budget` of each scheduling context. -/
  budget : ThreadId → Nat
  /-- `rr_ready_queue_meta`. -/
  queues : Cpu → QueueMeta
  /-- `current_threads`. -/
  current : Cpu → Option ThreadId
  sems : Nat → Semaphore
  /-- What was done with the ready queues, the first event first. The kernel
  keeps no such list, and nothing reads it. -/
  events : List QueueEvent

namespace SchedState

/-- Change the record of one thread. -/
def setThread (k : SchedState) (t : ThreadId) (th : Thread) : SchedState :=
  { k with threads := update k.threads t th }

def setSem (k : SchedState) (s : Nat) (sem : Semaphore) : SchedState :=
  { k with sems := update k.sems s sem }

end SchedState

/-- A pointer is followed. -/
def derefPtr {α : Type} : Option α → Exec α
  | some a => .ok a
  | none => .error .nullDeref

@[simp] lemma derefPtr_some {α : Type} (a : α) : derefPtr (some a) = .ok a := rfl

/-! ## `policy_rr.c` -/

/-- An index into `rr_ready_queue_meta`. -/
def queueIndex (i : Int) : Exec Cpu := if h : 0 ≤ i ∧ i.toNat < platCpuNum then .ok ⟨i.toNat, h.2⟩
  else .error .outOfBounds

def rrSchedEnqueue (k : SchedState) (cpu : Cpu) (thread : Option ThreadId) :
    Exec (SchedState × Int) :=
  match thread with
  | none => .ok (k, -einval)
  | some t =>
    let th := k.threads t
    if th.state = .ready then .ok (k, -einval)
    else if th.type = .idle then .ok (k, 0)
    else if th.affinity ≥ platCpuNum then .ok (k, -einval)
    else do
      let cpuid ← queueIndex (if th.affinity = noAff then cpu else th.affinity)
      let queue := k.queues cpuid
      return ({ k.setThread t { th with state := .ready, cpuid := cpuid } with
        queues := update k.queues cpuid
          ⟨queue.queueHead ++ [t], u32 (queue.queueLen + 1)⟩
        events := k.events ++ [.enqueued cpuid t] }, 0)

/-- `list_del(&thread->ready_queue_node)`: the node is unlinked from whichever
queue it is on. -/
def unlinkReady (queues : Cpu → QueueMeta) (t : ThreadId) : Cpu → QueueMeta :=
  fun c => { queues c with queueHead := (queues c).queueHead.erase t }

def rrSchedDequeue (k : SchedState) (cpu : Cpu) (thread : Option ThreadId) : SchedState × Int :=
  match thread with
  | none => (k, -einval)
  | some t =>
    let th := k.threads t
    if th.type = .idle then (k, -einval)
    else if th.state ≠ .ready then (k, -einval)
    else if th.affinity ≥ platCpuNum then (k, -einval)
    else
      let queues := unlinkReady k.queues t
      -- the length that is decremented is that of the CPU that runs this
      ({ k.setThread t { th with state := .inter, cpuid := cpu } with
        queues := update queues cpu
          { queues cpu with queueLen := u32Pred (queues cpu).queueLen } }, 0)

def rrSchedChooseThread (k : SchedState) (cpu : Cpu) : Exec (SchedState × ThreadId) :=
  if (k.queues cpu).queueLen = 0 then .ok (k, .idle cpu)
  else
    match (k.queues cpu).queueHead with
    -- `queue_head.next` is the head itself: no thread is there
    | [] => .error .outOfBounds
    | t :: _ =>
      let (k, ret) := rrSchedDequeue k cpu (some t)
      if ret ≠ 0 then .error .bug else .ok (k, t)

def rrSchedRefillBudget (k : SchedState) (target : ThreadId) (budget : Nat) : Exec SchedState := do
  let sc ← derefPtr (k.threads target).sc
  return { k with budget := update k.budget sc budget }

def switchToThread (k : SchedState) (cpu : Cpu) (target : ThreadId) : Exec (SchedState × Int) :=
  let th := k.threads target
  if th.state = .ready then .error .bug
  else if th.threadExitState = .exited then .error .bug
  else if k.current cpu = some target then
    .ok (k.setThread target
      { th with state := .running, prevThread := .itself }, 0)
  else
    let prev := match k.current cpu with
      | none => .null
      | some t => .thread t
    .ok ({ k.setThread target
      { th with cpuid := cpu, state := .running, prevThread := prev } with
        current := update k.current cpu (some target) }, 0)

/-- The end of `rr_sched`: choose a thread and switch to it. -/
def rrSchedNext (k : SchedState) (cpu : Cpu) : Exec (SchedState × Int) := do
  let queue := (k.queues cpu).queueHead
  let (k, thread) ← rrSchedChooseThread k cpu
  let (k, _) ← switchToThread k cpu thread
  return ({ k with events := k.events ++ [.chosen cpu queue thread] }, 0)

def rrSched (k : SchedState) (cpu : Cpu) : Exec (SchedState × Int) := match k.current cpu with
  | none => rrSchedNext k cpu
  | some t =>
    let th := k.threads t
    -- the source compares here where it means to assign, so that the state
    -- of an exiting thread stays as it is
    if th.threadExitState = .exiting then rrSchedNext k cpu
    else if th.state ≠ .waiting then do
      let sc ← derefPtr th.sc
      if k.budget sc ≠ 0 ∧ (th.affinity = cpu ∨ th.affinity = -1) then
        switchToThread k cpu t
      else
        let (k, ret) ← rrSchedEnqueue k cpu (some t)
        if ret ≠ 0 then .error .bug
        else
          let k ← rrSchedRefillBudget k t defaultBudget
          rrSchedNext k cpu
    else rrSchedNext k cpu

/-- `rr_sched_init`. -/
def rrSchedInit : SchedState where
  threads
    | .idle cpu => { type := .idle, affinity := cpu, sc := some (.idle cpu) }
    | .obj _ => {}
  threadCount := 0
  budget := fun _ => defaultBudget
  queues := fun _ => ⟨[], 0⟩
  current := fun _ => none
  -- `init_sem`
  sems := fun _ => ⟨0, 0, []⟩
  events := []

/-! ## `sched.c` -/

def schedHandleTimerIrq (k : SchedState) (cpu : Cpu) : SchedState := match k.current cpu with
  | none => k
  | some t =>
    match (k.threads t).sc with
    | none => k
    | some sc =>
      if k.budget sc ≠ 0 then
        { k with budget := update k.budget sc (k.budget sc - 1) }
      else k

/-- `handle_irq` at a timer interrupt. -/
def handleTimerIrq (k : SchedState) (cpu : Cpu) : Exec (SchedState × Int) :=
  rrSched (schedHandleTimerIrq k cpu) cpu

def sysYield (k : SchedState) (cpu : Cpu) : Exec (SchedState × Int) := do
  let t ← derefPtr (k.current cpu)
  let sc ← derefPtr (k.threads t).sc
  rrSched { k with budget := update k.budget sc 0 } cpu

/-! ## `semaphore.c` -/

/-- `wait_sem`. There is no return value when the thread blocks. -/
def waitSem (k : SchedState) (cpu : Cpu) (s : Nat) (isBlock : Bool) :
    Exec (SchedState × Option Int) :=
  let sem := k.sems s
  if sem.semCount > 0 then
    .ok (k.setSem s { sem with semCount := sem.semCount - 1 }, some 0)
  else if !isBlock then .ok (k, some (-eagain))
  else do
    let t ← derefPtr (k.current cpu)
    let th := k.threads t
    let k := k.setThread t
      { th with state := .waiting, ec := { th.ec with x0 := 0 } }
    let k := k.setSem s { sem with
      waitingThreads := sem.waitingThreads ++ [t]
      waitingThreadsCount := u32 (sem.waitingThreadsCount + 1) }
    let (k, _) ← rrSched k cpu
    return (k, none)

def signalSem (k : SchedState) (cpu : Cpu) (s : Nat) : Exec (SchedState × Int) :=
  let sem := k.sems s
  if sem.waitingThreadsCount = 0 then
    .ok (k.setSem s { sem with semCount := u32 (sem.semCount + 1) }, 0)
  else
    match sem.waitingThreads with
    | [] => .error .outOfBounds
    | t :: rest => do
      let k := k.setSem s { sem with
        waitingThreadsCount := u32Pred sem.waitingThreadsCount
        waitingThreads := rest }
      -- the result of `sched_enqueue` is not looked at
      let (k, _) ← rrSchedEnqueue k cpu (some t)
      return (k, 0)

/-! ## `thread.c` -/

/-- The arguments of a new thread. -/
structure ThreadArgs where
  stack : Nat
  pc : Nat
  arg : Nat
  type : ThreadType
  pid : Nat
  deriving DecidableEq, Repr

/-- `thread_init` of a new thread object. -/
def threadInit (k : SchedState) (args : ThreadArgs) (aff : Int) : SchedState × ThreadId :=
  let t := .obj k.threadCount
  let th : Thread :=
    { ec := { spEl0 := args.stack, elrEl1 := args.pc }
      -- shadow threads have no scheduling context
      sc := if args.type = .shadow then none else some t
      type := args.type
      affinity := aff.tmod platCpuNum
      pid := args.pid }
  let budget := if args.type = .shadow then k.budget
    else update k.budget t defaultBudget
  ({ k.setThread t th with threadCount := k.threadCount + 1, budget }, t)

/-- `__create_root_thread`, and `sched_enqueue` of the new thread. -/
def createRootThread (k : SchedState) (cpu : Cpu) (args : ThreadArgs)
    (aff : Int) : Exec SchedState := do
  let (k, t) := threadInit k args aff
  let (k, ret) ← rrSchedEnqueue k cpu (some t)
  if ret ≠ 0 then .error .bug else return k

def createThread (k : SchedState) (cpu : Cpu) (args : ThreadArgs) : Exec SchedState :=
  let (k, t) := threadInit k args noAff
  let th := k.threads t
  let th := { th with ec := { th.ec with x0 := args.arg } }
  if args.type = .user then do
    let (k, ret) ← rrSchedEnqueue (k.setThread t { th with state := .inter }) cpu (some t)
    if ret ≠ 0 then .error .bug else return k
  else if args.type = .shadow then
    .ok (k.setThread t { th with state := .waiting })
  else .ok (k.setThread t th)

def sysThreadExit (k : SchedState) (cpu : Cpu) : Exec (SchedState × Int) := do
  let t ← derefPtr (k.current cpu)
  let th := k.threads t
  rrSched (k.setThread t { th with threadExitState := .exiting }) cpu

/-- `sys_set_affinity` on the thread that the capability denotes. -/
def sysSetAffinity (k : SchedState) (thread : Option ThreadId) (aff : Int) : SchedState × Int :=
  if aff ≥ platCpuNum then (k, -einval)
  else
    match thread with
    | none => (k, -ecapbility)
    | some t => (k.setThread t { k.threads t with affinity := aff }, 0)

end ChCore.Kernel
