import ChCore.Kernel.SchedCalls
import ChCore.Lib.Runs

/-!
# Runs of the scheduler and of semaphores

Every step is one entry into the kernel on one CPU, with the big kernel lock
held: an interrupt, or a call of the thread that the CPU runs. The steps of the
four CPUs are interleaved in any order.
-/

namespace ChCore.Kernel

open Lib.Places Function Lib.Runs

/-- What can be seen of semaphores from outside. -/
inductive SemEvent
  /-- A signal, and the waiting threads that were ready after it. -/
  | signal (sem : Nat) (woken : List ThreadId)
  /-- A wait that returned 0. -/
  | granted (sem : Nat) (t : ThreadId)
  /-- A wait that returned an error. -/
  | refused (sem : Nat) (t : ThreadId)
  /-- A wait that did not return. -/
  | blocked (sem : Nat) (t : ThreadId)

structure SchedSystem where
  k : SchedState
  /-- The events so far, the last one first. -/
  log : List SemEvent

inductive SchedOp
  /-- `sched` of a CPU that starts, or after an interrupt of a device. -/
  | sched (cpu : Cpu)
  | timer (cpu : Cpu)
  | yield (cpu : Cpu)
  | exit (cpu : Cpu)
  | createRoot (cpu : Cpu) (args : ThreadArgs) (aff : Int)
  | create (cpu : Cpu) (args : ThreadArgs)
  /-- On the thread object `n`, or on the current thread. -/
  | setAffinity (cpu : Cpu) (n : Option Nat) (aff : Int)
  | wait (cpu : Cpu) (sem : Nat) (isBlock : Bool)
  | signal (cpu : Cpu) (sem : Nat)

/-- The thread that the capability argument of `sys_set_affinity` denotes. -/
def affinityThread (k : SchedState) (cpu : Cpu) : Option Nat → Option ThreadId
  | none => k.current cpu
  | some n => if n < k.threadCount then some (.obj n) else none

/-- The event of a wait by thread `t` with result `r`. -/
def waitEvent (s : Nat) (t : ThreadId) : Option Int → SemEvent
  | none => .blocked s t
  | some r => if r = 0 then .granted s t else .refused s t

def schedStep (sys : SchedSystem) : SchedOp → Exec SchedSystem
  | .sched cpu => do
    let (k, _) ← rrSched sys.k cpu
    return { sys with k }
  | .timer cpu => do
    let (k, _) ← handleTimerIrq sys.k cpu
    return { sys with k }
  | .yield cpu => do
    let (k, _) ← sysYield sys.k cpu
    return { sys with k }
  | .exit cpu => do
    let (k, _) ← sysThreadExit sys.k cpu
    return { sys with k }
  | .createRoot cpu args aff => do
    let k ← createRootThread sys.k cpu args aff
    return { sys with k }
  | .create cpu args => do
    let k ← createThread sys.k cpu args
    return { sys with k }
  | .setAffinity cpu n aff =>
    .ok { sys with
      k := (sysSetAffinity sys.k (affinityThread sys.k cpu n) aff).1 }
  | .wait cpu s isBlock => do
    let t ← derefPtr (sys.k.current cpu)
    let (k, r) ← waitSem sys.k cpu s isBlock
    return ⟨k, waitEvent s t r :: sys.log⟩
  | .signal cpu s => do
    let (k, _) ← signalSem sys.k cpu s
    let woken := (sys.k.sems s).waitingThreads.filter fun t =>
      (k.threads t).state = .ready
    return ⟨k, .signal s woken :: sys.log⟩

def ThreadId.isObj : ThreadId → Bool
  | .idle _ => false
  | .obj _ => true

/-- The CPU runs a thread that can make system calls. -/
def SchedState.InUser (k : SchedState) (cpu : Cpu) : Prop :=
  (k.current cpu).any ThreadId.isObj = true

instance (k : SchedState) (cpu : Cpu) : Decidable (k.InUser cpu) :=
  inferInstanceAs (Decidable (_ = true))

/-- The calls that can be made. Affinities are those of the four CPUs or
`NO_AFF`. Each thread has a page of memory as its kernel stack, so that there
are fewer than `2 ^ 32` threads. -/
def SchedEnabled (sys : SchedSystem) : SchedOp → Prop
  | .sched _ => True
  | .timer _ => True
  | .yield cpu => sys.k.InUser cpu
  | .exit cpu => sys.k.InUser cpu
  | .createRoot _ args aff => args.type = .user ∧ noAff ≤ aff ∧
    sys.k.threadCount + 1 < 2 ^ 32
  | .create cpu args => sys.k.InUser cpu ∧
    (args.type = .user ∨ args.type = .shadow) ∧
    sys.k.threadCount + 1 < 2 ^ 32
  | .setAffinity cpu _ aff => sys.k.InUser cpu ∧ noAff ≤ aff
  | .wait cpu _ _ => sys.k.InUser cpu
  | .signal cpu _ => sys.k.InUser cpu

instance (sys : SchedSystem) : ∀ op, Decidable (SchedEnabled sys op) := fun op => by
  cases op <;> (dsimp only [SchedEnabled]; infer_instance)

/-- The state in which the CPUs start, with all semaphores as `init_sem` leaves
them. -/
def schedBoot : SchedSystem := ⟨rrSchedInit, []⟩

/-! ## One step -/

/-- The threads have places. -/
def SchedInv (sys : SchedSystem) : Prop := ∃ place, Placed sys.k none place ∧ AtRest place

/-- What a step does to the semaphores and the log. -/
def SemsFollow (sys sys' : SchedSystem) : SchedOp → Prop
  | .wait cpu s isBlock => ∃ t, sys.k.current cpu = some t ∧
    sys'.k.sems = update sys.k.sems s ((sys.k.sems s).wait t isBlock).1 ∧
    sys'.log = waitEvent s t ((sys.k.sems s).wait t isBlock).2 :: sys.log
  | .signal _ s =>
    sys'.k.sems = update sys.k.sems s (sys.k.sems s).signal ∧
    sys'.log = .signal s ((sys.k.sems s).waitingThreads.take 1) :: sys.log
  | _ => sys'.k.sems = sys.k.sems ∧ sys'.log = sys.log

variable {k : SchedState}

lemma SchedState.InUser.current {cpu : Cpu} (h : k.InUser cpu) :
    ∃ n, k.current cpu = some (.obj n) := by
  unfold InUser at h
  cases hcur : k.current cpu with
  | none => simp [hcur] at h
  | some t =>
    cases t with
    | idle c => simp [hcur, ThreadId.isObj] at h
    | obj n => exact ⟨n, rfl⟩

lemma rrSchedInit_placed : Placed rrSchedInit none
    (fun t => match t with | .idle _ => .idle | .obj _ => .off) := by
  refine ⟨fun c => ⟨Lists.nil fun t => ?_, rfl⟩,
    fun s => ⟨Lists.nil fun t => ?_, rfl⟩, fun c => ?_, fun t => ?_, ?_⟩
  · cases t <;> simp
  · cases t <;> simp
  · simp only [reduceCtorEq, if_false, rrSchedInit]
    intro t
    cases t <;> simp
  · cases t with
    | idle c =>
      have hc : (c : Int) < platCpuNum := by exact_mod_cast c.isLt
      exact ⟨by simp [Place.Allows, rrSchedInit], by simp, rfl,
        by simp [rrSchedInit], by simp [rrSchedInit],
        by simp only [noAff, rrSchedInit]; omega, hc⟩
    | obj n =>
      exact ⟨by simp [Place.Allows, rrSchedInit], by simp, rfl,
        by simp [rrSchedInit], by simp, by simp [rrSchedInit, noAff, platCpuNum]⟩
  · exact ⟨fun c => .inl rfl, fun n _ => rfl, by simp, by decide⟩

lemma SchedInv.boot : SchedInv schedBoot := ⟨_, rrSchedInit_placed, fun t => by cases t <;> simp⟩

/-- The placement when the thread that exits has left its CPU. -/
def placeAfterExit (k : SchedState) (place : ThreadId → Place) : SchedOp → ThreadId → Place
  | .exit cpu =>
    match k.current cpu with
    | some t => update place t .gone
    | none => place
  | _ => place

/-- What a step does. -/
structure SchedStepOk (sys sys' : SchedSystem) (op : SchedOp)
    (place place' : ThreadId → Place) : Prop where
  advances : Advances sys.k sys'.k (placeAfterExit sys.k place op) place'
  sems : SemsFollow sys sys' op

variable {place : ThreadId → Place}

/-- **One step**: no enabled call halts, and the threads keep having places. -/
theorem schedStep_spec {sys : SchedSystem} {op : SchedOp}
    (h : Placed sys.k none place) (hen : SchedEnabled sys op) :
    ∃ sys' place', schedStep sys op = .ok sys' ∧ SchedStepOk sys sys' op place place' := by
  cases op with
  | sched cpu =>
    obtain ⟨k', place', heq, hres⟩ := rrSched_spec h cpu
    exact ⟨{ sys with k := k' }, place', by simp [schedStep, heq],
      hres.advances, hres.frame.sems, rfl⟩
  | timer cpu =>
    obtain ⟨k', place', heq, hres⟩ := handleTimerIrq_spec h cpu
    exact ⟨{ sys with k := k' }, place', by simp [schedStep, heq],
      hres.advances, hres.frame.sems, rfl⟩
  | yield cpu =>
    obtain ⟨n, hn⟩ := hen.current
    obtain ⟨k', place', heq, hres⟩ := sysYield_spec h hn
    exact ⟨{ sys with k := k' }, place', by simp [schedStep, heq],
      hres.advances, hres.frame.sems, rfl⟩
  | exit cpu =>
    obtain ⟨n, hn⟩ := hen.current
    obtain ⟨k', place', heq, hsems, hadv⟩ := sysThreadExit_spec h hn
    exact ⟨{ sys with k := k' }, place', by simp [schedStep, heq],
      by simpa [placeAfterExit, hn] using hadv, hsems, rfl⟩
  | createRoot cpu args aff =>
    obtain ⟨htype, haff, hcount⟩ := hen
    obtain ⟨k', place', heq, hsems, hadv⟩ := createRootThread_spec h hcount htype haff cpu
    exact ⟨{ sys with k := k' }, place', by simp [schedStep, heq], hadv, hsems, rfl⟩
  | create cpu args =>
    obtain ⟨-, htype, hcount⟩ := hen
    obtain ⟨k', place', heq, hsems, hadv⟩ := createThread_spec h hcount htype cpu
    exact ⟨{ sys with k := k' }, place', by simp [schedStep, heq], hadv, hsems, rfl⟩
  | setAffinity cpu n aff =>
    have hadv := sysSetAffinity_spec h (affinityThread sys.k cpu n) hen.2
    exact ⟨_, place, rfl, hadv, by
      simp only [sysSetAffinity]
      split
      · rfl
      · cases affinityThread sys.k cpu n <;> rfl, rfl⟩
  | wait cpu s isBlock =>
    obtain ⟨n, hn⟩ := hen.current
    obtain ⟨k', place', heq, hadv, hsems⟩ := waitSem_spec h hn s isBlock
    exact ⟨⟨k', _⟩, place', by simp [schedStep, hn, heq], hadv, _, hn, hsems, rfl⟩
  | signal cpu s =>
    obtain ⟨k', place', heq, hadv, hsems, hwoken⟩ := signalSem_spec h cpu s
    exact ⟨⟨k', .signal s ((sys.k.sems s).waitingThreads.take 1) :: sys.log⟩,
      place', by simp only [schedStep, heq, ok_bind, hwoken]; rfl, hadv,
      hsems, rfl⟩

lemma AtRest.afterExit (h : AtRest place) (op : SchedOp) : AtRest (placeAfterExit k place op) := by
  unfold placeAfterExit
  split
  · split
    · exact h.update (by simp)
    · exact h
  · exact h

lemma SchedInv.step {sys : SchedSystem} {op : SchedOp} (h : SchedInv sys)
    (hen : SchedEnabled sys op) :
    ∃ sys', schedStep sys op = .ok sys' ∧ SchedInv sys' ∧ SemsFollow sys sys' op := by
  obtain ⟨place, hplaced, hrest⟩ := h
  obtain ⟨sys', place', heq, hok⟩ := schedStep_spec hplaced hen
  exact ⟨sys', heq, ⟨place', hok.advances.placed, hok.advances.rest (hrest.afterExit op)⟩, hok.sems⟩

/-! ## Ready queues and current threads -/

/-- **The scheduler's records agree.** -/
structure SchedOk (k : SchedState) : Prop where
  queueLen : ∀ c, (k.queues c).queueLen = (k.queues c).queueHead.length
  ready_iff : ∀ t, (k.threads t).state = .ready ↔ ∃ c, (k.queues c).queueHead.count t = 1 ∧
      (∀ d, d ≠ c → t ∉ (k.queues d).queueHead) ∧ (k.threads t).cpuid = c
  idle : ∀ c d, .idle c ∉ (k.queues d).queueHead
  current : ∀ c d t, k.current c = some t → t ∉ (k.queues d).queueHead
  unique : ∀ c d t, k.current c = some t → k.current d = some t → c = d

lemma Placed.schedOk (h : Placed k none place) : SchedOk k := by
  have hmem : ∀ t c, t ∈ (k.queues c).queueHead ↔ place t = .ready c :=
    fun t c => (h.queues c).1.mem_iff t
  refine ⟨fun c => (h.queues c).2, fun t => ?_, fun c d hc => ?_,
    fun c d t ht hd => ?_, fun c d t hc hd => ?_⟩
  · rw [(h.threads t).ready_iff]
    constructor
    · rintro ⟨c, hc⟩
      refine ⟨c, List.count_eq_one_of_mem (h.queues c).1.nodup
        ((hmem t c).mpr hc), fun d hd => ?_, (h.threads t).cpuid c hc⟩
      simpa [hmem, hc] using Ne.symm hd
    · rintro ⟨c, hcount, -, -⟩
      have hpos : 0 < (k.queues c).queueHead.count t := by omega
      exact ⟨c, (hmem t c).mp (List.count_pos_iff.mp hpos)⟩
  · have hplace := (hmem _ d).mp hc
    simpa [hplace] using h.ids.idle c
  · have hplace := (hmem t d).mp hd
    simp [h.running_of_current ht] at hplace
  · have hplace := h.running_of_current hc
    simpa [hplace] using h.running_of_current hd

/-- No scheduler call stops, and the invariant holds after all of them. -/
lemma run_schedInv (ops : List SchedOp) (hops : Admissible schedStep SchedEnabled schedBoot ops) :
    ∃ sys, run schedStep schedBoot ops = .ok sys ∧ SchedInv sys := by
  refine run_total (fun sys op hinv hen => ?_) ops schedBoot SchedInv.boot hops
  obtain ⟨sys', heq, hinv', -⟩ := hinv.step hen
  exact ⟨sys', heq, hinv'⟩

/-- **Ready queues, thread states and current threads agree** after every
interleaving of scheduler entries and calls on the four CPUs. -/
theorem sched_records_agree (ops : List SchedOp)
    (hops : Admissible schedStep SchedEnabled schedBoot ops) :
    ∃ sys, run schedStep schedBoot ops = .ok sys ∧ SchedOk sys.k := by
  obtain ⟨sys, hrun, place, hplaced, -⟩ := run_schedInv ops hops
  exact ⟨sys, hrun, hplaced.schedOk⟩

/-- Two threads, one of them moved to CPU 3 while it runs on CPU 0. -/
def moveThread : List SchedOp := [.createRoot 0 ⟨0, 0, 0, .user, 1⟩ 0, .sched 0, .sched 3,
    .create 0 ⟨0, 0, 0, .user, 1⟩, .setAffinity 0 none 3, .wait 0 0 false,
    .yield 0, .timer 3, .timer 3, .wait 0 0 true, .sched 0]

theorem sched_records_agree_moved : ∃ sys,
    run schedStep schedBoot moveThread = .ok sys ∧ SchedOk sys.k :=
  sched_records_agree moveThread (by decide +kernel)

end ChCore.Kernel
