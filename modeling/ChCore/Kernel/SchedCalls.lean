import ChCore.Kernel.SchedOps

/-!
# Calls that move threads

What timer interrupts, `sys_yield`, `sys_thread_exit`, the creation of threads,
`sys_set_affinity` and the semaphores do to a placement. None of them halts.
-/

namespace ChCore.Kernel

open Function List SchedState Lib.Places

/-- The threads that there are. -/
def SchedState.Exists (k : SchedState) : ThreadId → Prop
  | .idle _ => True
  | .obj n => n < k.threadCount

/-- A thread that a call has created serves no connection, and does not run
unless it is scheduled. -/
structure NewThread (th : Thread) (p : Place) : Prop where
  conn : th.activeConn = none
  role : p.role = .absent ∨ p.role = .live
  parked : p.role = .absent → th.state ≠ .running

/-- What a call leaves to the rest of the kernel: the threads that are not
scheduled, and the connections that threads serve. -/
structure LiveFrame (k k' : SchedState) (place place' : ThreadId → Place) : Prop where
  count : k.threadCount ≤ k'.threadCount
  role : ∀ t, k.Exists t → (place' t).role = (place t).role
  conn : ∀ t, k.Exists t → (k'.threads t).activeConn = (k.threads t).activeConn
  state : ∀ t, k.Exists t → (place t).role ≠ .live → (k'.threads t).state = (k.threads t).state
  new : ∀ t, ¬ k.Exists t → k'.Exists t → NewThread (k'.threads t) (place' t)

/-- A call from `k` to `k'`. -/
structure Advances (k k' : SchedState) (place place' : ThreadId → Place) : Prop where
  placed : Placed k' none place'
  rest : AtRest place → AtRest place'
  frame : LiveFrame k k' place place'

variable {th : Thread}

lemma core_activeConn {th' : Thread} (h : th'.core = th.core) : th'.activeConn = th.activeConn := by
  simp only [Thread.core, Thread.mk.injEq] at h
  exact h.2.2.2.2.2.2.2.2.1

lemma core_ec {th' : Thread} (h : th'.core = th.core) : th'.ec = th.ec := by
  simp only [Thread.core, Thread.mk.injEq] at h
  exact h.1

variable {k k' : SchedState}

lemma SchedState.Exists.mono {t : ThreadId} (ht : k.Exists t)
    (h : k.threadCount ≤ k'.threadCount) : k'.Exists t := by
  cases t with
  | idle c => trivial
  | obj n => exact lt_of_lt_of_le ht h

variable {place place' : ThreadId → Place}

lemma SchedFrame.live (h : SchedFrame k k' place place') : LiveFrame k k' place place' where
  count := h.count.ge
  role t _ := h.role t
  conn t _ := core_activeConn (h.core t)
  state t _ ht := by rw [h.rest t ht]
  new t hnot ht := (hnot (ht.mono h.count.le)).elim

lemma LiveFrame.trans {k'' : SchedState} {place'' : ThreadId → Place}
    (h : LiveFrame k k' place place') (h' : LiveFrame k' k'' place' place'') :
    LiveFrame k k'' place place'' where
  count := h.count.trans h'.count
  role t ht := (h'.role t (ht.mono h.count)).trans (h.role t ht)
  conn t ht := (h'.conn t (ht.mono h.count)).trans (h.conn t ht)
  state t ht hlive := by rw [h'.state t (ht.mono h.count) (h.role t ht ▸ hlive), h.state t ht hlive]
  new t hnot ht := by
    by_cases hmid : k'.Exists t
    · have hnew := h.new t hnot hmid
      have hrole := h'.role t hmid
      refine ⟨(h'.conn t hmid).trans hnew.conn, hrole ▸ hnew.role, fun hp => ?_⟩
      rw [hrole] at hp
      rw [h'.state t hmid (by simp [hp])]
      exact hnew.parked hp
    · exact h'.new t hmid ht

/-- One live thread changes its record and its place. -/
lemma LiveFrame.of_update {t : ThreadId} {p : Place} (hcount : k'.threadCount = k.threadCount)
    (hthreads : k'.threads = update k.threads t th)
    (hconn : th.activeConn = (k.threads t).activeConn)
    (hlive : (place t).role = .live) (hp : p.role = .live) :
    LiveFrame k k' place (update place t p) := by
  refine ⟨hcount.ge, fun u _ => ?_, fun u _ => ?_, fun u _ hu => ?_,
    fun u hnot hu => (hnot (hu.mono hcount.le)).elim⟩
  · by_cases hut : u = t
    · subst hut
      simp [hlive, hp]
    · simp [hut]
  · by_cases hut : u = t
    · subst hut
      simp [hthreads, hconn]
    · simp [hthreads, hut]
  · have hut : u ≠ t := fun heq => hu (heq ▸ hlive)
    simp [hthreads, hut]

lemma Rescheduled.advances (h : Rescheduled k k' place place') : Advances k k' place place' :=
  ⟨h.placed, h.rest, h.frame.live⟩

section

variable {k : SchedState} {sw : Option Cpu} {place : ThreadId → Place}
  {t : ThreadId} {cpu : Cpu} {s n : Nat}

/-! ## Interrupts, `sys_yield` and `sys_thread_exit` -/

/-- Budgets do not matter for where threads are. -/
lemma rrSched_setBudget (h : Placed k none place) (cpu : Cpu) (budget : ThreadId → Nat) :
    ∃ k' place', rrSched { k with budget } cpu = .ok (k', 0) ∧ Rescheduled k k' place place' := by
  obtain ⟨k', place', heq, hres⟩ := rrSched_spec (h.setBudget budget) cpu
  exact ⟨k', place', heq, hres.placed, ⟨hres.frame.sems, hres.frame.count,
    hres.frame.core, hres.frame.role, hres.frame.rest⟩, hres.rest⟩

lemma schedHandleTimerIrq_eq (k : SchedState) (cpu : Cpu) :
    ∃ budget, schedHandleTimerIrq k cpu = { k with budget } := by
  unfold schedHandleTimerIrq
  split
  · exact ⟨k.budget, rfl⟩
  split
  · exact ⟨k.budget, rfl⟩
  split
  · exact ⟨_, rfl⟩
  · exact ⟨k.budget, rfl⟩

lemma handleTimerIrq_spec (h : Placed k none place) (cpu : Cpu) :
    ∃ k' place', handleTimerIrq k cpu = .ok (k', 0) ∧ Rescheduled k k' place place' := by
  obtain ⟨budget, hbudget⟩ := schedHandleTimerIrq_eq k cpu
  rw [handleTimerIrq, hbudget]
  exact rrSched_setBudget h cpu budget

lemma sysYield_spec (h : Placed k none place) (ht : k.current cpu = some t) :
    ∃ k' place', sysYield k cpu = .ok (k', 0) ∧ Rescheduled k k' place place' := by
  have hrun := h.running_of_current ht
  obtain ⟨sc, hsc⟩ := Option.ne_none_iff_exists'.mp ((h.threads t).sc (by simp [hrun]))
  simp only [sysYield, ht, derefPtr_some, ok_bind, hsc]
  exact rrSched_setBudget h cpu _

/-- The thread that exits is on no list and runs nowhere. -/
lemma sysThreadExit_spec (h : Placed k none place) (ht : k.current cpu = some (.obj n)) :
    ∃ k' place', sysThreadExit k cpu = .ok (k', 0) ∧ k'.sems = k.sems ∧
    Advances k k' (update place (.obj n) .gone) place' := by
  have hrun := h.running_of_current ht
  have hok := h.threads (.obj n)
  rw [hrun] at hok
  have hexit : ThreadOk (.obj n) { k.threads (.obj n) with threadExitState := .exiting } .gone :=
    { state := hok.not_ready (by simp)
      cpuid := by simp
      exit := rfl
      type := hok.type
      sc := fun _ => hok.sc (by simp)
      affinity := hok.affinity }
  obtain ⟨k', u, heq, hres⟩ := rrSchedNext_spec (h.leave ht .gone hexit)
  have hframe : LiveFrame k (k.setThread (.obj n) { k.threads (.obj n) with
      threadExitState := .exiting }) (update place (.obj n) .gone)
      (update place (.obj n) .gone) := by
    refine ⟨le_rfl, fun _ _ => rfl, fun u _ => ?_, fun u _ _ => ?_, fun u hnot hu => (hnot hu).elim⟩
    · by_cases hu : u = .obj n
      · simp [setThread, hu]
      · simp [setThread, hu]
    by_cases hu : u = .obj n
    · simp [setThread, hu]
    · simp [setThread, hu]
  refine ⟨k', _, ?_, hres.frame.sems, hres.placed, hres.rest, hframe.trans hres.frame.live⟩
  simp only [sysThreadExit, ht, derefPtr_some, ok_bind]
  rw [← heq]
  exact rrSched_eq_next ht (.inl (by simp [setThread]))

/-! ## `sys_set_affinity` -/

variable {aff : Int}

lemma sysSetAffinity_spec (h : Placed k none place) (thread : Option ThreadId)
    (haff : noAff ≤ aff) : Advances k (sysSetAffinity k thread aff).1 place place := by
  have hself : Advances k k place place := ⟨h, id, (SchedFrame.refl k place).live⟩
  unfold sysSetAffinity
  split
  · exact hself
  rename_i hlt
  cases thread with
  | none => exact hself
  | some t =>
    have hok := h.threads t
    refine ⟨h.setThread ⟨hok.state, hok.cpuid, hok.exit, hok.type, hok.sc,
      haff, by simpa using hlt⟩, id, le_rfl, fun _ _ => rfl, fun u _ => ?_,
      fun u _ _ => ?_, fun u hnot hu => (hnot hu).elim⟩
    · by_cases hu : u = t
      · subst hu
        simp [setThread]
      · simp [setThread, hu]
    by_cases hu : u = t
    · subst hu
      simp [setThread]
    · simp [setThread, hu]

/-! ## New threads -/

/-- A new thread, with its record. -/
def SchedState.addThread (k : SchedState) (th : Thread) (budget : ThreadId → Nat) : SchedState :=
  { k.setThread (.obj k.threadCount) th with
    threadCount := k.threadCount + 1, budget }

@[simp] lemma addThread_threads (k : SchedState) (th : Thread) (budget : ThreadId → Nat) :
    (k.addThread th budget).threads (.obj k.threadCount) = th := by
  simp [addThread, setThread]

@[simp] lemma addThread_setThread (k : SchedState) (th th' : Thread) (budget : ThreadId → Nat) :
    (k.addThread th budget).setThread (.obj k.threadCount) th' = k.addThread th' budget := by
  simp [addThread, setThread]

variable {th : Thread}

lemma Placed.addThread {p : Place} (h : Placed k none place) (hcount : k.threadCount + 1 < 2 ^ 32)
    (hok : ThreadOk (.obj k.threadCount) th p) (hp : p.Unlisted) (budget : ThreadId → Nat) :
    Placed (k.addThread th budget) none (update place (.obj k.threadCount) p) := by
  have hoff := h.ids.fresh _ le_rfl
  refine
    { queues := h.queues.frame (by simp [hoff]) hp.ready
      waiters := h.waiters.frame (by simp [hoff]) hp.waiting
      current := h.current.frame (by simp [hoff]) hp.running
      threads := h.threads_update hok
      ids := ⟨fun c => by simpa using h.ids.idle c, fun m hm => ?_,
        fun m => ?_, hcount⟩ }
  · have hm : k.threadCount + 1 ≤ m := hm
    have hne : m ≠ k.threadCount := by omega
    simpa [hne] using h.ids.fresh m (by omega)
  by_cases hm : m = k.threadCount
  · simpa [hm] using hp.idle
  · simpa [hm] using h.ids.obj m

/-- The new thread is the only one that changes. -/
lemma LiveFrame.of_new {k' : SchedState} {place' : ThreadId → Place}
    (hcount : k'.threadCount = k.threadCount + 1)
    (hplace : ∀ t, t ≠ .obj k.threadCount → place' t = place t)
    (hthreads : ∀ t, t ≠ .obj k.threadCount → k'.threads t = k.threads t)
    (hnew : NewThread (k'.threads (.obj k.threadCount)) (place' (.obj k.threadCount))) :
    LiveFrame k k' place place' := by
  have hne : ∀ t, k.Exists t → t ≠ .obj k.threadCount := by
    rintro t ht rfl
    exact lt_irrefl _ ht
  refine ⟨by omega, fun t ht => ?_, fun t ht => ?_, fun t ht _ => ?_, fun t hnot ht => ?_⟩
  · rw [hplace t (hne t ht)]
  · rw [hthreads t (hne t ht)]
  · rw [hthreads t (hne t ht)]
  cases t with
  | idle c => exact (hnot trivial).elim
  | obj n =>
    obtain rfl : n = k.threadCount := by
      simp only [SchedState.Exists, hcount] at hnot ht
      omega
    exact hnew

/-- A new thread that is put on a ready queue. -/
lemma Placed.addReady (h : Placed k none place) (hcount : k.threadCount + 1 < 2 ^ 32)
    (hok : ThreadOk (.obj k.threadCount) th .moving)
    (hconn : th.activeConn = none) (budget : ThreadId → Nat) (cpu : Cpu) :
    ∃ k' place', rrSchedEnqueue (k.addThread th budget) cpu
    (some (.obj k.threadCount)) = .ok (k', 0) ∧ k'.sems = k.sems ∧ Advances k k' place place' := by
  have hadd := h.addThread hcount hok .moving budget
  obtain ⟨c, heq, hplaced, hframe⟩ := hadd.enqueue (n := k.threadCount) (by simp) cpu
  rw [update_idem] at hplaced
  refine ⟨_, _, heq, hframe.sems, hplaced, fun hrest => hrest.update (by simp),
    LiveFrame.of_new rfl (fun t ht => by simp [ht]) (fun t ht => ?_) ⟨?_, ?_, ?_⟩⟩
  · simp [SchedState.pushReady, SchedState.addThread, SchedState.setThread, ht]
  · simpa [SchedState.pushReady, SchedState.addThread, SchedState.setThread] using hconn
  · simp [Place.role]
  · simp [Place.role]

lemma tmod_affinity (h : noAff ≤ aff) :
    noAff ≤ aff.tmod platCpuNum ∧ aff.tmod platCpuNum < platCpuNum := by
  unfold noAff at h
  rcases Int.lt_or_le aff 0 with hneg | hpos
  · obtain rfl : aff = -1 := by omega
    decide
  have hlow := Int.tmod_nonneg (platCpuNum : Int) hpos
  have hhigh := Int.tmod_lt_of_pos aff (b := (platCpuNum : Int)) (by decide)
  exact ⟨by unfold noAff; omega, hhigh⟩

/-- The record that `thread_init` fills in. -/
def initialThread (t : ThreadId) (args : ThreadArgs) (aff : Int) : Thread where
  ec := { spEl0 := args.stack, elrEl1 := args.pc }
  sc := if args.type = .shadow then none else some t
  type := args.type
  affinity := aff.tmod platCpuNum
  pid := args.pid

lemma threadInit_eq (k : SchedState) (args : ThreadArgs) (aff : Int) : threadInit k args aff =
    (k.addThread (initialThread (.obj k.threadCount) args aff) (if args.type = .shadow then k.budget
    else update k.budget (.obj k.threadCount) defaultBudget), .obj k.threadCount) := rfl

variable {args : ThreadArgs}

/-- A new thread can be put on a queue, whatever its registers are. -/
lemma initialThread_ok (haff : noAff ≤ aff) (htype : args.type = .user)
    (hth : th.core = { initialThread (.obj n) args aff with ec := th.ec })
    (hstate : th.state ≠ .ready) : ThreadOk (.obj n) th .moving := by
  simp only [Thread.core, initialThread, Thread.mk.injEq] at hth
  obtain ⟨-, hsc, htype', -, haff', -, hexit, -⟩ := hth
  exact {
    state := hstate
    cpuid := by simp
    exit := by simpa using hexit
    type := by simp [htype', htype]
    sc := by simp [hsc, htype]
    affinity := by
      rw [haff']
      exact tmod_affinity haff
  }

lemma createRootThread_spec (h : Placed k none place)
    (hcount : k.threadCount + 1 < 2 ^ 32) (htype : args.type = .user)
    (haff : noAff ≤ aff) (cpu : Cpu) : ∃ k' place', createRootThread k cpu args aff = .ok k' ∧
    k'.sems = k.sems ∧ Advances k k' place place' := by
  obtain ⟨k', place', heq, hsems, hadv⟩ := h.addReady hcount
    (initialThread_ok haff htype rfl (by simp [initialThread])) rfl
    (update k.budget (.obj k.threadCount) defaultBudget) cpu
  refine ⟨k', place', ?_, hsems, hadv⟩
  simp only [createRootThread, threadInit_eq, htype, reduceCtorEq, if_false, heq, ok_bind]
  rfl

lemma createThread_spec (h : Placed k none place) (hcount : k.threadCount + 1 < 2 ^ 32)
    (htype : args.type = .user ∨ args.type = .shadow) (cpu : Cpu) :
    ∃ k' place', createThread k cpu args = .ok k' ∧
    k'.sems = k.sems ∧ Advances k k' place place' := by
  let th : Thread := { initialThread (.obj k.threadCount) args noAff with
    ec := { (initialThread (.obj k.threadCount) args noAff).ec with
      x0 := args.arg } }
  rcases htype with htype | htype
  · have hok : ThreadOk (.obj k.threadCount) { th with state := .inter }
        .moving := initialThread_ok le_rfl htype rfl (by simp)
    obtain ⟨k', place', heq, hsems, hadv⟩ := h.addReady hcount hok rfl
      (update k.budget (.obj k.threadCount) defaultBudget) cpu
    refine ⟨k', place', ?_, hsems, hadv⟩
    simp only [createThread, threadInit_eq, htype, reduceCtorEq, if_false,
      if_true, addThread_threads, addThread_setThread]
    dsimp only [th] at heq
    rw [heq]
    rfl
  have hok : ThreadOk (.obj k.threadCount) { th with state := .waiting } .off :=
    { state := by simp [Place.Allows]
      cpuid := by simp
      exit := rfl
      type := by simp [th, initialThread, htype]
      sc := by simp
      affinity := tmod_affinity le_rfl }
  have hplaced := h.addThread hcount hok .off k.budget
  rw [← h.ids.fresh _ le_rfl, update_eq_self] at hplaced
  refine ⟨k.addThread { th with state := .waiting } k.budget, place, ?_, rfl,
    hplaced, id, LiveFrame.of_new rfl (fun _ _ => rfl) (fun t ht => ?_) ⟨?_, ?_, ?_⟩⟩
  · simp only [createThread, threadInit_eq, htype, reduceCtorEq, if_false,
      if_true, addThread_threads, addThread_setThread]
    rfl
  · simp [addThread, setThread, ht]
  · simp [th, initialThread]
  · simp [h.ids.fresh _ le_rfl, Place.role]
  · simp

/-! ## Semaphores -/

/-- The counter of a semaphore does not matter for where threads are. -/
lemma Placed.setSemCount (h : Placed k sw place) (count : Nat) :
    Placed (k.setSem s { k.sems s with semCount := count }) sw place := by
  refine ⟨h.queues, fun u => ?_, h.current, h.threads, h.ids⟩
  by_cases hu : u = s
  · subst hu
    simpa [setSem] using h.waiters u
  · simpa [setSem, hu] using h.waiters u

/-- A thread that is on no list joins the waiting list of a semaphore. -/
lemma Placed.pushWaiter (h : Placed k sw place) (ht : place (.obj n) = .moving)
    (hstate : (k.threads (.obj n)).state = .waiting) :
    Placed (k.setSem s { k.sems s with
        waitingThreads := (k.sems s).waitingThreads ++ [.obj n]
        waitingThreadsCount := u32 ((k.sems s).waitingThreadsCount + 1) }) sw
      (update place (.obj n) (.waiting s)) := by
  have hids : IdsOk k.threadCount (update place (.obj n) (.waiting s)) :=
    h.ids.update (h.ids.lt_count (by simp [ht])) (by simp)
  have hlen := hids.length_lt ((h.waiters s).1.append (by simp [ht])) (by simp) (by simp) (by simp)
  rw [length_append, length_singleton] at hlen
  have hthreads := h.threads_update ((h.threads (.obj n)).reschedule
    (q := .waiting s) rfl hstate (by simp) (by simp [ht, Place.role]) rfl)
  rw [update_eq_self] at hthreads
  refine ⟨h.queues.frame (by simp [ht]) (by simp), fun u => ?_,
    h.current.frame (by simp [ht]) (by simp), hthreads, hids⟩
  obtain ⟨hlist, hcount⟩ := h.waiters u
  by_cases hu : u = s
  · subst hu
    simp only [setSem, update_self, length_append, length_singleton]
    exact ⟨hlist.append (by simp [ht]), by rw [hcount, u32_of_lt hlen]⟩
  · simp only [setSem, update_of_ne hu]
    exact ⟨hlist.frame (by simp [ht]) (by simpa using Ne.symm hu), hcount⟩

/-- The first thread of a waiting list leaves it. -/
lemma Placed.popWaiter {l : List ThreadId} (h : Placed k sw place)
    (hl : (k.sems s).waitingThreads = .obj n :: l) :
    Placed (k.setSem s { k.sems s with
        waitingThreadsCount := u32Pred (k.sems s).waitingThreadsCount
        waitingThreads := l }) sw
      (update place (.obj n) .moving) := by
  have ht : place (.obj n) = .waiting s := ((h.waiters s).1.mem_iff _).mp (by simp [hl])
  have hok := h.threads (.obj n)
  have hlen := h.ids.length_lt (h.waiters s).1 (by simp) (by simp) (by simp)
  rw [hl, length_cons] at hlen
  have hthreads := h.threads_update (hok.reschedule (q := .moving) rfl
    (hok.not_ready (by simp [ht])) (by simp) (by simp [ht, Place.role]) rfl)
  rw [update_eq_self] at hthreads
  refine ⟨h.queues.frame (by simp [ht]) (by simp), fun u => ?_,
    h.current.frame (by simp [ht]) (by simp), hthreads,
    h.ids.update (h.ids.lt_count (by simp [ht])) (by simp)⟩
  obtain ⟨hlist, hcount⟩ := h.waiters u
  by_cases hu : u = s
  · subst hu
    simp only [setSem, update_self]
    refine ⟨(hl ▸ hlist).tail (by simp), ?_⟩
    rw [hcount, hl, length_cons, u32Pred_succ (by omega)]
  · simp only [setSem, update_of_ne hu]
    exact ⟨hlist.frame (by simpa [ht] using Ne.symm hu) (by simp), hcount⟩

/-- What a wait of thread `t` does to the semaphore, and what it returns. -/
def Semaphore.wait (sem : Semaphore) (t : ThreadId) (isBlock : Bool) : Semaphore × Option Int :=
  if 0 < sem.semCount then
    ({ sem with semCount := sem.semCount - 1 }, some 0)
  else if isBlock then
    ({ sem with
      waitingThreads := sem.waitingThreads ++ [t]
      waitingThreadsCount := u32 (sem.waitingThreadsCount + 1) }, none)
  else (sem, some (-eagain))

/-- What a signal does to the semaphore. -/
def Semaphore.signal (sem : Semaphore) : Semaphore := match sem.waitingThreads with
  | [] => { sem with semCount := u32 (sem.semCount + 1) }
  | _ :: rest =>
    { sem with
      waitingThreadsCount := u32Pred sem.waitingThreadsCount
      waitingThreads := rest }

/-- Only the semaphore changes. -/
lemma Placed.setSemCount_advances (h : Placed k none place) (s count : Nat) :
    Advances k (k.setSem s { k.sems s with semCount := count }) place place :=
  ⟨h.setSemCount count, id, le_rfl, fun _ _ => rfl, fun _ _ => rfl,
    fun _ _ _ => rfl, fun _ hnot hu => (hnot hu).elim⟩

/-- The state after thread `t` has been put on the waiting list of `s`. -/
def SchedState.blockOn (k : SchedState) (t : ThreadId) (s : Nat) : SchedState :=
  (k.setThread t { k.threads t with
    state := .waiting, ec := { (k.threads t).ec with x0 := 0 } }).setSem s
    { k.sems s with
      waitingThreads := (k.sems s).waitingThreads ++ [t]
      waitingThreadsCount := u32 ((k.sems s).waitingThreadsCount + 1) }

lemma waitSem_block_eq (ht : k.current cpu = some t) (hzero : (k.sems s).semCount = 0) :
    waitSem k cpu s true = (do
      let (k, _) ← rrSched (k.blockOn t s) cpu
      return (k, none)) := by
  have hnot : ¬ (k.sems s).semCount > 0 := by omega
  simp only [waitSem, if_neg hnot, Bool.not_true, Bool.false_eq_true, if_false,
    ht, derefPtr_some, ok_bind]
  rfl

lemma Placed.blockOn (h : Placed k none place) (ht : k.current cpu = some (.obj n)) (s : Nat) :
    Placed (k.blockOn (.obj n) s) (some cpu) (update place (.obj n) (.waiting s)) := by
  have hok := h.threads (.obj n)
  rw [h.running_of_current ht] at hok
  have hth : ThreadOk (.obj n) { k.threads (.obj n) with
      state := .waiting, ec := { (k.threads (.obj n)).ec with x0 := 0 } }
      .moving :=
    { state := by simp [Place.Allows]
      cpuid := by simp
      exit := by simpa using hok.exit
      type := hok.type
      sc := fun _ => hok.sc (by simp)
      affinity := hok.affinity }
  have hwait := (h.leave ht .moving hth).pushWaiter (s := s) (n := n)
    (by simp) (by simp [SchedState.setThread])
  rw [update_idem] at hwait
  exact hwait

/-- The current thread blocks, and the CPU runs the next one. -/
lemma waitSem_block (h : Placed k none place)
    (ht : k.current cpu = some (.obj n)) (hzero : (k.sems s).semCount = 0) :
    ∃ k' place', waitSem k cpu s true = .ok (k', none) ∧
    Advances k k' place place' ∧ k'.sems = (k.blockOn (.obj n) s).sems := by
  have hrun := h.running_of_current ht
  have hlive : (place (.obj n)).role = .live := by simp [hrun, Place.role]
  obtain ⟨k', u, hnext, hres⟩ := rrSchedNext_spec (h.blockOn ht s)
  have hframe : LiveFrame k (k.blockOn (.obj n) s) place (update place (.obj n) (.waiting s)) :=
    LiveFrame.of_update rfl rfl rfl hlive rfl
  have hsched : rrSched (k.blockOn (.obj n) s) cpu = .ok (k', 0) := by
    have hcur : (k.blockOn (.obj n) s).current cpu = some (.obj n) := ht
    rw [rrSched_eq_next hcur, hnext]
    right
    simp [blockOn, setThread, setSem]
  refine ⟨k', _, ?_, ⟨hres.placed, fun hrest => hres.rest (hrest.update
    (by simp)), hframe.trans hres.frame.live⟩, hres.frame.sems⟩
  rw [waitSem_block_eq ht hzero, hsched]
  rfl

/-- **`wait_sem`** never halts and acts on its semaphore as `Semaphore.wait`
says. -/
theorem waitSem_spec (h : Placed k none place)
    (ht : k.current cpu = some (.obj n)) (s : Nat) (isBlock : Bool) :
    ∃ k' place', waitSem k cpu s isBlock = .ok (k', ((k.sems s).wait (.obj n) isBlock).2) ∧
    Advances k k' place place' ∧
    k'.sems = update k.sems s ((k.sems s).wait (.obj n) isBlock).1 := by
  by_cases hpos : 0 < (k.sems s).semCount
  · refine ⟨_, place, ?_, h.setSemCount_advances s ((k.sems s).semCount - 1), ?_⟩
    · simp [waitSem, Semaphore.wait, hpos]
    · simp [setSem, Semaphore.wait, hpos]
  cases isBlock with
  | false =>
    refine ⟨k, place, ?_, ⟨h, id, (SchedFrame.refl k place).live⟩, ?_⟩
    · simp [waitSem, Semaphore.wait, hpos]
    · simp [Semaphore.wait, hpos]
  | true =>
    obtain ⟨k', place', heq, hadv, hsems⟩ := waitSem_block h ht (s := s) (by omega)
    refine ⟨k', place', ?_, hadv, ?_⟩
    · simp [heq, Semaphore.wait, hpos]
    simp [hsems, blockOn, setSem, setThread, Semaphore.wait, hpos]

/-- Of a thread on a ready queue and threads that wait, the first is ready. -/
lemma Placed.filter_ready {c : Cpu} {l : List ThreadId}
    (h : Placed k sw place) (ht : place t = .ready c) (hl : ∀ u ∈ l, place u = .waiting s) :
    (t :: l).filter (fun u => (k.threads u).state = .ready) = [t] := by
  have hhead : (k.threads t).state = .ready := (h.threads t).ready_iff.mpr ⟨c, ht⟩
  have htail : ∀ u ∈ l, ¬ (k.threads u).state = .ready := fun u hu =>
    (h.threads u).not_ready (by simp [hl u hu])
  simpa [hhead] using htail

/-- **`signal_sem`** never halts, acts on its semaphore as `Semaphore.signal`
says, and makes the first waiting thread ready and no other. -/
theorem signalSem_spec (h : Placed k none place) (cpu : Cpu) (s : Nat) :
    ∃ k' place', signalSem k cpu s = .ok (k', 0) ∧ Advances k k' place place' ∧
    k'.sems = update k.sems s (k.sems s).signal ∧
    (k.sems s).waitingThreads.filter (fun t => (k'.threads t).state = .ready) =
    (k.sems s).waitingThreads.take 1 := by
  have hcount := (h.waiters s).2
  cases hl : (k.sems s).waitingThreads with
  | nil =>
    rw [hl] at hcount
    refine ⟨_, place, ?_, h.setSemCount_advances s (u32 ((k.sems s).semCount + 1)), ?_, rfl⟩
    · simp [signalSem, hcount]
    · simp [setSem, Semaphore.signal, hl]
  | cons t l =>
    have ht : place t = .waiting s := ((h.waiters s).1.mem_iff t).mp (by simp [hl])
    obtain ⟨n, rfl⟩ := h.ids.eq_obj (t := t) (by simp [ht]) (by simp [ht])
    obtain ⟨c, henq, hplaced, hframe⟩ := (h.popWaiter hl).enqueue (n := n) (by simp) cpu
    rw [update_idem] at hplaced
    refine ⟨_, _, ?_, ⟨hplaced, fun hrest => hrest.update (by simp),
      LiveFrame.of_update rfl rfl rfl (by simp [ht, Place.role]) rfl⟩, ?_, ?_⟩
    · rw [hl, length_cons] at hcount
      have hne : (k.sems s).waitingThreadsCount ≠ 0 := by omega
      simp only [signalSem, if_neg hne, hl, henq, ok_bind]
      rfl
    · simp [pushReady, setThread, setSem, Semaphore.signal, hl]
    have hnodup := (h.waiters s).1.nodup
    rw [hl, nodup_cons] at hnodup
    refine hplaced.filter_ready (c := c) (s := s) (by simp) (fun u hu => ?_)
    have hne : u ≠ .obj n := fun heq => hnodup.1 (heq ▸ hu)
    simpa [hne] using ((h.waiters s).1.mem_iff u).mp (by simp [hl, hu])

end

end ChCore.Kernel
