import ChCore.Kernel.SchedModel
import ChCore.Lib.Places

/-!
# Where the threads are

The scheduler spreads what it knows about a thread over its state, its `cpuid`,
the ready queues, `current_threads` and the waiting lists of semaphores. All of
it follows from the place at which the thread is (`Place`). `Placed` relates the
state of the kernel to a placement of all threads.

While a CPU is between two threads, its entry of `current_threads` is stale.
`Placed k (some cpu) place` is the form of the relation for that time.
-/

namespace ChCore.Kernel

open Function Lib.Places

inductive Place
  /-- Not allocated, or a server thread of a connection that has no call. -/
  | off
  /-- An idle thread that does not run. -/
  | idle
  /-- Exited. -/
  | gone
  /-- Taken from one place and not yet put at the next. -/
  | moving
  | running (cpu : Cpu)
  | ready (cpu : Cpu)
  | waiting (sem : Nat)
  /-- Waiting for the answer to a call through a connection. -/
  | calling (conn : Nat)
  deriving DecidableEq

/-- The states that a thread can have at a place. -/
def Place.Allows : Place → ThreadState → Prop
  | .ready _, s => s = .ready
  | .running _, s => s = .running
  | .waiting _, s => s = .waiting
  | .calling _, s => s = .waiting
  | _, s => s ≠ .ready

/-- The record `th` of thread `t` fits the place `p`. -/
structure ThreadOk (t : ThreadId) (th : Thread) (p : Place) : Prop where
  state : p.Allows th.state
  cpuid : ∀ c, p = .ready c → th.cpuid = c
  exit : th.threadExitState = if p = .gone then .exiting else .running
  type : th.type = .idle ↔ ∃ c, t = .idle c
  sc : p ≠ .off → th.sc ≠ none
  affinity : noAff ≤ th.affinity ∧ th.affinity < platCpuNum

def QueuesOk (queues : Cpu → QueueMeta) (place : ThreadId → Place) : Prop :=
  ∀ c, Lists place (.ready c) (queues c).queueHead ∧
    (queues c).queueLen = (queues c).queueHead.length

def WaitersOk (sems : Nat → Semaphore) (place : ThreadId → Place) : Prop :=
  ∀ s, Lists place (.waiting s) (sems s).waitingThreads ∧
    (sems s).waitingThreadsCount = (sems s).waitingThreads.length

/-- `switching` is the CPU that is between two threads. -/
def CurrentOk (current : Cpu → Option ThreadId) (switching : Option Cpu)
    (place : ThreadId → Place) : Prop :=
  ∀ c, if switching = some c then ∀ t, place t ≠ .running c
    else ∀ t, current c = some t ↔ place t = .running c

/-- Which threads there are: the idle threads and the first `count` objects. -/
structure IdsOk (count : Nat) (place : ThreadId → Place) : Prop where
  idle : ∀ c, place (.idle c) = .idle ∨ place (.idle c) = .running c
  fresh : ∀ n, count ≤ n → place (.obj n) = .off
  obj : ∀ n, place (.obj n) ≠ .idle
  bound : count < 2 ^ 32

/-- The state of the kernel is the one that the placement says. -/
structure Placed (k : SchedState) (switching : Option Cpu) (place : ThreadId → Place) : Prop where
  queues : QueuesOk k.queues place
  waiters : WaitersOk k.sems place
  current : CurrentOk k.current switching place
  threads : ∀ t, ThreadOk t (k.threads t) (place t)
  ids : IdsOk k.threadCount place

/-! ## What a placement says about a thread -/

variable {t : ThreadId} {th : Thread} {p : Place}

lemma ThreadOk.ready_iff (h : ThreadOk t th p) : th.state = .ready ↔ ∃ c, p = .ready c := by
  have hstate := h.state
  cases p <;> simp_all [Place.Allows]

lemma ThreadOk.not_ready (h : ThreadOk t th p) (hp : ∀ c, p ≠ .ready c) : th.state ≠ .ready := by
  intro hready
  obtain ⟨c, hc⟩ := h.ready_iff.mp hready
  exact hp c hc

/-- A thread as other components of the kernel know it. -/
inductive Role
  | absent
  | live
  | gone
  | calling (conn : Nat)
  deriving DecidableEq

def Place.role : Place → Role
  | .off => .absent
  | .gone => .gone
  | .calling n => .calling n
  | _ => .live

/-- A thread without what the scheduler writes. -/
def Thread.core (th : Thread) : Thread :=
  { th with state := .init, cpuid := 0, prevThread := .null }

lemma core_fields {th' : Thread} (h : th'.core = th.core) :
    th'.type = th.type ∧ th'.sc = th.sc ∧ th'.affinity = th.affinity ∧
    th'.threadExitState = th.threadExitState := by
  simp only [Thread.core, Thread.mk.injEq] at h
  simp [h]

/-- The scheduler moves a live thread to another place. -/
lemma ThreadOk.reschedule {th' : Thread} {q : Place} (h : ThreadOk t th p)
    (hcore : th'.core = th.core) (hstate : q.Allows th'.state)
    (hcpuid : ∀ c, q = .ready c → th'.cpuid = c) (hp : p.role = .live)
    (hq : q.role = .live) : ThreadOk t th' q := by
  obtain ⟨htype, hsc, haff, hexit⟩ := core_fields hcore
  have hoff : p ≠ .off := by
    rintro rfl
    simp [Place.role] at hp
  have hgone : p ≠ .gone := by
    rintro rfl
    simp [Place.role] at hp
  have hgone' : q ≠ .gone := by
    rintro rfl
    simp [Place.role] at hq
  exact {
    state := hstate
    cpuid := hcpuid
    exit := by rw [hexit, h.exit, if_neg hgone, if_neg hgone']
    type := by rw [htype, h.type]
    sc := fun _ => hsc ▸ h.sc hoff
    affinity := haff ▸ h.affinity
  }

section

variable {k : SchedState} {sw : Option Cpu} {place : ThreadId → Place}
  {t : ThreadId} {p : Place} {th : Thread}

variable {count : Nat}

/-- A thread at a place other than those of idle threads is no idle thread. -/
lemma IdsOk.eq_obj (h : IdsOk count place) (hidle : place t ≠ .idle)
    (hrun : ∀ c, place t ≠ .running c) : ∃ n, t = .obj n := by
  cases t with
  | idle c => exact ((h.idle c).elim hidle (hrun c)).elim
  | obj n => exact ⟨n, rfl⟩

variable {n : Nat}

lemma IdsOk.lt_count (h : IdsOk count place) (hp : place (.obj n) ≠ .off) : n < count := by
  by_contra hle
  exact hp (h.fresh n (by omega))

/-- The number of a thread object. -/
def ThreadId.index : ThreadId → Nat
  | .idle _ => 0
  | .obj n => n

/-- A list of the threads at a place that idle threads do not go to is shorter
than `2 ^ 32`. -/
lemma IdsOk.length_lt (h : IdsOk count place) {l : List ThreadId}
    (hl : Lists place p l) (hoff : p ≠ .off) (hidle : p ≠ .idle)
    (hrun : ∀ c, p ≠ .running c) : l.length < 2 ^ 32 := by
  have hobj : ∀ t ∈ l, ∃ n, t = .obj n ∧ n < count := by
    intro t ht
    have hp := (hl.mem_iff t).mp ht
    obtain ⟨n, rfl⟩ := h.eq_obj (hp ▸ hidle) (hp ▸ hrun)
    exact ⟨n, rfl, h.lt_count (hp ▸ hoff)⟩
  have hle : l.length ≤ count := by
    apply length_le_of_index ThreadId.index hl.nodup
    · intro a ha b hb hab
      obtain ⟨n, rfl, -⟩ := hobj a ha
      obtain ⟨m, rfl, -⟩ := hobj b hb
      exact congrArg ThreadId.obj hab
    · intro a ha
      obtain ⟨n, rfl, hn⟩ := hobj a ha
      exact hn
  exact lt_of_le_of_lt hle h.bound

lemma IdsOk.update (h : IdsOk count place) (hn : n < count) (hp : p ≠ .idle) :
    IdsOk count (Function.update place (.obj n) p) := by
  refine ⟨fun c => by simpa using h.idle c, fun m hm => ?_, fun m => ?_, h.bound⟩
  · have hne : m ≠ n := by omega
    simpa [hne] using h.fresh m hm
  by_cases hm : m = n
  · simpa [hm] using hp
  · simpa [hm] using h.obj m

/-! ## Frames -/

lemma QueuesOk.frame {queues : Cpu → QueueMeta} (h : QueuesOk queues place)
    (ht : ∀ c, place t ≠ .ready c) (hp : ∀ c, p ≠ .ready c) :
    QueuesOk queues (update place t p) := fun c =>
  ⟨(h c).1.frame (ht c) (hp c), (h c).2⟩

lemma WaitersOk.frame {sems : Nat → Semaphore} (h : WaitersOk sems place)
    (ht : ∀ s, place t ≠ .waiting s) (hp : ∀ s, p ≠ .waiting s) :
    WaitersOk sems (update place t p) := fun s =>
  ⟨(h s).1.frame (ht s) (hp s), (h s).2⟩

lemma CurrentOk.frame {current : Cpu → Option ThreadId}
    (h : CurrentOk current sw place) (ht : ∀ c, place t ≠ .running c) (hp : ∀ c, p ≠ .running c) :
    CurrentOk current sw (update place t p) := by
  have hiff : ∀ c u, update place t p u = .running c ↔ place u = .running c := by
    intro c u
    by_cases hu : u = t
    · subst hu
      simp [hp c, ht c]
    · simp [hu]
  intro c
  simp only [ne_eq, hiff]
  exact h c

lemma Placed.threads_update (h : Placed k sw place) (hok : ThreadOk t th p) :
    ∀ u, ThreadOk u (update k.threads t th u) (update place t p u) := by
  intro u
  by_cases hu : u = t
  · subst hu
    simpa using hok
  · simpa [hu] using h.threads u

/-! ## Moves -/

/-- A place of an object that is on no list of the kernel. -/
structure Place.Unlisted (p : Place) : Prop where
  ready : ∀ c, p ≠ .ready c
  waiting : ∀ s, p ≠ .waiting s
  running : ∀ c, p ≠ .running c
  idle : p ≠ .idle

lemma Place.Unlisted.off : Place.off.Unlisted := by constructor <;> simp
lemma Place.Unlisted.gone : Place.gone.Unlisted := by constructor <;> simp
lemma Place.Unlisted.moving : Place.moving.Unlisted := by constructor <;> simp
lemma Place.Unlisted.calling (n : Nat) : (Place.calling n).Unlisted := by constructor <;> simp

/-- The record of a thread changes and its place does not. -/
lemma Placed.setThread (h : Placed k sw place)
    (hok : ThreadOk t th (place t)) : Placed (k.setThread t th) sw place := by
  have hthreads := h.threads_update hok
  rw [update_eq_self] at hthreads
  exact
    { queues := h.queues
      waiters := h.waiters
      current := h.current
      threads := hthreads
      ids := h.ids }

/-- A thread goes from one place to another that are both on no list. -/
lemma Placed.move (h : Placed k sw place) (hn : n < k.threadCount)
    (hold : (place (.obj n)).Unlisted) (hnew : p.Unlisted) (hok : ThreadOk (.obj n) th p) :
    Placed (k.setThread (.obj n) th) sw (update place (.obj n) p) where
  queues := h.queues.frame hold.ready hnew.ready
  waiters := h.waiters.frame hold.waiting hnew.waiting
  current := h.current.frame hold.running hnew.running
  threads := h.threads_update hok
  ids := h.ids.update hn hnew.idle

end

end ChCore.Kernel
