import ChCore.Kernel.SchedInvariant

/-!
# What the scheduler does to a placement

One lemma for each step of `rr_sched`: the current thread leaves the CPU, it is
put on a ready queue, the first thread of the queue is taken from it, and the CPU
switches to a thread. `rrSched_spec` puts them together.
-/

namespace ChCore.Kernel

open Function List SchedState Lib.Places

/-- What a scheduling step leaves as it is. -/
structure SchedFrame (k k' : SchedState) (place place' : ThreadId → Place) : Prop where
  sems : k'.sems = k.sems
  count : k'.threadCount = k.threadCount
  core : ∀ t, (k'.threads t).core = (k.threads t).core
  role : ∀ t, (place' t).role = (place t).role
  /-- Threads that take no part in scheduling are not touched. -/
  rest : ∀ t, (place t).role ≠ .live → k'.threads t = k.threads t

lemma SchedFrame.refl (k : SchedState) (place : ThreadId → Place) : SchedFrame k k place place :=
  ⟨rfl, rfl, fun _ => rfl, fun _ => rfl, fun _ _ => rfl⟩

lemma SchedFrame.trans {k k' k'' : SchedState} {place place' place'' : ThreadId → Place}
    (h : SchedFrame k k' place place') (h' : SchedFrame k' k'' place' place'') :
    SchedFrame k k'' place place'' where
  sems := h'.sems.trans h.sems
  count := h'.count.trans h.count
  core t := (h'.core t).trans (h.core t)
  role t := (h'.role t).trans (h.role t)
  rest t ht := (h'.rest t (h.role t ▸ ht)).trans (h.rest t ht)

/-- One live thread is rescheduled. -/
lemma SchedFrame.of_update {k k' : SchedState} {place : ThreadId → Place}
    {t : ThreadId} {th : Thread} {p : Place} (hsems : k'.sems = k.sems)
    (hcount : k'.threadCount = k.threadCount) (hthreads : k'.threads = update k.threads t th)
    (hcore : th.core = (k.threads t).core) (hlive : (place t).role = .live) (hp : p.role = .live) :
    SchedFrame k k' place (update place t p) := by
  refine ⟨hsems, hcount, fun u => ?_, fun u => ?_, fun u hu => ?_⟩
  · by_cases hut : u = t
    · subst hut
      simp [hthreads, hcore]
    · simp [hthreads, hut]
  · by_cases hut : u = t
    · subst hut
      simp [hlive, hp]
    · simp [hut]
  · have hut : u ≠ t := fun heq => hu (heq ▸ hlive)
    simp [hthreads, hut]

section

variable {k : SchedState} {sw : Option Cpu} {place : ThreadId → Place}
  {t : ThreadId} {cpu : Cpu}

/-! ## Leaving a CPU -/

variable {p : Place}

/-- The CPU has given up its current thread, which is at `p` now. -/
lemma CurrentOk.leave {current : Cpu → Option ThreadId}
    (h : CurrentOk current none place) (ht : place t = .running cpu) (hp : ∀ c, p ≠ .running c) :
    CurrentOk current (some cpu) (update place t p) := by
  intro c
  by_cases hc : cpu = c
  · subst hc
    rw [if_pos rfl]
    intro u hu
    by_cases hut : u = t
    · subst hut
      simp [hp cpu] at hu
    rw [update_of_ne hut] at hu
    have hcur := h cpu
    simp only [reduceCtorEq, if_false] at hcur
    have hsame : u = t := Option.some.inj (((hcur u).mpr hu).symm.trans ((hcur t).mpr ht))
    exact hut hsame
  · rw [if_neg (by simpa using hc)]
    have hcur := h c
    simp only [reduceCtorEq, if_false] at hcur
    intro u
    rw [hcur u]
    by_cases hut : u = t
    · subst hut
      simp [ht, hp c, hc]
    · simp [hut]

lemma Placed.running_of_current (h : Placed k none place)
    (ht : k.current cpu = some t) : place t = .running cpu := by
  have hcur := h.current cpu
  simp only [reduceCtorEq, if_false] at hcur
  exact (hcur t).mp ht

variable {n : Nat} {th : Thread}

/-- The current thread leaves its CPU for a place that is on no list. -/
lemma Placed.leave (h : Placed k none place) (ht : k.current cpu = some (.obj n)) (hp : p.Unlisted)
    (hok : ThreadOk (.obj n) th p) :
    Placed (k.setThread (.obj n) th) (some cpu) (update place (.obj n) p) := by
  have hrun := h.running_of_current ht
  exact
    { queues := h.queues.frame (by simp [hrun]) hp.ready
      waiters := h.waiters.frame (by simp [hrun]) hp.waiting
      current := h.current.leave hrun hp.running
      threads := h.threads_update hok
      ids := h.ids.update (h.ids.lt_count (by simp [hrun])) hp.idle }

lemma IdsOk.update_idle {count : Nat} (h : IdsOk count place) (hp : p = .idle ∨ p = .running cpu) :
    IdsOk count (Function.update place (.idle cpu) p) := by
  refine ⟨fun c => ?_, fun m hm => by simpa using h.fresh m hm,
    fun m => by simpa using h.obj m, h.bound⟩
  by_cases hc : c = cpu
  · subst hc
    simpa using hp
  · simpa [hc] using h.idle c

/-- The idle thread leaves its CPU. -/
lemma Placed.leave_idle (h : Placed k none place) (ht : place (.idle cpu) = .running cpu) :
    Placed k (some cpu) (update place (.idle cpu) .idle) := by
  have hold := h.threads (.idle cpu)
  rw [ht] at hold
  have hok : ThreadOk (.idle cpu) (k.threads (.idle cpu)) .idle :=
    hold.reschedule rfl (hold.not_ready (by simp)) (by simp) rfl rfl
  have hthreads := h.threads_update hok
  rw [update_eq_self] at hthreads
  exact
    { queues := h.queues.frame (by simp [ht]) (by simp)
      waiters := h.waiters.frame (by simp [ht]) (by simp)
      current := h.current.leave ht (by simp)
      threads := hthreads
      ids := h.ids.update_idle (.inl rfl) }

/-! ## Joining a ready queue -/

/-- Where `rr_sched_enqueue` puts a thread. -/
def targetCpu (cpu : Cpu) (affinity : Int) : Int := if affinity = noAff then cpu else affinity

lemma queueIndex_targetCpu (cpu : Cpu) {a : Int} (ha : noAff ≤ a ∧ a < platCpuNum) :
    ∃ c : Cpu, queueIndex (targetCpu cpu a) = .ok c := by
  have hrange : 0 ≤ targetCpu cpu a ∧ (targetCpu cpu a).toNat < platCpuNum := by
    have hcpu := cpu.isLt
    unfold targetCpu
    unfold noAff at *
    split <;> omega
  exact ⟨⟨_, hrange.2⟩, by rw [queueIndex, dif_pos hrange]⟩

/-- The state after `t` has been put on the queue of `c`. -/
def SchedState.pushReady (k : SchedState) (t : ThreadId) (c : Cpu) : SchedState :=
  { k.setThread t { k.threads t with state := .ready, cpuid := c } with
    queues := Function.update k.queues c
      ⟨(k.queues c).queueHead ++ [t], u32 ((k.queues c).queueLen + 1)⟩
    events := k.events ++ [.enqueued c t] }

lemma QueuesOk.push {queues : Cpu → QueueMeta} {c : Cpu}
    (h : QueuesOk queues place) (ht : ∀ c, place t ≠ .ready c)
    (hlt : (queues c).queueHead.length + 1 < 2 ^ 32) :
    QueuesOk (update queues c ⟨(queues c).queueHead ++ [t], u32 ((queues c).queueLen + 1)⟩)
    (update place t (.ready c)) := by
  intro d
  obtain ⟨hlist, hlen⟩ := h d
  by_cases hd : d = c
  · subst hd
    simp only [update_self, length_append, length_singleton]
    exact ⟨hlist.append (ht d), by rw [hlen, u32_of_lt hlt]⟩
  · simp only [update_of_ne hd]
    exact ⟨hlist.frame (ht d) (by simpa using Ne.symm hd), hlen⟩

lemma Placed.pushReady (h : Placed k sw place) (ht : place (.obj n) = .moving) (c : Cpu) :
    Placed (k.pushReady (.obj n) c) sw (update place (.obj n) (.ready c)) := by
  have hok := h.threads (.obj n)
  rw [ht] at hok
  have hthreads : ThreadOk (.obj n) { k.threads (.obj n) with
      state := .ready, cpuid := c } (.ready c) :=
    hok.reschedule rfl rfl (by simp) rfl rfl
  have hids : IdsOk k.threadCount (update place (.obj n) (.ready c)) :=
    h.ids.update (h.ids.lt_count (by simp [ht])) (by simp)
  -- the queue is still short with the new thread
  have hlen := hids.length_lt ((h.queues c).1.append (by simp [ht])) (by simp) (by simp) (by simp)
  rw [length_append, length_singleton] at hlen
  exact
    { queues := h.queues.push (by simp [ht]) hlen
      waiters := h.waiters.frame (by simp [ht]) (by simp)
      current := h.current.frame (by simp [ht]) (by simp)
      threads := h.threads_update hthreads
      ids := hids }

/-- A thread that is on no list is put on a ready queue. -/
lemma Placed.enqueue (h : Placed k sw place) (ht : place (.obj n) = .moving) (cpu : Cpu) :
    ∃ c, rrSchedEnqueue k cpu (some (.obj n)) = .ok (k.pushReady (.obj n) c, 0) ∧
    Placed (k.pushReady (.obj n) c) sw (update place (.obj n) (.ready c)) ∧
    SchedFrame k (k.pushReady (.obj n) c) place (update place (.obj n) (.ready c)) := by
  have hok := h.threads (.obj n)
  rw [ht] at hok
  have hstate : (k.threads (.obj n)).state ≠ .ready := hok.state
  have htype : (k.threads (.obj n)).type ≠ .idle := by simp [hok.type]
  have haff : ¬ (k.threads (.obj n)).affinity ≥ platCpuNum := by
    have := hok.affinity.2
    omega
  obtain ⟨c, hindex⟩ := queueIndex_targetCpu cpu hok.affinity
  refine ⟨c, ?_, h.pushReady ht c, ?_⟩
  · simp only [rrSchedEnqueue, if_neg hstate, if_neg htype, if_neg haff]
    rw [targetCpu] at hindex
    rw [hindex]
    rfl
  · exact SchedFrame.of_update rfl rfl rfl rfl (by simp [ht, Place.role]) rfl

/-! ## Taking a thread from a ready queue -/

/-- The state after `t` has been taken from the queue of `cpu`. -/
def SchedState.popReady (k : SchedState) (t : ThreadId) (cpu : Cpu) : SchedState :=
  { k.setThread t { k.threads t with state := .inter, cpuid := cpu } with
    queues := Function.update (unlinkReady k.queues t) cpu
      { unlinkReady k.queues t cpu with
        queueLen := u32Pred (unlinkReady k.queues t cpu).queueLen } }

variable {l : List ThreadId}

lemma QueuesOk.pop {queues : Cpu → QueueMeta} {c : Cpu}
    (h : QueuesOk queues place) (hl : (queues c).queueHead = t :: l)
    (hlt : l.length < 2 ^ 32) :
    QueuesOk (update (unlinkReady queues t) c
      { unlinkReady queues t c with
        queueLen := u32Pred (unlinkReady queues t c).queueLen })
      (update place t .moving) := by
  have ht : place t = .ready c := ((h c).1.mem_iff t).mp (by simp [hl])
  intro d
  obtain ⟨hlist, hlen⟩ := h d
  have hlist' := hlist.erase (t := t) (q := .moving) (by simp)
  by_cases hd : d = c
  · subst hd
    simp only [update_self, unlinkReady]
    refine ⟨hlist', ?_⟩
    rw [hlen, hl, length_cons, u32Pred_succ hlt, erase_cons_head]
  have hnot : t ∉ (queues d).queueHead := by simpa [hlist.mem_iff, ht] using Ne.symm hd
  simp only [update_of_ne hd, unlinkReady]
  refine ⟨hlist', ?_⟩
  rw [hlen, erase_of_not_mem hnot]

lemma Placed.popReady (h : Placed k sw place) (hl : (k.queues cpu).queueHead = .obj n :: l) :
    Placed (k.popReady (.obj n) cpu) sw (update place (.obj n) .moving) := by
  have hlist := (h.queues cpu).1
  have ht : place (.obj n) = .ready cpu := (hlist.mem_iff _).mp (by simp [hl])
  have hok := h.threads (.obj n)
  rw [ht] at hok
  have hlen := h.ids.length_lt hlist (by simp) (by simp) (by simp)
  rw [hl, length_cons] at hlen
  exact {
    queues := h.queues.pop hl (by omega)
    waiters := h.waiters.frame (by simp [ht]) (by simp)
    current := h.current.frame (by simp [ht]) (by simp)
    threads := h.threads_update (hok.reschedule rfl (by simp [Place.Allows]) (by simp) rfl rfl)
    ids := h.ids.update (h.ids.lt_count (by simp [ht])) (by simp)
  }

lemma rrSchedDequeue_ready (h : ThreadOk t (k.threads t) (.ready cpu)) (ht : ∀ c, t ≠ .idle c) :
    rrSchedDequeue k cpu (some t) = (k.popReady t cpu, 0) := by
  have htype : (k.threads t).type ≠ .idle := by simpa [h.type] using ht
  have hstate : (k.threads t).state = .ready := h.state
  have haff : ¬ (k.threads t).affinity ≥ platCpuNum := by
    have := h.affinity.2
    omega
  simp only [rrSchedDequeue, if_neg htype, hstate, ne_eq, not_true_eq_false, if_false, if_neg haff]
  rfl

/-- The idle thread is chosen exactly when the queue is empty. -/
lemma rrSchedChooseThread_nil (h : Placed k sw place) (hl : (k.queues cpu).queueHead = []) :
    rrSchedChooseThread k cpu = .ok (k, .idle cpu) := by
  have hlen := (h.queues cpu).2
  rw [rrSchedChooseThread, if_pos (by simp [hlen, hl])]

/-- Otherwise the first thread of the queue is chosen. -/
lemma rrSchedChooseThread_cons (h : Placed k sw place) (hl : (k.queues cpu).queueHead = t :: l) :
    rrSchedChooseThread k cpu = .ok (k.popReady t cpu, t) := by
  obtain ⟨hlist, hlen⟩ := h.queues cpu
  have ht : place t = .ready cpu := (hlist.mem_iff t).mp (by simp [hl])
  have hok := h.threads t
  rw [ht] at hok
  obtain ⟨n, rfl⟩ := h.ids.eq_obj (t := t) (by simp [ht]) (by simp [ht])
  rw [rrSchedChooseThread, if_neg (by simp [hlen, hl]), hl]
  simp only [rrSchedDequeue_ready hok (by simp)]
  rfl

/-! ## Switching to a thread -/

/-- The state after `cpu` has switched to `t`. -/
def SchedState.runOn (k : SchedState) (cpu : Cpu) (t : ThreadId) (th : Thread) : SchedState :=
  { k.setThread t th with current := Function.update k.current cpu (some t) }

lemma switchToThread_eq (cpu : Cpu) (hready : (k.threads t).state ≠ .ready)
    (hexit : (k.threads t).threadExitState ≠ .exited) :
    ∃ th : Thread, switchToThread k cpu t = .ok (k.runOn cpu t th, 0) ∧
    th.state = .running ∧ th.core = (k.threads t).core := by
  rw [switchToThread]
  simp only [if_neg hready, if_neg hexit]
  by_cases hcur : k.current cpu = some t
  · rw [if_pos hcur]
    refine ⟨{ k.threads t with state := .running, prevThread := .itself }, ?_, rfl, rfl⟩
    rw [runOn, ← hcur, update_eq_self]
    rfl
  · rw [if_neg hcur]
    exact ⟨_, rfl, rfl, rfl⟩

lemma CurrentOk.arrive {current : Cpu → Option ThreadId}
    (h : CurrentOk current (some cpu) place) (ht : ∀ c, place t ≠ .running c) :
    CurrentOk (update current cpu (some t)) none (update place t (.running cpu)) := by
  intro c
  simp only [reduceCtorEq, if_false]
  have hcur := h c
  intro u
  by_cases hc : c = cpu
  · subst hc
    rw [if_pos rfl] at hcur
    by_cases hu : u = t
    · subst hu
      simp
    · simp [hu, Ne.symm hu, hcur u]
  rw [if_neg (by simpa using Ne.symm hc)] at hcur
  rw [update_of_ne hc, hcur u]
  by_cases hu : u = t
  · subst hu
    simp [ht c, Ne.symm hc]
  · simp [hu]

/-- The CPU switches to a thread that was taken from a queue. -/
lemma Placed.runOn (h : Placed k (some cpu) place)
    (ht : place (.obj n) = .moving) (hstate : th.state = .running)
    (hcore : th.core = (k.threads (.obj n)).core) :
    Placed (k.runOn cpu (.obj n) th) none (update place (.obj n) (.running cpu)) where
  queues := h.queues.frame (by simp [ht]) (by simp)
  waiters := h.waiters.frame (by simp [ht]) (by simp)
  current := h.current.arrive (by simp [ht])
  threads := h.threads_update ((h.threads (.obj n)).reschedule hcore hstate (by simp)
      (by simp [ht, Place.role]) rfl)
  ids := h.ids.update (h.ids.lt_count (by simp [ht])) (by simp)

/-- The CPU switches to its idle thread. -/
lemma Placed.runOn_idle (h : Placed k (some cpu) place)
    (ht : place (.idle cpu) = .idle) (hstate : th.state = .running)
    (hcore : th.core = (k.threads (.idle cpu)).core) : Placed (k.runOn cpu (.idle cpu) th) none
    (update place (.idle cpu) (.running cpu)) where
  queues := h.queues.frame (by simp [ht]) (by simp)
  waiters := h.waiters.frame (by simp [ht]) (by simp)
  current := h.current.arrive (by simp [ht])
  threads := h.threads_update ((h.threads (.idle cpu)).reschedule hcore hstate (by simp)
      (by simp [ht, Place.role]) rfl)
  ids := h.ids.update_idle (.inr rfl)

/-! ## `rr_sched` -/

/-- No thread is between two places. -/
def AtRest (place : ThreadId → Place) : Prop := ∀ t, place t ≠ .moving

lemma AtRest.update (h : AtRest place) (hp : p ≠ .moving) : AtRest (Function.update place t p) := by
  intro u
  by_cases hu : u = t
  · subst hu
    simpa using hp
  · simpa [hu] using h u

/-- A scheduling step from `k` to `k'`. -/
structure Rescheduled (k k' : SchedState) (place place' : ThreadId → Place) : Prop where
  placed : Placed k' none place'
  frame : SchedFrame k k' place place'
  rest : AtRest place → AtRest place'

lemma Placed.setBudget (h : Placed k sw place) (budget : ThreadId → Nat) :
    Placed { k with budget } sw place :=
  ⟨h.queues, h.waiters, h.current, h.threads, h.ids⟩

lemma Placed.setEvents (h : Placed k sw place) (events : List QueueEvent) :
    Placed { k with events } sw place :=
  ⟨h.queues, h.waiters, h.current, h.threads, h.ids⟩

lemma Placed.not_exited (h : Placed k sw place) : (k.threads t).threadExitState ≠ .exited := by
  rw [(h.threads t).exit]
  split <;> simp

lemma rrSchedNext_eq {k1 k2 : SchedState} (hchoose : rrSchedChooseThread k cpu = .ok (k1, t))
    (hswitch : switchToThread k1 cpu t = .ok (k2, 0)) :
    ∃ events, rrSchedNext k cpu = .ok ({ k2 with events }, 0) := by
  simp only [rrSchedNext, hchoose, hswitch, ok_bind]
  exact ⟨_, rfl⟩

/-- The chosen thread is the one the CPU runs next. -/
lemma rrSchedNext_spec (h : Placed k (some cpu) place) : ∃ k' t, rrSchedNext k cpu = .ok (k', 0) ∧
    Rescheduled k k' place (update place t (.running cpu)) := by
  cases hl : (k.queues cpu).queueHead with
  | nil =>
    have hidle : place (.idle cpu) = .idle := by
      have hcur := h.current cpu
      rw [if_pos rfl] at hcur
      exact (h.ids.idle cpu).resolve_right (hcur _)
    have hok := h.threads (.idle cpu)
    obtain ⟨th, heq, hstate, hcore⟩ := switchToThread_eq cpu
      (hok.not_ready (by simp [hidle])) h.not_exited
    obtain ⟨events, hnext⟩ := rrSchedNext_eq (rrSchedChooseThread_nil h hl) heq
    refine ⟨_, .idle cpu, hnext, ?_⟩
    exact
      { placed := (h.runOn_idle hidle hstate hcore).setEvents _
        frame := SchedFrame.of_update rfl rfl rfl hcore (by simp [hidle, Place.role]) rfl
        rest := fun hrest => hrest.update (by simp) }
  | cons t l =>
    have hlist := (h.queues cpu).1
    have ht : place t = .ready cpu := (hlist.mem_iff t).mp (by simp [hl])
    obtain ⟨n, rfl⟩ := h.ids.eq_obj (t := t) (by simp [ht]) (by simp [ht])
    have hpop := h.popReady hl
    obtain ⟨th, heq, hstate, hcore⟩ := switchToThread_eq cpu
      ((hpop.threads (.obj n)).not_ready (by simp)) hpop.not_exited
    obtain ⟨events, hnext⟩ := rrSchedNext_eq (rrSchedChooseThread_cons h hl) heq
    refine ⟨_, .obj n, hnext, ?_⟩
    have hplaced := hpop.runOn (by simp) hstate hcore
    have hframe : SchedFrame k (k.popReady (.obj n) cpu) place (update place (.obj n) .moving) :=
      SchedFrame.of_update rfl rfl rfl rfl (by simp [ht, Place.role]) rfl
    have hframe' : SchedFrame (k.popReady (.obj n) cpu)
        ((k.popReady (.obj n) cpu).runOn cpu (.obj n) th)
        (update place (.obj n) .moving)
        (update (update place (.obj n) .moving) (.obj n) (.running cpu)) :=
      SchedFrame.of_update rfl rfl rfl hcore (by simp [Place.role]) rfl
    rw [update_idem] at hplaced hframe'
    have hall := hframe.trans hframe'
    exact ⟨hplaced.setEvents _, ⟨hall.1, hall.2, hall.3, hall.4, hall.5⟩,
      fun hrest => hrest.update (by simp)⟩

/-- The current thread waits or exits: it is not put on a queue. -/
lemma rrSched_eq_next (ht : k.current cpu = some t) (h : (k.threads t).threadExitState = .exiting ∨
    (k.threads t).state = .waiting) : rrSched k cpu = rrSchedNext k cpu := by
  simp only [rrSched, ht]
  by_cases hexit : (k.threads t).threadExitState = .exiting
  · rw [if_pos hexit]
  · rw [if_neg hexit, if_neg (by simpa using h.resolve_left hexit)]

/-- A CPU without a current thread is between two threads. -/
lemma Placed.of_current_none (h : Placed k none place)
    (ht : k.current cpu = none) : Placed k (some cpu) place := by
  refine ⟨h.queues, h.waiters, fun c => ?_, h.threads, h.ids⟩
  have hcur := h.current c
  simp only [reduceCtorEq, if_false] at hcur
  by_cases hc : cpu = c
  · subst hc
    rw [if_pos rfl]
    intro u hu
    have hsome := (hcur u).mpr hu
    simp [ht] at hsome
  · rwa [if_neg (by simpa using hc)]

/-- The CPU stays with its current thread. -/
lemma Placed.stay (h : Placed k none place) (ht : k.current cpu = some t)
    (hstate : th.state = .running) (hcore : th.core = (k.threads t).core) :
    Rescheduled k (k.runOn cpu t th) place place := by
  have hrun := h.running_of_current ht
  have hok : ThreadOk t th (place t) := by
    rw [hrun]
    exact (h.threads t).reschedule hcore hstate (by simp) (by simp [hrun, Place.role]) rfl
  have heq : k.runOn cpu t th = k.setThread t th := by
    rw [SchedState.runOn, ← ht, update_eq_self]
    rfl
  have hframe : SchedFrame k (k.setThread t th) place (update place t (place t)) :=
    SchedFrame.of_update rfl rfl rfl hcore (by simp [hrun, Place.role]) (by simp [hrun, Place.role])
  rw [update_eq_self] at hframe
  rw [heq]
  exact ⟨h.setThread hok, hframe, id⟩

/-- The current thread is put on a queue, and the CPU runs the next one. -/
lemma Placed.preempt (h : Placed k none place)
    (ht : k.current cpu = some (.obj n)) (budget : ThreadId → Nat) :
    ∃ c k' u, rrSchedEnqueue k cpu (some (.obj n)) = .ok (k.pushReady (.obj n) c, 0) ∧
    Placed (k.pushReady (.obj n) c) (some cpu) (update place (.obj n) (.ready c)) ∧
    rrSchedNext { k.pushReady (.obj n) c with budget } cpu = .ok (k', 0) ∧
    Rescheduled k k' place (update (update place (.obj n) (.ready c)) u (.running cpu)) := by
  have hrun := h.running_of_current ht
  have hok := h.threads (.obj n)
  rw [hrun] at hok
  have hready := hok.not_ready (by simp)
  have hlive : (place (.obj n)).role = .live := by simp [hrun, Place.role]
  have hleave : Placed (k.setThread (.obj n) (k.threads (.obj n))) (some cpu)
      (update place (.obj n) .moving) :=
    h.leave ht .moving (hok.reschedule rfl hready (by simp) rfl rfl)
  have hself : k.setThread (.obj n) (k.threads (.obj n)) = k := by simp [SchedState.setThread]
  rw [hself] at hleave
  obtain ⟨c, heq, hplaced, -⟩ := hleave.enqueue (n := n) (by simp) cpu
  rw [update_idem] at hplaced
  have hframe : SchedFrame k (k.pushReady (.obj n) c) place (update place (.obj n) (.ready c)) :=
    SchedFrame.of_update rfl rfl rfl rfl hlive rfl
  obtain ⟨k', u, hnext, hres⟩ := rrSchedNext_spec (hplaced.setBudget budget)
  exact ⟨c, k', u, heq, hplaced, hnext,
    { placed := hres.placed
      frame := hframe.trans ⟨hres.frame.sems, hres.frame.count, hres.frame.core,
        hres.frame.role, hres.frame.rest⟩
      rest := fun hrest => hres.rest (hrest.update (by simp)) }⟩

/-- The idle thread is put on no queue, and the CPU runs the next thread. -/
lemma Placed.preempt_idle (h : Placed k none place)
    (ht : place (.idle cpu) = .running cpu) (budget : ThreadId → Nat) :
    ∃ k' u, rrSchedEnqueue k cpu (some (.idle cpu)) = .ok (k, 0) ∧
    rrSchedNext { k with budget } cpu = .ok (k', 0) ∧ Rescheduled k k' place (update
    (update place (.idle cpu) .idle) u (.running cpu)) := by
  have hok := h.threads (.idle cpu)
  have hready := hok.not_ready (by simp [ht])
  have htype : (k.threads (.idle cpu)).type = .idle := by simp [hok.type]
  have hframe : SchedFrame k k place (update place (.idle cpu) .idle) :=
    SchedFrame.of_update rfl rfl (update_eq_self _ _).symm rfl (by simp [ht, Place.role]) rfl
  obtain ⟨k', u, hnext, hres⟩ := rrSchedNext_spec ((h.leave_idle ht).setBudget budget)
  refine ⟨k', u, ?_, hnext,
    { placed := hres.placed
      frame := hframe.trans ⟨hres.frame.sems, hres.frame.count, hres.frame.core,
        hres.frame.role, hres.frame.rest⟩
      rest := fun hrest => hres.rest (hrest.update (by simp)) }⟩
  simp only [rrSchedEnqueue, if_neg hready, if_pos htype]

/-- **`rr_sched`** never halts and keeps the placement. -/
theorem rrSched_spec (h : Placed k none place) (cpu : Cpu) :
    ∃ k' place', rrSched k cpu = .ok (k', 0) ∧ Rescheduled k k' place place' := by
  cases hcur : k.current cpu with
  | none =>
    obtain ⟨k', u, heq, hres⟩ := rrSchedNext_spec (h.of_current_none hcur)
    exact ⟨k', _, by simp only [rrSched, hcur, heq], hres⟩
  | some t =>
    have hrun := h.running_of_current hcur
    have hok := h.threads t
    rw [hrun] at hok
    have hexit : (k.threads t).threadExitState ≠ .exiting := by simp [hok.exit]
    have hstate : (k.threads t).state = .running := hok.state
    obtain ⟨sc, hsc⟩ := Option.ne_none_iff_exists'.mp (hok.sc (by simp))
    simp only [rrSched, hcur, if_neg hexit, hstate, ne_eq, reduceCtorEq,
      not_false_eq_true, if_true, hsc, derefPtr_some, ok_bind]
    by_cases hstay : k.budget sc ≠ 0 ∧ ((k.threads t).affinity = cpu ∨ (k.threads t).affinity = -1)
    · obtain ⟨th, heq, hth, hcore⟩ := switchToThread_eq cpu (hok.not_ready (by simp)) h.not_exited
      exact ⟨_, place, by rw [if_pos hstay, heq], h.stay hcur hth hcore⟩
    rw [if_neg hstay]
    cases t with
    | idle c =>
      obtain rfl : c = cpu := by simpa [hrun, eq_comm] using h.ids.idle c
      obtain ⟨k', u, henq, hnext, hres⟩ := h.preempt_idle hrun (update k.budget sc defaultBudget)
      refine ⟨k', _, ?_, hres⟩
      simpa [henq, rrSchedRefillBudget, hsc] using hnext
    | obj n =>
      obtain ⟨c, k', u, henq, -, hnext, hres⟩ := h.preempt hcur (update k.budget sc defaultBudget)
      refine ⟨k', _, ?_, hres⟩
      simpa [henq, rrSchedRefillBudget, pushReady, setThread, hsc] using hnext

end

end ChCore.Kernel
