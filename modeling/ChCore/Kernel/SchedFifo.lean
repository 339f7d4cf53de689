import ChCore.Kernel.SchedRuns

/-!
# Ready queues are used within bounds and served in order

The scheduler's functions in `SchedModel` keep a list of what they do to the
ready queues: which threads `rr_sched_enqueue` puts on which queue, and which
threads `rr_sched_choose_thread` takes.

The threads that were put on a queue, in their order, are the threads that were
taken from it, in their order, and then those that are on it (`Fifo`). Every
call keeps this (`schedStep_fifo`), and so every run does.

## Main results

* `affinities_index_ready_queues`: no access outside of the queues
* `ready_queues_fifo`: every run serves the queues in order
* `dequeue_leaves_queue_iff`: when a dequeue counts the right queue
-/

namespace ChCore.Kernel

open Lib.Runs Function List SchedState

/-! ## Affinities stay within the ready queues -/

/-- `rr_sched_enqueue` of any thread on any CPU refuses the thread, leaves the
queues as they are, or appends to one of the four queues. -/
def EnqueuesInBounds (k : SchedState) : Prop := ∀ (cpu : Cpu) (t : ThreadId), ∃ k' ret,
    rrSchedEnqueue k cpu (some t) = .ok (k', ret) ∧ (k' = k ∨ ∃ c : Cpu, k' = k.pushReady t c)

variable {place : ThreadId → Place}

lemma Placed.enqueuesInBounds {k : SchedState} {sw : Option Cpu} (h : Placed k sw place) :
    EnqueuesInBounds k := by
  intro cpu t
  obtain ⟨c, hindex⟩ := queueIndex_targetCpu cpu (h.threads t).affinity
  rw [targetCpu] at hindex
  simp only [rrSchedEnqueue, hindex]
  split_ifs
  · exact ⟨k, _, rfl, .inl rfl⟩
  · exact ⟨k, _, rfl, .inl rfl⟩
  · exact ⟨k, _, rfl, .inl rfl⟩
  · exact ⟨k.pushReady t c, 0, rfl, .inr ⟨c, rfl⟩⟩

/-- **No access outside of `rr_ready_queue_meta`** as long as every affinity
that is set is at least `NO_AFF`: no call of the run stops, and in the state
after it any thread can be enqueued. -/
theorem affinities_index_ready_queues (ops : List SchedOp)
    (hops : Admissible schedStep SchedEnabled schedBoot ops) :
    ∃ sys, run schedStep schedBoot ops = .ok sys ∧ EnqueuesInBounds sys.k := by
  obtain ⟨sys, hrun, place, hplaced, -⟩ := run_schedInv ops hops
  exact ⟨sys, hrun, hplaced.enqueuesInBounds⟩

theorem affinities_index_ready_queues_moved : ∃ sys,
    run schedStep schedBoot moveThread = .ok sys ∧ EnqueuesInBounds sys.k :=
  affinities_index_ready_queues moveThread (by decide +kernel)

/-- A thread gives itself the affinity `-2`, and the next `rr_sched` on its CPU
uses that as an index. -/
theorem negative_affinity_out_of_bounds :
    run schedStep schedBoot [.createRoot 0 ⟨0, 0, 0, .user, 1⟩ 0, .sched 0,
      .setAffinity 0 none (-2), .yield 0] = .error .outOfBounds := by
  decide +kernel

/-! ## Events of the ready queues -/

/-- The threads that were put on the queue of `c`, in their order. -/
def enqueuedOn (c : Cpu) (es : List QueueEvent) : List ThreadId := es.filterMap fun
    | .enqueued cpu t => if cpu = c then some t else none
    | .chosen _ _ _ => none

/-- The threads other than its idle thread that were chosen on `c`. -/
def chosenOn (c : Cpu) (es : List QueueEvent) : List ThreadId := es.filterMap fun
    | .enqueued _ _ => none
    | .chosen cpu _ t => if cpu = c ∧ t ≠ .idle c then some t else none

/-- The threads that were put on a queue are, in their order, those that were
taken from it and then those that are on it, and the idle thread is chosen
exactly when the queue is empty. -/
structure Fifo (k : SchedState) : Prop where
  order : ∀ c, enqueuedOn c k.events = chosenOn c k.events ++ (k.queues c).queueHead
  idle : ∀ c queue t, .chosen c queue t ∈ k.events → (t = .idle c ↔ queue = [])

/-- What the order of service needs of the queues. -/
structure Orderly (queues : Cpu → QueueMeta) : Prop where
  len : ∀ c, (queues c).queueLen = (queues c).queueHead.length
  apart : ∀ c d t, t ∈ (queues c).queueHead → t ∈ (queues d).queueHead → c = d
  idle : ∀ c d, .idle c ∉ (queues d).queueHead

lemma Placed.orderly {k : SchedState} {sw : Option Cpu}
    (h : Placed k sw place) : Orderly k.queues := by
  have hmem : ∀ t c, t ∈ (k.queues c).queueHead ↔ place t = .ready c :=
    fun t c => (h.queues c).1.mem_iff t
  refine ⟨fun c => (h.queues c).2, fun c d t hc hd => ?_, fun c d hd => ?_⟩
  · have hplace := (hmem t d).1 hd
    rw [(hmem t c).1 hc] at hplace
    exact Place.ready.inj hplace
  · have hplace := (hmem _ d).1 hd
    simpa [hplace] using h.ids.idle c

section

variable {k k' : SchedState} {place : ThreadId → Place} {cpu : Cpu}
  {t : ThreadId} {r : Int}

lemma Fifo.congr (h : Fifo k) (hqueues : k'.queues = k.queues) (hevents : k'.events = k.events) :
    Fifo k' :=
  ⟨by rw [hqueues, hevents]; exact h.order, by rw [hevents]; exact h.idle⟩

lemma Fifo.pushReady (h : Fifo k) (t : ThreadId) (c : Cpu) : Fifo (k.pushReady t c) := by
  refine ⟨fun d => ?_, fun d queue u hmem => h.idle d queue u ?_⟩
  swap
  · simpa [SchedState.pushReady] using hmem
  have horder := h.order d
  unfold enqueuedOn chosenOn at *
  by_cases hd : c = d
  · subst hd
    simp [SchedState.pushReady, filterMap_append, horder]
  · simp [SchedState.pushReady, filterMap_append, horder, hd, Ne.symm hd]

lemma rrSchedEnqueue_fifo (hrun : rrSchedEnqueue k cpu (some t) = .ok (k', r)) (h : Fifo k) :
    Fifo k' := by
  simp only [rrSchedEnqueue] at hrun
  -- a ready thread, an idle thread, and one whose affinity is refused
  split at hrun
  · cases hrun
    exact h
  split at hrun
  · cases hrun
    exact h
  split at hrun
  · cases hrun
    exact h
  obtain ⟨c, -, hres⟩ := bind_eq_ok.1 hrun
  cases hres
  exact h.pushReady t c

lemma switchToThread_queues (hrun : switchToThread k cpu t = .ok (k', r)) :
    k'.queues = k.queues ∧ k'.events = k.events := by
  unfold switchToThread at hrun
  dsimp only at hrun
  split_ifs at hrun <;> cases hrun <;> exact ⟨rfl, rfl⟩

lemma rrSchedDequeue_zero (h : (rrSchedDequeue k cpu (some t)).2 = 0) :
    (rrSchedDequeue k cpu (some t)).1 = k.popReady t cpu := by
  unfold rrSchedDequeue at h ⊢
  dsimp only at h ⊢
  split_ifs at h ⊢ <;> first | rfl | cases h

/-- What `rr_sched_choose_thread` takes from the queues. -/
lemma chooseThread_queues (hq : Orderly k.queues) (hrun : rrSchedChooseThread k cpu = .ok (k', t)) :
    k'.events = k.events ∧ (t = .idle cpu ↔ (k.queues cpu).queueHead = []) ∧
    ∀ c, (k.queues c).queueHead =
      (if cpu = c ∧ t ≠ .idle c then [t] else []) ++ (k'.queues c).queueHead := by
  unfold rrSchedChooseThread at hrun
  split_ifs at hrun with hlen
  · cases hrun
    rw [hq.len, length_eq_zero_iff] at hlen
    refine ⟨rfl, by simp [hlen], fun c => ?_⟩
    rw [if_neg (by rintro ⟨rfl, hne⟩; exact hne rfl), nil_append]
  cases hl : (k.queues cpu).queueHead with
  | nil => simp [hl] at hrun
  | cons u l =>
    have hne : u ≠ .idle cpu := by
      rintro rfl
      exact hq.idle cpu cpu (by simp [hl])
    simp only [hl] at hrun
    split_ifs at hrun with hret
    cases hrun
    rw [rrSchedDequeue_zero (not_not.1 hret)]
    refine ⟨rfl, by simp [hne], fun c => ?_⟩
    by_cases hc : cpu = c
    · subst hc
      simp [hne, hl, popReady, unlinkReady]
    have hnot : t ∉ (k.queues c).queueHead := fun hmem =>
      hc (hq.apart cpu c t (by simp [hl]) hmem)
    simp [hc, Ne.symm hc, popReady, unlinkReady, erase_of_not_mem hnot]

lemma rrSchedNext_fifo (hrun : rrSchedNext k cpu = .ok (k', r)) (hq : Orderly k.queues)
    (h : Fifo k) : Fifo k' := by
  obtain ⟨⟨k1, t⟩, hchoose, hrest⟩ := bind_eq_ok.1 hrun
  obtain ⟨⟨k2, _⟩, hswitch, hret⟩ := bind_eq_ok.1 hrest
  cases hret
  obtain ⟨hevents, hidle, hqueues⟩ := chooseThread_queues hq hchoose
  obtain ⟨hqueues2, hevents2⟩ := switchToThread_queues hswitch
  refine ⟨fun c => ?_, fun c queue u hmem => ?_⟩
  · have horder := h.order c
    rw [hqueues c] at horder
    dsimp only
    unfold enqueuedOn chosenOn at *
    rw [hqueues2, hevents2, hevents, filterMap_append, filterMap_append, horder, append_assoc]
    by_cases hc : cpu = c ∧ t ≠ .idle c <;> simp [hc]
  · rw [hevents2, hevents] at hmem
    rcases mem_append.1 hmem with hold | hnew
    · exact h.idle c queue u hold
    cases mem_singleton.1 hnew
    exact hidle

/-- The current thread waits or exits. -/
lemma rrSched_fifo_next (hrun : rrSched k cpu = .ok (k', r)) (hq : Orderly k.queues)
    (ht : k.current cpu = some t)
    (h : (k.threads t).threadExitState = .exiting ∨ (k.threads t).state = .waiting) (hf : Fifo k) :
    Fifo k' := by
  rw [rrSched_eq_next ht h] at hrun
  exact rrSchedNext_fifo hrun hq hf

/-- `rr_sched` serves the queues in order. -/
lemma rrSched_fifo (hrun : rrSched k cpu = .ok (k', r)) (h : Placed k none place) (hf : Fifo k) :
    Fifo k' := by
  cases hcur : k.current cpu with
  | none =>
    simp only [rrSched, hcur] at hrun
    exact rrSchedNext_fifo hrun h.orderly hf
  | some t =>
    have hplace := h.running_of_current hcur
    have hok := h.threads t
    rw [hplace] at hok
    have hexit : (k.threads t).threadExitState ≠ .exiting := by simp [hok.exit]
    have hstate : (k.threads t).state = .running := hok.state
    simp only [rrSched, hcur, if_neg hexit, hstate, ne_eq, reduceCtorEq,
      not_false_eq_true, if_true] at hrun
    obtain ⟨sc, hsc, hrun⟩ := bind_eq_ok.1 hrun
    split_ifs at hrun with hstay
    · obtain ⟨hqueues, hevents⟩ := switchToThread_queues hrun
      exact hf.congr hqueues hevents
    obtain ⟨⟨k1, ret⟩, henq, hrun⟩ := bind_eq_ok.1 hrun
    have hf1 := rrSchedEnqueue_fifo henq hf
    dsimp only at hrun
    split_ifs at hrun with hret
    obtain ⟨k2, hrefill, hnext⟩ := bind_eq_ok.1 hrun
    obtain ⟨sc', -, hk2⟩ := bind_eq_ok.1 hrefill
    cases hk2
    refine rrSchedNext_fifo hnext ?_ (hf1.congr rfl rfl)
    show Orderly k1.queues
    cases t with
    | idle c =>
      have htype : (k.threads (.idle c)).type = .idle := by simp [hok.type]
      simp only [rrSchedEnqueue, hstate, reduceCtorEq, if_false,
        if_pos htype, Except.ok.injEq, Prod.mk.injEq] at henq
      exact henq.1 ▸ h.orderly
    | obj n =>
      obtain ⟨c, _, _, heq, hplaced, -⟩ := h.preempt hcur k.budget
      rw [heq] at henq
      cases henq
      exact hplaced.orderly

end

/-- **Every call serves the queues in order.** -/
theorem schedStep_fifo {sys sys' : SchedSystem} {op : SchedOp} (hf : Fifo sys.k)
    (h : Placed sys.k none place) (hrun : schedStep sys op = .ok sys') : Fifo sys'.k := by
  cases op with
  | sched cpu =>
    obtain ⟨⟨k', r⟩, hsched, hret⟩ := bind_eq_ok.1 hrun
    cases hret
    exact rrSched_fifo hsched h hf
  | timer cpu =>
    obtain ⟨⟨k', r⟩, hsched, hret⟩ := bind_eq_ok.1 hrun
    cases hret
    obtain ⟨budget, hbudget⟩ := schedHandleTimerIrq_eq sys.k cpu
    rw [handleTimerIrq, hbudget] at hsched
    exact rrSched_fifo hsched (h.setBudget budget) (hf.congr rfl rfl)
  | yield cpu =>
    obtain ⟨⟨k', r⟩, hyield, hret⟩ := bind_eq_ok.1 hrun
    cases hret
    obtain ⟨t, ht, hyield⟩ := bind_eq_ok.1 hyield
    obtain ⟨sc, hsc, hsched⟩ := bind_eq_ok.1 hyield
    exact rrSched_fifo hsched (h.setBudget _) (hf.congr rfl rfl)
  | exit cpu =>
    obtain ⟨⟨k', r⟩, hexit, hret⟩ := bind_eq_ok.1 hrun
    cases hret
    cases ht : sys.k.current cpu with
    | none => simp [sysThreadExit, ht, derefPtr] at hexit
    | some t =>
      simp only [sysThreadExit, ht, derefPtr_some, ok_bind] at hexit
      exact rrSched_fifo_next hexit h.orderly ht (.inl (by simp [setThread])) (hf.congr rfl rfl)
  | createRoot cpu args aff =>
    obtain ⟨k', hcreate, hret⟩ := bind_eq_ok.1 hrun
    cases hret
    obtain ⟨⟨k1, ret⟩, henq, hret⟩ := bind_eq_ok.1 hcreate
    dsimp only at hret
    split_ifs at hret
    cases hret
    exact rrSchedEnqueue_fifo henq (hf.congr rfl rfl)
  | create cpu args =>
    obtain ⟨k', hcreate, hret⟩ := bind_eq_ok.1 hrun
    cases hret
    simp only [createThread] at hcreate
    split_ifs at hcreate with huser hshadow
    · obtain ⟨⟨k1, ret⟩, henq, hret⟩ := bind_eq_ok.1 hcreate
      dsimp only at hret
      split_ifs at hret
      cases hret
      exact rrSchedEnqueue_fifo henq (hf.congr rfl rfl)
    · cases hcreate
      exact hf.congr rfl rfl
    · cases hcreate
      exact hf.congr rfl rfl
  | setAffinity cpu n aff =>
    cases hrun
    unfold sysSetAffinity
    split
    · exact hf
    · cases affinityThread sys.k cpu n <;> exact hf.congr rfl rfl
  | wait cpu s isBlock =>
    obtain ⟨t, ht, hrun⟩ := bind_eq_ok.1 hrun
    obtain ⟨⟨k', r⟩, hwait, hret⟩ := bind_eq_ok.1 hrun
    cases hret
    simp only [waitSem] at hwait
    split_ifs at hwait with hcount hblock
    · cases hwait
      exact hf.congr rfl rfl
    · cases hwait
      exact hf
    simp only [ht, ok_bind] at hwait
    obtain ⟨⟨k1, ret⟩, hsched, hret⟩ := bind_eq_ok.1 hwait
    cases hret
    have hcur : sys.k.current cpu = some t := by
      cases hcur : sys.k.current cpu with
      | none => simp [hcur, derefPtr] at ht
      | some u => simpa [hcur] using ht
    exact rrSched_fifo_next hsched h.orderly hcur (.inr (by simp [setThread, setSem]))
      (hf.congr rfl rfl)
  | signal cpu s =>
    obtain ⟨⟨k', r⟩, hsignal, hret⟩ := bind_eq_ok.1 hrun
    cases hret
    simp only [signalSem] at hsignal
    split_ifs at hsignal with hcount
    · cases hsignal
      exact hf.congr rfl rfl
    cases hl : (sys.k.sems s).waitingThreads with
    | nil => simp [hl] at hsignal
    | cons t rest =>
      rw [hl] at hsignal
      obtain ⟨⟨k1, ret⟩, henq, hret⟩ := bind_eq_ok.1 hsignal
      cases hret
      exact rrSchedEnqueue_fifo henq (hf.congr rfl rfl)

/-- **The ready queues are first-in first-out.** On every run, the threads that
were put on the queue of a CPU are, in their order, the threads that
`rr_sched_choose_thread` has returned there and then those that are on the queue;
it has returned the idle thread exactly when the queue was empty. -/
theorem ready_queues_fifo (ops : List SchedOp)
    (hops : Admissible schedStep SchedEnabled schedBoot ops) :
    ∃ sys, run schedStep schedBoot ops = .ok sys ∧
      (∀ c, enqueuedOn c sys.k.events = chosenOn c sys.k.events ++ (sys.k.queues c).queueHead) ∧
      ∀ c queue t, .chosen c queue t ∈ sys.k.events → (t = .idle c ↔ queue = []) := by
  have hstep : ∀ sys op, SchedInv sys ∧ Fifo sys.k → SchedEnabled sys op →
      ∃ sys', schedStep sys op = .ok sys' ∧ SchedInv sys' ∧ Fifo sys'.k := by
    rintro sys op ⟨hinv, hf⟩ hen
    obtain ⟨sys', heq, hinv', -⟩ := hinv.step hen
    obtain ⟨place, hplaced, -⟩ := hinv
    exact ⟨sys', heq, hinv', schedStep_fifo hf hplaced heq⟩
  have hboot : Fifo schedBoot.k := ⟨fun c => rfl, fun _ _ _ hmem => nomatch hmem⟩
  obtain ⟨sys, hrun, -, hf⟩ := run_total hstep ops schedBoot ⟨SchedInv.boot, hboot⟩ hops
  exact ⟨sys, hrun, hf.order, hf.idle⟩

theorem ready_queues_fifo_moved : ∃ sys, run schedStep schedBoot moveThread = .ok sys ∧
      (∀ c, enqueuedOn c sys.k.events = chosenOn c sys.k.events ++ (sys.k.queues c).queueHead) ∧
      ∀ c queue t, .chosen c queue t ∈ sys.k.events → (t = .idle c ↔ queue = []) :=
  ready_queues_fifo moveThread (by decide +kernel)

/-! ## One dequeue -/

/-- The thread leaves the queue of the CPU `q`, which gets shorter by one, and
the other queues stay as they are. -/
def LeavesQueue (k k' : SchedState) (t : ThreadId) (q : Cpu) : Prop :=
  k'.queues = update k.queues q
    ⟨(k.queues q).queueHead.erase t, u32Pred (k.queues q).queueLen⟩

lemma unlinkReady_eq {queues : Cpu → QueueMeta} {t : ThreadId} {q : Cpu}
    (hq : ∀ c, t ∈ (queues c).queueHead ↔ c = q) : unlinkReady queues t = update queues q
    { queues q with queueHead := (queues q).queueHead.erase t } := by
  funext c
  by_cases hc : c = q
  · rw [hc, update_self, unlinkReady]
  · rw [update_of_ne hc, unlinkReady, erase_of_not_mem fun hmem => hc ((hq c).1 hmem)]

/-- **A dequeue.** It takes the thread from its queue and counts that queue down
if and only if it runs on the CPU of that queue. -/
theorem dequeue_leaves_queue_iff (k k' : SchedState) (cpu q : Cpu) (t : ThreadId)
    (hq : ∀ c, t ∈ (k.queues c).queueHead ↔ c = q) (hlen : ∀ c, (k.queues c).queueLen < 2 ^ 32)
    (hrun : rrSchedDequeue k cpu (some t) = (k', 0)) : LeavesQueue k k' t q ↔ cpu = q := by
  have hqueues : k'.queues = update (unlinkReady k.queues t) cpu
      { unlinkReady k.queues t cpu with queueLen := u32Pred (k.queues cpu).queueLen } := by
    rw [rrSchedDequeue] at hrun
    split_ifs at hrun
    iterate 3 exact absurd (congrArg Prod.snd hrun) (show -einval ≠ 0 by decide)
    exact congrArg (·.1.queues) hrun.symm
  unfold LeavesQueue
  rw [hqueues, unlinkReady_eq hq]
  constructor
  · intro heq
    by_contra hne
    have hcount := congrArg QueueMeta.queueLen (congrFun heq cpu)
    simp only [update_self, update_of_ne hne, u32Pred, u32] at hcount
    have hlt := hlen cpu
    omega
  · rintro rfl
    rw [update_idem, update_self]

/-- A thread waits in the queue of CPU 0. -/
def readyOnZero : SchedState :=
  { rrSchedInit.setThread (.obj 0) { state := .ready } with
    queues := update rrSchedInit.queues 0 ⟨[.obj 0], 1⟩ }

theorem dequeue_leaves_queue_own : LeavesQueue readyOnZero
    (rrSchedDequeue readyOnZero 0 (some (.obj 0))).1 (.obj 0) 0 :=
  (dequeue_leaves_queue_iff _ _ 0 0 _ (by decide) (by decide) rfl).2 rfl

/-- CPU 1 takes the thread out: the queue of CPU 0 is empty with a length of 1,
and the length of its own queue wraps. -/
theorem dequeue_counts_other_queue : ∃ k', rrSchedDequeue readyOnZero 1 (some (.obj 0)) = (k', 0) ∧
    k'.queues 0 = ⟨[], 1⟩ ∧ k'.queues 1 = ⟨[], 2 ^ 32 - 1⟩ ∧
    ¬ LeavesQueue readyOnZero k' (.obj 0) 0 := by
  refine ⟨_, rfl, by decide, by decide, fun hlaw => ?_⟩
  exact absurd (congrFun hlaw 0) (by decide)

end ChCore.Kernel
