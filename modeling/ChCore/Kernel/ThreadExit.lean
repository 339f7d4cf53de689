import Mathlib
import ChCore.Kernel.IpcPairing

/-!
# Exiting threads

`sys_thread_exit` sets the exit state of the thread to `TE_EXITING`, and `rr_sched`
is meant to set it to `TE_EXITED` and the state of the thread to `TS_EXIT`. The
two lines there are comparisons, so that no thread ever reaches `TE_EXITED`.
What holds is that an exited thread is on no ready queue and on no CPU again.

## Main results

* `exit_law_iff`: the law of exits holds in runs without an exit only
* `exited_threads_never_run`: what holds of exited threads in every run
-/

namespace ChCore.Kernel

open Lib.Runs Function

/-- The check with which `thread_deinit` starts. -/
def threadDeinit (th : Thread) : Exec Unit :=
  if th.threadExitState ≠ .exited then .error .bug else .ok ()

/-- **The law of exits.** -/
def ExitLaw (s : IpcSystem) : Prop := ∀ t, .exited t ∈ s.log → (s.st.k.threads t).state = .exit ∧
    (s.st.k.threads t).threadExitState = .exited ∧
    (∀ cpu, t ∉ (s.st.k.queues cpu).queueHead) ∧
    (∀ cpu, s.st.k.current cpu ≠ some t) ∧
    threadDeinit (s.st.k.threads t) = .ok ()

/-! ## No thread reaches `TE_EXITED` -/

def NeverExited (threads : ThreadId → Thread) : Prop := ∀ t, (threads t).threadExitState ≠ .exited

variable {α : Type}

lemma satisfies_ok {p : α → Prop} {a : α} (h : p a) :
    SatisfiesM p (.ok a : Exec α) := SatisfiesM.pure h

lemma satisfies_error {p : α → Prop} (e : Fault) : SatisfiesM p (.error e : Exec α) :=
  SatisfiesM_Except_eq.mpr fun _ h => nomatch h

lemma satisfies_any (x : Exec α) : SatisfiesM (fun _ => True) x :=
  SatisfiesM_Except_eq.mpr fun _ _ => trivial

lemma NeverExited.update {threads : ThreadId → Thread}
    (h : NeverExited threads) (t : ThreadId) {th : Thread} (hth : th.threadExitState ≠ .exited) :
    NeverExited (update threads t th) := by
  intro u
  by_cases hu : u = t
  · subst hu
    simpa using hth
  · simpa [hu] using h u

section

variable {k : SchedState} (h : NeverExited k.threads) (cpu : Cpu)

include h

lemma rrSchedEnqueue_neverExited (thread : Option ThreadId) :
    SatisfiesM (fun r => NeverExited r.1.threads) (rrSchedEnqueue k cpu thread) := by
  unfold rrSchedEnqueue
  cases thread with
  | none => exact satisfies_ok h
  | some t =>
    dsimp only
    split
    · exact satisfies_ok h
    split
    · exact satisfies_ok h
    split
    · exact satisfies_ok h
    exact (satisfies_any _).bind fun c _ => satisfies_ok (h.update t (h t))

lemma rrSchedDequeue_neverExited (thread : Option ThreadId) :
    NeverExited (rrSchedDequeue k cpu thread).1.threads := by
  unfold rrSchedDequeue
  cases thread with
  | none => exact h
  | some t =>
    dsimp only
    split
    · exact h
    split
    · exact h
    split
    · exact h
    exact h.update t (h t)

lemma rrSchedChooseThread_neverExited : SatisfiesM (fun r => NeverExited r.1.threads)
    (rrSchedChooseThread k cpu) := by
  unfold rrSchedChooseThread
  split
  · exact satisfies_ok h
  split
  · exact satisfies_error _
  rename_i t _ _
  dsimp only
  split
  · exact satisfies_error _
  · exact satisfies_ok (rrSchedDequeue_neverExited h cpu (some t))

lemma switchToThread_neverExited (t : ThreadId) :
    SatisfiesM (fun r => NeverExited r.1.threads) (switchToThread k cpu t) := by
  unfold switchToThread
  dsimp only
  split
  · exact satisfies_error _
  split
  · exact satisfies_error _
  split
  · exact satisfies_ok (h.update t (h t))
  · exact satisfies_ok (h.update t (h t))

lemma rrSchedNext_neverExited :
    SatisfiesM (fun r => NeverExited r.1.threads) (rrSchedNext k cpu) := by
  unfold rrSchedNext
  refine (rrSchedChooseThread_neverExited h cpu).bind fun r hr => ?_
  refine (switchToThread_neverExited hr cpu r.2).bind fun r' hr' => ?_
  exact satisfies_ok hr'

lemma rrSched_neverExited : SatisfiesM (fun r => NeverExited r.1.threads) (rrSched k cpu) := by
  unfold rrSched
  split
  · exact rrSchedNext_neverExited h cpu
  rename_i t _
  dsimp only
  split
  · exact rrSchedNext_neverExited h cpu
  split
  · refine (satisfies_any _).bind fun sc _ => ?_
    split
    · exact switchToThread_neverExited h cpu t
    refine (rrSchedEnqueue_neverExited h cpu _).bind fun r hr => ?_
    split
    · exact satisfies_error _
    unfold rrSchedRefillBudget
    refine SatisfiesM.bind (p := fun k => NeverExited k.threads)
      ((satisfies_any _).bind fun sc _ => satisfies_ok hr) ?_
    exact fun k' hk' => rrSchedNext_neverExited hk' cpu
  · exact rrSchedNext_neverExited h cpu

lemma handleTimerIrq_neverExited :
    SatisfiesM (fun r => NeverExited r.1.threads) (handleTimerIrq k cpu) := by
  have htick : (schedHandleTimerIrq k cpu).threads = k.threads := by
    unfold schedHandleTimerIrq
    split
    · rfl
    split
    · rfl
    · split <;> rfl
  exact rrSched_neverExited (htick ▸ h) cpu

lemma sysYield_neverExited : SatisfiesM (fun r => NeverExited r.1.threads) (sysYield k cpu) := by
  unfold sysYield
  refine (satisfies_any _).bind fun t _ => ?_
  refine (satisfies_any _).bind fun sc _ => ?_
  apply rrSched_neverExited
  exact h

lemma sysThreadExit_neverExited :
    SatisfiesM (fun r => NeverExited r.1.threads) (sysThreadExit k cpu) := by
  unfold sysThreadExit
  refine (satisfies_any _).bind fun t _ => ?_
  apply rrSched_neverExited
  exact h.update t (by simp)

lemma waitSem_neverExited (s : Nat) (isBlock : Bool) :
    SatisfiesM (fun r => NeverExited r.1.threads) (waitSem k cpu s isBlock) := by
  unfold waitSem
  dsimp only
  split
  · exact satisfies_ok h
  split
  · exact satisfies_ok h
  refine (satisfies_any _).bind fun t _ => ?_
  refine SatisfiesM.bind (rrSched_neverExited ?_ cpu) fun r hr => satisfies_ok hr
  exact h.update t (h t)

lemma signalSem_neverExited (s : Nat) :
    SatisfiesM (fun r => NeverExited r.1.threads) (signalSem k cpu s) := by
  unfold signalSem
  dsimp only
  split
  · exact satisfies_ok h
  split
  · exact satisfies_error _
  refine SatisfiesM.bind (rrSchedEnqueue_neverExited ?_ cpu _) fun r hr => satisfies_ok hr
  exact h

lemma createRootThread_neverExited (args : ThreadArgs) (aff : Int) :
    SatisfiesM (fun r => NeverExited r.threads) (createRootThread k cpu args aff) := by
  unfold createRootThread
  have hnew : NeverExited (threadInit k args aff).1.threads := h.update _ (by simp)
  refine SatisfiesM.bind (rrSchedEnqueue_neverExited hnew cpu _) fun r hr => ?_
  dsimp only
  split
  · exact satisfies_error _
  · exact satisfies_ok hr

lemma createThread_neverExited (args : ThreadArgs) :
    SatisfiesM (fun r => NeverExited r.threads) (createThread k cpu args) := by
  unfold createThread
  have hnew : NeverExited (threadInit k args noAff).1.threads := h.update _ (by simp)
  dsimp only
  split
  · refine SatisfiesM.bind (rrSchedEnqueue_neverExited ?_ cpu _) fun r hr => ?_
    · exact hnew.update _ (hnew _)
    split
    · exact satisfies_error _
    · exact satisfies_ok hr
  split
  · exact satisfies_ok (hnew.update _ (hnew _))
  · exact satisfies_ok (hnew.update _ (hnew _))

lemma sysSetAffinity_neverExited (thread : Option ThreadId) (aff : Int) :
    NeverExited (sysSetAffinity k thread aff).1.threads := by
  unfold sysSetAffinity
  split
  · exact h
  split
  · exact h
  · exact h.update _ (h _)

end

lemma schedStep_neverExited {sys : SchedSystem} (h : NeverExited sys.k.threads) (op : SchedOp) :
    SatisfiesM (fun sys' => NeverExited sys'.k.threads) (schedStep sys op) := by
  cases op with
  | sched cpu => exact (rrSched_neverExited h cpu).bind fun r hr => satisfies_ok hr
  | timer cpu => exact (handleTimerIrq_neverExited h cpu).bind fun r hr => satisfies_ok hr
  | yield cpu => exact (sysYield_neverExited h cpu).bind fun r hr => satisfies_ok hr
  | exit cpu => exact (sysThreadExit_neverExited h cpu).bind fun r hr => satisfies_ok hr
  | createRoot cpu args aff =>
    exact (createRootThread_neverExited h cpu args aff).bind fun r hr =>
      satisfies_ok hr
  | create cpu args =>
    exact (createThread_neverExited h cpu args).bind fun r hr =>
      satisfies_ok hr
  | setAffinity cpu n aff => exact satisfies_ok (sysSetAffinity_neverExited h _ aff)
  | wait cpu s isBlock =>
    refine (satisfies_any _).bind fun t _ => ?_
    exact (waitSem_neverExited h cpu s isBlock).bind fun r hr =>
      satisfies_ok hr
  | signal cpu s => exact (signalSem_neverExited h cpu s).bind fun r hr => satisfies_ok hr

/-! ## Calls and returns -/

section

variable {st : IpcState} (h : NeverExited st.k.threads) (cpu : Cpu)

include h

lemma threadMigrateToServer_neverExited (c arg : Nat) :
    SatisfiesM (fun r => NeverExited r.k.threads) (threadMigrateToServer st cpu c arg) := by
  unfold threadMigrateToServer
  refine (satisfies_any _).bind fun t _ => ?_
  have hcaller : NeverExited (update st.k.threads t
      { st.k.threads t with state := .waiting }) := h.update t (h t)
  refine SatisfiesM.bind (switchToThread_neverExited ?_ cpu _) fun r hr => satisfies_ok hr
  exact hcaller.update _ (hcaller _)

lemma sysIpcCall_neverExited (conn : Option Nat) (ipcMsg capNum : Nat) (slots : Option Nat) :
    SatisfiesM (fun r => NeverExited r.1.k.threads)
    (sysIpcCall st cpu conn ipcMsg capNum slots) := by
  unfold sysIpcCall
  split
  · exact satisfies_ok h
  dsimp only
  split
  · refine (satisfies_any _).bind fun _ _ => ?_
    refine SatisfiesM.bind (threadMigrateToServer_neverExited ?_ cpu _ _)
      fun r hr => satisfies_ok hr
    exact h
  · refine SatisfiesM.bind (threadMigrateToServer_neverExited ?_ cpu _ _)
      fun r hr => satisfies_ok hr
    exact h

lemma threadMigrateToClient_neverExited (conn : Connection) (ret : Nat) :
    SatisfiesM (fun r => NeverExited r.k.threads) (threadMigrateToClient st cpu conn ret) := by
  unfold threadMigrateToClient
  refine (satisfies_any _).bind fun t _ => ?_
  refine (satisfies_any _).bind fun source _ => ?_
  have hserver : NeverExited (update st.k.threads t
      { st.k.threads t with activeConn := none }) := h.update t (h t)
  refine SatisfiesM.bind (switchToThread_neverExited ?_ cpu _) fun r hr => satisfies_ok hr
  exact hserver.update _ (hserver _)

lemma sysIpcReturn_neverExited (ret capNum : Nat) (slots : Option Nat) :
    SatisfiesM (fun r => NeverExited r.k.threads) (sysIpcReturn st cpu ret capNum slots) := by
  unfold sysIpcReturn
  refine (satisfies_any _).bind fun t _ => ?_
  split
  · exact satisfies_ok h
  dsimp only
  split
  · refine (satisfies_any _).bind fun _ _ => ?_
    refine (satisfies_any _).bind fun source _ => ?_
    refine (satisfies_any _).bind fun sc _ => ?_
    apply threadMigrateToClient_neverExited
    exact h.update source (h source)
  · refine (satisfies_any _).bind fun source _ => ?_
    refine (satisfies_any _).bind fun sc _ => ?_
    apply threadMigrateToClient_neverExited
    exact h.update source (h source)

end

variable {s : IpcSystem}

lemma ipcStep_neverExited (h : NeverExited s.st.k.threads) (op : IpcOp) :
    SatisfiesM (fun s' => NeverExited s'.st.k.threads) (ipcStep s op) := by
  cases op with
  | sched op =>
    exact (@schedStep_neverExited ⟨s.st.k, []⟩ h op).bind fun r hr =>
      satisfies_ok hr
  | register cpu server args => exact satisfies_ok (h.update _ (by simp))
  | call cpu c msg capNum slots =>
    refine (satisfies_any _).bind fun t _ => ?_
    exact (sysIpcCall_neverExited h cpu _ msg capNum slots).bind fun r hr =>
      satisfies_ok hr
  | ret cpu v capNum slots =>
    refine (satisfies_any _).bind fun t _ => ?_
    refine (sysIpcReturn_neverExited h cpu v capNum slots).bind fun r hr => ?_
    split
    · exact satisfies_ok hr
    · exact (satisfies_any _).bind fun _ _ => satisfies_ok hr

lemma run_neverExited (ops : List IpcOp) : ∀ s s' : IpcSystem,
    NeverExited s.st.k.threads → run ipcStep s ops = .ok s' → NeverExited s'.st.k.threads := by
  have hstep : ∀ (s : IpcSystem) (op : IpcOp) (s' : IpcSystem),
      NeverExited s.st.k.threads → ipcStep s op = .ok s' →
      NeverExited s'.st.k.threads := fun s op s' hinv hok =>
    SatisfiesM_Except_eq.mp (ipcStep_neverExited hinv op) s' hok
  exact run_preserves hstep ops

/-! ## What the log says about exits -/

variable {s' : IpcSystem}

/-- A step logs an exit exactly if it is one. -/
lemma ipcStep_logs_exit {op : IpcOp} (h : ipcStep s op = .ok s') :
    (∃ t, .exited t ∈ s'.log) ↔ op.IsExit ∨ ∃ t, .exited t ∈ s.log := by
  cases op with
  | sched op =>
    simp only [ipcStep, bind_eq_ok, pure_eq_ok, Except.ok.injEq] at h
    obtain ⟨sys, hsys, rfl⟩ := h
    cases op with
    | exit cpu =>
      cases hcur : s.st.k.current cpu with
      | none => simp [schedStep, sysThreadExit, hcur, derefPtr] at hsys
      | some t =>
        simp only [IpcOp.IsExit, true_or, iff_true]
        exact ⟨t, by simp [exitEvents, hcur]⟩
    | _ => simp [exitEvents, IpcOp.IsExit]
  | register cpu server args =>
    simp only [ipcStep, Except.ok.injEq] at h
    subst h
    simp [IpcOp.IsExit]
  | call cpu c msg capNum slots =>
    simp only [ipcStep, bind_eq_ok, pure_eq_ok, Except.ok.injEq] at h
    obtain ⟨t, -, r, -, rfl⟩ := h
    dsimp only
    split <;> simp [IpcOp.IsExit]
  | ret cpu v capNum slots =>
    simp only [ipcStep, bind_eq_ok] at h
    obtain ⟨t, -, st, -, h⟩ := h
    split at h
    · simp only [pure_eq_ok, Except.ok.injEq] at h
      subst h
      simp [IpcOp.IsExit]
    simp only [bind_eq_ok, pure_eq_ok, Except.ok.injEq] at h
    obtain ⟨u, -, rfl⟩ := h
    simp [IpcOp.IsExit]

lemma run_logs_exit (ops : List IpcOp) (hrun : run ipcStep s ops = .ok s') :
    (∃ t, .exited t ∈ s'.log) ↔ (∃ op ∈ ops, op.IsExit) ∨ ∃ t, .exited t ∈ s.log := by
  induction ops generalizing s with
  | nil =>
    simp only [run_nil, Except.ok.injEq] at hrun
    simp [hrun]
  | cons op ops ih =>
    obtain ⟨s1, hstep, hrest⟩ := run_cons_inv hrun
    rw [ih hrest, ipcStep_logs_exit hstep, List.exists_mem_cons_iff, or_assoc, or_left_comm]

/-- **The law of exits holds as long as no thread exits**, in every run. -/
theorem exit_law_iff (ops : List IpcOp) (s : IpcSystem) (hrun : run ipcStep ipcBoot ops = .ok s) :
    ExitLaw s ↔ ∀ op ∈ ops, ¬ op.IsExit := by
  have hnever : NeverExited s.st.k.threads := run_neverExited ops ipcBoot s (fun t => by
      cases t <;> simp [ipcBoot, rrSchedInit]) hrun
  have hlog := run_logs_exit ops hrun
  simp only [ipcBoot, List.not_mem_nil, exists_false, or_false] at hlog
  constructor
  · intro hlaw op hop hexit
    obtain ⟨t, ht⟩ := hlog.mpr ⟨op, hop, hexit⟩
    exact hnever t (hlaw t ht).2.1
  · intro hnone t ht
    obtain ⟨op, hop, hexit⟩ := hlog.mp ⟨t, ht⟩
    exact (hnone op hop hexit).elim

/-- Without an exit, and with one. -/
theorem exit_law_iff_two_clients : (∃ s, run ipcStep ipcBoot twoClients = .ok s ∧ ExitLaw s) ∧
    ∃ s, run ipcStep ipcBoot (twoClients ++ [.sched (.exit 0)]) = .ok s ∧ ¬ ExitLaw s := by
  refine ⟨exists_ok (by decide +kernel) fun s hrun => (exit_law_iff _ s hrun).2 ?_,
    exists_ok (by decide +kernel) fun s hrun hlaw => (exit_law_iff _ s hrun).1 hlaw
      (.sched (.exit 0)) (by simp) trivial⟩
  simp [twoClients, IpcOp.IsExit]

/-- Thread 0 exits, and the scheduler has been entered for it. Its states are
`TS_RUNNING` and `TE_EXITING`, and destroying it halts the kernel. -/
theorem exited_thread_still_exiting : ∃ s,
    run ipcStep ipcBoot (twoClients ++ [.sched (.exit 0)]) = .ok s ∧
    Admissible ipcStep IpcEnabled ipcBoot (twoClients ++ [.sched (.exit 0)]) ∧
    s.log.head? = some (.exited (.obj 0)) ∧
    (s.st.k.threads (.obj 0)).state = .running ∧
    (s.st.k.threads (.obj 0)).threadExitState = .exiting ∧
    threadDeinit (s.st.k.threads (.obj 0)) = .error .bug ∧ ¬ ExitLaw s := by
  refine exists_ok_imp (p := fun s => s.log.head? = some (.exited (.obj 0)) ∧
      (s.st.k.threads (.obj 0)).state = .running ∧
      (s.st.k.threads (.obj 0)).threadExitState = .exiting) (by decide +kernel) ?_
  rintro s - ⟨hlog, hstate, hexit⟩
  refine ⟨by decide +kernel, hlog, hstate, hexit, by simp [threadDeinit, hexit], fun hlaw => ?_⟩
  have hmem : .exited (.obj 0) ∈ s.log := List.mem_of_head? hlog
  simpa [hexit] using (hlaw (.obj 0) hmem).2.1

/-! ## Exited threads do not run again -/

/-- Threads that have exited are gone. -/
def ExitedGone (s : IpcSystem) (place : ThreadId → Place) : Prop :=
  ∀ t, .exited t ∈ s.log → place t = .gone

lemma role_gone_iff {p : Place} : p.role = .gone ↔ p = .gone := by cases p <;> simp [Place.role]

lemma ExitedGone.afterExit {place : ThreadId → Place} (h : ExitedGone s place)
    (hplaced : Placed s.st.k none place) (op : SchedOp) (t : ThreadId)
    (ht : .exited t ∈ exitEvents s.st.k op ++ s.log) :
    placeAfterExit s.st.k place op t = .gone := by
  rcases List.mem_append.mp ht with hnow | hbefore
  · unfold exitEvents at hnow
    split at hnow
    · rename_i cpu
      split at hnow
      · rename_i u hcur
        obtain rfl : t = u := by simpa using hnow
        simp [placeAfterExit, hcur]
      · simp at hnow
    · simp at hnow
  · rcases placeAfterExit_cases hplaced op t with heq | ⟨-, hgone⟩
    · rw [heq, h t hbefore]
    · exact hgone

lemma ExitedGone.step {place place' : ThreadId → Place} {op : IpcOp}
    (h : ExitedGone s place) (hinv : IpcInv s place)
    (heff : IpcEffect s s' place place' op) : ExitedGone s' place' := by
  intro t ht
  cases heff with
  | @sched op frame log =>
    have hgone := h.afterExit hinv.placed op t (log ▸ ht)
    have hexists : s.st.k.Exists t := by
      cases t with
      | idle c => trivial
      | obj n =>
        apply hinv.placed.ids.lt_count
        intro hoff
        rcases placeAfterExit_cases hinv.placed op (.obj n) with heq | ⟨⟨cpu, hrun⟩, -⟩
        · simp [heq, hoff] at hgone
        · simp [hoff] at hrun
    exact role_gone_iff.mp (by rw [frame.role t hexists, hgone]; rfl)
  | registered place_eq log =>
    rw [place_eq]
    exact h t (log ▸ ht)
  | refused place_eq same =>
    rw [place_eq]
    exact h t (same ▸ ht)
  | @called cpu n m c msg capNum slots active idle off place_eq migrates log =>
    have hgone := h t (by simpa [log] using ht)
    have hn : t ≠ .obj n := by
      rintro rfl
      simp [hinv.placed.running_of_current active] at hgone
    have hm : t ≠ .obj m := by
      rintro rfl
      simp [off] at hgone
    simpa [place_eq, hn, hm] using hgone
  | @returned cpu m a c v capNum slots serves active target answers place_eq migrates log =>
    have hgone := h t (by simpa [log] using ht)
    have hm : t ≠ .obj m := by
      rintro rfl
      simp [hinv.placed.running_of_current active] at hgone
    have ha : t ≠ .obj a := by
      rintro rfl
      have hcalling := role_calling_iff.mp ((hinv.conns.calling c (.obj a)).mpr answers)
      simp [hcalling] at hgone
    simpa [place_eq, hm, ha] using hgone

/-- **Threads that have exited are never ready and never run again**, as long as
calls take turns. -/
theorem exited_threads_never_run (ops : List IpcOp)
    (hops : Admissible ipcStep (fun s op => IpcEnabled s op ∧ CallsInTurn s op) ipcBoot ops) :
    ∃ s, run ipcStep ipcBoot ops = .ok s ∧ ∀ t, .exited t ∈ s.log →
    (s.st.k.threads t).threadExitState = .exiting ∧ (∀ cpu, t ∉ (s.st.k.queues cpu).queueHead) ∧
    ∀ cpu, s.st.k.current cpu ≠ some t := by
  have hstep : ∀ s op, (∃ place, IpcInv s place ∧ ExitedGone s place) →
      IpcEnabled s op ∧ CallsInTurn s op →
      ∃ s', ipcStep s op = .ok s' ∧ ∃ place, IpcInv s' place ∧ ExitedGone s' place := by
    intro s op hinv hen
    obtain ⟨place, hinv, hgone⟩ := hinv
    obtain ⟨s', place', heq, hinv', heff⟩ := hinv.step hen.1 hen.2
    exact ⟨s', heq, place', hinv', hgone.step hinv heff⟩
  obtain ⟨s, hrun, place, hinv, hgone⟩ := run_total hstep ops ipcBoot
    ⟨_, IpcInv.boot, fun t ht => by simp [ipcBoot] at ht⟩ hops
  refine ⟨s, hrun, fun t ht => ?_⟩
  have hplace := hgone t ht
  refine ⟨?_, fun cpu hmem => ?_, fun cpu hcur => ?_⟩
  · rw [(hinv.placed.threads t).exit, if_pos hplace]
  · simp [((hinv.placed.queues cpu).1.mem_iff t).mp hmem] at hplace
  · simp [hinv.placed.running_of_current hcur] at hplace

theorem exited_threads_never_run_client : ∃ s,
    run ipcStep ipcBoot (twoClients ++ [.sched (.exit 0)]) = .ok s ∧ .exited (.obj 0) ∈ s.log ∧
      ∀ cpu, s.st.k.current cpu ≠ some (.obj 0) := by
  obtain ⟨s, hrun, hgone⟩ :=
    exited_threads_never_run (twoClients ++ [.sched (.exit 0)]) (by decide +kernel)
  refine exists_ok_imp (p := fun s => .exited (.obj 0) ∈ s.log) (by decide +kernel) ?_
  intro s' hrun' hlog
  rw [hrun] at hrun'
  cases hrun'
  exact ⟨hlog, (hgone _ hlog).2.2⟩

end ChCore.Kernel
