import ChCore.Kernel.IpcPairing

/-!
# Running threads and current threads

`TS_RUNNING` is the state of the threads that CPUs run. Scheduler entries,
semaphores and calls keep this. `sys_ipc_return` sets the state of the caller
only, so that the server thread is left with `TS_RUNNING` when its CPU has gone
back to the caller.
-/

namespace ChCore.Kernel

open Lib.Runs

/-- **Exactly the current threads are running.** -/
def RunningCurrent (k : SchedState) : Prop :=
  ∀ n, n < k.threadCount → ((k.threads (.obj n)).state = .running ↔
    ∃! cpu, k.current cpu = some (.obj n))

/-- Server threads without a call do not claim to run. -/
def Quiet (k : SchedState) (place : ThreadId → Place) : Prop :=
  ∀ n, n < k.threadCount → place (.obj n) = .off → (k.threads (.obj n)).state ≠ .running

lemma Placed.runningCurrent {k : SchedState} {place : ThreadId → Place}
    (h : Placed k none place) (hrest : AtRest place) (halive : NoneGone place)
    (hquiet : Quiet k place) : RunningCurrent k := by
  intro n hn
  have hstate := (h.threads (.obj n)).state
  have hcur : ∀ cpu, k.current cpu = some (.obj n) ↔
      place (.obj n) = .running cpu := fun cpu => h.current cpu (.obj n)
  constructor
  · intro hrunning
    cases hplace : place (.obj n) with
    | off => exact (hquiet n hn hplace hrunning).elim
    | gone => exact (halive _ hplace).elim
    | moving => exact (hrest _ hplace).elim
    | running cpu =>
      refine ⟨cpu, (hcur cpu).mpr hplace, fun d hd => ?_⟩
      have hd' := (hcur d).mp hd
      rw [hplace] at hd'
      exact (Place.running.inj hd').symm
    | idle => exact (h.ids.obj n hplace).elim
    | ready cpu | waiting s | calling c => simp [hplace, Place.Allows, hrunning] at hstate
  · intro hunique
    obtain ⟨cpu, hcpu, -⟩ := hunique
    rw [(hcur cpu).mp hcpu] at hstate
    exact hstate

/-- Calls take turns, and no thread that serves a call returns. -/
def NoAnswer (s : IpcSystem) : IpcOp → Prop
  | .ret cpu _ _ _ => ¬ s.st.k.Serves cpu
  | op => CallsInTurn s op

instance (s : IpcSystem) : ∀ op, Decidable (NoAnswer s op) := by
  rintro (_ | _ | _ | _) <;> (dsimp only [NoAnswer]; infer_instance)

lemma NoAnswer.inTurn {s : IpcSystem} {op : IpcOp} (h : NoAnswer s op) : CallsInTurn s op := by
  cases op with
  | ret cpu v capNum slots => exact fun hserves => (h hserves).elim
  | _ => exact h

/-- A step that answers no call keeps the server threads quiet. -/
lemma Quiet.step {s s' : IpcSystem} {place place' : ThreadId → Place}
    {op : IpcOp} (h : Quiet s.st.k place)
    (heff : IpcEffect s s' place place' op) (hexit : ¬ op.IsExit)
    (hanswer : NoAnswer s op) : Quiet s'.st.k place' := by
  intro n hn hoff
  cases heff with
  | @sched op frame log =>
    rw [placeAfterExit_of_not hexit] at frame
    by_cases hold : n < s.st.k.threadCount
    · have habsent : (place (.obj n)).role = .absent := by
        rw [← frame.role (.obj n) hold, hoff]
        rfl
      rw [frame.state (.obj n) hold (by simp [habsent])]
      exact h n hold (role_absent_iff.mp habsent)
    · exact (frame.new (.obj n) hold hn).parked (by simp [hoff, Place.role])
  | registered place_eq log count others init =>
    by_cases hnew : n = s.st.k.threadCount
    · simp [hnew, init]
    rw [others (.obj n) (by simpa using hnew)]
    exact h n (by omega) (place_eq ▸ hoff)
  | refused place_eq same =>
    subst same
    exact h n hn (place_eq ▸ hoff)
  | @called cpu a m c msg capNum slots active idle off place_eq migrates =>
    have hm : n ≠ m := by
      rintro rfl
      simp [place_eq] at hoff
    have ha : n ≠ a := by
      rintro rfl
      simp [place_eq, hm] at hoff
    rw [migrates.others (.obj n) (by simpa using ha) (by simpa using hm)]
    apply h n (migrates.threadCount ▸ hn)
    simpa [place_eq, hm, ha] using hoff
  | returned serves => exact (hanswer serves).elim

/-- The invariant of the runs. -/
structure RunningInv (s : IpcSystem) (place : ThreadId → Place) : Prop where
  inv : IpcInv s place
  alive : NoneGone place
  quiet : Quiet s.st.k place

/-- **Exactly the current threads are running** after every interleaving of
scheduler entries, semaphore operations and calls in which calls take turns and
none is answered. -/
theorem running_threads_current (ops : List IpcOp) (hops : Admissible ipcStep
      (fun s op => (IpcEnabled s op ∧ ¬ op.IsExit) ∧ NoAnswer s op)
      ipcBoot ops) :
    ∃ s, run ipcStep ipcBoot ops = .ok s ∧ RunningCurrent s.st.k := by
  have hstep : ∀ s op, (∃ place, RunningInv s place) →
      (IpcEnabled s op ∧ ¬ op.IsExit) ∧ NoAnswer s op →
      ∃ s', ipcStep s op = .ok s' ∧ ∃ place, RunningInv s' place := by
    intro s op hinv hen
    obtain ⟨place, hinv⟩ := hinv
    obtain ⟨s', place', heq, hinv', heff⟩ := hinv.inv.step hen.1.1 hen.2.inTurn
    exact ⟨s', heq, place', hinv', hinv.alive.step hinv.inv hinv' heff hen.1.2,
      hinv.quiet.step heff hen.1.2 hen.2⟩
  have hboot : ∃ place, RunningInv ipcBoot place :=
    ⟨_,
      { inv := IpcInv.boot
        alive := fun t => by cases t <;> simp
        quiet := fun n hn => (Nat.not_lt_zero n hn).elim }⟩
  obtain ⟨s, hrun, place, hinv⟩ := run_total hstep ops ipcBoot hboot hops
  exact ⟨s, hrun, hinv.inv.placed.runningCurrent hinv.inv.rest hinv.alive hinv.quiet⟩

theorem running_threads_current_call : ∃ s,
    run ipcStep ipcBoot (twoClients ++ [.call 0 0 0 0 none, .sched (.timer 0),
      .sched (.wait 1 0 true), .sched (.signal 0 0), .sched (.timer 1)]) =
        .ok s ∧ RunningCurrent s.st.k :=
  running_threads_current _ (by decide +kernel)

/-- After one call and its return, the server thread 2 has the state
`TS_RUNNING` and no CPU runs it. -/
theorem returned_server_running : ∃ s,
    run ipcStep ipcBoot (twoClients ++ [.call 0 0 0 0 none, .ret 0 7 0 none]) = .ok s ∧
    Admissible ipcStep (fun s op => IpcEnabled s op ∧ ¬ op.IsExit) ipcBoot
      (twoClients ++ [.call 0 0 0 0 none, .ret 0 7 0 none]) ∧
    (s.st.k.threads (.obj 2)).state = .running ∧
    (∀ cpu, s.st.k.current cpu ≠ some (.obj 2)) ∧ ¬ RunningCurrent s.st.k := by
  refine exists_ok_imp (p := fun s => 2 < s.st.k.threadCount ∧
      (s.st.k.threads (.obj 2)).state = .running ∧
      ∀ cpu, s.st.k.current cpu ≠ some (.obj 2)) (by decide +kernel) ?_
  rintro s - ⟨hcount, hstate, hcur⟩
  refine ⟨by decide +kernel, hstate, hcur, fun hok => ?_⟩
  obtain ⟨cpu, hcpu, -⟩ := (hok 2 hcount).mp hstate
  exact hcur cpu hcpu

end ChCore.Kernel
