import ChCore.Kernel.SchedRuns

/-!
# The law of semaphores

Over every interleaving: each signal is a token that is either still in the
counter or has been given to exactly one wait, and threads that block are given
tokens in the order in which they blocked.
-/

namespace ChCore.Kernel

open Lib.Places List Lib.Runs

/-! ## Counting events -/

namespace SemEvent

/-- Signals of semaphore `s` in an event. -/
def signals (s : Nat) : SemEvent → Nat
  | .signal u _ => if u = s then 1 else 0
  | _ => 0

/-- Waits on `s` that an event grants: one that returns at once, or those of the
threads that a signal wakes. -/
def grants (s : Nat) : SemEvent → Nat
  | .signal u woken => if u = s then woken.length else 0
  | .granted u _ => if u = s then 1 else 0
  | _ => 0

/-- Threads that block on `s`. -/
def blocks (s : Nat) : SemEvent → List ThreadId
  | .blocked u t => if u = s then [t] else []
  | _ => []

/-- Threads that are woken from `s`. -/
def wakes (s : Nat) : SemEvent → List ThreadId
  | .signal u woken => if u = s then woken else []
  | _ => []

end SemEvent

def signalCount (s : Nat) : List SemEvent → Nat
  | [] => 0
  | e :: log => signalCount s log + e.signals s

def grantCount (s : Nat) : List SemEvent → Nat
  | [] => 0
  | e :: log => grantCount s log + e.grants s

/-- The threads that blocked on `s`, in the order in which they did. -/
def blockOrder (s : Nat) : List SemEvent → List ThreadId
  | [] => []
  | e :: log => blockOrder s log ++ e.blocks s

/-- The threads that were woken from `s`, in the order in which they were. -/
def wakeOrder (s : Nat) : List SemEvent → List ThreadId
  | [] => []
  | e :: log => wakeOrder s log ++ e.wakes s

/-! ## One semaphore -/

/-- The semaphore `s` is `sem` after the events of `log`. -/
structure SemLaw (s : Nat) (sem : Semaphore) (log : List SemEvent) : Prop where
  conserved : signalCount s log = sem.semCount + grantCount s log
  zero : sem.waitingThreads ≠ [] → sem.semCount = 0
  fifo : blockOrder s log = wakeOrder s log ++ sem.waitingThreads
  once : ∀ woken, SemEvent.signal s woken ∈ log → woken.length ≤ 1

section

variable {s : Nat} {sem : Semaphore} {log : List SemEvent}

lemma SemLaw.init : SemLaw s ⟨0, 0, []⟩ [] := ⟨rfl, by simp, rfl, by simp⟩

/-- An event of another semaphore. -/
lemma SemLaw.frame {e : SemEvent} (h : SemLaw s sem log)
    (hsignals : e.signals s = 0) (hgrants : e.grants s = 0)
    (hblocks : e.blocks s = []) (hwakes : e.wakes s = []) : SemLaw s sem (e :: log) := by
  refine ⟨?_, h.zero, ?_, fun woken hmem => ?_⟩
  · simpa [signalCount, grantCount, hsignals, hgrants] using h.conserved
  · simpa [blockOrder, wakeOrder, hblocks, hwakes] using h.fifo
  rcases mem_cons.mp hmem with rfl | hmem
  · simp [SemEvent.signals] at hsignals
  · exact h.once woken hmem

lemma SemLaw.signal (h : SemLaw s sem log) (hlt : sem.semCount + 1 < 2 ^ 32) :
    SemLaw s sem.signal (.signal s (sem.waitingThreads.take 1) :: log) := by
  have hconserved := h.conserved
  have honce : ∀ woken, SemEvent.signal s woken ∈
      .signal s (sem.waitingThreads.take 1) :: log → woken.length ≤ 1 := by
    intro woken hmem
    rcases mem_cons.mp hmem with heq | hmem
    · rw [SemEvent.signal.injEq] at heq
      rw [heq.2]
      exact length_take_le 1 _
    · exact h.once woken hmem
  cases hl : sem.waitingThreads with
  | nil =>
    refine ⟨?_, ?_, ?_, hl ▸ honce⟩
    · simp only [signalCount, grantCount, SemEvent.signals, SemEvent.grants,
        Semaphore.signal, hl, if_true, u32_of_lt hlt, take_nil,
        length_nil]
      omega
    · simp [Semaphore.signal, hl]
    · simpa [blockOrder, wakeOrder, SemEvent.blocks, SemEvent.wakes,
        Semaphore.signal, hl] using h.fifo
  | cons t rest =>
    have hz : sem.semCount = 0 := h.zero (by simp [hl])
    refine ⟨?_, ?_, ?_, hl ▸ honce⟩
    · simp only [signalCount, grantCount, SemEvent.signals, SemEvent.grants,
        Semaphore.signal, hl, if_true, take_succ_cons, take_zero,
        length_singleton]
      omega
    · intro _
      simpa [Semaphore.signal, hl] using hz
    · simpa [blockOrder, wakeOrder, SemEvent.blocks, SemEvent.wakes,
        Semaphore.signal, hl] using h.fifo

lemma SemLaw.wait (h : SemLaw s sem log) (t : ThreadId) (isBlock : Bool) :
    SemLaw s (sem.wait t isBlock).1 (waitEvent s t (sem.wait t isBlock).2 :: log) := by
  have hconserved := h.conserved
  have hfifo := h.fifo
  have hzero := h.zero
  have honce : ∀ r woken, SemEvent.signal s woken ∈ waitEvent s t r :: log → woken.length ≤ 1 := by
    intro r woken hmem
    rcases mem_cons.mp hmem with heq | hmem
    · cases r with
      | none => simp [waitEvent] at heq
      | some r =>
        simp only [waitEvent] at heq
        split at heq <;> simp at heq
    · exact h.once woken hmem
  by_cases hpos : 0 < sem.semCount
  · have hnil : sem.waitingThreads = [] := by
      by_contra hne
      have := hzero hne
      omega
    simp only [Semaphore.wait, if_pos hpos]
    refine ⟨?_, by simp [hnil], ?_, honce _⟩
    · simp only [signalCount, grantCount, waitEvent, if_true, SemEvent.signals, SemEvent.grants]
      omega
    · simpa [blockOrder, wakeOrder, waitEvent, SemEvent.blocks, SemEvent.wakes] using hfifo
  cases isBlock with
  | false =>
    simp only [Semaphore.wait, if_neg hpos, Bool.false_eq_true, if_false]
    apply SemLaw.frame h <;> simp [waitEvent, eagain, SemEvent.signals, SemEvent.grants,
        SemEvent.blocks, SemEvent.wakes]
  | true =>
    simp only [Semaphore.wait, if_neg hpos, if_true]
    refine ⟨?_, fun _ => by simpa using hpos, ?_, honce _⟩
    · simpa [signalCount, grantCount, waitEvent, SemEvent.signals, SemEvent.grants] using hconserved
    · simp [blockOrder, wakeOrder, waitEvent, SemEvent.blocks, SemEvent.wakes, hfifo]

end

/-! ## All semaphores, over a run -/

/-- The calls of `SchedEnabled`, with fewer than `2 ^ 32` signals outstanding on
every semaphore. -/
def SemEnabled (sys : SchedSystem) (op : SchedOp) : Prop := SchedEnabled sys op ∧ match op with
    | .signal _ s => (sys.k.sems s).semCount + 1 < 2 ^ 32
    | _ => True

instance (sys : SchedSystem) (op : SchedOp) : Decidable (SemEnabled sys op) := by
  rcases op with _ | _ | _ | _ | _ | _ | _ | _ | _ <;>
    (dsimp only [SemEnabled]; infer_instance)

lemma SemLaw.frame_wait {s u : Nat} {sem : Semaphore} {log : List SemEvent}
    (h : SemLaw u sem log) (hu : u ≠ s) (t : ThreadId) (r : Option Int) :
    SemLaw u sem (waitEvent s t r :: log) := by
  cases r with
  | none =>
    apply SemLaw.frame h <;> simp [waitEvent, SemEvent.signals,
      SemEvent.grants, SemEvent.blocks, SemEvent.wakes, Ne.symm hu]
  | some r =>
    simp only [waitEvent]
    split <;> apply SemLaw.frame h <;> simp [SemEvent.signals,
      SemEvent.grants, SemEvent.blocks, SemEvent.wakes, Ne.symm hu]

/-- What a step does to the semaphores keeps the law of each of them. -/
lemma SemsFollow.law {sys sys' : SchedSystem} {op : SchedOp}
    (hfollow : SemsFollow sys sys' op) (hen : SemEnabled sys op)
    (h : ∀ s, SemLaw s (sys.k.sems s) sys.log) : ∀ s, SemLaw s (sys'.k.sems s) sys'.log := by
  intro u
  cases op with
  | wait cpu s isBlock =>
    obtain ⟨t, -, hsems, hlog⟩ := hfollow
    rw [hsems, hlog]
    by_cases hu : u = s
    · subst hu
      simpa using (h u).wait t isBlock
    · simpa [hu] using (h u).frame_wait hu t _
  | signal cpu s =>
    obtain ⟨hsems, hlog⟩ := hfollow
    rw [hsems, hlog]
    by_cases hu : u = s
    · subst hu
      simpa using (h u).signal hen.2
    rw [Function.update_of_ne hu]
    apply SemLaw.frame (h u) <;> simp [SemEvent.signals, SemEvent.grants,
      SemEvent.blocks, SemEvent.wakes, Ne.symm hu]
  | sched | timer | yield | exit | createRoot | create | setAffinity =>
    obtain ⟨hsems, hlog⟩ := hfollow
    rw [hsems, hlog]
    exact h u

/-- **A semaphore over a run.** A thread of the waiting list has not been made
ready since it blocked. -/
structure SemOk (sys : SchedSystem) (s : Nat) : Prop where
  law : SemLaw s (sys.k.sems s) sys.log
  count : (sys.k.sems s).waitingThreadsCount = (sys.k.sems s).waitingThreads.length
  waiting : ∀ t ∈ (sys.k.sems s).waitingThreads, (sys.k.threads t).state = .waiting

/-- **Tokens are conserved and handed out in order** on every semaphore, after
every interleaving of waits and signals. -/
theorem semaphore_conserves (ops : List SchedOp)
    (hops : Admissible schedStep SemEnabled schedBoot ops) :
    ∃ sys, run schedStep schedBoot ops = .ok sys ∧ ∀ s, SemOk sys s := by
  have hstep : ∀ sys op, (SchedInv sys ∧ ∀ s, SemLaw s (sys.k.sems s) sys.log) →
      SemEnabled sys op → ∃ sys', schedStep sys op = .ok sys' ∧
        SchedInv sys' ∧ ∀ s, SemLaw s (sys'.k.sems s) sys'.log := by
    rintro sys op ⟨hinv, hlaw⟩ hen
    obtain ⟨sys', heq, hinv', hfollow⟩ := hinv.step hen.1
    exact ⟨sys', heq, hinv', hfollow.law hen hlaw⟩
  obtain ⟨sys, hrun, ⟨place, hplaced, -⟩, hlaw⟩ :=
    run_total hstep ops schedBoot ⟨SchedInv.boot, fun _ => SemLaw.init⟩ hops
  refine ⟨sys, hrun, fun s => ⟨hlaw s, (hplaced.waiters s).2, fun t ht => ?_⟩⟩
  have hstate := (hplaced.threads t).state
  rwa [((hplaced.waiters s).1.mem_iff t).mp ht] at hstate

/-- Two threads block on one semaphore and a third signals three times. -/
def semTraffic : List SchedOp := [.createRoot 0 ⟨0, 0, 0, .user, 1⟩ 0, .sched 0,
    .create 0 ⟨0, 0, 0, .user, 1⟩, .create 0 ⟨0, 0, 0, .user, 1⟩,
    .wait 0 7 false, .wait 0 7 true, .wait 0 7 true,
    .signal 0 7, .signal 0 7, .signal 0 7, .wait 0 7 true]

theorem semaphore_conserves_traffic : ∃ sys,
    run schedStep schedBoot semTraffic = .ok sys ∧ ∀ s, SemOk sys s :=
  semaphore_conserves semTraffic (by decide +kernel)

end ChCore.Kernel
