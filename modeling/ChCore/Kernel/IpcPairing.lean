import ChCore.Kernel.IpcRuns

/-!
# Calls and their answers

The law of calls and returns is stated on the events of a run: a return goes to
the thread whose call is pending, and every call is answered once. It holds as
long as no call is made through a connection that has a call. `sys_ipc_call`
does not check this: it overwrites `conn->source`, and the first caller is lost.

## Main results

* `ipc_calls_answered`: the law, in runs without such a call and without an exit
* `ipc_pointer_iff`: when the server gets a pointer to the message
-/

namespace ChCore.Kernel

open Lib.Runs

/-- Each return has resumed the thread whose call was pending, with the returned
value in its first register. -/
def Answers : List IpcEvent → Prop
  | [] => True
  | .called _ _ :: log => Answers log
  | .returned c ret t x0 :: log =>
    pending c log = some t ∧ x0 = ret ∧ Answers log
  | .exited _ :: log => Answers log

/-- How often `t` has called through `c`. -/
def calls (c : Nat) (t : ThreadId) : List IpcEvent → Nat
  | [] => 0
  | .called d u :: log => calls c t log + if d = c ∧ u = t then 1 else 0
  | .returned _ _ _ _ :: log => calls c t log
  | .exited _ :: log => calls c t log

/-- How often a return from `c` has resumed `t`. -/
def resumes (c : Nat) (t : ThreadId) : List IpcEvent → Nat
  | [] => 0
  | .called _ _ :: log => resumes c t log
  | .returned d _ u _ :: log => resumes c t log + if d = c ∧ u = t then 1 else 0
  | .exited _ :: log => resumes c t log

/-- Every call has been answered once, apart from the pending ones. -/
def AnsweredOnce (log : List IpcEvent) : Prop := ∀ c t, calls c t log =
    resumes c t log + if pending c log = some t then 1 else 0

/-- **Calls and returns are paired.** -/
structure IpcOk (s : IpcSystem) : Prop where
  answers : Answers s.log
  once : AnsweredOnce s.log
  /-- A thread waits for one answer. -/
  single : ∀ c d t, pending c s.log = some t → pending d s.log = some t → c = d
  waits : ∀ c t, pending c s.log = some t →
    (s.st.k.threads t).state = .waiting ∧ (∀ cpu, s.st.k.current cpu ≠ some t) ∧
      ∀ cpu, t ∉ (s.st.k.queues cpu).queueHead
  /-- The thread that is to answer has not exited. -/
  served : ∀ c t, pending c s.log = some t →
    (s.st.k.threads (s.st.conns c).target).threadExitState = .running
  /-- As soon as it returns, the thread that waits is resumed. -/
  resumed : ∀ c t cpu v, pending c s.log = some t →
    s.st.k.current cpu = some (s.st.conns c).target →
    ∃ s', ipcStep s (.ret cpu v 0 none) = .ok s' ∧ s'.log = .returned c v t v :: s.log

/-! ## The log -/

variable {log : List IpcEvent}

lemma answers_exitEvents (k : SchedState) (op : SchedOp) (h : Answers log) :
    Answers (exitEvents k op ++ log) := by
  unfold exitEvents
  split
  · split
    · exact h
    · exact h
  · exact h

lemma AnsweredOnce.exitEvents (k : SchedState) (op : SchedOp) (h : AnsweredOnce log) :
    AnsweredOnce (exitEvents k op ++ log) := by
  unfold Kernel.exitEvents
  split
  · split
    · exact h
    · exact h
  · exact h

lemma AnsweredOnce.called (h : AnsweredOnce log) {c : Nat}
    (hidle : pending c log = none) (t : ThreadId) : AnsweredOnce (.called c t :: log) := by
  intro d u
  have hold := h d u
  by_cases hd : c = d
  · subst hd
    simp only [hidle, reduceCtorEq, if_false, add_zero] at hold
    simp [calls, resumes, pending, hold]
  · simpa [calls, resumes, pending, hd] using hold

lemma AnsweredOnce.returned (h : AnsweredOnce log) {c : Nat} {t : ThreadId}
    (hp : pending c log = some t) (v x : Nat) : AnsweredOnce (.returned c v t x :: log) := by
  intro d u
  have hold := h d u
  by_cases hd : c = d
  · subst hd
    simp only [hp, Option.some.injEq] at hold
    simp [calls, resumes, pending, hold]
  · simpa [calls, resumes, pending, hd] using hold

/-! ## Runs without exits -/

/-- No thread has exited. -/
def NoneGone (place : ThreadId → Place) : Prop := ∀ t, place t ≠ .gone

def IpcOp.IsExit : IpcOp → Prop
  | .sched (.exit _) => True
  | _ => False

instance : ∀ op : IpcOp, Decidable op.IsExit := fun op => by
  rcases op with ⟨_ | _⟩ | _ <;> (dsimp only [IpcOp.IsExit]; infer_instance)

lemma placeAfterExit_of_not {op : SchedOp} (h : ¬ (IpcOp.sched op).IsExit)
    (k : SchedState) (place : ThreadId → Place) : placeAfterExit k place op = place := by
  cases op with
  | exit cpu => exact (h trivial).elim
  | _ => rfl

variable {s : IpcSystem} {place : ThreadId → Place}

lemma NoneGone.update (h : NoneGone place) {p : Place} (hp : p ≠ .gone) (t : ThreadId) :
    NoneGone (Function.update place t p) :=
  (Function.forall_update_iff place fun _ q => q ≠ .gone).2 ⟨hp, fun u _ => h u⟩

lemma NoneGone.step {s' : IpcSystem} {place' : ThreadId → Place} {op : IpcOp}
    (h : NoneGone place) (hinv : IpcInv s place) (hinv' : IpcInv s' place')
    (heff : IpcEffect s s' place place' op) (hexit : ¬ op.IsExit) : NoneGone place' := by
  intro t
  cases heff with
  | sched frame log =>
    rw [placeAfterExit_of_not hexit] at frame
    have hgone := h t
    intro heq
    rcases frame.role_cases hinv.placed.ids.fresh hinv'.placed t with ⟨hrole, -⟩ | ⟨-, hnew⟩
    · have hrole' : (place t).role = .gone := by
        rw [← hrole, heq]
        rfl
      cases hp : place t <;> simp_all [Place.role]
    · simp [heq, Place.role] at hnew
  | registered place_eq | refused place_eq => exact place_eq ▸ h t
  | called active idle off place_eq => exact place_eq ▸ (h.update (by simp) _).update (by simp) _ t
  | returned serves active target answers place_eq =>
    exact place_eq ▸ (h.update (by simp) _).update (by simp) _ t

/-! ## Runs in which calls take turns -/

/-- The invariant of the runs. -/
structure PairingInv (s : IpcSystem) (place : ThreadId → Place) : Prop where
  inv : IpcInv s place
  alive : NoneGone place
  answers : Answers s.log
  once : AnsweredOnce s.log

lemma PairingInv.step {op : IpcOp} (h : PairingInv s place)
    (hen : IpcEnabled s op) (hexit : ¬ op.IsExit) (hturn : CallsInTurn s op) :
    ∃ s' place', ipcStep s op = .ok s' ∧ PairingInv s' place' := by
  obtain ⟨s', place', heq, hinv, heff⟩ := h.inv.step hen hturn
  have halive := h.alive.step h.inv hinv heff hexit
  refine ⟨s', place', heq, hinv, halive, ?_, ?_⟩
  · cases heff with
    | sched frame log => exact log ▸ answers_exitEvents _ _ h.answers
    | registered place_eq log => exact log ▸ h.answers
    | refused place_eq same => exact same ▸ h.answers
    | called active idle off place_eq migrates log => exact log ▸ h.answers
    | returned serves active target answers place_eq migrates log =>
      exact log ▸ ⟨answers, rfl, h.answers⟩
  cases heff with
  | sched frame log => exact log ▸ h.once.exitEvents _ _
  | registered place_eq log => exact log ▸ h.once
  | refused place_eq same => exact same ▸ h.once
  | called active idle off place_eq migrates log => exact log ▸ h.once.called idle _
  | returned serves active target answers place_eq migrates log =>
    exact log ▸ h.once.returned answers _ _

lemma PairingInv.ipcOk (h : PairingInv s place) : IpcOk s := by
  have hplaced := h.inv.placed
  have hplace : ∀ c t, pending c s.log = some t → place t = .calling c :=
    fun c t hp => role_calling_iff.mp ((h.inv.conns.calling c t).mpr hp)
  refine ⟨h.answers, h.once, fun c d t hc hd => ?_, fun c t hp => ?_,
    fun c t hp => ?_, fun c t cpu v hp hcur => ?_⟩
  · have hcd := hplace d t hd
    rw [hplace c t hc] at hcd
    exact Place.calling.inj hcd
  · have hcalling := hplace c t hp
    have hstate := (hplaced.threads t).state
    rw [hcalling] at hstate
    refine ⟨hstate, fun cpu hcur => ?_, fun cpu hmem => ?_⟩
    · simp [hplaced.running_of_current hcur] at hcalling
    · simp [((hplaced.queues cpu).1.mem_iff t).mp hmem] at hcalling
  · rw [(hplaced.threads _).exit, if_neg (h.alive _)]
  obtain ⟨hsource, hactive, hrole⟩ := h.inv.conns.busy c t hp
  have hc : c < s.st.connCount := by
    by_contra hc
    simp [h.inv.conns.fresh c (by omega)] at hp
  obtain ⟨m, hm, -⟩ := h.inv.conns.target c hc
  rw [hm] at hcur hactive
  obtain ⟨s', place', heq, -, -, hlog⟩ :=
    @IpcInv.ret c place s cpu m 0 none h.inv hcur hactive (by simp) v
  exact ⟨s', heq, hlog t hp⟩

lemma PairingInv.boot : PairingInv ipcBoot
    (fun t => match t with | .idle _ => .idle | .obj _ => .off) where
  inv := IpcInv.boot
  alive t := by cases t <;> simp
  answers := trivial
  once _ _ := rfl

/-- **Calls and returns are paired** after every interleaving of calls, returns
and scheduler entries in which no thread exits and calls take turns. -/
theorem ipc_calls_answered (ops : List IpcOp) (hops : Admissible ipcStep
      (fun s op => (IpcEnabled s op ∧ ¬ op.IsExit) ∧ CallsInTurn s op)
      ipcBoot ops) :
    ∃ s, run ipcStep ipcBoot ops = .ok s ∧ IpcOk s := by
  have hstep : ∀ s op, (∃ place, PairingInv s place) →
      (IpcEnabled s op ∧ ¬ op.IsExit) ∧ CallsInTurn s op →
      ∃ s', ipcStep s op = .ok s' ∧ ∃ place, PairingInv s' place := by
    intro s op hinv hen
    obtain ⟨place, hinv⟩ := hinv
    obtain ⟨s', place', heq, hinv'⟩ := hinv.step hen.1.1 hen.1.2 hen.2
    exact ⟨s', heq, place', hinv'⟩
  obtain ⟨s, hrun, place, hinv⟩ := run_total hstep ops ipcBoot ⟨_, PairingInv.boot⟩ hops
  exact ⟨s, hrun, hinv.ipcOk⟩

/-- Threads 0 and 1 on CPUs 0 and 1, and connection 0 with server thread 2. -/
def twoClients : List IpcOp := [.sched (.createRoot 0 ⟨0, 0, 0, .user, 1⟩ 0), .sched (.sched 0),
    .sched (.create 0 ⟨0, 0, 0, .user, 1⟩),
    .register 0 0 ⟨0, 0, 0, 0, none, .null⟩,
    .sched (.setAffinity 0 (some 1) 1), .sched (.yield 0), .sched (.yield 0),
    .sched (.sched 1)]

theorem ipc_calls_answered_in_turn : ∃ s,
    run ipcStep ipcBoot (twoClients ++ [.call 0 0 0 0 none, .ret 0 7 0 none,
      .call 1 0 0 0 none, .sched (.timer 0), .ret 1 8 0 none]) = .ok s ∧
      IpcOk s :=
  ipc_calls_answered _ (by decide +kernel)

/-- Both clients call before the server thread returns. All calls are enabled,
but the return goes to thread 1, and the server thread has no call left to
return from while thread 0 still waits. -/
theorem ipc_call_lost : ∃ s,
    run ipcStep ipcBoot (twoClients ++ [.call 0 0 0 0 none, .call 1 0 0 0 none,
      .ret 0 7 0 none]) = .ok s ∧
    Admissible ipcStep (fun s op => IpcEnabled s op ∧ ¬ op.IsExit) ipcBoot
      (twoClients ++ [.call 0 0 0 0 none, .call 1 0 0 0 none, .ret 0 7 0 none]) ∧
    s.log.head? = some (.returned 0 7 (.obj 1) 7) ∧
    (s.st.k.threads (.obj 2)).activeConn = none ∧
    calls 0 (.obj 0) s.log = 1 ∧ resumes 0 (.obj 0) s.log = 0 ∧
    (s.st.k.threads (.obj 0)).state = .waiting ∧ ¬ IpcOk s := by
  refine exists_ok_imp (p := fun s => s.log.head? = some (.returned 0 7 (.obj 1) 7) ∧
      (s.st.k.threads (.obj 2)).activeConn = none ∧
      calls 0 (.obj 0) s.log = 1 ∧ resumes 0 (.obj 0) s.log = 0 ∧
      (s.st.k.threads (.obj 0)).state = .waiting ∧ pending 0 s.log = none)
    (by decide +kernel) ?_
  rintro s - ⟨hlog, hactive, hcalls, hresumes, hstate, hpending⟩
  refine ⟨by decide +kernel, hlog, hactive, hcalls, hresumes, hstate, fun hok => ?_⟩
  have honce := hok.once 0 (.obj 0)
  simp [hcalls, hresumes, hpending] at honce

/-! ## The pointer to the message -/

lemma switchToThread_ec {k k' : SchedState} {cpu : Cpu} {t : ThreadId} {r : Int}
    (hrun : switchToThread k cpu t = .ok (k', r)) : (k'.threads t).ec = (k.threads t).ec := by
  unfold switchToThread at hrun
  obtain ⟨-, hrun⟩ := guard_eq_ok hrun
  obtain ⟨-, hrun⟩ := guard_eq_ok hrun
  split_ifs at hrun <;> cases hrun <;> simp [SchedState.setThread]

/-- The server thread gets the argument. -/
lemma threadMigrateToServer_arg {st st' : IpcState} {cpu : Cpu} {c arg : Nat}
    (hrun : threadMigrateToServer st cpu c arg = .ok st') :
    (st'.k.threads (st.conns c).target).ec.x0 = arg := by
  obtain ⟨cur, -, hrun⟩ := bind_eq_ok.1 hrun
  obtain ⟨⟨k, r⟩, hswitch, hrun⟩ := bind_eq_ok.1 hrun
  cases hrun
  show (k.threads _).ec.x0 = arg
  rw [switchToThread_ec hswitch]
  simp [IpcState.setThread, SchedState.setThread]

/-- The pointer is in the buffer of `size` bytes at `base`. -/
def InBuffer (base size p : Nat) : Prop := base ≤ p ∧ p < base + size

/-- The server gets a pointer into its mapping of the buffer, to the place that
the client's pointer is at. -/
def PassesPointer (conn : Connection) (size ipcMsg arg : Nat) : Prop :=
  InBuffer conn.serverUserAddr size arg ∧ arg + conn.clientUserAddr = ipcMsg + conn.serverUserAddr

/-- **The message of a call.** A call that is accepted passes the pointer on
if and only if it is in the client's buffer. Nothing is rejected. -/
theorem ipc_pointer_iff (st st' : IpcState) (cpu : Cpu) (c ipcMsg capNum size : Nat)
    (slots : Option Nat) (hmsg : 0 < ipcMsg ∧ ipcMsg < 2 ^ 64)
    (hclient : (st.conns c).clientUserAddr + size ≤ 2 ^ 64)
    (hserver : (st.conns c).serverUserAddr + size ≤ 2 ^ 64)
    (hrun : sysIpcCall st cpu (some c) ipcMsg capNum slots = .ok (st', none)) :
    PassesPointer (st.conns c) size ipcMsg (st'.k.threads (st.conns c).target).ec.x0 ↔
      InBuffer (st.conns c).clientUserAddr size ipcMsg := by
  have harg : (st'.k.threads (st.conns c).target).ec.x0 = u64 (ipcMsg + 2 ^ 64 -
      u64 ((st.conns c).clientUserAddr + 2 ^ 64 - (st.conns c).serverUserAddr)) := by
    rw [sysIpcCall, if_neg (Nat.ne_of_gt hmsg.1)] at hrun
    split_ifs at hrun
    -- the capabilities are sent first
    on_goal 1 => obtain ⟨_, -, hrun⟩ := bind_eq_ok.1 hrun
    all_goals
      obtain ⟨_, hmigrate, hrun⟩ := bind_eq_ok.1 hrun
      cases hrun
      simpa [IpcState.setConn] using threadMigrateToServer_arg hmigrate
  unfold PassesPointer InBuffer
  rw [harg]
  unfold u64
  omega

/-- A client runs, with a connection whose buffer is at `0x1000` for the client
and at `0x8000` for the server. -/
def callerState : IpcState where
  k := { rrSchedInit with current := fun _ => some (.obj 0) }
  conns := fun _ => ⟨none, .obj 1, 0, 0, 0x1000, 0x8000, 0⟩
  connCount := 1

theorem ipc_pointer_inside : ∃ st', sysIpcCall callerState 0 (some 0) 0x1010 0 none =
      .ok (st', none) ∧
    PassesPointer (callerState.conns 0) 0x1000 0x1010 (st'.k.threads (.obj 1)).ec.x0 :=
  ⟨_, rfl, (ipc_pointer_iff callerState _ 0 0 _ 0 0x1000 none (by decide) (by decide) (by decide)
    rfl).2 ⟨by decide, by decide⟩⟩

/-- The pointer `0x3000` is behind the buffer of the client. The call is accepted
and the server gets a pointer behind its own. -/
theorem ipc_pointer_outside : ∃ st', sysIpcCall callerState 0 (some 0) 0x3000 0 none =
      .ok (st', none) ∧ (st'.k.threads (.obj 1)).ec.x0 = 0xa000 ∧
    ¬ PassesPointer (callerState.conns 0) 0x1000 0x3000 0xa000 := by
  refine ⟨_, rfl, by decide, fun hpass => ?_⟩
  exact absurd hpass.1.2 (by decide)

end ChCore.Kernel
