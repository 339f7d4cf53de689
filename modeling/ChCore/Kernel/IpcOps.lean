import ChCore.Kernel.IpcModel
import ChCore.Kernel.SchedCalls

/-!
# What calls and returns do to a placement

A call takes the caller off its CPU and puts the server thread of the connection
there; a return does the opposite. Both are stated for a server thread that is
at `Place.off` while it has no call.
-/

namespace ChCore.Kernel

open Function SchedState Lib.Places

section

variable {st : IpcState} {place : ThreadId → Place} {cpu : Cpu} {n m c : Nat}

/-- The record of the server thread `th` when thread `cur` calls. -/
def servingThread (th cur : Thread) (conn : Connection) (c arg : Nat) : Thread :=
  { th with
    activeConn := some c
    ec :=
      { spEl0 := conn.serverStackTop
        elrEl1 := conn.callback
        x0 := arg
        x1 := cur.pid }
    sc := cur.sc }

/-- The threads when the CPU is about to switch to the server thread. -/
def IpcState.calling (st : IpcState) (n m c arg : Nat) : SchedState :=
  (st.k.setThread (.obj n) { st.k.threads (.obj n) with
    state := .waiting }).setThread (.obj m)
      (servingThread (st.k.threads (.obj m)) (st.k.threads (.obj n)) (st.conns c) c arg)

lemma threadMigrateToServer_eq (hcur : st.k.current cpu = some (.obj n))
    (htarget : (st.conns c).target = .obj m) (hne : m ≠ n) (arg : Nat) :
    threadMigrateToServer st cpu c arg = (do
      let (k, _) ← switchToThread (st.calling n m c arg) cpu (.obj m)
      return { st with
        k
        conns := update st.conns c
          { st.conns c with source := some (.obj n) } }) := by
  simp only [threadMigrateToServer, hcur, derefPtr_some, ok_bind, htarget,
    IpcState.setConn, IpcState.setThread, setThread,
    update_self, update_of_ne (by simpa using hne : (ThreadId.obj m) ≠ .obj n)]
  rfl

/-- What a migration does besides moving the two threads. -/
structure Migrates (st st' : IpcState) (cpu : Cpu) (n m : Nat) : Prop where
  connCount : st'.connCount = st.connCount
  threadCount : st'.k.threadCount = st.k.threadCount
  others : ∀ t, t ≠ .obj n → t ≠ .obj m → st'.k.threads t = st.k.threads t
  current : st'.k.current cpu = some (.obj m)
  sems : st'.k.sems = st.k.sems

/-- The caller leaves its CPU and the server thread is ready to take it. -/
lemma Placed.calling (h : Placed st.k none place)
    (hcur : st.k.current cpu = some (.obj n)) (hm : m < st.k.threadCount)
    (hoff : place (.obj m) = .off) (arg : Nat) : Placed (st.calling n m c arg) (some cpu) (update
    (update place (.obj n) (.calling c)) (.obj m) .moving) := by
  have hrun := h.running_of_current hcur
  have hne : (.obj m : ThreadId) ≠ .obj n := by
    intro heq
    simp [heq, hrun] at hoff
  have hcaller := h.threads (.obj n)
  have hserver := h.threads (.obj m)
  rw [hrun] at hcaller
  rw [hoff] at hserver
  have hwaiting : ThreadOk (.obj n) { st.k.threads (.obj n) with state := .waiting } (.calling c) :=
    { hcaller with
      state := rfl
      cpuid := by simp
      exit := by simpa using hcaller.exit
      sc := fun _ => hcaller.sc (by simp) }
  have hserving : ThreadOk (.obj m) (servingThread (st.k.threads (.obj m)) (st.k.threads (.obj n))
        (st.conns c) c arg) .moving :=
    { hserver with
      state := hserver.state
      cpuid := by simp
      exit := by simpa [servingThread] using hserver.exit
      sc := fun _ => hcaller.sc (by simp) }
  exact (h.leave hcur (.calling c) hwaiting).move hm
    (by simpa [hne, hoff] using .off) .moving hserving

/-- The migration to a server thread that has no call. -/
lemma threadMigrateToServer_spec (h : Placed st.k none place)
    (hcur : st.k.current cpu = some (.obj n))
    (htarget : (st.conns c).target = .obj m) (hm : m < st.k.threadCount)
    (hoff : place (.obj m) = .off) (arg : Nat) :
    ∃ st', threadMigrateToServer st cpu c arg = .ok st' ∧ Placed st'.k none (update
    (update place (.obj n) (.calling c)) (.obj m) (.running cpu)) ∧ Migrates st st' cpu n m ∧
    st'.conns = update st.conns c { st.conns c with source := some (.obj n) } ∧
      (st'.k.threads (.obj n)).activeConn = (st.k.threads (.obj n)).activeConn ∧
      (st'.k.threads (.obj m)).activeConn = some c := by
  have hne : m ≠ n := by
    rintro rfl
    simp [h.running_of_current hcur] at hoff
  have hprepared := h.calling (c := c) hcur hm hoff arg
  obtain ⟨th, hswitch, hstate, hcore⟩ := switchToThread_eq cpu
    ((hprepared.threads (.obj m)).not_ready (by simp)) hprepared.not_exited
  have hplaced := hprepared.runOn (by simp) hstate hcore
  rw [update_idem] at hplaced
  have hconn : th.activeConn = some c := by
    rw [core_activeConn hcore]
    simp [IpcState.calling, setThread, servingThread]
  refine ⟨{ st with
      k := (st.calling n m c arg).runOn cpu (.obj m) th
      conns := update st.conns c
        { st.conns c with source := some (.obj n) } }, ?_, hplaced,
    ⟨rfl, rfl, fun t htn htm => ?_, ?_, rfl⟩, rfl, ?_, ?_⟩
  · rw [threadMigrateToServer_eq hcur htarget hne, hswitch]
    rfl
  · simp [runOn, IpcState.calling, setThread, htn, htm]
  · simp [runOn]
  · simp [runOn, IpcState.calling, setThread, Ne.symm hne]
  · simpa [runOn, setThread] using hconn

/-- The transfer of capabilities can be done before the connection has this
caller. -/
def CapsSendable (conn : Connection) (slots : Option Nat) : Prop :=
  slots.any (fun v => v = 0 ∨ maxCapTransfer ≤ v ∨ conn.source.isSome) = true

instance (conn : Connection) (slots : Option Nat) : Decidable (CapsSendable conn slots) :=
  inferInstanceAs (Decidable (_ = true))

variable {slots : Option Nat}

lemma CapsSendable.ok {conn : Connection} (h : CapsSendable conn slots) (ipcMsg : Nat) :
    ∃ r, ipcSendCap { conn with ipcMsg } slots = .ok r := by
  cases slots with
  | none => simp [CapsSendable] at h
  | some v =>
    simp only [ipcSendCap]
    split
    · exact ⟨_, rfl⟩
    split
    · exact ⟨_, rfl⟩
    have hsource : conn.source.isSome := by
      simp only [CapsSendable, Option.any_some, decide_eq_true_eq] at h
      rcases h with hzero | hmany | hsource
      · contradiction
      · contradiction
      · exact hsource
    obtain ⟨t, ht⟩ := Option.isSome_iff_exists.mp hsource
    exact ⟨0, by simp [ht]⟩

variable {capNum : Nat}

lemma sysIpcCall_eq (cpu : Cpu) (ipcMsg : Nat)
    (hcaps : 0 < capNum → CapsSendable (st.conns c) slots) :
    ∃ arg, sysIpcCall st cpu (some c) ipcMsg capNum slots = (do
      let st ← threadMigrateToServer (st.setConn c { st.conns c with ipcMsg }) cpu c arg
      return (st, none)) := by
  by_cases hzero : 0 < capNum
  · obtain ⟨r, hr⟩ := (hcaps hzero).ok ipcMsg
    exact ⟨_, by simp only [sysIpcCall, if_pos hzero, hr, ok_bind]; rfl⟩
  · exact ⟨_, by simp only [sysIpcCall, if_neg hzero]; rfl⟩

/-- **A call through a connection whose server thread has no call.** -/
theorem sysIpcCall_spec (ipcMsg : Nat) (h : Placed st.k none place)
    (hcur : st.k.current cpu = some (.obj n))
    (htarget : (st.conns c).target = .obj m) (hm : m < st.k.threadCount)
    (hoff : place (.obj m) = .off) (hcaps : 0 < capNum → CapsSendable (st.conns c) slots) :
    ∃ st', sysIpcCall st cpu (some c) ipcMsg capNum slots = .ok (st', none) ∧
    Placed st'.k none (update (update place (.obj n) (.calling c)) (.obj m) (.running cpu)) ∧
    Migrates st st' cpu n m ∧ st'.conns = update st.conns c
    { st.conns c with ipcMsg, source := some (.obj n) } ∧
      (st'.k.threads (.obj n)).activeConn = (st.k.threads (.obj n)).activeConn ∧
      (st'.k.threads (.obj m)).activeConn = some c := by
  obtain ⟨arg, heq⟩ := sysIpcCall_eq cpu ipcMsg hcaps
  have hmsg : Placed (st.setConn c { st.conns c with ipcMsg }).k none place := h
  have htarget' : ((st.setConn c { st.conns c with ipcMsg }).conns c).target = .obj m := by
    simpa [IpcState.setConn] using htarget
  obtain ⟨st', hst', hplaced, hmig, hconns, hcaller, hserver⟩ :=
    threadMigrateToServer_spec hmsg hcur htarget' hm hoff arg
  refine ⟨st', by simp [heq, hst'], hplaced, ⟨hmig.connCount, hmig.threadCount,
    hmig.others, hmig.current, hmig.sems⟩, ?_, hcaller, hserver⟩
  simpa [IpcState.setConn] using hconns

/-! ## Returns -/

/-- The threads when the CPU is about to switch back to the caller. -/
def IpcState.returning (st : IpcState) (m a ret : Nat) (budget : ThreadId → Nat) : SchedState :=
  { (st.k.setThread (.obj m) { st.k.threads (.obj m) with
      activeConn := none }).setThread (.obj a)
        { st.k.threads (.obj a) with
          state := .inter, ec := { (st.k.threads (.obj a)).ec with x0 := ret } }
    with budget }

variable {a : Nat}

lemma sysIpcReturn_eq {ret : Nat} {sc : ThreadId} (hcur : st.k.current cpu = some (.obj m))
    (hconn : (st.k.threads (.obj m)).activeConn = some c)
    (hsource : (st.conns c).source = some (.obj a)) (hne : a ≠ m)
    (hsc : (st.k.threads (.obj a)).sc = some sc)
    (hslots : capNum ≠ 0 → slots ≠ none) :
    sysIpcReturn st cpu ret capNum slots = (do
      let (k, _) ← switchToThread (st.returning m a ret
        (update st.k.budget sc defaultBudget)) cpu (.obj a)
      return { st with k }) := by
  have hne' : (ThreadId.obj m) ≠ .obj a := by simpa using Ne.symm hne
  have hthreads : ∀ x y z, update (update (update st.k.threads (.obj a) x) (.obj m) y) (.obj a) z =
      update (update st.k.threads (.obj m) y) (.obj a) z := by
    intro x y z
    rw [update_comm hne'.symm, update_idem]
  by_cases hzero : capNum = 0
  · simp [sysIpcReturn, hcur, hconn, hzero, hsource, IpcState.setThread,
      setThread, hsc, threadMigrateToClient, hne', hne'.symm, hthreads,
      IpcState.returning]
  obtain ⟨v, hv⟩ := Option.ne_none_iff_exists'.mp (hslots hzero)
  simp [sysIpcReturn, hcur, hconn, hzero, hsource, IpcState.setThread,
    setThread, hsc, threadMigrateToClient, hne', hne'.symm, hthreads,
    IpcState.returning, ipcSendCapToClient, hv]

/-- The server thread leaves its CPU and the caller is ready to take it. -/
lemma Placed.returning (h : Placed st.k none place)
    (hcur : st.k.current cpu = some (.obj m)) (ha : place (.obj a) = .calling c)
    (ret : Nat) (budget : ThreadId → Nat) : Placed (st.returning m a ret budget) (some cpu) (update
    (update place (.obj m) .off) (.obj a) .moving) := by
  have hrun := h.running_of_current hcur
  have hne : (.obj a : ThreadId) ≠ .obj m := by
    intro heq
    simp [heq, hrun] at ha
  have hserver := h.threads (.obj m)
  have hcaller := h.threads (.obj a)
  rw [hrun] at hserver
  rw [ha] at hcaller
  have hdone : ThreadOk (.obj m) { st.k.threads (.obj m) with activeConn := none } .off :=
    { hserver with
      state := hserver.not_ready (by simp)
      cpuid := by simp
      exit := by simpa using hserver.exit
      sc := by simp }
  have hback : ThreadOk (.obj a) { st.k.threads (.obj a) with
      state := .inter, ec := { (st.k.threads (.obj a)).ec with x0 := ret } }
      .moving :=
    { hcaller with
      state := by simp [Place.Allows]
      cpuid := by simp
      exit := by simpa using hcaller.exit
      sc := fun _ => hcaller.sc (by simp) }
  exact ((h.leave hcur .off hdone).move (h.ids.lt_count (by simp [ha]))
    (by simpa [hne, ha] using .calling c) .moving hback).setBudget budget

/-- **A return of the thread that serves the call of `a`.** -/
theorem sysIpcReturn_spec (ret : Nat) (h : Placed st.k none place)
    (hcur : st.k.current cpu = some (.obj m))
    (hconn : (st.k.threads (.obj m)).activeConn = some c)
    (hsource : (st.conns c).source = some (.obj a))
    (ha : place (.obj a) = .calling c) (hslots : capNum ≠ 0 → slots ≠ none) :
    ∃ st', sysIpcReturn st cpu ret capNum slots = .ok st' ∧ Placed st'.k none (update
        (update place (.obj m) .off) (.obj a) (.running cpu)) ∧
      Migrates st st' cpu m a ∧ st'.conns = st.conns ∧
      (st'.k.threads (.obj m)) = { st.k.threads (.obj m) with
        activeConn := none } ∧
      (st'.k.threads (.obj a)).activeConn = (st.k.threads (.obj a)).activeConn ∧
      (st'.k.threads (.obj a)).ec.x0 = ret := by
  have hne : a ≠ m := by
    rintro rfl
    simp [h.running_of_current hcur] at ha
  obtain ⟨sc, hsc⟩ := Option.ne_none_iff_exists'.mp ((h.threads (.obj a)).sc (by simp [ha]))
  have hprepared := h.returning hcur ha ret (update st.k.budget sc defaultBudget)
  obtain ⟨th, hswitch, hstate, hcore⟩ := switchToThread_eq cpu
    ((hprepared.threads (.obj a)).not_ready (by simp)) hprepared.not_exited
  have hplaced := hprepared.runOn (by simp) hstate hcore
  rw [update_idem] at hplaced
  refine ⟨{ st with k := (st.returning m a ret
      (update st.k.budget sc defaultBudget)).runOn cpu (.obj a) th },
    ?_, hplaced, ⟨rfl, rfl, fun t htm hta => ?_, ?_, rfl⟩, rfl, ?_, ?_, ?_⟩
  · rw [sysIpcReturn_eq hcur hconn hsource hne hsc hslots, hswitch]
    rfl
  · simp [runOn, IpcState.returning, setThread, htm, hta]
  · simp [runOn]
  · simp [runOn, IpcState.returning, setThread, Ne.symm hne]
  · have hactive := core_activeConn hcore
    simpa [runOn, IpcState.returning, setThread] using hactive
  have hec := core_ec hcore
  simp [runOn, setThread, hec, IpcState.returning]

end

end ChCore.Kernel
