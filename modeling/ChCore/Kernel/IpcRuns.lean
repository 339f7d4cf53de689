import ChCore.Kernel.IpcOps
import ChCore.Kernel.SchedRuns

/-!
# Runs with IPC calls and returns

The steps of the scheduler and of semaphores, interleaved with registrations of
clients, calls and returns. `ConnInv` says how connections, the threads that
serve them and the threads that have called belong together as long as no call is
made through a connection that has a call.
-/

namespace ChCore.Kernel

open Function Lib.Places Lib.Runs

/-- What can be seen of calls and returns. -/
inductive IpcEvent
  /-- Thread `t` has called through the connection. -/
  | called (conn : Nat) (t : ThreadId)
  /-- The thread that serves the connection has returned `ret`, and the CPU runs
  thread `resumed` now, with `x0` in its first register. -/
  | returned (conn : Nat) (ret : Nat) (resumed : ThreadId) (x0 : Nat)
  | exited (t : ThreadId)
  deriving DecidableEq

structure IpcSystem where
  st : IpcState
  /-- The events so far, the last one first. -/
  log : List IpcEvent

inductive IpcOp
  | sched (op : SchedOp)
  /-- `sys_register_client` with the thread object `server`. -/
  | register (cpu : Cpu) (server : Nat) (args : ConnArgs)
  | call (cpu : Cpu) (conn : Nat) (ipcMsg capNum : Nat) (slots : Option Nat)
  | ret (cpu : Cpu) (ret capNum : Nat) (slots : Option Nat)

/-- The event of a step of the scheduler. -/
def exitEvents (k : SchedState) : SchedOp → List IpcEvent
  | .exit cpu =>
    match k.current cpu with
    | some t => [.exited t]
    | none => []
  | _ => []

def ipcStep (s : IpcSystem) : IpcOp → Exec IpcSystem
  | .sched op => do
    let sys ← schedStep ⟨s.st.k, []⟩ op
    return ⟨{ s.st with k := sys.k }, exitEvents s.st.k op ++ s.log⟩
  | .register _ server args =>
    .ok { s with st := createConnection s.st (.obj server) args }
  | .call cpu c ipcMsg capNum slots => do
    let t ← derefPtr (s.st.k.current cpu)
    let conn := if c < s.st.connCount then some c else none
    let (st, r) ← sysIpcCall s.st cpu conn ipcMsg capNum slots
    return ⟨st, if r = none then .called c t :: s.log else s.log⟩
  | .ret cpu ret capNum slots => do
    let t ← derefPtr (s.st.k.current cpu)
    let st ← sysIpcReturn s.st cpu ret capNum slots
    match (s.st.k.threads t).activeConn with
    | none => return ⟨st, s.log⟩
    | some c => do
      let resumed ← derefPtr (st.k.current cpu)
      return ⟨st, .returned c ret resumed (st.k.threads resumed).ec.x0 :: s.log⟩

def ipcBoot : IpcSystem := ⟨⟨rrSchedInit, fun _ => ⟨none, .idle 0, 0, 0, 0, 0, 0⟩, 0⟩, []⟩

/-! ## Calls that are not answered yet -/

/-- The thread whose call through connection `c` has not been answered. -/
def pending (c : Nat) : List IpcEvent → Option ThreadId
  | [] => none
  | .called d t :: log => if d = c then some t else pending c log
  | .returned d _ _ _ :: log => if d = c then none else pending c log
  | .exited _ :: log => pending c log

lemma pending_exitEvents (c : Nat) (k : SchedState) (op : SchedOp) (log : List IpcEvent) :
    pending c (exitEvents k op ++ log) = pending c log := by
  unfold exitEvents
  split
  · split <;> simp [pending]
  · simp

/-! ## Connections and the threads behind them -/

/-- The roles of threads agree with the calls that are pending. -/
structure ConnInv (st : IpcState) (pend : Nat → Option ThreadId)
    (role : ThreadId → Role) : Prop where
  calling : ∀ c t, role t = .calling c ↔ pend c = some t
  fresh : ∀ c, st.connCount ≤ c → pend c = none
  target : ∀ c, c < st.connCount → ∃ m, (st.conns c).target = .obj m ∧ m < st.k.threadCount
  inj : ∀ c d, c < st.connCount → d < st.connCount →
    (st.conns c).target = (st.conns d).target → c = d
  idle : ∀ c, c < st.connCount → pend c = none → role (st.conns c).target = .absent
  busy : ∀ c t, pend c = some t → (st.conns c).source = some t ∧
    (st.k.threads (st.conns c).target).activeConn = some c ∧
    role (st.conns c).target ≠ .absent
  active : ∀ t c, role t ≠ .absent → (st.k.threads t).activeConn = some c →
    c < st.connCount ∧ t = (st.conns c).target ∧ pend c ≠ none

/-- The invariant of a run. -/
structure IpcInv (s : IpcSystem) (place : ThreadId → Place) : Prop where
  placed : Placed s.st.k none place
  rest : AtRest place
  conns : ConnInv s.st (fun c => pending c s.log) (fun t => (place t).role)

lemma role_absent_iff {p : Place} : p.role = .absent ↔ p = .off := by cases p <;> simp [Place.role]

variable {c : Nat}

lemma role_calling_iff {p : Place} : p.role = .calling c ↔ p = .calling c := by
  cases p <;> simp [Place.role]

lemma role_update (place : ThreadId → Place) (t u : ThreadId) (p : Place) :
    (update place t p u).role = update (fun t => (place t).role) t p.role u := by
  by_cases hu : u = t
  · subst hu
    simp
  · simp [hu]

variable {st : IpcState} {pend : Nat → Option ThreadId} {role : ThreadId → Role}

/-- The pending calls may be computed from another log. -/
lemma ConnInv.congr {pend' : Nat → Option ThreadId} {role' : ThreadId → Role}
    (h : ConnInv st pend role) (hpend : ∀ c, pend' c = pend c) (hrole : ∀ t, role' t = role t) :
    ConnInv st pend' role' := by
  have hp : pend' = pend := funext hpend
  have hr : role' = role := funext hrole
  rw [hp, hr]
  exact h

variable {place : ThreadId → Place}

/-- What a step of the scheduler does to a thread, as connections see it. -/
lemma LiveFrame.role_cases {k k' : SchedState} {place' : ThreadId → Place}
    (h : LiveFrame k k' place place') (hfresh : ∀ n, k.threadCount ≤ n → place (.obj n) = .off)
    (hplaced' : Placed k' none place') (t : ThreadId) :
    ((place' t).role = (place t).role ∧ (k'.threads t).activeConn = (k.threads t).activeConn) ∨
    ((place t).role = .absent ∧ ((place' t).role = .absent ∨
    (place' t).role = .live ∧ (k'.threads t).activeConn = none)) := by
  by_cases ht : k.Exists t
  · exact .inl ⟨h.role t ht, h.conn t ht⟩
  right
  cases t with
  | idle c => exact (ht trivial).elim
  | obj n =>
    have hold := hfresh n (Nat.le_of_not_lt ht)
    refine ⟨by simp [hold, Place.role], ?_⟩
    by_cases ht' : k'.Exists (.obj n)
    · have hnew := h.new _ ht ht'
      exact hnew.role.imp_right fun hlive => ⟨hlive, hnew.conn⟩
    have hoff := hplaced'.ids.fresh n (Nat.le_of_not_lt ht')
    exact .inl (by simp [hoff, Place.role])

/-- A step that leaves calls alone keeps the connections. -/
lemma ConnInv.frame {k' : SchedState} {place' : ThreadId → Place}
    (h : ConnInv st pend fun t => (place t).role) (hframe : LiveFrame st.k k' place place')
    (hfresh : ∀ n, st.k.threadCount ≤ n → place (.obj n) = .off)
    (hplaced' : Placed k' none place') :
    ConnInv { st with k := k' } pend fun t => (place' t).role := by
  have hcases := hframe.role_cases hfresh hplaced'
  have htarget : ∀ c, c < st.connCount →
      (place' (st.conns c).target).role = (place (st.conns c).target).role ∧
      (k'.threads (st.conns c).target).activeConn =
        (st.k.threads (st.conns c).target).activeConn := by
    intro c hc
    obtain ⟨m, hm, hlt⟩ := h.target c hc
    rw [hm]
    exact ⟨hframe.role _ hlt, hframe.conn _ hlt⟩
  have hbound : ∀ c t, pend c = some t → c < st.connCount := by
    intro c t hp
    by_contra hc
    simp [h.fresh c (by omega)] at hp
  refine ⟨fun c t => ?_, h.fresh, fun c hc => ?_, h.inj, fun c hc hp => ?_,
    fun c t hp => ?_, fun t c hrole hconn => ?_⟩
  · rw [← h.calling c t]
    rcases hcases t with ⟨hrole, -⟩ | ⟨hold, hnew⟩
    · rw [hrole]
    · rcases hnew with hnew | ⟨hnew, -⟩ <;> simp [hold, hnew]
  · obtain ⟨m, hm, hlt⟩ := h.target c hc
    exact ⟨m, hm, hlt.trans_le hframe.count⟩
  · rw [(htarget c hc).1]
    exact h.idle c hc hp
  · have hc := hbound c t hp
    rw [(htarget c hc).1, (htarget c hc).2]
    exact h.busy c t hp
  rcases hcases t with ⟨hr, ha⟩ | ⟨-, hnew⟩
  · exact h.active t c (hr ▸ hrole) (ha ▸ hconn)
  rcases hnew with hnew | ⟨-, hnone⟩
  · exact (hrole hnew).elim
  · simp [hnone] at hconn

/-- Threads that exit keep the connections that they serve busy. -/
lemma ConnInv.gone {role' : ThreadId → Role} (h : ConnInv st pend role)
    (hrole : ∀ t, role' t = role t ∨ role t = .live ∧ role' t = .gone) : ConnInv st pend role' := by
  refine ⟨fun c t => ?_, h.fresh, h.target, h.inj, fun c hc hp => ?_,
    fun c t hp => ?_, fun t c hr hconn => ?_⟩
  · rw [← h.calling c t]
    rcases hrole t with heq | ⟨hlive, hgone⟩
    · rw [heq]
    · simp [hlive, hgone]
  · have hidle := h.idle c hc hp
    rcases hrole (st.conns c).target with heq | ⟨hlive, -⟩
    · rw [heq, hidle]
    · simp [hidle] at hlive
  · obtain ⟨hsource, hconn, hbusy⟩ := h.busy c t hp
    refine ⟨hsource, hconn, ?_⟩
    rcases hrole (st.conns c).target with heq | ⟨-, hgone⟩
    · rwa [heq]
    · simp [hgone]
  · apply h.active t c _ hconn
    rcases hrole t with heq | ⟨hlive, -⟩
    · rwa [← heq]
    · simp [hlive]

/-- Only the thread that exits changes its place before the next one runs. -/
lemma placeAfterExit_cases {k : SchedState} (h : Placed k none place)
    (op : SchedOp) (t : ThreadId) : placeAfterExit k place op t = place t ∨
    (∃ cpu, place t = .running cpu) ∧ placeAfterExit k place op t = .gone := by
  cases op with
  | exit cpu =>
    simp only [placeAfterExit]
    cases hcur : k.current cpu with
    | none => exact .inl rfl
    | some u =>
      by_cases ht : t = u
      · subst ht
        exact .inr ⟨⟨cpu, h.running_of_current hcur⟩, by simp⟩
      · exact .inl (by simp [ht])
  | _ => exact .inl rfl

variable {s : IpcSystem}

/-- A step of the scheduler keeps the invariant. -/
lemma IpcInv.sched (h : IpcInv s place) {op : SchedOp} (hen : SchedEnabled ⟨s.st.k, []⟩ op) :
    ∃ s' place', ipcStep s (.sched op) = .ok s' ∧ IpcInv s' place' ∧
    s'.log = exitEvents s.st.k op ++ s.log ∧
    LiveFrame s.st.k s'.st.k (placeAfterExit s.st.k place op) place' := by
  obtain ⟨sys', place', heq, hok⟩ := @schedStep_spec place ⟨s.st.k, []⟩ op h.placed hen
  have hadv := hok.advances
  have hcases := placeAfterExit_cases h.placed op
  have hgone : ConnInv s.st (fun c => pending c s.log)
      fun t => (placeAfterExit s.st.k place op t).role := by
    apply h.conns.gone
    intro t
    rcases hcases t with heq | ⟨⟨cpu, hrun⟩, hgone⟩
    · exact .inl (by rw [heq])
    · exact .inr ⟨by simp [hrun, Place.role], by simp [hgone, Place.role]⟩
  have hconns := hgone.frame hadv.frame (fun n hn => by
    have hoff := h.placed.ids.fresh n hn
    rcases hcases (.obj n) with heq | ⟨⟨cpu, hrun⟩, -⟩
    · rw [heq, hoff]
    · simp [hoff] at hrun) hadv.placed
  refine ⟨_, place', by simp only [ipcStep, heq, ok_bind]; rfl,
    ⟨hadv.placed, hadv.rest (h.rest.afterExit op), ?_⟩, rfl, hadv.frame⟩
  exact hconns.congr (fun c => pending_exitEvents c _ _ _) (fun _ => rfl)

/-! ## New connections -/

/-- A new connection has a server thread that no other connection has. -/
lemma ConnInv.register (h : ConnInv st pend role) (server : ThreadId)
    (args : ConnArgs) (habsent : role (.obj st.k.threadCount) = .absent) :
    ConnInv (createConnection st server args) pend role := by
  have hconn : ∀ c, c < st.connCount → (createConnection st server args).conns c = st.conns c := by
    intro c hc
    simp [createConnection, ne_of_lt hc]
  have hthread : ∀ t, t ≠ .obj st.k.threadCount →
      (createConnection st server args).k.threads t = st.k.threads t := by
    intro t ht
    simp [createConnection, createServerThread, SchedState.setThread, ht]
  have htarget : ((createConnection st server args).conns st.connCount).target =
      .obj st.k.threadCount := by
    simp [createConnection, createServerThread]
  have hold : ∀ c, c < st.connCount → (st.conns c).target ≠ .obj st.k.threadCount := by
    intro c hc heq
    obtain ⟨m, hm, hlt⟩ := h.target c hc
    rw [heq, ThreadId.obj.injEq] at hm
    omega
  have hsplit : ∀ c, c < (createConnection st server args).connCount →
      c = st.connCount ∨ c < st.connCount := by
    intro c hc
    have : c < st.connCount + 1 := hc
    omega
  refine ⟨h.calling, fun c hc => h.fresh c (Nat.le_of_succ_le hc),
    fun c hc => ?_, fun c d hc hd heq => ?_, fun c hc hp => ?_,
    fun c t hp => ?_, fun t c hr hactive => ?_⟩
  · rcases hsplit c hc with rfl | hc
    · exact ⟨st.k.threadCount, htarget, Nat.lt_succ_self _⟩
    obtain ⟨m, hm, hlt⟩ := h.target c hc
    exact ⟨m, by rw [hconn c hc, hm], Nat.lt_succ_of_lt hlt⟩
  · rcases hsplit c hc with rfl | hc <;> rcases hsplit d hd with rfl | hd
    · rfl
    · rw [htarget, hconn d hd] at heq
      exact (hold d hd heq.symm).elim
    · rw [htarget, hconn c hc] at heq
      exact (hold c hc heq).elim
    rw [hconn c hc, hconn d hd] at heq
    exact h.inj c d hc hd heq
  · rcases hsplit c hc with rfl | hc
    · rw [htarget, habsent]
    rw [hconn c hc]
    exact h.idle c hc hp
  · have hc : c < st.connCount := by
      by_contra hc
      simp [h.fresh c (by omega)] at hp
    rw [hconn c hc, hthread _ (hold c hc)]
    exact h.busy c t hp
  · have ht : t ≠ .obj st.k.threadCount := by
      rintro rfl
      exact hr habsent
    rw [hthread t ht] at hactive
    obtain ⟨hc, htc, hp⟩ := h.active t c hr hactive
    exact ⟨Nat.lt_succ_of_lt hc, by rw [hconn c hc, htc], hp⟩

/-! ## Calls and returns -/

variable {cpu : Cpu} {m : Nat} {st' : IpcState} {x : ThreadId} {p : Option ThreadId} {rx ry : Role}

/-- A connection without a call, or with a call of `x`, and the roles of `x` and of the
server thread. -/
def CallState (c : Nat) (x : ThreadId) (p : Option ThreadId) (rx ry : Role) : Prop :=
  p = none ∧ rx = .live ∧ ry = .absent ∨ p = some x ∧ rx = .calling c ∧ ry = .live

/-- The CPU passes between `x` and the server thread of connection `c`. -/
lemma ConnInv.passed (h : ConnInv st pend role) (hc : c < st.connCount)
    (hold : CallState c x (pend c) (role x) (role (st.conns c).target))
    (hnew : CallState c x p rx ry) (hcount : st'.connCount = st.connCount)
    (hthreads : st'.k.threadCount = st.k.threadCount)
    (htargets : ∀ d, (st'.conns d).target = (st.conns d).target)
    (hsources : ∀ d, d ≠ c → (st'.conns d).source = (st.conns d).source)
    (hactive : ∀ t, t ≠ (st.conns c).target →
    (st'.k.threads t).activeConn = (st.k.threads t).activeConn)
    (hbusy : p = some x → (st'.conns c).source = some x ∧
    (st'.k.threads (st.conns c).target).activeConn = some c) :
    ConnInv st' (update pend c p) (update (update role x rx) (st.conns c).target ry) := by
  have hothers : ∀ d, d < st.connCount → d ≠ c → (st.conns d).target ≠ (st.conns c).target :=
    fun d hd hdc heq => hdc (h.inj d c hd hc heq)
  generalize hy : (st.conns c).target = y at *
  unfold CallState at hold hnew
  have hne : x ≠ y := by
    rintro rfl
    grind
  refine ⟨fun d t => ?_, fun d hd => ?_, fun d hd => ?_,
    fun d e hd he heq => ?_, fun d hd hp => ?_, fun d t hp => ?_,
    fun t d hr ha => ?_⟩
  · have hd := h.calling d t
    have hcall := h.calling c x
    grind [update_apply]
  · rw [hcount] at hd
    simp [Nat.ne_of_gt (hc.trans_le hd), h.fresh d hd]
  · rw [hcount] at hd
    rw [htargets, hthreads]
    exact h.target d hd
  · rw [hcount] at hd he
    rw [htargets, htargets] at heq
    exact h.inj d e hd he heq
  · rw [hcount] at hd
    have hd' := h.idle d hd
    grind [update_apply]
  · have hd : d < st.connCount := by
      by_contra hd
      have := h.fresh d (by omega)
      grind [update_apply]
    have hd' := h.busy d t
    grind [update_apply]
  · have hd := h.active t d
    grind [update_apply]

/-- Thread `n` calls through connection `c`, whose server thread is `m`. -/
lemma ConnInv.call {n : Nat} (h : ConnInv st pend role)
    (hlive : role (.obj n) = .live) (hc : c < st.connCount)
    (hidle : pend c = none) (htarget : (st.conns c).target = .obj m)
    (hmig : Migrates st st' cpu n m) {msg : Nat} (hconns : st'.conns =
    update st.conns c { st.conns c with ipcMsg := msg, source := some (.obj n) })
    (hcaller : (st'.k.threads (.obj n)).activeConn = (st.k.threads (.obj n)).activeConn)
    (hserver : (st'.k.threads (.obj m)).activeConn = some c) :
    ConnInv st' (update pend c (some (.obj n)))
      (update (update role (.obj n) (.calling c)) (.obj m) .live) := by
  have habsent : role (.obj m) = .absent := htarget ▸ h.idle c hc hidle
  have htargets : ∀ d, (st'.conns d).target = (st.conns d).target := by
    intro d
    by_cases hd : d = c <;> simp [hconns, hd]
  have hpassed := @ConnInv.passed c st pend role st' (.obj n) (some (.obj n)) (.calling c) .live h hc
    (.inl ⟨hidle, hlive, htarget ▸ habsent⟩) (.inr ⟨rfl, rfl, rfl⟩) hmig.connCount
    hmig.threadCount htargets (fun d hd => by simp [hconns, hd])
    (fun t ht => ?_) (fun _ => ⟨by simp [hconns], htarget ▸ hserver⟩)
  · rwa [htarget] at hpassed
  by_cases htn : t = .obj n
  · rw [htn, hcaller]
  · rw [hmig.others t htn (htarget ▸ ht)]

/-- The thread `m` that serves the call of `a` through `c` returns. -/
lemma ConnInv.ret {a : Nat} (h : ConnInv st pend role)
    (hlive : role (.obj m) = .live) (hc : c < st.connCount)
    (hpend : pend c = some (.obj a)) (htarget : (st.conns c).target = .obj m)
    (hmig : Migrates st st' cpu m a) (hconns : st'.conns = st.conns)
    (hcaller : (st'.k.threads (.obj a)).activeConn = (st.k.threads (.obj a)).activeConn) :
    ConnInv st' (update pend c none) (update (update role (.obj m) .absent) (.obj a) .live) := by
  have hcalling : role (.obj a) = .calling c := (h.calling c _).mpr hpend
  have hne : (.obj m : ThreadId) ≠ .obj a := by
    intro heq
    simp [← heq, hlive] at hcalling
  have hpassed := @ConnInv.passed c st pend role st' (.obj a) none .live .absent h hc
    (.inr ⟨hpend, hcalling, htarget ▸ hlive⟩) (.inl ⟨rfl, rfl, rfl⟩) hmig.connCount
    hmig.threadCount (fun d => by rw [hconns]) (fun d _ => by rw [hconns])
    (fun t ht => ?_) (by simp)
  · rwa [htarget, update_comm hne.symm] at hpassed
  by_cases hta : t = .obj a
  · rw [hta, hcaller]
  · rw [hmig.others t (htarget ▸ ht) hta]

/-! ## One step -/

/-- The calls that can be made. -/
def IpcEnabled (s : IpcSystem) : IpcOp → Prop
  | .sched op => SchedEnabled ⟨s.st.k, []⟩ op
  | .register cpu server _ => s.st.k.InUser cpu ∧
    server < s.st.k.threadCount ∧ s.st.k.threadCount + 1 < 2 ^ 32
  | .call cpu _ _ _ _ => s.st.k.InUser cpu
  | .ret cpu _ _ _ => s.st.k.InUser cpu

instance (s : IpcSystem) : ∀ op, Decidable (IpcEnabled s op) := fun op => by
  cases op <;> (dsimp only [IpcEnabled]; infer_instance)

/-- The thread that the CPU runs serves a call. -/
def SchedState.Serves (k : SchedState) (cpu : Cpu) : Prop :=
  (k.current cpu).any (fun t => (k.threads t).activeConn.isSome) = true

instance (k : SchedState) (cpu : Cpu) : Decidable (k.Serves cpu) :=
  inferInstanceAs (Decidable (_ = true))

/-- A connection has one call at a time, and the capabilities of a message can be
sent. -/
def CallsInTurn (s : IpcSystem) : IpcOp → Prop
  | .call _ c _ capNum slots => c < s.st.connCount → pending c s.log = none ∧
    (0 < capNum → CapsSendable (s.st.conns c) slots)
  | .ret cpu _ capNum slots => s.st.k.Serves cpu → capNum ≠ 0 → slots ≠ none
  | _ => True

instance (s : IpcSystem) : ∀ op, Decidable (CallsInTurn s op) := fun op => by
  cases op <;> (dsimp only [CallsInTurn]; infer_instance)

/-- What a step does to the placement and the log. -/
inductive IpcEffect (s s' : IpcSystem) (place place' : ThreadId → Place) : IpcOp → Prop
  | sched {op : SchedOp}
    (frame : LiveFrame s.st.k s'.st.k (placeAfterExit s.st.k place op) place')
    (log : s'.log = exitEvents s.st.k op ++ s.log) :
    IpcEffect s s' place place' (.sched op)
  | registered {cpu : Cpu} {server : Nat} {args : ConnArgs}
    (place_eq : place' = place) (log : s'.log = s.log)
    (count : s'.st.k.threadCount = s.st.k.threadCount + 1)
    (others : ∀ t, t ≠ .obj s.st.k.threadCount → s'.st.k.threads t = s.st.k.threads t)
    (init : (s'.st.k.threads (.obj s.st.k.threadCount)).state = .init) :
    IpcEffect s s' place place' (.register cpu server args)
  | refused {op : IpcOp} (place_eq : place' = place) (same : s' = s) :
    IpcEffect s s' place place' op
  | called {cpu : Cpu} {n m c msg capNum : Nat} {slots : Option Nat}
    (active : s.st.k.current cpu = some (.obj n))
    (idle : pending c s.log = none) (off : place (.obj m) = .off)
    (place_eq : place' = update
      (update place (.obj n) (.calling c)) (.obj m) (.running cpu))
    (migrates : Migrates s.st s'.st cpu n m)
    (log : s'.log = .called c (.obj n) :: s.log) :
    IpcEffect s s' place place' (.call cpu c msg capNum slots)
  | returned {cpu : Cpu} {m a c v capNum : Nat} {slots : Option Nat}
    (serves : s.st.k.Serves cpu) (active : s.st.k.current cpu = some (.obj m))
    (target : (s.st.conns c).target = .obj m)
    (answers : pending c s.log = some (.obj a))
    (place_eq : place' = update
      (update place (.obj m) .off) (.obj a) (.running cpu))
    (migrates : Migrates s.st s'.st cpu m a)
    (log : s'.log = .returned c v (.obj a) v :: s.log) :
    IpcEffect s s' place place' (.ret cpu v capNum slots)

lemma IpcInv.register (h : IpcInv s place) (cpu : Cpu) (server : Nat)
    (args : ConnArgs) (hcount : s.st.k.threadCount + 1 < 2 ^ 32) :
    ∃ s', ipcStep s (.register cpu server args) = .ok s' ∧ IpcInv s' place ∧
    IpcEffect s s' place place (.register cpu server args) := by
  have hoff := h.placed.ids.fresh _ le_rfl
  let th : Thread :=
    { ec := (s.st.k.threads (.obj server)).ec
      type := .shadow
      pid := (s.st.k.threads (.obj server)).pid
      activeConn := args.junkConn
      prevThread := args.junkPrev }
  have hok : ThreadOk (.obj s.st.k.threadCount) th .off :=
    { state := by simp [Place.Allows, th]
      cpuid := by simp
      exit := rfl
      type := by simp [th]
      sc := by simp
      affinity := ⟨le_rfl, by simp [th, noAff, platCpuNum]⟩ }
  have hplaced := h.placed.addThread hcount hok .off s.st.k.budget
  rw [← hoff, update_eq_self] at hplaced
  refine ⟨_, rfl, ⟨hplaced, h.rest, ?_⟩, .registered rfl rfl rfl (fun t ht => ?_) ?_⟩
  · exact h.conns.register (.obj server) args (by simp [hoff, Place.role])
  · simp [createConnection, createServerThread, SchedState.setThread, ht]
  · simp [createConnection, createServerThread, SchedState.setThread]

lemma IpcInv.call {n capNum : Nat} {slots : Option Nat} (h : IpcInv s place)
    (hcur : s.st.k.current cpu = some (.obj n)) (hc : c < s.st.connCount)
    (hidle : pending c s.log = none)
    (hcaps : 0 < capNum → CapsSendable (s.st.conns c) slots) (msg : Nat) :
    ∃ s' place', ipcStep s (.call cpu c msg capNum slots) = .ok s' ∧ IpcInv s' place' ∧
    IpcEffect s s' place place' (.call cpu c msg capNum slots) := by
  obtain ⟨m, htarget, hm⟩ := h.conns.target c hc
  have hoff : place (.obj m) = .off := role_absent_iff.mp (htarget ▸ h.conns.idle c hc hidle)
  have hlive : (place (.obj n)).role = .live := by
    rw [h.placed.running_of_current hcur]
    rfl
  obtain ⟨st', heq, hplaced, hmig, hconns, hcaller, hserver⟩ :=
    sysIpcCall_spec msg h.placed hcur htarget hm hoff hcaps
  have hconn' := h.conns.call hlive hc hidle htarget hmig hconns hcaller hserver
  refine ⟨⟨st', .called c (.obj n) :: s.log⟩, _, ?_,
    ⟨hplaced, (h.rest.update (by simp)).update (by simp), hconn'.congr ?_ ?_⟩,
    .called hcur hidle hoff rfl hmig rfl⟩
  · simp [ipcStep, hcur, hc, heq]
  · intro d
    by_cases hd : d = c
    · simp [pending, hd]
    · simp [pending, hd, Ne.symm hd]
  · intro t
    simp only [role_update]
    rfl

lemma IpcInv.ret {capNum : Nat} {slots : Option Nat} (h : IpcInv s place)
    (hcur : s.st.k.current cpu = some (.obj m))
    (hactive : (s.st.k.threads (.obj m)).activeConn = some c)
    (hslots : capNum ≠ 0 → slots ≠ none) (v : Nat) :
    ∃ s' place', ipcStep s (.ret cpu v capNum slots) = .ok s' ∧ IpcInv s' place' ∧
    IpcEffect s s' place place' (.ret cpu v capNum slots) ∧
    ∀ t, pending c s.log = some t → s'.log = .returned c v t v :: s.log := by
  have hlive : (place (.obj m)).role = .live := by
    rw [h.placed.running_of_current hcur]
    rfl
  obtain ⟨hc, htarget, hbusy⟩ := h.conns.active (.obj m) c (by simp [hlive]) hactive
  obtain ⟨t, ht⟩ := Option.ne_none_iff_exists'.mp hbusy
  have hplace : place t = .calling c := role_calling_iff.mp ((h.conns.calling c t).mpr ht)
  obtain ⟨a, rfl⟩ : ∃ a, t = .obj a := by
    cases t with
    | idle d => simpa [hplace] using h.placed.ids.idle d
    | obj a => exact ⟨a, rfl⟩
  obtain ⟨st', heq, hplaced, hmig, hconns, -, hcaller, hx0⟩ :=
    sysIpcReturn_spec v h.placed hcur hactive (h.conns.busy c _ ht).1 hplace hslots
  have hconn' := h.conns.ret hlive hc ht htarget.symm hmig hconns hcaller
  refine ⟨⟨st', .returned c v (.obj a) v :: s.log⟩, _, ?_,
    ⟨hplaced, (h.rest.update (by simp)).update (by simp), hconn'.congr ?_ ?_⟩,
    .returned (by simp [SchedState.Serves, hcur, hactive]) hcur htarget.symm ht
      rfl hmig rfl, fun t hp => ?_⟩
  · simp [ipcStep, hcur, heq, hactive, hmig.current, hx0]
  · intro d
    by_cases hd : d = c
    · simp [pending, hd]
    · simp [pending, hd, Ne.symm hd]
  · intro t
    simp only [role_update]
    rfl
  · rw [ht, Option.some.injEq] at hp
    rw [hp]

/-- **One step**: no call halts, and threads and connections keep belonging
together. -/
theorem IpcInv.step {op : IpcOp} (h : IpcInv s place) (hen : IpcEnabled s op)
    (hturn : CallsInTurn s op) :
    ∃ s' place', ipcStep s op = .ok s' ∧ IpcInv s' place' ∧ IpcEffect s s' place place' op := by
  cases op with
  | sched op =>
    obtain ⟨s', place', heq, hinv, hlog, hframe⟩ := h.sched hen
    exact ⟨s', place', heq, hinv, .sched hframe hlog⟩
  | register cpu server args =>
    obtain ⟨s', heq, hinv, heff⟩ := h.register cpu server args hen.2.2
    exact ⟨s', place, heq, hinv, heff⟩
  | call cpu c msg capNum slots =>
    obtain ⟨n, hcur⟩ := hen.current
    by_cases hc : c < s.st.connCount
    · exact h.call hcur hc (hturn hc).1 (hturn hc).2 msg
    refine ⟨s, place, ?_, h, .refused rfl rfl⟩
    simp [ipcStep, hcur, hc, sysIpcCall]
  | ret cpu v capNum slots =>
    obtain ⟨m, hcur⟩ := hen.current
    cases hactive : (s.st.k.threads (.obj m)).activeConn with
    | none =>
      refine ⟨s, place, ?_, h, .refused rfl rfl⟩
      simp [ipcStep, hcur, sysIpcReturn, hactive]
    | some c =>
      have hserves : s.st.k.Serves cpu := by simp [SchedState.Serves, hcur, hactive]
      obtain ⟨s', place', heq, hinv, heff, -⟩ := h.ret hcur hactive (hturn hserves) v
      exact ⟨s', place', heq, hinv, heff⟩

lemma IpcInv.boot : IpcInv ipcBoot
    (fun t => match t with | .idle _ => .idle | .obj _ => .off) := by
  refine ⟨rrSchedInit_placed, fun t => by cases t <;> simp, ?_⟩
  exact {
    calling := fun c t => by cases t <;> simp [pending, ipcBoot, Place.role]
    fresh := fun _ _ => rfl
    target := fun c hc => (Nat.not_lt_zero c hc).elim
    inj := fun c _ hc => (Nat.not_lt_zero c hc).elim
    idle := fun c hc => (Nat.not_lt_zero c hc).elim
    busy := fun c t hp => by simp [pending, ipcBoot] at hp
    active := fun t c _ ha => by cases t <;> simp [ipcBoot, rrSchedInit] at ha
  }

end ChCore.Kernel
