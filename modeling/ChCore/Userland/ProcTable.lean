import ChCore.Kernel.Base
import ChCore.Lib.Runs

/-!
# The process table of the process manager

Requests reach `proc_list` (`userland/servers/procm/proc.c`) with a pid from the
client, with the badge of the client, and with what `alloc_pid` returned. The
checks let `PID_MAX` itself and negative numbers through.
-/

namespace ChCore.Userland.ProcTable

open Kernel Lib.Runs

def pidMax : Int := 1024

inductive ProcState
  | procInit
  | procRunning
  | procExit
  deriving DecidableEq

structure Proc where
  state : ProcState
  sem : Int
  ret : Int

/-- `proc_list`, and the pids that `spawn` has returned. -/
structure Procm where
  procList : Nat → Proc
  spawned : List Int

def initProcessManager : Procm := ⟨fun _ => ⟨.procInit, -1, 0⟩, []⟩

/-- The check that the three functions make, and the access behind it. -/
def Procm.checked {α : Type} (s : Procm) (pid : Int) (invalid : α) (access : Proc → α) : Exec α :=
  if pid > pidMax then .ok invalid
  else if 0 ≤ pid ∧ pid < pidMax then .ok (access (s.procList pid.toNat))
  else .error .outOfBounds

def Procm.set (s : Procm) (pid : Int) (p : Proc) : Procm :=
  { s with procList := Function.update s.procList pid.toNat p }

/-- The semaphore is what `__chcore_sys_create_sem` returns. There is no return
statement behind it, so the result of a success can be any `rest`. -/
def internalInitProc (s : Procm) (pid sem rest : Int) : Exec (Procm × Int) :=
  s.checked pid (s, -einval) fun p =>
    if p.state ≠ .procInit then (s, -einval)
    else if sem < 0 then (s, sem)
    else (s.set pid { p with sem, state := .procRunning }, rest)

def internalExit (s : Procm) (pid ret : Int) : Exec Procm :=
  s.checked pid s fun p =>
    if p.state ≠ .procRunning then s else s.set pid { p with state := .procExit, ret }

/-- The return value, in the table that the caller finds behind the semaphore. The
result of the wait is ignored. -/
def internalWaitpid (s : Procm) (pid : Int) : Exec Int := s.checked pid (-einval) (·.ret)

/-- `spawn` from the point where the file has been read. -/
def spawn (s : Procm) (allocPid sem rest launchRet : Int) : Exec (Procm × Int) :=
  (internalInitProc s allocPid sem rest).map fun (s, ret) =>
    if ret < 0 then (s, ret)
    else if launchRet = 0 then ({ s with spawned := allocPid :: s.spawned }, allocPid)
    else (s, launchRet)

inductive ProcmRequest
  | spawn (allocPid sem rest launchRet : Int)
  | exit (badge : Nat) (ret : Int)
  | waitpid (pid : Int)

/-- The pid of a request. A badge is passed on as an `int`. -/
def ProcmRequest.pid : ProcmRequest → Int
  | .spawn allocPid _ _ _ => allocPid
  | .exit badge _ => Int.bmod badge (2 ^ 32)
  | .waitpid pid => pid

/-- `ipc_dispatch`. -/
def ipcDispatch (s : Procm) (req : ProcmRequest) : Exec Procm :=
  match req with
  | .spawn _ sem rest launchRet => (spawn s req.pid sem rest launchRet).map (·.1)
  | .exit _ ret => internalExit s req.pid ret
  | .waitpid _ => (internalWaitpid s req.pid).map fun _ => s

/-! ## The indices -/

/-- The pid is in the table, or behind its end by more than one. -/
def InTable (pid : Int) : Prop := 0 ≤ pid ∧ pid ≠ pidMax

/-- The condition: also, nobody waits for a pid of the table that was not spawned. -/
def Known (s : Procm) (req : ProcmRequest) : Prop :=
  match req with
  | .waitpid pid => InTable pid ∧ pid ∈ s.spawned ∨ pidMax < pid
  | _ => InTable req.pid

instance (s : Procm) : DecidablePred (Known s) := fun req => by
  unfold Known InTable
  cases req <;> infer_instance

lemma checked_iff {α : Type} {s : Procm} {pid : Int} {invalid : α} {access : Proc → α} :
    (∃ y, s.checked pid invalid access = .ok y) ↔ InTable pid := by
  unfold Procm.checked InTable
  by_cases hpid : pid > pidMax
  · rw [if_pos hpid]
    refine iff_of_true ⟨invalid, rfl⟩ ?_
    unfold pidMax at *
    omega
  rw [if_neg hpid]
  split
  · exact iff_of_true ⟨_, rfl⟩ (by omega)
  · exact iff_of_false nofun (by omega)

lemma exists_map_ok {α β : Type} {f : α → β} {x : Exec α} :
    (∃ y, x.map f = .ok y) ↔ ∃ y, x = .ok y := by
  cases x with
  | error e => exact iff_of_false nofun nofun
  | ok y => exact iff_of_true ⟨f y, rfl⟩ ⟨y, rfl⟩

/-- **One request.** It stays in the table if and only if its pid does. -/
theorem ipcDispatch_iff (s : Procm) (req : ProcmRequest) :
    (∃ s', ipcDispatch s req = .ok s') ↔ InTable req.pid := by
  cases req with
  | spawn => exact exists_map_ok.trans (exists_map_ok.trans checked_iff)
  | exit =>
    unfold ipcDispatch internalExit
    exact checked_iff
  | waitpid => exact exists_map_ok.trans checked_iff

lemma Known.inTable {s : Procm} {req : ProcmRequest} (h : Known s req) : InTable req.pid := by
  cases req with
  | waitpid pid =>
    rcases h with ⟨hin, -⟩ | hlt
    · exact hin
    show 0 ≤ pid ∧ pid ≠ pidMax
    unfold pidMax at *
    omega
  | spawn | exit => exact h

/-- **The table is accessed inside its bounds** by every sequence of requests that
meet the condition, and a wait that meets it for a pid that was never spawned is
answered with an error. Whatever came before, the next request stays inside if
and only if its pid is in the table or above `PID_MAX`. -/
theorem proc_list_in_bounds (reqs : List ProcmRequest)
    (hadm : Admissible ipcDispatch Known initProcessManager reqs) :
    ∃ s, run ipcDispatch initProcessManager reqs = .ok s ∧
      (∀ req, (∃ s', ipcDispatch s req = .ok s') ↔ InTable req.pid) ∧
      ∀ pid, Known s (.waitpid pid) → pid ∉ s.spawned → ∃ r < 0, internalWaitpid s pid = .ok r := by
  obtain ⟨s, hrun, -⟩ := run_total (fun s req (_ : True) hknown => by
    obtain ⟨s', hs'⟩ := (ipcDispatch_iff s req).2 hknown.inTable
    exact ⟨s', hs', trivial⟩) reqs initProcessManager trivial hadm
  refine ⟨s, hrun, ipcDispatch_iff s, fun pid hknown hnot => ⟨-einval, by decide, ?_⟩⟩
  exact if_pos (hknown.resolve_left fun h => hnot h.2)

theorem proc_list_in_bounds_child : ∃ s, run ipcDispatch initProcessManager
    [.spawn 10 3 0 0, .exit 10 5, .waitpid 10, .waitpid 2000] = .ok s := by
  obtain ⟨s, hrun, -⟩ := proc_list_in_bounds
    [.spawn 10 3 0 0, .exit 10 5, .waitpid 10, .waitpid 2000] (by decide +kernel)
  exact ⟨s, hrun⟩

/-- `PID_MAX`, a badge that is negative as an `int` and the error of `alloc_pid`
are used as indices, and a wait for a pid that is not spawned returns 0. -/
theorem proc_list_out_of_bounds :
    internalWaitpid initProcessManager 1024 = .error .outOfBounds ∧
    ipcDispatch initProcessManager (.exit (2 ^ 32 - 1) 0) = .error .outOfBounds ∧
    ipcDispatch initProcessManager (.spawn (-einval) 3 0 0) = .error .outOfBounds ∧
    internalWaitpid initProcessManager 11 = .ok 0 :=
  ⟨rfl, rfl, rfl, rfl⟩

end ChCore.Userland.ProcTable
