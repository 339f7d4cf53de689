import ChCore.Lib.Runs

/-!
# The lock of the connection to the file systems

`fopen`, `fwrite`, `fread` and `fclose` (`libchcore/src/libc/fs.c`) use one
connection. `ipc_create_msg` takes its lock and `ipc_destroy_msg` releases it.
`fopen` returns without the second if the open fails and no file is made for it.
What the messages say does not matter here, only what is answered.
-/

namespace ChCore.Userland.FileCalls

open Lib.Runs

/-- Why a call does not return: it waits for a lock that nobody releases, or it
stops at a `BUG_ON`. -/
inductive NoReturn
  | deadlock
  | bugOn
  deriving DecidableEq

/-- The lock of `fs_ipc_struct`, and `next_fd`. -/
structure Client where
  ipcLock : Bool
  nextFd : Int
  deriving DecidableEq

def Client.init : Client := ⟨false, 0⟩

def ipcCreateMsg (c : Client) : Except NoReturn Client :=
  if c.ipcLock then .error .deadlock else .ok { c with ipcLock := true }

def ipcDestroyMsg (c : Client) : Client := { c with ipcLock := false }

/-- The C string `w`. -/
def writeMode : List UInt8 := [119]

/-- `fopen`: the descriptor in the `FILE`, or nothing for `NULL`. The answers are
those to the open, to the `creat` behind it and to the second open. -/
def fopen (c : Client) (mode : List UInt8) (ret createRet retryRet : Int) :
    Except NoReturn (Client × Option Int) := do
  let newFd := c.nextFd
  let c ← ipcCreateMsg { c with nextFd := Int.bmod (newFd + 1) (2 ^ 32) }
  if ret = newFd then return (ipcDestroyMsg c, some ret)
  else if ret < 0 ∧ mode = writeMode then
    let c ← ipcCreateMsg (ipcDestroyMsg c)
    if createRet < 0 then .error .bugOn
    else
      let c ← ipcCreateMsg (ipcDestroyMsg c)
      if retryRet = newFd then return (ipcDestroyMsg c, some retryRet) else .error .bugOn
  else return (c, none)

/-- One message and its answer. -/
def request (c : Client) (ret : Int) : Except NoReturn (Client × Int) := do
  let c ← ipcCreateMsg c
  return (ipcDestroyMsg c, ret)

/-- The answer as a `size_t`. -/
def fwrite (c : Client) (ret : Int) := request c (ret % 2 ^ 64)

def fread (c : Client) (ret : Int) := request c (ret % 2 ^ 64)

/-- The answer as an `int`. -/
def fclose (c : Client) (ret : Int) := request c (Int.bmod ret (2 ^ 32))

inductive FileCall
  | fopen (mode : List UInt8) (ret createRet retryRet : Int)
  | fwrite (ret : Int)
  | fread (ret : Int)
  | fclose (ret : Int)

def fileStep (c : Client) : FileCall → Except NoReturn Client
  | .fopen mode ret createRet retryRet => (fopen c mode ret createRet retryRet).map Prod.fst
  | .fwrite ret => (fwrite c ret).map Prod.fst
  | .fread ret => (fread c ret).map Prod.fst
  | .fclose ret => (fclose c ret).map Prod.fst

/-- The file is open, or it is to be made. -/
def OpensOrCreates (c : Client) : FileCall → Prop
  | .fopen mode ret _ _ => ret = c.nextFd ∨ ret < 0 ∧ mode = writeMode
  | _ => True

instance (c : Client) : DecidablePred (OpensOrCreates c) := fun op => by
  cases op <;> (dsimp only [OpensOrCreates]; infer_instance)

variable {c c' : Client} {call : FileCall}

lemma request_of_free (h : c.ipcLock = false) (ret : Int) :
    request c ret = .ok (ipcDestroyMsg c, ret) := by
  rw [request, ipcCreateMsg, if_neg (by rw [h]; decide)]
  rfl

/-- **One call.** The lock is free behind it if and only if it is a call as above. -/
theorem fileStep_lock (h : c.ipcLock = false) (hrun : fileStep c call = .ok c') :
    c'.ipcLock = false ↔ OpensOrCreates c call := by
  cases call with
  | fwrite ret | fread ret | fclose ret =>
    simp only [fileStep, fwrite, fread, fclose, request_of_free h] at hrun
    cases hrun
    exact iff_of_true rfl trivial
  | fopen mode ret createRet retryRet =>
    simp only [fileStep, fopen, ipcCreateMsg, ipcDestroyMsg, h, Bool.false_eq_true, if_false,
      bind, Except.bind] at hrun
    unfold OpensOrCreates
    by_cases hopen : ret = c.nextFd
    · rw [if_pos hopen] at hrun
      cases hrun
      exact iff_of_true rfl (.inl hopen)
    rw [if_neg hopen] at hrun
    by_cases hmake : ret < 0 ∧ mode = writeMode
    · rw [if_pos hmake] at hrun
      split at hrun
      · cases hrun
      split at hrun
      · cases hrun
        exact iff_of_true rfl (.inr hmake)
      · cases hrun
    · -- the branch that keeps its message
      rw [if_neg hmake] at hrun
      cases hrun
      exact iff_of_false Bool.noConfusion (not_or.2 ⟨hopen, hmake⟩)

/-- **The lock is free between calls.** In every sequence of calls in which each
`fopen` either gets its descriptor, or an error with the mode `w`, every state
that is reached has the lock free, and the next call takes it. It releases it
again, if it returns, if and only if it is such a call. -/
theorem lock_free_between_calls (calls : List FileCall) (c : Client)
    (hadm : Admissible fileStep OpensOrCreates .init calls)
    (hrun : run fileStep .init calls = .ok c) :
    c.ipcLock = false ∧ (∃ c', ipcCreateMsg c = .ok c') ∧
      ∀ call c', fileStep c call = .ok c' → (c'.ipcLock = false ↔ OpensOrCreates c call) := by
  have hfree : c.ipcLock = false := run_preserves_of_admissible
    (fun _ _ _ h hall hstep => (fileStep_lock h hstep).2 hall) calls .init c rfl hadm hrun
  refine ⟨hfree, ⟨{ c with ipcLock := true }, ?_⟩, fun call c' => fileStep_lock hfree⟩
  rw [ipcCreateMsg, if_neg (by rw [hfree]; decide)]

theorem lock_free_between_calls_create : ∃ c, run fileStep .init
    [.fopen writeMode (-2) 0 0, .fwrite 5, .fread (-9), .fclose 0] = .ok c ∧ c.ipcLock = false := by
  refine ⟨⟨false, 1⟩, by decide +kernel, ?_⟩
  exact (lock_free_between_calls [.fopen writeMode (-2) 0 0, .fwrite 5, .fread (-9), .fclose 0] _
    (by decide +kernel) (by decide +kernel)).1

/-- A file that is not there is opened for reading. The call returns `NULL`, and
the next call waits for ever. -/
theorem failed_open_keeps_lock : fopen .init [114] (-2) 0 0 = .ok (⟨true, 1⟩, none) ∧
    run fileStep .init [.fopen [114] (-2) 0 0, .fclose 0] = .error .deadlock := by
  decide +kernel

end ChCore.Userland.FileCalls
