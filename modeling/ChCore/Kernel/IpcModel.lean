import ChCore.Kernel.SchedModel

/-!
# IPC connections

`ipc/connection.c`. A connection has one server thread, and records the thread
that called through it last. A call switches to the server thread at once and a
return switches back, without the ready queues.

Capability groups are not part of this model. What is kept of the transfer of
capabilities is where it can stop: it reads user memory, and it follows
`conn->source`.
-/

namespace ChCore.Kernel

open Function

/-- `MAX_CAP_TRANSFER`. -/
def maxCapTransfer : Nat := 8

/-- `struct ipc_connection`. -/
structure Connection where
  source : Option ThreadId
  target : ThreadId
  /-- `target->general_ipc_config->callback`. -/
  callback : Nat
  serverStackTop : Nat
  clientUserAddr : Nat
  serverUserAddr : Nat
  ipcMsg : Nat
  deriving DecidableEq, Repr

structure IpcState where
  k : SchedState
  conns : Nat → Connection
  /-- How many connections have been created. -/
  connCount : Nat

namespace IpcState

def setThread (st : IpcState) (t : ThreadId) (th : Thread) : IpcState :=
  { st with k := st.k.setThread t th }

def setConn (st : IpcState) (c : Nat) (conn : Connection) : IpcState :=
  { st with conns := update st.conns c conn }

end IpcState

/-! ## Creating a connection -/

/-- The settings of a new connection, and what the memory of the new
`struct thread` holds before it is written. -/
structure ConnArgs where
  callback : Nat
  serverStackTop : Nat
  clientUserAddr : Nat
  serverUserAddr : Nat
  junkConn : Option Nat
  junkPrev : PrevThread
  deriving DecidableEq, Repr

/-- `create_server_thread`: `active_conn` and `prev_thread` are not
initialized. -/
def createServerThread (k : SchedState) (src : ThreadId) (args : ConnArgs) :
    SchedState × ThreadId :=
  let t := .obj k.threadCount
  let th : Thread :=
    { ec := (k.threads src).ec
      type := .shadow
      pid := (k.threads src).pid
      activeConn := args.junkConn
      prevThread := args.junkPrev }
  ({ k.setThread t th with threadCount := k.threadCount + 1 }, t)

/-- `create_connection` with the server thread `target`. -/
def createConnection (st : IpcState) (target : ThreadId) (args : ConnArgs) : IpcState :=
  let (k, t) := createServerThread st.k target args
  { k
    conns := update st.conns st.connCount
      { source := none
        target := t
        callback := args.callback
        serverStackTop := args.serverStackTop
        clientUserAddr := args.clientUserAddr
        serverUserAddr := args.serverUserAddr
        ipcMsg := 0 }
    connCount := st.connCount + 1 }

/-! ## Calls -/

def threadMigrateToServer (st : IpcState) (cpu : Cpu) (c : Nat) (arg : Nat) : Exec IpcState := do
  let conn := st.conns c
  let target := conn.target
  let cur ← derefPtr (st.k.current cpu)
  let st := st.setConn c { conn with source := some cur }
  let st := st.setThread cur { st.k.threads cur with state := .waiting }
  let th := st.k.threads target
  let st := st.setThread target { th with
    activeConn := some c
    ec :=
      { spEl0 := conn.serverStackTop
        elrEl1 := conn.callback
        x0 := arg
        x1 := (st.k.threads cur).pid }
    sc := (st.k.threads cur).sc }
  let (k, _) ← switchToThread st.k cpu target
  return { st with k }

/-- `ipc_send_cap`. `slots` is the `cap_slot_number` that is read from the
message, or `none` if a read of the message fails: that of this number, of
`cap_slots_offset`, or of the capabilities behind it. Which capabilities are
copied is left out. -/
def ipcSendCap (conn : Connection) (slots : Option Nat) : Exec Int := match slots with
  | none => .error .bug
  | some n =>
    if n = 0 then .ok 0
    else if n ≥ maxCapTransfer then .ok (-einval)
    else do
      -- `conn->source->cap_group`
      let _ ← derefPtr conn.source
      return 0

/-- `sys_ipc_call` on the connection that the capability denotes. There is no
return value when the thread migrates. -/
def sysIpcCall (st : IpcState) (cpu : Cpu) (conn : Option Nat) (ipcMsg : Nat)
    (capNum : Nat) (slots : Option Nat) : Exec (IpcState × Option Int) :=
  match conn with
  | none => .ok (st, some (-ecapbility))
  | some c => do
    let conn := { st.conns c with ipcMsg }
    let st := st.setConn c conn
    if capNum > 0 then
      -- the result is not looked at
      let _ ← ipcSendCap conn slots
    let arg := if ipcMsg = 0 then 0
      else u64 (ipcMsg + 2 ^ 64 - u64 (conn.clientUserAddr + 2 ^ 64 - conn.serverUserAddr))
    let st ← threadMigrateToServer st cpu c arg
    return (st, none)

/-! ## Returns -/

def threadMigrateToClient (st : IpcState) (cpu : Cpu) (conn : Connection)
    (retValue : Nat) : Exec IpcState := do
  let cur ← derefPtr (st.k.current cpu)
  let source ← derefPtr conn.source
  let st := st.setThread cur { st.k.threads cur with activeConn := none }
  let th := st.k.threads source
  let st := st.setThread source { th with ec := { th.ec with x0 := retValue } }
  let (k, _) ← switchToThread st.k cpu source
  return { st with k }

/-- `ipc_send_cap_to_client`: a message that cannot be read halts the kernel. -/
def ipcSendCapToClient (conn : Connection) (slots : Option Nat) : Exec Unit := match slots with
  | none => .error .bug
  | some _ => do
    let _ ← derefPtr conn.source
    return ()

/-- `sys_ipc_return`. It returns to its caller only if the thread serves no
call. -/
def sysIpcReturn (st : IpcState) (cpu : Cpu) (ret : Nat) (capNum : Nat)
    (slots : Option Nat) : Exec IpcState := do
  let cur ← derefPtr (st.k.current cpu)
  match (st.k.threads cur).activeConn with
  | none => .ok st
  | some c =>
    let conn := st.conns c
    if capNum ≠ 0 then
      ipcSendCapToClient conn slots
    let source ← derefPtr conn.source
    let st := st.setThread source { st.k.threads source with state := .inter }
    let sc ← derefPtr (st.k.threads source).sc
    let st := { st with k := { st.k with
      budget := update st.k.budget sc defaultBudget } }
    threadMigrateToClient st cpu conn ret

end ChCore.Kernel
