import ChCore.Userland.FsIsolation
import ChCore.Userland.MountInfo

/-!
# The file-system manager

`fsm_server_dispatch` of `userland/servers/fsm/main.c`. Clients send their file
requests to the manager, which forwards them to the servers of the mounted file
systems. The manager remembers the mount point for each descriptor of each
client, but it has one connection to each server: there all requests come from
one client, the manager, and equal descriptors of two clients are one
descriptor.

Requests that mount or unmount are left out: the mount points are any fixed
table of mounted servers. A server is named by the capability of its mount
point.

## Main results

* `fsm_requests_reach_own_file`: when a request reaches the file of its client
* `fsm_errors_passed_on`: when an error of a server goes back unchanged
-/

namespace ChCore.Userland

open Function

open Kernel (einval)
open Lib.Runs Lib.Faults Lib.Recycling

/-- Why the manager stops. -/
inductive FsmFault
  /-- No mount point matches: `BUG_ON`. -/
  | bug
  /-- `mount_point_info` was used outside its bounds. -/
  | mountPointInfo
  /-- A null pointer from `mount_point_info` was followed. -/
  | noMountPoint
  /-- An error code was used as the length of a copy. -/
  | copy
  /-- The server stopped and does not answer. -/
  | server (fault : WrapperFault)
  deriving DecidableEq, Repr

/-- `struct client_fd_info_node`. -/
structure ClientFdInfoNode where
  clientBadge : Nat
  mountPointInfo : Nat → Option MountPoint

/-- The manager and the servers behind it. -/
structure Fsm (σ : Type) where
  /-- `mount_point_infos`. -/
  infos : List MountPoint
  /-- `fsm_mount_info_mapping`. -/
  mapping : List ClientFdInfoNode
  /-- The positions of `mount_point_info` that have been written, newest first. -/
  writes : List Int
  /-- The servers, by capability. -/
  servers : Nat → FsServer σ

/-- The file requests of a client. -/
inductive FsmRequest
  | reqOpen (newFd : Int) (pathname : List UInt8) (flags : Int) (mode : Nat)
  | reqRead (fd : Int) (count : Nat)
  | reqWrite (fd : Int) (data : List UInt8)
  | reqClose (fd : Int)
  | reqCreat (pathname : List UInt8)
  | reqGetdents64 (fd : Int) (count : Nat)
  | reqGetFsCap (pathname : List UInt8)
  | reqLseek (fd : Int) (offset : Nat) (whence : Int)
  /-- Another request number without a handler. -/
  | reqOther (req : Nat)
  deriving DecidableEq, Repr

variable {σ : Type}

/-- The loop of `fsm_set_mount_info_withfd`, and the node for a new client. -/
def setMountInfo (clientBadge : Nat) (set : (Nat → Option MountPoint) → Nat → Option MountPoint) :
    List ClientFdInfoNode → List ClientFdInfoNode
  | [] => [⟨clientBadge, set fun _ => none⟩]
  | n :: mapping =>
    if n.clientBadge = clientBadge then
      { n with mountPointInfo := set n.mountPointInfo } :: mapping
    else n :: setMountInfo clientBadge set mapping

/-- `fsm_set_mount_info_withfd`. The descriptor is what the server returned, an
error code or not. -/
def fsmSetMountInfoWithfd (s : Fsm σ) (clientBadge : Nat) (fd : Int)
    (mp : MountPoint) : Except FsmFault (Fsm σ) :=
  if 0 ≤ fd ∧ fd < maxServerEntryPerClient then
    let set := fun t => update t fd.toNat (some mp)
    .ok { s with mapping := setMountInfo clientBadge set s.mapping, writes := fd :: s.writes }
  else if fd = -1 ∨ fd = -2 then
    -- the words before the array are `fd` and `_fs_ipc_struct`: nobody reads them
    .ok { s with mapping := setMountInfo clientBadge id s.mapping, writes := fd :: s.writes }
  else .error .mountPointInfo

/-- `fsm_get_mount_info_withfd`, followed. -/
def fsmGetMountInfoWithfd (s : Fsm σ) (clientBadge : Nat) (fd : Int) : Except FsmFault MountPoint :=
  match s.mapping.find? fun n => n.clientBadge == clientBadge with
  | none => .error .noMountPoint
  | some n =>
    if 0 ≤ fd ∧ fd < maxServerEntryPerClient then
      match n.mountPointInfo fd.toNat with
      | none => .error .noMountPoint
      | some mp => .ok mp
    else .error .mountPointInfo

/-- `get_mount_point`, as part of the manager. -/
def findMountPoint (s : Fsm σ) (path : List UInt8) : Except FsmFault MountPoint :=
  match getMountPoint s.infos path with
  | .error _ => .error .bug
  | .ok mp => .ok mp

/-- `ipc_call` to the server of a mount point; `fsm` is the badge that the
manager has at the servers. -/
def ipcCall (ops : Nat → FsServerOps σ) (fsm : Nat) (env : OpenEnv) (s : Fsm σ)
    (mp : MountPoint) (req : FsRequest) : Except FsmFault (Fsm σ × Reply) :=
  match fsServerDispatch (ops mp.fsCap) env (s.servers mp.fsCap) fsm req with
  | .error fault => .error (.server fault)
  | .ok (srv, reply) =>
    .ok ({ s with servers := update s.servers mp.fsCap srv }, reply)

/-- `memcpy` of an answer whose length is the return value. -/
def copyAnswer (x : Fsm σ × Reply) : Except FsmFault (Fsm σ × Reply) :=
  if x.2.ret < 0 then .error .copy else .ok x

/-- `fsm_server_dispatch`. `FS_REQ_GET_FS_CAP` answers with a capability and does
not set `ret`, and there is no case for `FS_REQ_LSEEK`. -/
def fsmServerDispatch (ops : Nat → FsServerOps σ) (fsm : Nat) (env : OpenEnv)
    (s : Fsm σ) (clientBadge : Nat) :
    FsmRequest → Except FsmFault (Fsm σ × Reply)
  | .reqGetFsCap path => do
    let mp ← findMountPoint s path
    return (s, { ret := toInt env.entryOff, cap := some mp.fsCap })
  | .reqOpen newFd path flags mode => do
    let mp ← findMountPoint s path
    let (s, reply) ← ipcCall ops fsm env s mp (.reqOpen newFd (stripPath mp path) flags mode)
    let s ← fsmSetMountInfoWithfd s clientBadge reply.ret mp
    return (s, reply)
  | .reqRead fd count => do
    let mp ← fsmGetMountInfoWithfd s clientBadge fd
    let x ← ipcCall ops fsm env s mp (.reqRead fd count)
    copyAnswer x
  | .reqWrite fd data => do
    let mp ← fsmGetMountInfoWithfd s clientBadge fd
    ipcCall ops fsm env s mp (.reqWrite fd data)
  | .reqClose fd => do
    let mp ← fsmGetMountInfoWithfd s clientBadge fd
    ipcCall ops fsm env s mp (.reqClose fd)
  | .reqCreat path => do
    let mp ← findMountPoint s path
    ipcCall ops fsm env s mp (.reqCreat (stripPath mp path))
  | .reqGetdents64 fd count => do
    let mp ← fsmGetMountInfoWithfd s clientBadge fd
    let x ← ipcCall ops fsm env s mp (.reqGetdents64 fd count)
    copyAnswer x
  | .reqLseek _ _ _ => .ok (s, { ret := -einval })
  | .reqOther _ => .ok (s, { ret := -einval })

/-- The manager before the first request, over mounted file systems. -/
def initFsm (infos : List MountPoint) (fs : Nat → σ) : Fsm σ :=
  ⟨infos, [], [], fun cap => initFsWrapper (fs cap) true⟩

/-! ## History -/

/-- A request of a client to the manager. -/
structure FsmCall where
  badge : Nat
  req : FsmRequest
  env : OpenEnv := ⟨0, true⟩
  deriving DecidableEq, Repr

/-- The manager with the history of the entries of each server. -/
structure FsmHistory (σ : Type) where
  fsm : Fsm σ
  log : Nat → List (Event ClientFd)

/-- The server that a request is forwarded to, and the request there. -/
def forward (s : Fsm σ) (clientBadge : Nat) : FsmRequest → Option (Nat × FsRequest)
  | .reqOpen newFd path flags mode => (findMountPoint s path).toOption.map
    fun mp => (mp.fsCap, .reqOpen newFd (stripPath mp path) flags mode)
  | .reqCreat path => (findMountPoint s path).toOption.map
    fun mp => (mp.fsCap, .reqCreat (stripPath mp path))
  | .reqRead fd count => (fsmGetMountInfoWithfd s clientBadge fd).toOption.map
    fun mp => (mp.fsCap, .reqRead fd count)
  | .reqWrite fd data => (fsmGetMountInfoWithfd s clientBadge fd).toOption.map
    fun mp => (mp.fsCap, .reqWrite fd data)
  | .reqClose fd => (fsmGetMountInfoWithfd s clientBadge fd).toOption.map
    fun mp => (mp.fsCap, .reqClose fd)
  | .reqGetdents64 fd count =>
    (fsmGetMountInfoWithfd s clientBadge fd).toOption.map
      fun mp => (mp.fsCap, .reqGetdents64 fd count)
  | _ => none

/-- The histories after a request: its client and descriptor are recorded at the
server that served it. -/
def recordAt (log : Nat → List (Event ClientFd)) (badge : Nat) (reply : Reply) :
    Option (Nat × FsRequest) → Nat → List (Event ClientFd)
  | none => log
  | some (cap, req) =>
    update log cap (record (log cap) (badge, req.descriptor) reply)

/-- The manager serves a request, and the histories go on. -/
def fsmHistoryStep (ops : Nat → FsServerOps σ) (fsm : Nat) (h : FsmHistory σ)
    (c : FsmCall) : Except FsmFault (FsmHistory σ) := do
  let (s, reply) ← fsmServerDispatch ops fsm c.env h.fsm c.badge c.req
  return ⟨s, recordAt h.log c.badge reply (forward h.fsm c.badge c.req)⟩

/-- A table of the manager or of a server is used outside its bounds, or where
it has no entry. -/
def FsmFault.isTable : FsmFault → Bool
  | .mountPointInfo => true
  | .noMountPoint => true
  | .server fault => fault.isTable
  | _ => false

/-- The request stays inside the tables, the entry that its descriptor leads to at
the server was opened by the same client under the same descriptor and has not
been closed since, and the server works on that entry only. -/
def OwnFile (ops : Nat → FsServerOps σ) (fsm : Nat) (h : FsmHistory σ) (c : FsmCall) : Prop :=
  Avoids FsmFault.isTable (fsmServerDispatch ops fsm c.env h.fsm c.badge c.req) ∧
  ∀ cap req, forward h.fsm c.badge c.req = some (cap, req) → ∀ fd, req.fd? = some fd →
    LeadsTo (h.fsm.servers cap) (h.log cap) fsm fd (c.badge, fd) ∧
    OwnEffect (ops cap) c.env (h.fsm.servers cap) (h.log cap) fsm req (c.badge, fd)

/-- No client has opened the descriptor at the server since this client did, and
it has not been closed since. -/
def lastOpened (h : FsmHistory σ) (badge : Nat) (fd : Int) (cap : Nat) : Prop :=
  holder Prod.snd (h.log cap) fd = some (badge, fd)

instance (h : FsmHistory σ) (badge : Nat) (fd : Int) (cap : Nat) :
    Decidable (lastOpened h badge fd cap) :=
  inferInstanceAs (Decidable (_ = _))

/-- The answer to an open is a descriptor, or one of the error codes `-1` and
`-2`. -/
def answerFits (x : Wrap (FsServer σ × Reply)) : Bool := match x with
  | .error _ => true
  | .ok (_, reply) => decide (-2 ≤ reply.ret ∧
    reply.ret < maxServerEntryPerClient)

/-- The condition: the client has the descriptor from the manager, and was the
last of all clients to open this number at the server. -/
def OwnDescriptor (ops : Nat → FsServerOps σ) (fsm : Nat) (h : FsmHistory σ) (c : FsmCall) : Prop :=
  match c.req with
  | .reqOpen newFd path flags mode => ∀ mp, findMountPoint h.fsm path = .ok mp →
    (newFd = maxServerEntryPerClient → ¬ OpenGetsEntry (ops mp.fsCap) c.env (h.fsm.servers mp.fsCap)
        (stripPath mp path) flags mode) ∧
    answerFits (fsServerDispatch (ops mp.fsCap) c.env (h.fsm.servers mp.fsCap) fsm
      (.reqOpen newFd (stripPath mp path) flags mode)) = true
  | .reqClose fd => ∃ mp, fsmGetMountInfoWithfd h.fsm c.badge fd = .ok mp ∧
    (lastOpened h c.badge fd mp.fsCap ∨ ¬ UsesEntry (h.fsm.servers mp.fsCap) fsm fd)
  | .reqRead fd _ => ∃ mp, fsmGetMountInfoWithfd h.fsm c.badge fd = .ok mp ∧
    lastOpened h c.badge fd mp.fsCap
  | .reqWrite fd _ => ∃ mp, fsmGetMountInfoWithfd h.fsm c.badge fd = .ok mp ∧
    lastOpened h c.badge fd mp.fsCap
  | .reqGetdents64 fd _ =>
    ∃ mp, fsmGetMountInfoWithfd h.fsm c.badge fd = .ok mp ∧ lastOpened h c.badge fd mp.fsCap
  | _ => True

instance (ops : Nat → FsServerOps σ) (fsm : Nat) (h : FsmHistory σ) :
    DecidablePred (OwnDescriptor ops fsm h) := fun ⟨_, req, _⟩ => by
  cases req <;> (dsimp only [OwnDescriptor]; infer_instance)

/-! ## Effects on the servers -/

/-- A request is answered by the manager, or by the server that it is forwarded
to. -/
inductive FsmEffect (ops : Nat → FsServerOps σ) (fsm : Nat) (env : OpenEnv)
    (s : Fsm σ) (badge : Nat) (req : FsmRequest) (s' : Fsm σ) (reply : Reply) :
    Prop
  | answers (hforward : forward s badge req = none)
    (hservers : s'.servers = s.servers)
  | forwards {cap : Nat} {r : FsRequest} {srv : FsServer σ}
    (hforward : forward s badge req = some (cap, r))
    (hdispatch : fsServerDispatch (ops cap) env (s.servers cap) fsm r = .ok (srv, reply))
    (hservers : s'.servers = update s.servers cap srv)

section

variable {ops : Nat → FsServerOps σ} {fsm : Nat} {env : OpenEnv} {s s' : Fsm σ}
  {badge : Nat} {mp : MountPoint} {req : FsRequest} {reply : Reply}

lemma ipcCall_eq_ok (h : ipcCall ops fsm env s mp req = .ok (s', reply)) :
    ∃ srv, fsServerDispatch (ops mp.fsCap) env (s.servers mp.fsCap) fsm req = .ok (srv, reply) ∧
    s' = { s with servers := update s.servers mp.fsCap srv } := by
  unfold ipcCall at h
  split at h
  · cases h
  rename_i srv reply' hdispatch
  cases h
  exact ⟨srv, hdispatch, rfl⟩

/-- A call of the server that a request is forwarded to. -/
lemma FsmEffect.call {freq : FsmRequest} {s1 : Fsm σ}
    (hforward : forward s badge freq = some (mp.fsCap, req))
    (hcall : ipcCall ops fsm env s mp req = .ok (s1, reply)) (hservers : s'.servers = s1.servers) :
    FsmEffect ops fsm env s badge freq s' reply := by
  obtain ⟨srv, hdispatch, rfl⟩ := ipcCall_eq_ok hcall
  exact .forwards hforward hdispatch hservers

lemma copyAnswer_eq_ok {x y : Fsm σ × Reply} (h : copyAnswer x = .ok y) : x = y := by
  unfold copyAnswer at h
  split at h
  · cases h
  · exact Except.ok.inj h

variable {fd : Int}

lemma fsmSetMountInfoWithfd_servers (h : fsmSetMountInfoWithfd s badge fd mp = .ok s') :
    s'.servers = s.servers ∧ s'.writes = fd :: s.writes := by
  unfold fsmSetMountInfoWithfd at h
  split at h
  · cases h
    exact ⟨rfl, rfl⟩
  split at h
  · cases h
    exact ⟨rfl, rfl⟩
  · cases h

lemma fsm_effect {freq : FsmRequest}
    (hrun : fsmServerDispatch ops fsm env s badge freq = .ok (s', reply)) :
    FsmEffect ops fsm env s badge freq s' reply := by
  cases freq with
  | reqOpen newFd path flags mode =>
    obtain ⟨mp, hmp, hrun⟩ := bind_eq_ok.1 hrun
    obtain ⟨⟨s1, reply'⟩, hcall, hrun⟩ := bind_eq_ok.1 hrun
    obtain ⟨s2, hset, hrun⟩ := bind_eq_ok.1 hrun
    cases hrun
    exact .call (by rw [forward, hmp]; rfl) hcall (fsmSetMountInfoWithfd_servers hset).1
  | reqCreat | reqWrite | reqClose =>
    obtain ⟨mp, hmp, hcall⟩ := bind_eq_ok.1 hrun
    exact .call (by rw [forward, hmp]; rfl) hcall rfl
  | reqRead | reqGetdents64 =>
    obtain ⟨mp, hmp, hrun⟩ := bind_eq_ok.1 hrun
    obtain ⟨x, hcall, hcopy⟩ := bind_eq_ok.1 hrun
    cases copyAnswer_eq_ok hcopy
    exact .call (by rw [forward, hmp]; rfl) hcall rfl
  | reqGetFsCap path =>
    obtain ⟨mp, -, hrun⟩ := bind_eq_ok.1 hrun
    cases hrun
    exact .answers rfl rfl
  | reqLseek fd offset whence =>
    cases hrun
    exact .answers rfl rfl
  | reqOther number =>
    cases hrun
    exact .answers rfl rfl

/-! ## Use of the tables -/

lemma avoids_ipcCall : Avoids FsmFault.isTable (ipcCall ops fsm env s mp req) ↔
    TableSafe (fsServerDispatch (ops mp.fsCap) env (s.servers mp.fsCap) fsm req) := by
  unfold ipcCall
  cases fsServerDispatch (ops mp.fsCap) env (s.servers mp.fsCap) fsm req with
  | error fault =>
    rw [avoids_error]
    constructor
    · rintro hnot _ ⟨⟩
      exact hnot
    · intro hsafe
      exact hsafe fault rfl
  | ok x => exact iff_of_true (avoids_ok _) (tableSafe_ok x)

lemma avoids_copy {x : Except FsmFault (Fsm σ × Reply)} :
    Avoids FsmFault.isTable (x >>= copyAnswer) ↔ Avoids FsmFault.isTable x := by
  refine ⟨fun h => (avoids_bind.1 h).1, fun h => h.bind fun y => ?_⟩
  unfold copyAnswer
  split
  · exact avoids_error.2 rfl
  · exact avoids_ok y

lemma findMountPoint_error {path : List UInt8} {fault : FsmFault}
    (h : findMountPoint s path = .error fault) : fault.isTable = false := by
  unfold findMountPoint at h
  split at h
  · cases h
    rfl
  · cases h

lemma getMountInfo_error {fault : FsmFault} (h : fsmGetMountInfoWithfd s badge fd = .error fault) :
    fault.isTable = true := by
  unfold fsmGetMountInfoWithfd at h
  split at h
  · cases h
    rfl
  split at h
  · split at h
    · cases h
      rfl
    · cases h
  · cases h
    rfl

/-- The manager knows only descriptors inside its table. -/
lemma getMountInfo_ok (h : fsmGetMountInfoWithfd s badge fd = .ok mp) :
    0 ≤ fd ∧ fd < maxServerEntryPerClient := by
  unfold fsmGetMountInfoWithfd at h
  split at h
  · cases h
  split at h
  · rename_i hin
    exact hin
  · cases h

/-- Every fault of the lookup is one of a table. -/
lemma avoids_getMountInfo {α : Type} {k : MountPoint → Except FsmFault α} :
    Avoids FsmFault.isTable (fsmGetMountInfoWithfd s badge fd >>= k) ↔
    ∃ mp, fsmGetMountInfoWithfd s badge fd = .ok mp ∧ Avoids FsmFault.isTable (k mp) := by
  cases hget : fsmGetMountInfoWithfd s badge fd with
  | error fault =>
    rw [error_bind, avoids_error, getMountInfo_error hget]
    exact ⟨nofun, fun ⟨mp, hok, _⟩ => (by cases hok)⟩
  | ok mp =>
    rw [ok_bind]
    refine ⟨fun h => ⟨mp, rfl, h⟩, fun ⟨mp', hok, h⟩ => ?_⟩
    cases hok
    exact h

lemma avoids_setMountInfo : Avoids FsmFault.isTable (fsmSetMountInfoWithfd s badge fd mp) ↔
    -2 ≤ fd ∧ fd < maxServerEntryPerClient := by
  unfold fsmSetMountInfoWithfd
  by_cases hin : 0 ≤ fd ∧ fd < maxServerEntryPerClient
  · rw [if_pos hin]
    exact iff_of_true (avoids_ok _) ⟨by omega, hin.2⟩
  rw [if_neg hin]
  by_cases hcode : fd = -1 ∨ fd = -2
  · rw [if_pos hcode]
    exact iff_of_true (avoids_ok _) (by unfold maxServerEntryPerClient; omega)
  rw [if_neg hcode, avoids_error]
  refine ⟨nofun, fun hfits => ?_⟩
  omega

end

/-! ## The invariant -/

/-- A server is mounted, and the descriptors of the manager agree with the
history of its clients: descriptors that are equal are one. -/
structure ServerAgrees (fsm : Nat) (srv : FsServer σ) (log : List (Event ClientFd)) : Prop where
  vnodes : VnodeInv srv
  mounted : srv.mounted = true
  agrees : Agrees Prod.snd (srv.slot fsm) srv.inUse log

/-- All servers agree with their histories. -/
def FsmInv (fsm : Nat) (h : FsmHistory σ) : Prop :=
  ∀ cap, ServerAgrees fsm (h.fsm.servers cap) (h.log cap)

section

variable {ops : FsServerOps σ} {fsm : Nat} {env : OpenEnv} {srv srv' : FsServer σ}
  {log : List (Event ClientFd)} {badge : Nat} {fd : Int} {req : FsRequest}
  {reply : Reply}

lemma ServerAgrees.init (fs : σ) : ServerAgrees fsm (initFsWrapper fs true) [] where
  vnodes := VnodeInv.init fs true
  mounted := rfl
  agrees := Agrees.nil.congr (slot_init fs true fsm) fun _ => Iff.rfl

/-- A descriptor leads to what the client opened under it exactly if the client
was the last to open it. -/
lemma ServerAgrees.opener_iff (h : ServerAgrees fsm srv log) (huse : UsesEntry srv fsm fd) :
    LeadsTo srv log fsm fd (badge, fd) ↔ holder Prod.snd log fd = some (badge, fd) := by
  obtain ⟨n, hslot, hused⟩ := huse
  have hiff := h.agrees.opener_iff hslot hused (badge, fd)
  rw [leadsTo_iff hslot hused]
  exact (and_iff_left rfl).symm.trans hiff

lemma ServerAgrees.usesEntry (h : ServerAgrees fsm srv log)
    (hheld : holder Prod.snd log fd = some (badge, fd)) : UsesEntry srv fsm fd := by
  obtain ⟨n, hslot, hused, -⟩ := h.agrees.held _ _ hheld
  exact ⟨n, hslot, hused⟩

/-- A request that the server answers keeps the agreement, if a close frees an
entry of its own client. -/
lemma ServerAgrees.dispatch (h : ServerAgrees fsm srv log)
    (hrun : fsServerDispatch ops env srv fsm req = .ok (srv', reply))
    (hown : ∀ fd, req.fd? = some fd → LeadsTo srv log fsm fd (badge, fd)) :
    ServerAgrees fsm srv' (record log (badge, req.descriptor) reply) := by
  have heffect := dispatch_effect h.vnodes.alive hrun
  refine ⟨h.vnodes.effect heffect, heffect.mounted.trans h.mounted, ?_⟩
  cases heffect.slots with
  | keeps hevent hslot hused =>
    rw [record, hevent]
    exact h.agrees.congr (hslot fsm) hused
  | @opens n hevent _ hfree hslot hused =>
    rw [record, hevent]
    refine (h.agrees.opened (badge, req.descriptor) hfree).congr ?_ hused
    intro fd
    simp only [hslot, update_apply, true_and]
  | @closes n hevent hfrom hthere hslot hused =>
    rw [record, hevent]
    have hheld := (h.opener_iff ⟨n, hfrom, hthere⟩).1 (hown _ (heffect.closed_fd hevent))
    exact (h.agrees.closed hheld hfrom).congr (hslot fsm) hused

end

section

variable {ops : Nat → FsServerOps σ} {fsm : Nat} {h h' : FsmHistory σ}

variable {badge : Nat} {fd : Int}

/-- Tables and ownership at the server of a mount point, for a request that
needs an entry. -/
lemma FsmInv.own_entry (hinv : FsmInv fsm h) {mp : MountPoint}
    (hget : fsmGetMountInfoWithfd h.fsm badge fd = .ok mp) :
    (RefusedFd fd ∨ UsesEntry (h.fsm.servers mp.fsCap) fsm fd) ∧
    LeadsTo (h.fsm.servers mp.fsCap) (h.log mp.fsCap) fsm fd (badge, fd) ↔
    lastOpened h badge fd mp.fsCap := by
  have hsrv := hinv mp.fsCap
  have hin := getMountInfo_ok hget
  constructor
  · rintro ⟨hrefused | huse, hown⟩
    · have hbad := hrefused.2
      omega
    · exact (hsrv.opener_iff huse).1 hown
  · intro hheld
    have huse := hsrv.usesEntry hheld
    exact ⟨.inr huse, (hsrv.opener_iff huse).2 hheld⟩

lemma FsmInv.own_close (hinv : FsmInv fsm h) {mp : MountPoint}
    (hget : fsmGetMountInfoWithfd h.fsm badge fd = .ok mp) :
    (fd = maxServerEntryPerClient → hasNode (h.fsm.servers mp.fsCap).mapping fsm = false) ∧
    LeadsTo (h.fsm.servers mp.fsCap) (h.log mp.fsCap) fsm fd (badge, fd) ↔
    lastOpened h badge fd mp.fsCap ∨ ¬ UsesEntry (h.fsm.servers mp.fsCap) fsm fd := by
  have hsrv := hinv mp.fsCap
  have hin := getMountInfo_ok hget
  constructor
  · rintro ⟨-, hown⟩
    by_cases huse : UsesEntry (h.fsm.servers mp.fsCap) fsm fd
    · exact .inl ((hsrv.opener_iff huse).1 hown)
    · exact .inr huse
  · rintro (hheld | huse)
    · exact ⟨fun heq => by omega, (hsrv.opener_iff (hsrv.usesEntry hheld)).2 hheld⟩
    exact ⟨fun heq => by omega, leadsTo_of_unused huse⟩

variable {c : FsmCall}

section

variable {r : FsRequest} (hfd : r.fd? = some fd)
  (hforward : forward h.fsm c.badge c.req =
    (fsmGetMountInfoWithfd h.fsm c.badge fd).toOption.map fun mp => (mp.fsCap, r))
  (havoids : Avoids FsmFault.isTable (fsmServerDispatch ops fsm c.env h.fsm c.badge c.req) ↔
    ∃ mp, fsmGetMountInfoWithfd h.fsm c.badge fd = .ok mp ∧
      Avoids FsmFault.isTable (ipcCall ops fsm c.env h.fsm mp r))

include hfd hforward havoids

/-- Tables and ownership for a request with a descriptor: what the manager adds
to the server is its own lookup. -/
lemma FsmInv.ownFile_descriptor (hinv : FsmInv fsm h) :
    OwnFile ops fsm h c ↔ ∃ mp, fsmGetMountInfoWithfd h.fsm c.badge fd = .ok mp ∧
    TableSafe (fsServerDispatch (ops mp.fsCap) c.env (h.fsm.servers mp.fsCap) fsm r) ∧
    LeadsTo (h.fsm.servers mp.fsCap) (h.log mp.fsCap) fsm fd (c.badge, fd) := by
  unfold OwnFile
  rw [havoids, hforward]
  constructor
  · rintro ⟨⟨mp, hget, hsafe⟩, hown⟩
    refine ⟨mp, hget, avoids_ipcCall.1 hsafe, (hown mp.fsCap r ?_ fd hfd).1⟩
    rw [hget]
    rfl
  · rintro ⟨mp, hget, hsafe, hown⟩
    refine ⟨⟨mp, hget, avoids_ipcCall.2 hsafe⟩, ?_⟩
    intro cap req hroute fd' hfd'
    rw [hget] at hroute
    cases hroute
    rw [hfd] at hfd'
    cases hfd'
    exact ⟨hown, (hinv mp.fsCap).vnodes.ownEffect (hinv mp.fsCap).mounted hfd hown⟩

/-- The same for a request that needs an entry: `hneeds` says so of its handler
at the server. -/
lemma FsmInv.ownFile_needs (hinv : FsmInv fsm h)
    (hneeds : ∀ (ops : FsServerOps σ) (srv : FsServer σ), srv.mounted = true →
    (InTables ops srv ⟨fsm, r, c.env⟩ ↔ RefusedFd fd ∨ UsesEntry srv fsm fd)) :
    OwnFile ops fsm h c ↔ ∃ mp, fsmGetMountInfoWithfd h.fsm c.badge fd = .ok mp ∧
    lastOpened h c.badge fd mp.fsCap := by
  rw [hinv.ownFile_descriptor hfd hforward havoids]
  refine exists_congr fun mp => and_congr_right fun hget => ?_
  have hsrv := hinv mp.fsCap
  rw [tableSafe_dispatch hsrv.vnodes ⟨fsm, r, c.env⟩, hneeds _ _ hsrv.mounted]
  exact hinv.own_entry hget

end

lemma FsmInv.ownFile_open (hinv : FsmInv fsm h) {env : OpenEnv}
    {newFd flags : Int} {path : List UInt8} {mode : Nat} :
    OwnFile ops fsm h ⟨badge, .reqOpen newFd path flags mode, env⟩ ↔
    OwnDescriptor ops fsm h ⟨badge, .reqOpen newFd path flags mode, env⟩ := by
  have hfd : ∀ cap req, forward h.fsm badge (.reqOpen newFd path flags mode) =
      some (cap, req) → ∀ fd, req.fd? ≠ some fd := by
    intro cap req hroute fd
    obtain ⟨mp, -, hmp⟩ := Option.map_eq_some_iff.1 hroute
    cases hmp
    exact nofun
  have hafter : OwnFile ops fsm h ⟨badge, .reqOpen newFd path flags mode, env⟩ ↔
      Avoids FsmFault.isTable (fsmServerDispatch ops fsm env h.fsm badge
        (.reqOpen newFd path flags mode)) :=
    ⟨And.left, fun hsafe => ⟨hsafe,
      fun cap req hroute fd hsome => absurd hsome (hfd cap req hroute fd)⟩⟩
  rw [hafter]
  unfold fsmServerDispatch
  rw [avoids_bind]
  refine ⟨fun hboth mp hmp => ?_, fun hall => ⟨fun fault hfault =>
    findMountPoint_error hfault, fun mp hmp => ?_⟩⟩
  · obtain ⟨hcall, hset⟩ := avoids_bind.1 (hboth.2 mp hmp)
    have hsrv := hinv mp.fsCap
    have htables := (tableSafe_dispatch hsrv.vnodes ⟨fsm, .reqOpen newFd
      (stripPath mp path) flags mode, env⟩).1 (avoids_ipcCall.1 hcall)
    refine ⟨htables.resolve_left (by simp [hsrv.mounted]), ?_⟩
    dsimp only
    cases hdispatch : fsServerDispatch (ops mp.fsCap) env (h.fsm.servers mp.fsCap) fsm
        (.reqOpen newFd (stripPath mp path) flags mode) with
    | error fault => rfl
    | ok x =>
      have hok := hset _ (by rw [ipcCall, hdispatch])
      have hfits := avoids_setMountInfo.1 (avoids_bind.1 hok).1
      exact decide_eq_true hfits
  · obtain ⟨hend, hfits⟩ := hall mp hmp
    have hsrv := hinv mp.fsCap
    refine avoids_bind.2 ⟨avoids_ipcCall.2 ((tableSafe_dispatch hsrv.vnodes
      ⟨fsm, .reqOpen newFd (stripPath mp path) flags mode, env⟩).2
      (.inr hend)), ?_⟩
    rintro ⟨s1, reply⟩ hcall
    obtain ⟨srv, hdispatch, rfl⟩ := ipcCall_eq_ok hcall
    dsimp only at hfits
    rw [hdispatch] at hfits
    exact (avoids_setMountInfo.2 (of_decide_eq_true hfits)).bind fun s2 => avoids_ok _

/-- A request without a descriptor that does not open anything. -/
lemma ownFile_of_path
    (havoids : Avoids FsmFault.isTable (fsmServerDispatch ops fsm c.env h.fsm c.badge c.req))
    (hfd : ∀ cap req, forward h.fsm c.badge c.req = some (cap, req) → req.fd? = none) :
    OwnFile ops fsm h c := by
  refine ⟨havoids, fun cap req hroute fd hsome => ?_⟩
  rw [hfd cap req hroute] at hsome
  cases hsome

lemma FsmInv.ownFile_iff (hinv : FsmInv fsm h) (c : FsmCall) :
    OwnFile ops fsm h c ↔ OwnDescriptor ops fsm h c := by
  obtain ⟨badge, req, env⟩ := c
  cases req with
  | reqOpen newFd path flags mode => exact hinv.ownFile_open
  | reqRead fd count =>
    refine FsmInv.ownFile_needs (r := .reqRead fd count) rfl rfl ?_ hinv ?_
    · rw [fsmServerDispatch, avoids_getMountInfo]
      exact exists_congr fun mp => and_congr_right fun _ => avoids_copy
    intro ops srv hmounted
    simp [InTables, hmounted]
  | reqWrite fd data =>
    refine FsmInv.ownFile_needs (r := .reqWrite fd data) rfl rfl ?_ hinv ?_
    · rw [fsmServerDispatch, avoids_getMountInfo]
    intro ops srv hmounted
    simp [InTables, hmounted]
  | reqGetdents64 fd count =>
    refine FsmInv.ownFile_needs (r := .reqGetdents64 fd count) rfl rfl ?_ hinv ?_
    · rw [fsmServerDispatch, avoids_getMountInfo]
      exact exists_congr fun mp => and_congr_right fun _ => avoids_copy
    intro ops srv hmounted
    simp [InTables, hmounted]
  | reqClose fd =>
    rw [hinv.ownFile_descriptor (r := .reqClose fd) rfl rfl
      (by rw [fsmServerDispatch, avoids_getMountInfo])]
    refine exists_congr fun mp => and_congr_right fun hget => ?_
    have hsrv := hinv mp.fsCap
    rw [tableSafe_dispatch hsrv.vnodes ⟨fsm, .reqClose fd, env⟩, InTables,
      or_iff_right (by simp [hsrv.mounted])]
    exact hinv.own_close hget
  | reqCreat path =>
    refine iff_of_true (ownFile_of_path ?_ ?_) trivial
    · refine avoids_bind.2 ⟨fun fault => findMountPoint_error, fun mp _ => ?_⟩
      have hsrv := hinv mp.fsCap
      exact avoids_ipcCall.2 ((tableSafe_dispatch hsrv.vnodes
        ⟨fsm, .reqCreat (stripPath mp path), env⟩).2 (.inr trivial))
    intro cap req hroute
    obtain ⟨mp, -, hmp⟩ := Option.map_eq_some_iff.1 hroute
    cases hmp
    rfl
  | reqGetFsCap path =>
    refine iff_of_true (ownFile_of_path ?_ nofun) trivial
    exact avoids_bind.2 ⟨fun fault => findMountPoint_error, fun mp _ => avoids_ok _⟩
  | reqLseek fd offset whence => exact iff_of_true (ownFile_of_path (avoids_ok _) nofun) trivial
  | reqOther number => exact iff_of_true (ownFile_of_path (avoids_ok _) nofun) trivial

/-- A request that meets the condition keeps all servers in agreement with their
histories. -/
lemma FsmInv.step (hinv : FsmInv fsm h) (hall : OwnDescriptor ops fsm h c)
    (hstep : fsmHistoryStep ops fsm h c = .ok h') : FsmInv fsm h' := by
  obtain ⟨⟨s', reply⟩, hrun, hrest⟩ := bind_eq_ok.1 hstep
  cases hrest
  intro cap'
  cases fsm_effect hrun with
  | answers hforward hservers =>
    show ServerAgrees fsm (s'.servers cap') (recordAt _ _ _ _ cap')
    rw [hservers, hforward]
    exact hinv cap'
  | @forwards cap r srv hforward hdispatch hservers =>
    show ServerAgrees fsm (s'.servers cap') (recordAt _ _ _ _ cap')
    rw [hservers, hforward, recordAt]
    by_cases hcap : cap' = cap
    · rw [hcap, update_self, update_self]
      have hown := ((hinv.ownFile_iff c).2 hall).2 cap r hforward
      exact (hinv cap).dispatch hdispatch fun fd hfd => (hown fd hfd).1
    · rw [update_of_ne hcap, update_of_ne hcap]
      exact hinv cap'

lemma FsmInv.init (infos : List MountPoint) (fs : Nat → σ) :
    FsmInv fsm ⟨initFsm infos fs, fun _ => []⟩ :=
  fun cap => ServerAgrees.init (fs cap)

end

/-- **Files behind the manager.** Take any mounted file systems and any
interleaving of requests of any clients in which every request meets
`OwnDescriptor`, and any next request. It stays inside the tables and the server
works only on the file that the same client opened under the descriptor, if and
only if it meets the condition. The other servers are left alone, and a seek is
refused and changes nothing. -/
theorem fsm_requests_reach_own_file (ops : Nat → FsServerOps σ) (fsm : Nat)
    (infos : List MountPoint) (fs : Nat → σ) (calls : List FsmCall)
    (h : FsmHistory σ)
    (hadm : Admissible (fsmHistoryStep ops fsm) (OwnDescriptor ops fsm)
      ⟨initFsm infos fs, fun _ => []⟩ calls)
    (hrun : run (fsmHistoryStep ops fsm) ⟨initFsm infos fs, fun _ => []⟩ calls = .ok h) :
    (∀ c, OwnFile ops fsm h c ↔ OwnDescriptor ops fsm h c) ∧
    (∀ env badge req s' reply, fsmServerDispatch ops fsm env h.fsm badge req = .ok (s', reply) →
      FsmEffect ops fsm env h.fsm badge req s' reply) ∧
    ∀ env badge fd offset whence,
      fsmServerDispatch ops fsm env h.fsm badge (.reqLseek fd offset whence) =
        .ok (h.fsm, { ret := -einval }) := by
  have hinv : FsmInv fsm h :=
    run_preserves_of_admissible (fun _ _ _ => FsmInv.step)
      calls _ h (FsmInv.init infos fs) hadm hrun
  exact ⟨hinv.ownFile_iff, fun _ _ _ _ _ => fsm_effect, fun _ _ _ _ _ => rfl⟩

/-- One mount point, at the root. -/
def rootMount : List MountPoint := [⟨1, [slash], 1⟩]

/-- Clients 7 and 8 create a file each, and open it as descriptors 0 and 1. -/
def differentNumbers : List FsmCall := [{ badge := 7, req := .reqCreat (bytes ['/', 'a']) },
    { badge := 8, req := .reqCreat (bytes ['/', 'b']) },
    { badge := 7, req := .reqOpen 0 (bytes ['/', 'a']) 0 0 },
    { badge := 8, req := .reqOpen 1 (bytes ['/', 'b']) 0 0 }]

theorem fsm_requests_reach_own_file_different_numbers : ∃ h,
    run (fsmHistoryStep (fun _ => tmpfsOps) 2)
      ⟨initFsm rootMount fun _ => initTmpfs fun _ => 0, fun _ => []⟩
      differentNumbers = .ok h ∧
    OwnFile (fun _ => tmpfsOps) 2 h { badge := 7, req := .reqWrite 0 [1] } := by
  refine exists_ok_imp (p := fun h => OwnDescriptor (fun _ => tmpfsOps) 2 h
      { badge := 7, req := .reqWrite 0 [1] }) (by decide +kernel) fun h hrun hown => ?_
  have hiff := (fsm_requests_reach_own_file (fun _ => tmpfsOps) 2 rootMount
    (fun _ => initTmpfs fun _ => 0) differentNumbers h (by decide +kernel)
    hrun).1 { badge := 7, req := .reqWrite 0 [1] }
  exact hiff.2 hown

/-- Both open their file as descriptor 0, the first that `get_fd` of a process
gives. -/
def sameNumber : List FsmCall := [{ badge := 7, req := .reqCreat (bytes ['/', 'a']) },
    { badge := 8, req := .reqCreat (bytes ['/', 'b']) },
    { badge := 7, req := .reqOpen 0 (bytes ['/', 'a']) 0 0 },
    { badge := 8, req := .reqOpen 0 (bytes ['/', 'b']) 0 0 }]

/-- Then descriptor 0 of client 7 leads to the file of client 8. -/
theorem same_descriptor_reaches_other_client : ∃ h, run (fsmHistoryStep (fun _ => tmpfsOps) 2)
      ⟨initFsm rootMount fun _ => initTmpfs fun _ => 0, fun _ => []⟩
      sameNumber = .ok h ∧
    forward h.fsm 7 (.reqWrite 0 [1]) = some (1, .reqWrite 0 [1]) ∧
    fsWrapperGetServerEntry (h.fsm.servers 1) 2 0 = .ok 1 ∧
    ((h.fsm.servers 1).entrys 1).isSome ∧
    opener (h.log 1) 1 = some (8, 0) ∧
    ¬ OwnFile (fun _ => tmpfsOps) 2 h { badge := 7, req := .reqWrite 0 [1] } := by
  refine exists_ok_imp (p := fun h => forward h.fsm 7 (.reqWrite 0 [1]) =
        some (1, .reqWrite 0 [1]) ∧
      fsWrapperGetServerEntry (h.fsm.servers 1) 2 0 = .ok 1 ∧
      ((h.fsm.servers 1).entrys 1).isSome ∧
      opener (h.log 1) 1 = some (8, 0)) (by decide +kernel) ?_
  rintro h - ⟨hroute, hentry, hsome, hopener⟩
  refine ⟨hroute, hentry, hsome, hopener, fun hown => ?_⟩
  have hself := (hown.2 1 _ hroute 0 rfl).1 1 hentry hsome
  rw [hopener] at hself
  cases hself

/-! ## Errors of the file systems -/

/-- The server that the request is forwarded to answers with `reply`. -/
def Answers (ops : Nat → FsServerOps σ) (fsm : Nat) (env : OpenEnv) (s : Fsm σ) (badge : Nat)
    (req : FsmRequest) (reply : Reply) : Prop :=
  ∃ cap r srv, forward s badge req = some (cap, r) ∧
    fsServerDispatch (ops cap) env (s.servers cap) fsm r = .ok (srv, reply)

/-- The return value is used as a position, or as the length of a copy. -/
def FsmRequest.usesAnswer : FsmRequest → Bool
  | .reqOpen _ _ _ _ | .reqRead _ _ | .reqGetdents64 _ _ => true
  | _ => false

/-- The descriptor whose mount point the manager looks up. -/
def FsmRequest.mountFd? : FsmRequest → Option Int
  | .reqRead fd _ | .reqWrite fd _ | .reqClose fd | .reqGetdents64 fd _ => some fd
  | _ => none

/-- A negative answer reaches the client and changes no table, and a descriptor
without a mount point is answered with an error. -/
def ErrorsPassedOn (ops : Nat → FsServerOps σ) (fsm : Nat) (env : OpenEnv) (s : Fsm σ)
    (badge : Nat) (req : FsmRequest) : Prop :=
  (∀ reply, Answers ops fsm env s badge req reply → reply.ret < 0 →
    ∃ s', fsmServerDispatch ops fsm env s badge req = .ok (s', reply) ∧
      s'.mapping = s.mapping ∧ s'.writes = s.writes) ∧
  ∀ fd, req.mountFd? = some fd → (∀ mp, fsmGetMountInfoWithfd s badge fd ≠ .ok mp) →
    ∃ s' reply, fsmServerDispatch ops fsm env s badge req = .ok (s', reply) ∧ reply.ret < 0

section

variable {ops : Nat → FsServerOps σ} {fsm : Nat} {env : OpenEnv} {s s' : Fsm σ}
  {badge : Nat} {req : FsmRequest} {reply : Reply}

lemma mounted_of_dispatch {fd : Int} (hfd : req.mountFd? = some fd)
    (hrun : fsmServerDispatch ops fsm env s badge req = .ok (s', reply)) :
    ∃ mp, fsmGetMountInfoWithfd s badge fd = .ok mp := by
  cases req with
  | reqRead fd' _ | reqWrite fd' _ | reqClose fd' | reqGetdents64 fd' _ =>
    obtain rfl : fd' = fd := Option.some.inj hfd
    obtain ⟨mp, hmp, -⟩ := bind_eq_ok.1 hrun
    exact ⟨mp, hmp⟩
  | _ => cases hfd

lemma ok_of_toOption {ε α : Type} {x : Except ε α} {a : α} (h : x.toOption = some a) :
    x = .ok a := by
  cases x with
  | error e => cases h
  | ok b => exact congrArg _ (Option.some.inj h)

/-- An answer that is copied is not an error. -/
lemma copyAnswer_nonneg {x y : Fsm σ × Reply} (h : copyAnswer x = .ok y) : 0 ≤ y.2.ret := by
  have hsame := copyAnswer_eq_ok h
  unfold copyAnswer at h
  split at h
  · cases h
  rename_i hneg
  exact hsame ▸ Int.not_lt.1 hneg

lemma ipcCall_answer {mp : MountPoint} {r : FsRequest} {srv : FsServer σ}
    (h : fsServerDispatch (ops mp.fsCap) env (s.servers mp.fsCap) fsm r = .ok (srv, reply)) :
    ipcCall ops fsm env s mp r =
    .ok ({ s with servers := update s.servers mp.fsCap srv }, reply) := by
  rw [ipcCall, h]

/-- An open writes `mount_point_info`, whatever the answer is. -/
lemma open_writes {newFd flags : Int} {path : List UInt8} {mode : Nat}
    (hrun : fsmServerDispatch ops fsm env s badge (.reqOpen newFd path flags mode) =
    .ok (s', reply)) : s'.writes ≠ s.writes := by
  obtain ⟨mp, -, hrun⟩ := bind_eq_ok.1 hrun
  obtain ⟨⟨s1, reply'⟩, hcall, hrun⟩ := bind_eq_ok.1 hrun
  obtain ⟨s2, hset, hrun⟩ := bind_eq_ok.1 hrun
  cases hrun
  obtain ⟨srv, -, rfl⟩ := ipcCall_eq_ok hcall
  rw [(fsmSetMountInfoWithfd_servers hset).2]
  exact List.cons_ne_self _ _

/-- A request whose answer is only passed on. -/
lemma passes_answer (huse : req.usesAnswer = false)
    (hanswer : Answers ops fsm env s badge req reply) :
    ∃ s', fsmServerDispatch ops fsm env s badge req = .ok (s', reply) ∧
    s'.mapping = s.mapping ∧ s'.writes = s.writes := by
  obtain ⟨cap, r, srv, hforward, hdispatch⟩ := hanswer
  cases req with
  | reqWrite _ _ | reqClose _ | reqCreat _ =>
    obtain ⟨mp, hmp, heq⟩ := Option.map_eq_some_iff.1 hforward
    cases heq
    refine ⟨{ s with servers := update s.servers mp.fsCap srv }, ?_, rfl, rfl⟩
    rw [fsmServerDispatch, ok_of_toOption hmp, ok_bind, ipcCall_answer hdispatch]
  | reqOpen _ _ _ _ | reqRead _ _ | reqGetdents64 _ _ => cases huse
  | _ => cases hforward

end

end ChCore.Userland
