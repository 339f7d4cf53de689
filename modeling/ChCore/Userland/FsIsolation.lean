import ChCore.Userland.FsDescriptors
import ChCore.Lib.Recycling

/-!
# Isolation of the clients of a file-system server

`fs_wrapper_close` frees the entry but leaves its position in the table of the
client, and the position can be given to another client. So a request acts on
an entry that the same client opened under the same descriptor exactly as long
as descriptors are used only between their open and their close
(`OwnAllowed`). Who opened an entry is read off the history of the requests,
which the server itself does not keep.

That a request works on one entry only (`OwnEffect`) is said of what the
dispatch does: it is the dispatch over operations that answer for the file of
this entry alone, and it leaves every other entry as it was.
-/

namespace ChCore.Userland

open Function FsServer Lib.Runs Lib.Recycling
open Kernel (enoent)

variable {σ : Type} {ops : FsServerOps σ}

/-! ## History -/

/-- A client and a descriptor. -/
abbrev ClientFd := Nat × Int

/-- A server with the history of its entries, newest first. -/
structure FsHistory (σ : Type) where
  srv : FsServer σ
  log : List (Event ClientFd)

/-- The descriptor that a request names. -/
def FsRequest.descriptor : FsRequest → Int
  | .reqOpen newFd _ _ _ => newFd
  | req => req.fd?.getD 0

/-- The history after a request in the name of `label`. -/
def record {L : Type} (log : List (Event L)) (label : L) (reply : Reply) : List (Event L) :=
  match reply.event with
  | none => log
  | some (.opened n) => .opened label n :: log
  | some (.closed n) => .closed label n :: log

/-- The server serves a request, and the history goes on. -/
def historyStep (ops : FsServerOps σ) (h : FsHistory σ) (c : FsCall) : Wrap (FsHistory σ) := do
  let (srv, reply) ← fsServerDispatch ops c.env h.srv c.badge c.req
  return ⟨srv, record h.log (c.badge, c.req.descriptor) reply⟩

/-- The client has opened the descriptor and not closed it since. -/
def holdsFd (log : List (Event ClientFd)) (badge : Nat) (fd : Int) : Prop :=
  holder id log (badge, fd) = some (badge, fd)

instance (log : List (Event ClientFd)) (badge : Nat) (fd : Int) :
    Decidable (holdsFd log badge fd) :=
  inferInstanceAs (Decidable (_ = _))

/-- A file system that stops when it is given another file or another offset. -/
def FsServerOps.onlyAt (ops : FsServerOps σ) (priv offset : Nat) : FsServerOps σ :=
  { ops with
    opRead := fun fs p off size =>
      if p = priv ∧ off = offset then ops.opRead fs p off size else .error .bug
    opWrite := fun fs p off data =>
      if p = priv ∧ off = offset then ops.opWrite fs p off data else .error .bug
    opClose := fun fs p isDir => if p = priv then ops.opClose fs p isDir else .error .bug
    opGetdents64 := fun fs p off count =>
      if p = priv ∧ off = offset then ops.opGetdents64 fs p off count else .error .bug }

/-- A request works on the entry `n`: the file system is given the file and the offset of that
entry only, and all other entries and vnodes stay as they are. -/
def WorksOn (ops : FsServerOps σ) (env : OpenEnv) (s : FsServer σ) (badge : Nat) (req : FsRequest)
    (s' : FsServer σ) (reply : Reply) (n : Nat) : Prop :=
  ∃ e v, s.entrys n = some e ∧ s.vnodes e.vnode = some v ∧
    fsServerDispatch (ops.onlyAt v.priv e.offset) env s badge req = .ok (s', reply) ∧
    (∀ i, i ≠ n → s'.entrys i = s.entrys i) ∧ ∀ q, q ≠ e.vnode → s'.vnodes q = s.vnodes q

/-- What a request with a descriptor does: it works on an entry that `label` has opened, or the
descriptor leads to no entry and nothing changes. -/
def OwnEffect {L : Type} (ops : FsServerOps σ) (env : OpenEnv) (s : FsServer σ)
    (log : List (Event L)) (badge : Nat) (req : FsRequest) (label : L) : Prop :=
  ∀ s' reply, fsServerDispatch ops env s badge req = .ok (s', reply) →
    s' = s ∧ reply = { ret := -enoent } ∨
    ∃ n, opener log n = some label ∧ WorksOn ops env s badge req s' reply n

/-- The entry that a descriptor of a client leads to was opened by `label`, and has not been
closed since. -/
def LeadsTo {L : Type} (s : FsServer σ) (log : List (Event L)) (badge : Nat) (fd : Int)
    (label : L) : Prop :=
  ∀ n : Nat, fsWrapperGetServerEntry s badge fd = .ok n → (s.entrys n).isSome →
    opener log n = some label

/-- The request stays inside the tables, the entry that its descriptor leads to was opened by
the same client under the same descriptor and has not been closed since, and the request works
on that entry only. -/
def OwnEntry (ops : FsServerOps σ) (h : FsHistory σ) (c : FsCall) : Prop :=
  TableSafe (fsServerDispatch ops c.env h.srv c.badge c.req) ∧
  (h.srv.mounted = true → ∀ fd, c.req.fd? = some fd →
    LeadsTo h.srv h.log c.badge fd (c.badge, fd)) ∧
  (h.srv.mounted = true → ∀ fd, c.req.fd? = some fd →
    OwnEffect ops c.env h.srv h.log c.badge c.req (c.badge, fd))

/-- The condition: a descriptor is used only between its open and its close by
the same client. A close may come again as long as the position has not been
given away. -/
def OwnAllowed (ops : FsServerOps σ) (h : FsHistory σ) (c : FsCall) : Prop :=
  h.srv.mounted = false ∨
  match c.req with
  | .reqOpen newFd path flags mode => newFd = maxServerEntryPerClient →
    ¬ OpenGetsEntry ops c.env h.srv path flags mode
  | .reqClose fd => holdsFd h.log c.badge fd ∨
    (fd = maxServerEntryPerClient → hasNode h.srv.mapping c.badge = false) ∧
      ¬ UsesEntry h.srv c.badge fd
  | .reqRead fd _ => RefusedFd fd ∨ holdsFd h.log c.badge fd
  | .reqWrite fd _ => RefusedFd fd ∨ holdsFd h.log c.badge fd
  | .reqLseek fd _ _ => RefusedFd fd ∨ holdsFd h.log c.badge fd
  | .reqGetdents64 fd _ => RefusedFd fd ∨ holdsFd h.log c.badge fd
  | _ => True

instance (h : FsHistory σ) : DecidablePred (OwnAllowed ops h) := fun ⟨_, req, _⟩ => by
  cases req <;> (dsimp only [OwnAllowed]; infer_instance)

/-! ## Effects on slots and entries -/

/-- The positions in use. -/
def FsServer.inUse (s : FsServer σ) (n : Nat) : Prop := (s.entrys n).isSome

/-- What a request does to the slots of all clients and to the positions in
use. -/
inductive SlotEffect (s : FsServer σ) (badge : Nat) (fd : Int)
    (s' : FsServer σ) (reply : Reply) : Prop
  | keeps (hevent : reply.event = none)
    (hslot : ∀ b fd', s'.slot b fd' = s.slot b fd')
    (hused : ∀ n, s'.inUse n ↔ s.inUse n)
  | opens {n : Nat} (hevent : reply.event = some (.opened n))
    (hret : reply.ret = fd) (hfree : ¬ s.inUse n)
    (hslot : ∀ b fd', s'.slot b fd' = if b = badge ∧ fd' = fd then some n else s.slot b fd')
    (hused : ∀ i, s'.inUse i ↔ i = n ∨ s.inUse i)
  | closes {n : Nat} (hevent : reply.event = some (.closed n))
    (hfrom : s.slot badge fd = some n) (hthere : s.inUse n)
    (hslot : ∀ b fd', s'.slot b fd' = s.slot b fd')
    (hused : ∀ i, s'.inUse i ↔ i ≠ n ∧ s.inUse i)

variable {env : OpenEnv} {s s' : FsServer σ} {badge : Nat}

/-- What an open does to the table of the client and the table of entries. -/
lemma EntryOpened.tables {newFd : Int} {path : List UInt8} {flags : Int} {mode fid : Nat}
    (hopened : EntryOpened ops env s badge newFd path flags mode fid s') :
    ∃ k vnode : Nat, newFd = k ∧ k < maxServerEntryPerClient ∧
    s.entrys fid = none ∧ s'.mapping = setFid badge k fid s.mapping ∧
    s'.entrys = update s.entrys fid (some ⟨env.entryOff, vnode⟩) := by
  obtain ⟨hfree, fs, r, s1, vnode, -, -, hvnode, hset⟩ := hopened
  obtain ⟨k, hfd, hk, rfl⟩ := fsWrapperSetServerEntry_eq_ok hset
  have hsame : s1.mapping = s.mapping ∧ s1.entrys = s.entrys := by
    rcases vnodeForOpen_cases hvnode with ⟨-, -, rfl⟩ | ⟨v, -, -, rfl⟩
    · exact ⟨rfl, rfl⟩
    · exact ⟨rfl, rfl⟩
  refine ⟨k, vnode, hfd, hk, (allocEntry_some hfree).1, ?_, ?_⟩
  · show setFid badge k fid s1.mapping = _
    rw [hsame.1]
  show update s1.entrys fid _ = _
  rw [hsame.2]

lemma slot_of_mapping (h : s'.mapping = s.mapping) (badge : Nat) (fd : Int) :
    s'.slot badge fd = s.slot badge fd := by
  unfold slot
  rw [h]

variable {req : FsRequest} {reply : Reply}

lemma DispatchEffect.slots (heffect : DispatchEffect ops env s badge req s' reply) :
    SlotEffect s badge req.descriptor s' reply := by
  cases heffect with
  | keeps fs hevent => exact .keeps hevent (fun _ _ => rfl) fun _ => Iff.rfl
  | @opens newFd path flags mode fid _ hopened =>
    obtain ⟨k, vnode, rfl, hk, hfree, hmapping, hentrys⟩ := hopened.tables
    refine .opens rfl rfl ?_ (slot_setFid hk hmapping) ?_
    · unfold inUse
      rw [hfree]
      exact nofun
    intro i
    unfold inUse
    rw [hentrys]
    by_cases hi : i = fid
    · rw [hi, update_self]
      simp
    rw [update_of_ne hi]
    simp [hi]
  | moves hfd hget hmoved hevent =>
    cases hmoved with
    | @mk n e v fs offset size hfid hn hentry hvnode =>
      refine .keeps hevent (slot_of_mapping rfl) fun i => ?_
      unfold inUse
      show (update s.entrys n _ i).isSome ↔ _
      by_cases hi : i = n
      · rw [hi, update_self, hentry]
        exact Iff.rfl
      · rw [update_of_ne hi]
  | @closes fd n e v fs hget hn hentry hvnode =>
    refine .closes rfl (getServerEntry_eq_slot.1 hget) ?_
      (slot_of_mapping (closed_mapping fs)) fun i => ?_
    · unfold inUse
      rw [hentry]
      rfl
    unfold inUse
    rw [closed_entrys]
    by_cases hi : i = n
    · rw [hi, update_self]
      simp
    rw [update_of_ne hi]
    simp [hi]

/-! ## The entry that a request works on -/

section

variable {n p : Nat} {e : ServerEntry} {v : FsVnode} {fd : Int}

/-- A handler gives the file system what the entry says. -/
lemma handle_onlyAt (hfd : req.fd? = some fd) (hat : s.entryAt n = .ok e)
    (hv : s.vnodeAt e.vnode = .ok v) :
    handleRequest (ops.onlyAt v.priv e.offset) env s badge (req.atFid n) =
    handleRequest ops env s badge (req.atFid n) := by
  cases req with
  | reqRead => simp [FsRequest.atFid, handleRequest, fsWrapperRead, hat, hv, FsServerOps.onlyAt]
  | reqWrite => simp [FsRequest.atFid, handleRequest, fsWrapperWrite, hat, hv, FsServerOps.onlyAt]
  | reqGetdents64 =>
    simp [FsRequest.atFid, handleRequest, fsWrapperGetdents64, hat, hv, FsServerOps.onlyAt]
  | reqClose => simp [FsRequest.atFid, handleRequest, fsWrapperClose, hat, hv, FsServerOps.onlyAt]
  | reqLseek => rfl
  | _ => cases hfd

/-- A request changes no entry and no vnode but those that its descriptor leads to. -/
lemma DispatchEffect.frame (heffect : DispatchEffect ops env s badge req s' reply)
    (hfd : req.fd? = some fd) (hslot : s.slot badge fd = some n) (hentry : s.entrys n = some e) :
    (∀ i, i ≠ n → s'.entrys i = s.entrys i) ∧ ∀ q, q ≠ e.vnode → s'.vnodes q = s.vnodes q := by
  have hsame : ∀ {m : Nat} {e' : ServerEntry} {fd' : Int}, req.fd? = some fd' →
      fsWrapperGetServerEntry s badge fd' = .ok m → s.entrys m = some e' → m = n ∧ e' = e := by
    intro m e' fd' hfd' hget he'
    rw [hfd] at hfd'
    cases hfd'
    rw [getServerEntry_eq_slot, hslot] at hget
    cases hget
    rw [hentry] at he'
    cases he'
    exact ⟨rfl, rfl⟩
  cases heffect with
  | keeps fs hevent => exact ⟨fun _ _ => rfl, fun _ _ => rfl⟩
  | opens hopened => cases hfd
  | moves hfd' hget hmoved hevent =>
    obtain ⟨fs, offset, size, hfid, -, he', -⟩ := hmoved
    subst hfid
    obtain ⟨rfl, rfl⟩ := hsame hfd' hget he'
    exact ⟨fun i hi => update_of_ne hi _ _, fun q hq => update_of_ne hq _ _⟩
  | closes fs hget hn he' hvnode =>
    obtain ⟨rfl, rfl⟩ := hsame rfl hget he'
    refine ⟨fun i hi => ?_, fun q hq => closed_vnodes_of_ne fs hq⟩
    rw [closed_entrys, update_of_ne hi]

/-- A request whose descriptor leads to no entry changes nothing. -/
lemma dispatch_unused (hmounted : s.mounted = true) (hfd : req.fd? = some fd)
    (hnone : ¬ UsesEntry s badge fd)
    (hrun : fsServerDispatch ops env s badge req = .ok (s', reply)) :
    s' = s ∧ reply = { ret := -enoent } := by
  have hno : ∀ {fid : Int} {e : ServerEntry}, fsWrapperGetServerEntry s badge fd = .ok fid →
      s.entryAt fid ≠ .ok e := by
    intro fid e hget hat
    obtain ⟨n, rfl, -, hentry⟩ := entryAt_eq_ok.1 hat
    exact hnone ⟨n, getServerEntry_eq_slot.1 hget, by rw [hentry]; rfl⟩
  unfold fsServerDispatch at hrun
  rw [if_neg (by simp [hmounted])] at hrun
  obtain ⟨req', htrans, hhandle⟩ := wrap_bind_eq_ok.1 hrun
  cases req with
  | reqRead fd' _ | reqWrite fd' _ | reqGetdents64 fd' _ =>
    cases hfd
    obtain ⟨fid, hget, htrans⟩ := wrap_bind_eq_ok.1 htrans
    cases htrans
    obtain ⟨e, v, hat, -⟩ := entry_eq_ok hhandle
    exact absurd hat (hno hget)
  | reqLseek fd' offset whence =>
    cases hfd
    obtain ⟨fid, hget, htrans⟩ := wrap_bind_eq_ok.1 htrans
    cases htrans
    obtain ⟨target, -, hrest⟩ := wrap_bind_eq_ok.1 hhandle
    obtain ⟨e, hat, -⟩ := wrap_bind_eq_ok.1 hrest
    exact absurd hat (hno hget)
  | reqClose fd' =>
    cases hfd
    obtain ⟨fid, hget, htrans⟩ := wrap_bind_eq_ok.1 htrans
    cases htrans
    obtain ⟨notFile, hfile, hrest⟩ := wrap_bind_eq_ok.1 hhandle
    obtain ⟨notDir, hdir, hrest⟩ := wrap_bind_eq_ok.1 hrest
    split at hrest
    · cases hrest
      exact ⟨rfl, rfl⟩
    · obtain ⟨e, hat, -⟩ := wrap_bind_eq_ok.1 hrest
      exact absurd hat (hno hget)
  | _ => cases hfd

section

variable {L : Type} {log : List (Event L)} {label : L}

lemma leadsTo_iff (hslot : s.slot badge fd = some n) (hused : s.inUse n) :
    LeadsTo s log badge fd label ↔ opener log n = some label := by
  constructor
  · intro hown
    exact hown n (getServerEntry_eq_slot.2 hslot) hused
  · intro hopener m hget _
    rw [getServerEntry_eq_slot, hslot] at hget
    cases hget
    exact hopener

lemma leadsTo_of_unused (huse : ¬ UsesEntry s badge fd) : LeadsTo s log badge fd label :=
  fun n hget hsome => absurd ⟨n, getServerEntry_eq_slot.1 hget, hsome⟩ huse

end

/-- A request whose descriptor leads to entries of `label` only works on such an entry. -/
lemma VnodeInv.ownEffect {L : Type} {log : List (Event L)} {label : L} (hinv : VnodeInv s)
    (hmounted : s.mounted = true) (hfd : req.fd? = some fd) (hown : LeadsTo s log badge fd label) :
    OwnEffect ops env s log badge req label := by
  intro s' reply hrun
  by_cases huse : UsesEntry s badge fd
  · obtain ⟨n, hslot, hsome⟩ := huse
    obtain ⟨e, hentry⟩ := Option.isSome_iff_exists.1 hsome
    obtain ⟨v, hvnode⟩ := hinv.alive n e hentry
    have hat := entryAt_eq_ok.2 ⟨n, rfl, hinv.bound n e hentry, hentry⟩
    refine .inr ⟨n, hown n (getServerEntry_eq_slot.2 hslot) hsome, e, v, hentry, hvnode, ?_,
      (dispatch_effect hinv.alive hrun).frame hfd hslot hentry⟩
    rw [dispatch_at_slot hmounted hfd hslot] at hrun ⊢
    rwa [handle_onlyAt hfd hat (vnodeAt_eq_ok.2 hvnode)]
  · exact .inl (dispatch_unused hmounted hfd huse hrun)

end

/-! ## The invariant -/

/-- The slots agree with the history. -/
structure HistoryInv (h : FsHistory σ) : Prop where
  vnodes : VnodeInv h.srv
  agrees : Agrees id (fun k : ClientFd => h.srv.slot k.1 k.2) h.srv.inUse h.log

lemma slot_init (fs : σ) (mounted : Bool) (badge : Nat) (fd : Int) :
    (initFsWrapper fs mounted).slot badge fd = none := by
  cases hslot : (initFsWrapper fs mounted).slot badge fd with
  | none => rfl
  | some n =>
    obtain ⟨k, -, -, hfid⟩ := slot_eq_some.1 hslot
    cases hfid

lemma HistoryInv.init (fs : σ) (mounted : Bool) :
    HistoryInv (⟨initFsWrapper fs mounted, []⟩ : FsHistory σ) where
  vnodes := VnodeInv.init fs mounted
  agrees := Agrees.nil.congr (fun k => slot_init fs mounted k.1 k.2) fun _ => Iff.rfl

variable {h : FsHistory σ} {fd : Int}

/-- A held descriptor leads to an entry. -/
lemma HistoryInv.usesEntry (hinv : HistoryInv h) (hheld : holdsFd h.log badge fd) :
    UsesEntry h.srv badge fd := by
  obtain ⟨n, hslot, hused, -⟩ := hinv.agrees.held _ _ hheld
  exact ⟨n, hslot, hused⟩

/-- A descriptor leads to its own entry exactly if it is held. -/
lemma HistoryInv.opener_iff (hinv : HistoryInv h) (huse : UsesEntry h.srv badge fd) :
    LeadsTo h.srv h.log badge fd (badge, fd) ↔ holdsFd h.log badge fd := by
  obtain ⟨n, hslot, hused⟩ := huse
  have hiff := hinv.agrees.opener_iff (k := (badge, fd)) hslot hused (badge, fd)
  rw [leadsTo_iff hslot hused]
  exact (and_iff_left rfl).symm.trans hiff

/-- A request that needs an entry finds its own exactly if the descriptor is
held. -/
lemma HistoryInv.own_translated (hinv : HistoryInv h) : (RefusedFd fd ∨ UsesEntry h.srv badge fd) ∧
    LeadsTo h.srv h.log badge fd (badge, fd) ↔ RefusedFd fd ∨ holdsFd h.log badge fd := by
  constructor
  · rintro ⟨hrefused | huse, hown⟩
    · exact .inl hrefused
    · exact .inr ((hinv.opener_iff huse).1 hown)
  · rintro (hrefused | hheld)
    · refine ⟨.inl hrefused, fun n hget => ?_⟩
      rw [getServerEntry_refused hrefused] at hget
      cases hget
    · have huse := hinv.usesEntry hheld
      exact ⟨.inr huse, (hinv.opener_iff huse).2 hheld⟩

lemma HistoryInv.own_close (hinv : HistoryInv h) :
    (fd = maxServerEntryPerClient → hasNode h.srv.mapping badge = false) ∧
    LeadsTo h.srv h.log badge fd (badge, fd) ↔
    holdsFd h.log badge fd ∨ (fd = maxServerEntryPerClient → hasNode h.srv.mapping badge = false) ∧
    ¬ UsesEntry h.srv badge fd := by
  constructor
  · rintro ⟨hend, hown⟩
    by_cases huse : UsesEntry h.srv badge fd
    · exact .inl ((hinv.opener_iff huse).1 hown)
    · exact .inr ⟨hend, huse⟩
  · rintro (hheld | ⟨hend, huse⟩)
    · have huse := hinv.usesEntry hheld
      refine ⟨?_, (hinv.opener_iff huse).2 hheld⟩
      obtain ⟨n, hslot, -⟩ := huse
      obtain ⟨k, rfl, hk, -⟩ := slot_eq_some.1 hslot
      intro heq
      omega
    · exact ⟨hend, leadsTo_of_unused huse⟩

lemma HistoryInv.ownEntry_iff (hinv : HistoryInv h) (c : FsCall) :
    OwnEntry ops h c ↔ OwnAllowed ops h c := by
  -- the effect follows from where the descriptor leads
  have hlookup : OwnEntry ops h c ↔ TableSafe (fsServerDispatch ops c.env h.srv c.badge c.req) ∧
      (h.srv.mounted = true → ∀ fd, c.req.fd? = some fd →
        LeadsTo h.srv h.log c.badge fd (c.badge, fd)) :=
    ⟨fun hown => ⟨hown.1, hown.2.1⟩, fun hown => ⟨hown.1, hown.2, fun hmounted fd hfd =>
      hinv.vnodes.ownEffect hmounted hfd (hown.2 hmounted fd hfd)⟩⟩
  rw [hlookup, tableSafe_dispatch hinv.vnodes]
  obtain ⟨badge, req, env⟩ := c
  unfold InTables OwnAllowed
  dsimp only
  cases hmounted : h.srv.mounted with
  | false =>
    refine iff_of_true ⟨.inl rfl, ?_⟩ (.inl rfl)
    intro htrue
    cases htrue
  | true =>
    simp only [reduceCtorEq, false_or, forall_const]
    cases req with
    | reqClose fd =>
      simp only [FsRequest.fd?, Option.some.injEq, forall_eq']
      exact hinv.own_close
    | reqRead fd | reqWrite fd | reqLseek fd | reqGetdents64 fd =>
      simp only [FsRequest.fd?, Option.some.injEq, forall_eq']
      exact hinv.own_translated
    | reqOpen newFd path flags mode =>
      refine ⟨fun hboth => hboth.1, fun hopen => ⟨hopen, ?_⟩⟩
      intro fd hfd
      cases hfd
    | reqCreat path | reqMkdir path mode | reqRmdir path flags | reqUnlink path flags
    | reqGetSize path | reqMount | reqOther number =>
      refine iff_of_true ⟨trivial, ?_⟩ trivial
      intro fd hfd
      cases hfd

/-- Only a close frees an entry, and only while the server is mounted. -/
lemma dispatch_closed {n : Nat} (hrun : fsServerDispatch ops env s badge req = .ok (s', reply))
    (hevent : reply.event = some (.closed n)) : s.mounted = true := by
  by_contra hnot
  unfold fsServerDispatch at hrun
  by_cases hreq : req = .reqMount
  · subst hreq
    rw [if_neg (by simp)] at hrun
    cases hrun
    cases hevent
  · rw [if_pos (by simp [hnot, hreq])] at hrun
    cases hrun
    cases hevent

lemma DispatchEffect.closed_fd {n : Nat} (heffect : DispatchEffect ops env s badge req s' reply)
    (hevent : reply.event = some (.closed n)) : req.fd? = some req.descriptor := by
  cases heffect with
  | keeps fs hnone =>
    rw [hnone] at hevent
    cases hevent
  | opens hopened => cases hevent
  | moves hfd hget hmoved hnone =>
    rw [hnone] at hevent
    cases hevent
  | closes fs hget hn hentry hvnode => rfl

/-- A request that meets the condition keeps the agreement. -/
lemma HistoryInv.step {h' : FsHistory σ} {c : FsCall} (hinv : HistoryInv h)
    (hall : OwnAllowed ops h c) (hstep : historyStep ops h c = .ok h') : HistoryInv h' := by
  obtain ⟨⟨s', reply⟩, hdispatch, hrest⟩ := wrap_bind_eq_ok.1 hstep
  cases hrest
  have heffect := dispatch_effect hinv.vnodes.alive hdispatch
  refine ⟨hinv.vnodes.effect heffect, ?_⟩
  have hown := (hinv.ownEntry_iff c).2 hall
  cases heffect.slots with
  | keeps hevent hslot hused =>
    rw [record, hevent]
    exact hinv.agrees.congr (fun k => hslot k.1 k.2) hused
  | @opens n hevent _ hfree hslot hused =>
    rw [record, hevent]
    refine (hinv.agrees.opened (c.badge, c.req.descriptor) hfree).congr ?_ hused
    rintro ⟨b, fd⟩
    simp only [hslot, update_apply, id, Prod.mk.injEq]
  | @closes n hevent hfrom hthere hslot hused =>
    rw [record, hevent]
    -- the entry is the one that the client itself opened
    have hheld : holdsFd h.log c.badge c.req.descriptor := (hinv.opener_iff ⟨n, hfrom, hthere⟩).1
        (hown.2.1 (dispatch_closed hdispatch hevent) _ (heffect.closed_fd hevent))
    exact (hinv.agrees.closed hheld hfrom).congr (fun k => hslot k.1 k.2) hused

/-- **Descriptors lead to own entries.** Take any history of requests of any
clients in which every request meets `OwnAllowed`, and any next request. It
stays inside the tables and works only on an entry that the same client opened
under the same descriptor and has not closed since, if and only if it meets the
condition. -/
theorem requests_use_own_entries (ops : FsServerOps σ) (fs : σ) (mounted : Bool)
    (calls : List FsCall) (h : FsHistory σ)
    (hadm : Admissible (historyStep ops) (OwnAllowed ops) ⟨initFsWrapper fs mounted, []⟩ calls)
    (hrun : run (historyStep ops) ⟨initFsWrapper fs mounted, []⟩ calls = .ok h)
    (c : FsCall) : OwnEntry ops h c ↔ OwnAllowed ops h c := by
  have hinv : HistoryInv h :=
    run_preserves_of_admissible (fun _ _ _ => HistoryInv.step)
      calls _ h (HistoryInv.init fs mounted) hadm hrun
  exact hinv.ownEntry_iff c

theorem requests_use_own_entries_two_opens : ∃ h,
    run (historyStep tmpfsOps) ⟨tmpfsServer fun _ => 0, []⟩ twoOpens = .ok h ∧
    OwnEntry tmpfsOps h { badge := 8, req := .reqWrite 3 [1] } := by
  refine exists_ok_imp (p := fun h => holdsFd h.log 8 3) (by decide +kernel) fun h hrun hheld => ?_
  rw [requests_use_own_entries tmpfsOps (initTmpfs fun _ => 0) true twoOpens h
    (by decide +kernel) hrun { badge := 8, req := .reqWrite 3 [1] }]
  exact .inr (.inr hheld)

/-- Client 7 opens and closes its descriptor 0, and client 8 opens a file of its
own. -/
def closedThenOpened : List FsCall := [{ badge := 7, req := .reqCreat (bytes ['/', 'a']) },
    { badge := 8, req := .reqCreat (bytes ['/', 'b']) },
    { badge := 7, req := .reqOpen 0 (bytes ['/', 'a']) 0 0 },
    { badge := 7, req := .reqClose 0 },
    { badge := 8, req := .reqOpen 0 (bytes ['/', 'b']) 0 0 }]

/-- Then descriptor 0 of client 7 leads to the entry of client 8. -/
theorem closed_descriptor_reaches_other_client : ∃ h,
    run (historyStep tmpfsOps) ⟨tmpfsServer fun _ => 0, []⟩ closedThenOpened = .ok h ∧
    fsWrapperGetServerEntry h.srv 7 0 = .ok 0 ∧ (h.srv.entrys 0).isSome ∧
    opener h.log 0 = some (8, 0) ∧
    ¬ OwnEntry tmpfsOps h { badge := 7, req := .reqWrite 0 [1] } := by
  refine exists_ok_imp (p := fun h => fsWrapperGetServerEntry h.srv 7 0 = .ok 0 ∧
      (h.srv.entrys 0).isSome ∧ opener h.log 0 = some (8, 0) ∧
      h.srv.mounted = true) (by decide +kernel) ?_
  rintro h - ⟨hget, hsome, hopener, hmounted⟩
  refine ⟨hget, hsome, hopener, fun hown => ?_⟩
  have hbad := hown.2.1 hmounted 0 rfl 0 hget hsome
  rw [hopener] at hbad
  cases hbad

end ChCore.Userland
