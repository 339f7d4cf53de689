import ChCore.Userland.FsTables

/-!
# Descriptors of the clients of a file-system server

A request with a descriptor is translated by the table of its client to a
position in the table of entries, which all clients share. For every file
system, every client and every state that is reached, `InTables` says when a
request uses the two tables only inside their bounds, and only at an entry that
is there. The handlers differ: `fs_wrapper_close` checks the position that it
gets, and the others follow it.
-/

namespace ChCore.Userland

open Kernel (Exec)
open Lib.Runs Lib.Faults

variable {σ : Type} {ops : FsServerOps σ}

/-! ## The table of a client -/

/-- The position that a descriptor of a client has, `-1` if none. -/
def lookupFid (mapping : List ServerEntryNode) (badge fd : Nat) : Int :=
  match mapping.find? fun n => n.clientBadge == badge with
  | none => -1
  | some n => n.fdToFid fd

/-- The client has a table. -/
def hasNode (mapping : List ServerEntryNode) (badge : Nat) : Bool :=
  mapping.any fun n => n.clientBadge == badge

lemma lookupFid_cons (n : ServerEntryNode) (mapping : List ServerEntryNode) (badge fd : Nat) :
    lookupFid (n :: mapping) badge fd = if n.clientBadge = badge then n.fdToFid fd
    else lookupFid mapping badge fd := by
  unfold lookupFid
  by_cases h : n.clientBadge = badge
  · rw [if_pos h, List.find?_cons_of_pos (by simpa using h)]
  · rw [if_neg h, List.find?_cons_of_neg (by simpa using h)]

/-- Setting a descriptor of a client changes that descriptor only. -/
lemma lookupFid_setFid (badge fd : Nat) (fid : Int)
    (mapping : List ServerEntryNode) (badge' fd' : Nat) :
    lookupFid (setFid badge fd fid mapping) badge' fd' = if badge' = badge ∧ fd' = fd then fid
    else lookupFid mapping badge' fd' := by
  have hupdate : ∀ f : Nat → Int, Function.update f fd fid fd' =
      if fd' = fd then fid else f fd' := by
    intro f
    rw [Function.update_apply]
  induction mapping with
  | nil =>
    rw [setFid, lookupFid_cons]
    by_cases hb : badge = badge'
    · rw [if_pos hb]
      dsimp only
      rw [hupdate]
      simp [hb, lookupFid]
    · rw [if_neg hb, if_neg fun h => hb h.1.symm]
  | cons n mapping ih =>
    rw [setFid]
    by_cases hn : n.clientBadge = badge
    · rw [if_pos hn, lookupFid_cons, lookupFid_cons]
      dsimp only
      by_cases hb : n.clientBadge = badge'
      · have hsame : badge' = badge := hb.symm.trans hn
        rw [if_pos hb, if_pos hb, hupdate]
        simp [hsame]
      · have hother : ¬ (badge' = badge ∧ fd' = fd) := fun h => hb (hn.trans h.1.symm)
        rw [if_neg hb, if_neg hb, if_neg hother]
    · rw [if_neg hn, lookupFid_cons, lookupFid_cons, ih]
      by_cases hb : n.clientBadge = badge'
      · have hother : ¬ (badge' = badge ∧ fd' = fd) := fun h => hn (hb.trans h.1)
        rw [if_pos hb, if_pos hb, if_neg hother]
      · rw [if_neg hb, if_neg hb]

/-- The position in the table of entries to which a descriptor leads. -/
def FsServer.slot (s : FsServer σ) (badge : Nat) (fd : Int) : Option Nat :=
  if 0 ≤ fd ∧ fd < maxServerEntryPerClient ∧ 0 ≤ lookupFid s.mapping badge fd.toNat then
    some (lookupFid s.mapping badge fd.toNat).toNat
  else none

variable {s : FsServer σ} {badge n : Nat} {fd : Int}

lemma slot_eq_some : s.slot badge fd = some n ↔ ∃ k : Nat, fd = k ∧
    k < maxServerEntryPerClient ∧ lookupFid s.mapping badge k = n := by
  unfold FsServer.slot
  constructor
  · intro h
    split at h
    · rename_i hin
      cases h
      exact ⟨fd.toNat, by omega, by omega, by omega⟩
    · cases h
  · rintro ⟨k, rfl, hk, hfid⟩
    rw [Int.toNat_natCast, hfid, if_pos ⟨by omega, by omega, by omega⟩, Int.toNat_natCast]

/-- Setting a descriptor of a client changes the slot of that descriptor
only. -/
lemma slot_setFid {s' : FsServer σ} {k : Nat} (hk : k < maxServerEntryPerClient)
    (hmapping : s'.mapping = setFid badge k n s.mapping) (badge' : Nat) (fd : Int) :
    s'.slot badge' fd = if badge' = badge ∧ fd = k then some n else s.slot badge' fd := by
  by_cases hsame : badge' = badge ∧ fd = k
  · obtain ⟨rfl, rfl⟩ := hsame
    rw [if_pos ⟨rfl, rfl⟩, slot_eq_some]
    exact ⟨k, rfl, hk, by rw [hmapping, lookupFid_setFid, if_pos ⟨rfl, rfl⟩]⟩
  rw [if_neg hsame]
  by_cases hneg : 0 ≤ fd
  · have hother : ¬ (badge' = badge ∧ fd.toNat = k) := by
      rintro ⟨rfl, rfl⟩
      exact hsame ⟨rfl, by omega⟩
    unfold FsServer.slot
    rw [hmapping, lookupFid_setFid, if_neg hother]
  · unfold FsServer.slot
    rw [if_neg fun h => hneg h.1, if_neg fun h => hneg h.1]

/-- A descriptor that `fs_wrapper_get_server_entry` refuses with `BUG_ON`. -/
def RefusedFd (fd : Int) : Prop := fd ≠ atFdroot ∧ (fd < 0 ∨ fd > maxServerEntryPerClient)

instance (fd : Int) : Decidable (RefusedFd fd) := inferInstanceAs (Decidable (_ ∧ _))

lemma getServerEntry_refused (h : RefusedFd fd) :
    fsWrapperGetServerEntry s badge fd = .error .bug := by
  rw [fsWrapperGetServerEntry, if_neg h.1, if_pos h.2]

lemma getServerEntry_inside {k : Nat} (hk : k < maxServerEntryPerClient) :
    fsWrapperGetServerEntry s badge k = .ok (lookupFid s.mapping badge k) := by
  have hroot : ((k : Nat) : Int) ≠ atFdroot := by
    unfold atFdroot
    omega
  rw [fsWrapperGetServerEntry, if_neg hroot, if_neg (by omega), lookupFid]
  cases s.mapping.find? fun n => n.clientBadge == badge with
  | none => rfl
  | some n => simp [hk]

lemma getServerEntry_end : fsWrapperGetServerEntry s badge maxServerEntryPerClient =
    if hasNode s.mapping badge then .error .fdToFid else .ok (-1) := by
  rw [fsWrapperGetServerEntry, if_neg (by decide), if_neg (by decide)]
  cases hfind : s.mapping.find? fun n => n.clientBadge == badge with
  | none =>
    have hno : hasNode s.mapping badge = false := by
      rw [hasNode, List.any_eq_false]
      exact List.find?_eq_none.1 hfind
    rw [hno]
    rfl
  | some n =>
    have hsome := List.find?_some hfind
    have hyes : hasNode s.mapping badge = true :=
      List.any_eq_true.2 ⟨n, List.mem_of_find?_eq_some hfind, hsome⟩
    rw [hyes]
    rfl

/-- The descriptors fall into four kinds. -/
lemma fd_cases (fd : Int) : RefusedFd fd ∨ fd = atFdroot ∨
    (∃ k : Nat, k < maxServerEntryPerClient ∧ fd = k) ∨ fd = maxServerEntryPerClient := by
  unfold RefusedFd
  by_cases hroot : fd = atFdroot
  · exact .inr (.inl hroot)
  by_cases hbug : fd < 0 ∨ fd > maxServerEntryPerClient
  · exact .inl ⟨hroot, hbug⟩
  by_cases hend : fd = maxServerEntryPerClient
  · exact .inr (.inr (.inr hend))
  · exact .inr (.inr (.inl ⟨fd.toNat, by omega, by omega⟩))

/-! ## Use of the tables -/

/-- A table is used outside its bounds, or at an entry that is not there. -/
def WrapperFault.isTable : WrapperFault → Bool
  | .fdToFid => true
  | .serverEntrys => true
  | .noEntry => true
  | _ => false

/-- No table is used outside its bounds, or at an entry that is not there. -/
def TableSafe {α : Type} (x : Wrap α) : Prop := ∀ fault, x = .error fault → fault.isTable = false

section

variable {α β : Type}

lemma tableSafe_ok (a : α) : TableSafe (.ok a : Wrap α) := avoids_ok a

lemma tableSafe_bug : TableSafe (.error .bug : Wrap α) := avoids_error.2 rfl

/-- A reply that may be too long for the message. -/
lemma tableSafe_reply {c : Prop} [Decidable c] (a : α) :
    TableSafe (if c then .error .message else .ok a : Wrap α) := by
  split
  · exact avoids_error.2 rfl
  · exact tableSafe_ok a

lemma tableSafe_server (x : Exec α) : TableSafe (server x) := by
  cases x with
  | ok a => exact tableSafe_ok a
  | error fault =>
    rintro _ ⟨⟩
    rfl

lemma tableSafe_vnodeAt (s : FsServer σ) (p : Nat) : TableSafe (s.vnodeAt p) := by
  unfold FsServer.vnodeAt
  cases s.vnodes p with
  | none =>
    rintro _ ⟨⟩
    rfl
  | some v => exact tableSafe_ok v

lemma tableSafe_bind {x : Wrap α} {f : α → Wrap β} :
    TableSafe (x >>= f) ↔ TableSafe x ∧ ∀ a, x = .ok a → TableSafe (f a) :=
  avoids_bind

/-- A part that is safe whatever comes before it. -/
lemma TableSafe.bind {x : Wrap α} {f : α → Wrap β} (hx : TableSafe x)
    (hf : ∀ a, TableSafe (f a)) : TableSafe (x >>= f) :=
  tableSafe_bind.2 ⟨hx, fun a _ => hf a⟩

/-- An entry is followed safely exactly if it is there. -/
lemma tableSafe_entryAt {s : FsServer σ} {fid : Int} : TableSafe (s.entryAt fid) ↔
    ∃ (n : Nat) (e : ServerEntry), fid = n ∧ n < maxServerEntryNum ∧ s.entrys n = some e := by
  constructor
  · intro h
    cases hat : s.entryAt fid with
    | ok e =>
      obtain ⟨n, hfid, hn, hentry⟩ := entryAt_eq_ok.1 hat
      exact ⟨n, e, hfid, hn, hentry⟩
    | error fault =>
      have hsafe := h fault hat
      unfold FsServer.entryAt at hat
      split at hat
      · cases hat
        cases hsafe
      split at hat
      · cases hat
        cases hsafe
      · cases hat
  · rintro ⟨n, e, hfid, hn, hentry⟩
    rw [entryAt_eq_ok.2 ⟨n, hfid, hn, hentry⟩]
    exact tableSafe_ok e

end

section

variable {s : FsServer σ} {fid : Int}

lemma tableSafe_read {count : Nat} :
    TableSafe (fsWrapperRead ops s fid count) ↔ TableSafe (s.entryAt fid) := by
  unfold fsWrapperRead
  refine ⟨fun h => (tableSafe_bind.1 h).1, fun h => h.bind fun e => ?_⟩
  refine (tableSafe_vnodeAt s _).bind fun v => ?_
  split
  · exact tableSafe_ok _
  · exact (tableSafe_server _).bind fun r => tableSafe_reply _

lemma tableSafe_write {data : List UInt8} :
    TableSafe (fsWrapperWrite ops s fid data) ↔ TableSafe (s.entryAt fid) := by
  unfold fsWrapperWrite
  refine ⟨fun h => (tableSafe_bind.1 h).1, fun h => h.bind fun e => ?_⟩
  refine (tableSafe_vnodeAt s _).bind fun v => ?_
  split
  · exact tableSafe_ok _
  refine (tableSafe_server _).bind fun r => ?_
  dsimp only
  split
  · exact tableSafe_ok _
  · exact tableSafe_ok _

lemma tableSafe_getdents64 {count : Nat} : TableSafe (fsWrapperGetdents64 ops s fid count) ↔
    TableSafe (s.entryAt fid) := by
  unfold fsWrapperGetdents64
  refine ⟨fun h => (tableSafe_bind.1 h).1, fun h => h.bind fun e => ?_⟩
  refine (tableSafe_vnodeAt s _).bind fun v => ?_
  exact (tableSafe_server _).bind fun r => tableSafe_reply _

variable {offset : Nat} {whence : Int}

lemma tableSafe_lseekTarget (h : TableSafe (s.entryAt fid)) :
    TableSafe (lseekTarget s fid offset whence) := by
  unfold lseekTarget
  split
  · exact tableSafe_ok _
  split
  · exact h.bind fun e => tableSafe_ok _
  split
  · exact h.bind fun e => (tableSafe_vnodeAt s _).bind fun v =>
      tableSafe_ok _
  · exact tableSafe_ok _

lemma lseekTarget_error {fault : WrapperFault}
    (h : lseekTarget s fid offset whence = .error fault) :
    (∃ e, s.entryAt fid = .ok e) ∨ s.entryAt fid = .error fault := by
  unfold lseekTarget at h
  split at h
  · cases h
  split at h
  · rcases wrap_bind_eq_error.1 h with he | ⟨e, he, -⟩
    · exact .inr he
    · exact .inl ⟨e, he⟩
  split at h
  · rcases wrap_bind_eq_error.1 h with he | ⟨e, he, -⟩
    · exact .inr he
    · exact .inl ⟨e, he⟩
  · cases h

lemma tableSafe_lseek : TableSafe (fsWrapperLseek s fid offset whence) ↔
    TableSafe (s.entryAt fid) := by
  unfold fsWrapperLseek
  constructor
  · intro h
    obtain ⟨htarget, hrest⟩ := tableSafe_bind.1 h
    cases ht : lseekTarget s fid offset whence with
    | ok target => exact (tableSafe_bind.1 (hrest target ht)).1
    | error fault =>
      rcases lseekTarget_error ht with ⟨e, he⟩ | he
      · rw [he]
        exact tableSafe_ok e
      rw [he]
      rintro _ ⟨⟩
      exact htarget fault ht
  · intro h
    exact (tableSafe_lseekTarget h).bind fun target =>
      h.bind fun e => tableSafe_ok _

lemma tableSafe_fdTypeInvalid (isfile : Bool) : TableSafe (fdTypeInvalid s fid isfile) := by
  unfold fdTypeInvalid
  split
  · exact tableSafe_ok _
  split
  · exact tableSafe_ok _
  · exact (tableSafe_vnodeAt s _).bind fun v => tableSafe_ok _

/-- A position that `fd_type_invalid` accepts holds an entry. -/
lemma fdTypeInvalid_false {isfile : Bool} (h : fdTypeInvalid s fid isfile = .ok false) :
    ∃ (n : Nat) (e : ServerEntry), fid = n ∧ n < maxServerEntryNum ∧ s.entrys n = some e := by
  unfold fdTypeInvalid at h
  by_cases hrange : fid < 0 ∨ fid ≥ maxServerEntryNum
  · rw [if_pos hrange] at h
    cases h
  rw [if_neg hrange] at h
  obtain ⟨n, rfl⟩ := Int.eq_ofNat_of_zero_le (show 0 ≤ fid by omega)
  rw [Int.toNat_natCast] at h
  cases he : s.entrys n with
  | none =>
    rw [he] at h
    cases h
  | some e => exact ⟨n, e, rfl, by omega, he⟩

/-- `fs_wrapper_close` checks the position first. -/
lemma tableSafe_close : TableSafe (fsWrapperClose ops s fid) := by
  unfold fsWrapperClose
  refine tableSafe_bind.2 ⟨tableSafe_fdTypeInvalid true, fun notFile hfile => ?_⟩
  refine tableSafe_bind.2 ⟨tableSafe_fdTypeInvalid false, fun notDir hdir => ?_⟩
  by_cases hinvalid : (notFile && notDir) = true
  · rw [if_pos hinvalid]
    exact tableSafe_ok _
  rw [if_neg hinvalid]
  have hthere : TableSafe (s.entryAt fid) := by
    rw [tableSafe_entryAt]
    cases notFile with
    | false => exact fdTypeInvalid_false hfile
    | true =>
      cases notDir with
      | false => exact fdTypeInvalid_false hdir
      | true => exact absurd rfl hinvalid
  refine hthere.bind fun e => (tableSafe_vnodeAt s _).bind fun v => ?_
  refine (tableSafe_server _).bind fun r => ?_
  dsimp only
  split
  · exact tableSafe_ok _
  split
  · exact tableSafe_bug
  · exact tableSafe_ok _

lemma tableSafe_passPath (x : Exec (σ × Int)) : TableSafe (passPath s x) :=
  (tableSafe_server x).bind fun _ => tableSafe_ok _

end

/-- The open of a path succeeds and gets an entry. -/
def OpenGetsEntry (ops : FsServerOps σ) (env : OpenEnv) (s : FsServer σ)
    (path : List UInt8) (flags : Int) (mode : Nat) : Prop :=
  ∃ fs r fid, ops.opOpen s.fs path flags mode = .ok (fs, r) ∧ r.ret = 0 ∧
    allocEntry s env.mallocOk = some fid

instance (env : OpenEnv) (s : FsServer σ) (path : List UInt8) (flags : Int)
    (mode : Nat) : Decidable (OpenGetsEntry ops env s path flags mode) :=
  decidable_of_iff (∃ a, ops.opOpen s.fs path flags mode = .ok a ∧ a.2.ret = 0 ∧
    (allocEntry s env.mallocOk).isSome) (by simp [OpenGetsEntry, Option.isSome_iff_exists])

lemma vnodeForOpen_eq_ok (s : FsServer σ) (r : OpenResult) :
    ∃ s1 vnode, vnodeForOpen s r = .ok (s1, vnode) := by
  unfold vnodeForOpen
  cases hfind : getFsVnodeById s r.vnodeId with
  | none => exact ⟨_, _, rfl⟩
  | some p =>
    obtain ⟨v, hv, -⟩ := getFsVnodeById_some hfind
    dsimp only
    rw [vnodeAt_eq_ok.2 hv]
    exact ⟨_, _, rfl⟩

lemma tableSafe_setServerEntry {fid : Int} : TableSafe (fsWrapperSetServerEntry s badge fd fid) ↔
    fd ≠ maxServerEntryPerClient := by
  unfold fsWrapperSetServerEntry
  by_cases hbug : fd < 0 ∨ fd > maxServerEntryPerClient
  · rw [if_pos hbug]
    exact ⟨fun _ => by omega, fun _ => tableSafe_bug⟩
  rw [if_neg hbug]
  by_cases hlt : fd.toNat < maxServerEntryPerClient
  · rw [if_pos hlt]
    exact ⟨fun _ => by omega, fun _ => tableSafe_ok _⟩
  rw [if_neg hlt]
  refine ⟨fun h => ?_, fun h => by omega⟩
  cases h _ rfl

/-- An open goes wrong exactly at the length of the table of the client. -/
lemma tableSafe_open {env : OpenEnv} {newFd : Int} {path : List UInt8} {flags : Int} {mode : Nat} :
    TableSafe (fsWrapperOpen ops env s badge newFd path flags mode) ↔
    (newFd = maxServerEntryPerClient → ¬ OpenGetsEntry ops env s path flags mode) := by
  unfold fsWrapperOpen OpenGetsEntry
  cases hopen : ops.opOpen s.fs path flags mode with
  | error fault =>
    constructor
    · rintro - - ⟨fs, r, fid, hok, -⟩
      cases hok
    · rintro - _ ⟨⟩
      rfl
  | ok result =>
    obtain ⟨fs, r⟩ := result
    rw [server, wrap_ok_bind]
    dsimp only
    by_cases hret : r.ret ≠ 0
    · rw [if_pos hret]
      refine ⟨?_, fun _ => tableSafe_ok _⟩
      rintro - - ⟨fs', r', fid, hok, hzero, -⟩
      cases hok
      exact hret hzero
    rw [if_neg hret]
    cases halloc : allocEntry s env.mallocOk with
    | none =>
      rw [show allocEntry { s with fs } env.mallocOk = none from halloc]
      refine ⟨?_, fun _ => (tableSafe_server _).bind fun r => tableSafe_ok _⟩
      rintro - - ⟨fs', r', fid, -, -, hsome⟩
      cases hsome
    | some fid =>
      rw [show allocEntry { s with fs } env.mallocOk = some fid from halloc]
      obtain ⟨s1, vnode, hvnode⟩ := vnodeForOpen_eq_ok { s with fs } r
      dsimp only
      rw [hvnode, wrap_ok_bind]
      dsimp only
      rw [tableSafe_bind, tableSafe_setServerEntry]
      constructor
      · rintro ⟨hne, -⟩ heq
        exact absurd heq hne
      · intro hno
        refine ⟨fun heq => ?_, fun _ _ => tableSafe_ok _⟩
        exact hno heq ⟨fs, r, fid, rfl, not_not.1 hret, rfl⟩

/-- The descriptor leads to an entry. -/
def UsesEntry (s : FsServer σ) (badge : Nat) (fd : Int) : Prop :=
  ∃ n, s.slot badge fd = some n ∧ (s.entrys n).isSome

instance (s : FsServer σ) (badge : Nat) (fd : Int) : Decidable (UsesEntry s badge fd) :=
  decidable_of_iff ((s.slot badge fd).any fun n => (s.entrys n).isSome) (by
      rw [Option.any_eq_true]
      rfl)

/-- The translation gives a position exactly if the slot leads there. -/
lemma getServerEntry_eq_slot :
    fsWrapperGetServerEntry s badge fd = .ok n ↔ s.slot badge fd = some n := by
  rw [slot_eq_some]
  rcases fd_cases fd with hrefused | rfl | ⟨k, hk, rfl⟩ | rfl
  · rw [getServerEntry_refused hrefused]
    refine ⟨nofun, fun ⟨k, hfd, hk, _⟩ => ?_⟩
    have hbad := hrefused.2
    omega
  · refine ⟨nofun, fun ⟨k, hfd, _⟩ => ?_⟩
    unfold atFdroot at hfd
    omega
  · rw [getServerEntry_inside hk, Except.ok.injEq]
    constructor
    · intro hfid
      exact ⟨k, rfl, hk, hfid⟩
    · rintro ⟨k', hfd, -, hfid⟩
      obtain rfl : k = k' := by omega
      exact hfid
  · rw [getServerEntry_end]
    refine ⟨fun h => ?_, fun ⟨k, hfd, hk, _⟩ => by omega⟩
    split at h
    · cases h
    · cases h

/-- The request with the position in place of the descriptor. -/
def FsRequest.atFid : FsRequest → Int → FsRequest
  | .reqClose _, fid => .reqClose fid
  | .reqRead _ count, fid => .reqRead fid count
  | .reqWrite _ data, fid => .reqWrite fid data
  | .reqLseek _ offset whence, fid => .reqLseek fid offset whence
  | .reqGetdents64 _ count, fid => .reqGetdents64 fid count
  | req, _ => req

/-- A request on a descriptor is handled at its position. -/
lemma dispatch_at_slot {ops : FsServerOps σ} {env : OpenEnv} {req : FsRequest}
    (hmounted : s.mounted = true) (hfd : req.fd? = some fd) (hslot : s.slot badge fd = some n) :
    fsServerDispatch ops env s badge req = handleRequest ops env s badge (req.atFid n) := by
  have hget := getServerEntry_eq_slot.2 hslot
  have htranslate : translateFdToFid s badge req = .ok (req.atFid n) := by
    cases req with
    | reqClose fd' | reqRead fd' _ | reqWrite fd' _ | reqLseek fd' _ _
    | reqGetdents64 fd' _ =>
      obtain rfl : fd' = fd := Option.some.inj hfd
      rw [translateFdToFid, hget]
      rfl
    | _ => cases hfd
  unfold fsServerDispatch
  rw [hmounted, htranslate]
  rfl

/-- A handler that only needs its entry is safe after the translation exactly
if the descriptor is refused or leads to an entry. -/
lemma tableSafe_translated (h : VnodeInv s) {α : Type} {handler : Int → Wrap α}
    (hhandler : ∀ fid, TableSafe (handler fid) ↔ TableSafe (s.entryAt fid)) :
    TableSafe (fsWrapperGetServerEntry s badge fd >>= handler) ↔
    RefusedFd fd ∨ UsesEntry s badge fd := by
  by_cases hrefused : RefusedFd fd
  · rw [getServerEntry_refused hrefused, wrap_error_bind]
    exact ⟨fun _ => .inl hrefused, fun _ => tableSafe_bug⟩
  constructor
  · intro hsafe
    obtain ⟨hget, hrest⟩ := tableSafe_bind.1 hsafe
    cases hfid : fsWrapperGetServerEntry s badge fd with
    | ok fid =>
      have hthere := hrest fid hfid
      rw [hhandler, tableSafe_entryAt] at hthere
      obtain ⟨n, e, rfl, -, hentry⟩ := hthere
      exact .inr ⟨n, getServerEntry_eq_slot.1 hfid, by rw [hentry]; rfl⟩
    | error fault =>
      -- the only faults are `BUG_ON` and the end of the table
      exfalso
      have hnot := hget fault hfid
      rcases fd_cases fd with hbad | rfl | ⟨k, hk, rfl⟩ | rfl
      · exact hrefused hbad
      · cases hfid
      · rw [getServerEntry_inside hk] at hfid
        cases hfid
      rw [getServerEntry_end] at hfid
      split at hfid
      · cases hfid
        cases hnot
      · cases hfid
  · rintro (hbad | ⟨n, hslot, hsome⟩)
    · exact absurd hbad hrefused
    obtain ⟨e, hentry⟩ := Option.isSome_iff_exists.1 hsome
    rw [getServerEntry_eq_slot.2 hslot, wrap_ok_bind, hhandler, tableSafe_entryAt]
    exact ⟨n, e, rfl, h.bound n e hentry, hentry⟩

/-- The condition under which a request stays inside the tables. -/
def InTables (ops : FsServerOps σ) (s : FsServer σ) (c : FsCall) : Prop := s.mounted = false ∨
  match c.req with
  | .reqOpen newFd path flags mode => newFd = maxServerEntryPerClient →
    ¬ OpenGetsEntry ops c.env s path flags mode
  | .reqClose fd => fd = maxServerEntryPerClient →
    hasNode s.mapping c.badge = false
  | .reqRead fd _ => RefusedFd fd ∨ UsesEntry s c.badge fd
  | .reqWrite fd _ => RefusedFd fd ∨ UsesEntry s c.badge fd
  | .reqLseek fd _ _ => RefusedFd fd ∨ UsesEntry s c.badge fd
  | .reqGetdents64 fd _ => RefusedFd fd ∨ UsesEntry s c.badge fd
  | _ => True

lemma tableSafe_translated_close :
    TableSafe (fsWrapperGetServerEntry s badge fd >>= fsWrapperClose ops s) ↔
    (fd = maxServerEntryPerClient → hasNode s.mapping badge = false) := by
  rcases fd_cases fd with hrefused | rfl | ⟨k, hk, rfl⟩ | rfl
  · rw [getServerEntry_refused hrefused, wrap_error_bind]
    have hbad := hrefused.2
    exact ⟨fun _ heq => by omega, fun _ => tableSafe_bug⟩
  · rw [show fsWrapperGetServerEntry s badge atFdroot = .ok atFdroot from rfl, wrap_ok_bind]
    exact ⟨fun _ heq => (by cases heq), fun _ => tableSafe_close⟩
  · rw [getServerEntry_inside hk, wrap_ok_bind]
    exact ⟨fun _ heq => by omega, fun _ => tableSafe_close⟩
  rw [getServerEntry_end]
  constructor
  · intro hsafe _
    by_contra hnode
    rw [if_pos (by simpa using hnode), wrap_error_bind] at hsafe
    cases hsafe _ rfl
  · intro hno
    rw [if_neg (by simp [hno rfl]), wrap_ok_bind]
    exact tableSafe_close

/-- A request stays inside the tables exactly under that condition. -/
lemma tableSafe_dispatch (h : VnodeInv s) (c : FsCall) :
    TableSafe (fsServerDispatch ops c.env s c.badge c.req) ↔ InTables ops s c := by
  obtain ⟨badge, req, env⟩ := c
  unfold InTables fsServerDispatch
  dsimp only
  cases hmounted : s.mounted with
  | false =>
    refine ⟨fun _ => .inl rfl, fun _ => ?_⟩
    by_cases hreq : req = .reqMount
    · subst hreq
      exact tableSafe_ok _
    rw [if_pos (by simpa using hreq)]
    exact tableSafe_ok _
  | true =>
    rw [if_neg (by simp)]
    simp only [reduceCtorEq, false_or]
    cases req with
    | reqOpen newFd path flags mode => exact tableSafe_open
    | reqClose fd =>
      simp only [translateFdToFid, bind_assoc, wrap_pure, wrap_ok_bind]
      exact tableSafe_translated_close
    | reqRead fd count =>
      simp only [translateFdToFid, bind_assoc, wrap_pure, wrap_ok_bind]
      exact tableSafe_translated h fun fid => tableSafe_read
    | reqWrite fd data =>
      simp only [translateFdToFid, bind_assoc, wrap_pure, wrap_ok_bind]
      exact tableSafe_translated h fun fid => tableSafe_write
    | reqLseek fd offset whence =>
      simp only [translateFdToFid, bind_assoc, wrap_pure, wrap_ok_bind]
      exact tableSafe_translated h fun fid => tableSafe_lseek
    | reqGetdents64 fd count =>
      simp only [translateFdToFid, bind_assoc, wrap_pure, wrap_ok_bind]
      exact tableSafe_translated h fun fid => tableSafe_getdents64
    | reqCreat path | reqMkdir path mode | reqRmdir path flags | reqUnlink path flags
    | reqGetSize path => exact iff_of_true (tableSafe_passPath _) trivial
    | reqMount | reqOther number => exact iff_of_true (tableSafe_ok _) trivial

/-- **Bounds of the tables.** In every state that requests reach, for every
file system and every request, the tables are used inside their bounds and only
at entries that are there if and only if `InTables` holds. -/
theorem requests_in_tables (ops : FsServerOps σ) (fs : σ) (mounted : Bool)
    (calls : List FsCall) (s : FsServer σ)
    (hrun : run (fsStep ops) (initFsWrapper fs mounted) calls = .ok s)
    (c : FsCall) :
    TableSafe (fsServerDispatch ops c.env s c.badge c.req) ↔ InTables ops s c :=
  tableSafe_dispatch (VnodeInv.run hrun) c

theorem requests_in_tables_open_file : ∃ s,
    run (fsStep tmpfsOps) (tmpfsServer fun _ => 0) twoOpens = .ok s ∧
    TableSafe (fsServerDispatch tmpfsOps ⟨0, true⟩ s 8 (.reqRead 3 1)) := by
  refine exists_ok_imp (p := fun s => s.slot 8 3 = some 1 ∧ (s.entrys 1).isSome)
    (by decide +kernel) fun s hrun hentry => ?_
  rw [requests_in_tables tmpfsOps (initTmpfs fun _ => 0) true twoOpens s hrun
    { badge := 8, req := .reqRead 3 1 }]
  exact .inr (.inr ⟨1, hentry⟩)

/-- A client that has opened nothing reads from descriptor 5. -/
theorem read_of_unopened_descriptor : fsServerDispatch tmpfsOps ⟨0, true⟩ (tmpfsServer fun _ => 0) 7
      (.reqRead 5 1) = .error .serverEntrys := rfl

end ChCore.Userland
