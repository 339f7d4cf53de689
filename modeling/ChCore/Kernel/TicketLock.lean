import Mathlib.Data.Fintype.Card
import ChCore.Kernel.SchedModel
import ChCore.Lib.Runs

/-!
# The ticket lock (`kernel/arch/aarch64/sync/ticket.c`)

Contenders run `lock`, `try_lock` and `unlock` in any interleaving of their accesses to
`owner` and `next`, which wrap. A pair of exclusive accesses is one step, and so is
`owner++`, since only the holder writes `owner`; a `try_lock` that fails writes nothing.
-/

namespace ChCore.Kernel

open Function List Lib.Runs

/-- Where a contender is; one that spins has its ticket in `lockval`. -/
inductive LockPhase
  | out
  | spinning (lockval : Nat)
  | holding
  deriving DecidableEq

/-- `struct lock_impl`, and the contenders. -/
structure LockImpl (n : Nat) where
  owner : Nat
  next : Nat
  phase : Fin n → LockPhase

/-- `lock_init`. -/
def lockInit (n : Nat) : LockImpl n := ⟨0, 0, fun _ => .out⟩

/-- `is_locked`. -/
def LockImpl.isLocked {n : Nat} (lock : LockImpl n) : Bool := !(lock.owner == lock.next)

/-- What a contender does that does not have a ticket. -/
inductive LockCall
  | lock | tryLock

/-- The next access of a contender. -/
def lockStep {n : Nat} (s : LockImpl n) : Fin n × LockCall → Exec (LockImpl n)
  | (t, call) => .ok <| match s.phase t, call with
    | .out, .lock => ⟨s.owner, u32 (s.next + 1), update s.phase t (.spinning s.next)⟩
    | .out, .tryLock =>
      if s.next = s.owner then ⟨s.owner, u32 (s.next + 1), update s.phase t .holding⟩ else s
    | .spinning lockval, _ =>
      if lockval = s.owner then { s with phase := update s.phase t .holding } else s
    | .holding, _ => { s with owner := u32 (s.owner + 1), phase := update s.phase t .out }

/-- The contenders with a ticket, in the order in which they have drawn it, and whether
the first one has the lock. -/
structure LockQueue (n : Nat) where
  queue : List (Fin n)
  held : Bool

/-- What the access is for the queue. -/
def queueStep {n : Nat} (q : LockQueue n) : Fin n × LockCall → Exec (LockQueue n)
  | (t, call) => .ok <| if t ∈ q.queue then
      if q.queue.head? = some t then
        if q.held then ⟨q.queue.tail, false⟩ else ⟨q.queue, true⟩
      else q
    else match call with
      | .lock => ⟨q.queue ++ [t], q.held⟩
      | .tryLock => if q.queue = [] then ⟨[t], true⟩ else q

section

variable {n : Nat}

/-- The place in the queue decides on the ticket. -/
def phaseOf (owner : Nat) (queue : List (Fin n)) (held : Bool) (t : Fin n) : LockPhase :=
  if t ∉ queue then .out
  else if held ∧ queue.idxOf t = 0 then .holding
  else .spinning (u32 (owner + queue.idxOf t))

structure Refines (owner next : Nat) (phase : Fin n → LockPhase) (queue : List (Fin n))
    (held : Bool) : Prop where
  owner_lt : owner < 2 ^ 32
  next_eq : next = u32 (owner + queue.length)
  nodup : queue.Nodup
  phase_eq : phase = phaseOf owner queue held
  ne_nil : held → queue ≠ []

variable {owner next : Nat} {phase : Fin n → LockPhase} {queue : List (Fin n)} {held : Bool}
  {t : Fin n} (h : Refines owner next phase queue held)

include h

/-- A ticket is drawn. -/
lemma Refines.draw (ht : t ∉ queue) :
    Refines owner (u32 (next + 1)) (update phase t (.spinning next)) (queue ++ [t]) held where
  owner_lt := h.owner_lt
  next_eq := by
    rw [h.next_eq, length_append, length_singleton]
    unfold u32
    omega
  nodup := by simpa only [concat_eq_append] using h.nodup.concat ht
  phase_eq := by
    funext u
    unfold phaseOf
    by_cases hu : u = t
    · rw [hu, update_self, h.next_eq]
      simpa [idxOf_append_of_notMem ht] using h.ne_nil
    · rw [update_of_ne hu, h.phase_eq, phaseOf]
      by_cases hmem : u ∈ queue
      · simp [hmem, idxOf_append_of_mem hmem]
      · simp [hmem, hu]
  ne_nil := by simp

/-- The first contender gets the lock. -/
lemma Refines.enter {rest : List (Fin n)} (hq : queue = t :: rest) :
    Refines owner next (update phase t .holding) queue true := by
  refine ⟨h.owner_lt, h.next_eq, h.nodup, ?_, fun _ => hq ▸ cons_ne_nil t rest⟩
  funext u
  unfold phaseOf
  by_cases hu : u = t
  · simp [hu, hq]
  · rw [update_of_ne hu, h.phase_eq, phaseOf]
    simp [hq, idxOf_cons_ne rest (Ne.symm hu)]

/-- The holder leaves, and the tickets of the others are one step nearer. -/
lemma Refines.leave {rest : List (Fin n)} (hq : queue = t :: rest) :
    Refines (u32 (owner + 1)) next (update phase t .out) rest false := by
  have hnodup := h.nodup
  rw [hq, nodup_cons] at hnodup
  refine ⟨Nat.mod_lt _ (by decide), ?_, hnodup.2, ?_, by simp⟩
  · rw [h.next_eq, hq, length_cons]
    unfold u32
    omega
  · funext u
    unfold phaseOf
    by_cases hu : u = t
    · simp [hu, hnodup.1]
    · rw [update_of_ne hu, h.phase_eq, phaseOf]
      have hsum : u32 (owner + (rest.idxOf u + 1)) = u32 (u32 (owner + 1) + rest.idxOf u) := by
        unfold u32
        omega
      simp [hq, hu, idxOf_cons_ne rest (Ne.symm hu), hsum]

/-- Only the first contender has the ticket of the owner. -/
lemma Refines.ticket_iff {i : Nat} (hn : n < 2 ^ 32) (hi : i ≤ queue.length) :
    u32 (owner + i) = owner ↔ i = 0 := by
  have hlen : queue.length ≤ n := by simpa using h.nodup.length_le_card
  have howner := h.owner_lt
  unfold u32
  omega

end

/-- **A step of the lock is a step of the queue.** -/
lemma Refines.step {n : Nat} (hn : n < 2 ^ 32) {s : LockImpl n} {q : LockQueue n}
    (h : Refines s.owner s.next s.phase q.queue q.held) (access : Fin n × LockCall) :
    ∃ s' q', lockStep s access = .ok s' ∧ queueStep q access = .ok q' ∧
      Refines s'.owner s'.next s'.phase q'.queue q'.held := by
  obtain ⟨t, call⟩ := access
  obtain ⟨queue, held⟩ := q
  refine ⟨_, _, rfl, rfl, ?_⟩
  rw [show s.phase t = _ from congrFun h.phase_eq t, phaseOf]
  by_cases hmem : t ∈ queue
  · have hticket := h.ticket_iff hn (idxOf_lt_length_of_mem hmem).le
    cases queue with
    | nil => simp at hmem
    | cons u rest =>
      by_cases hu : u = t
      · rw [hu, idxOf_cons_self] at hticket
        subst hu
        cases held with
        | true => simpa using h.leave rfl
        | false => simpa [show u32 s.owner = s.owner from hticket.2 rfl] using h.enter rfl
      · rw [idxOf_cons_ne rest hu] at hticket
        simpa [hmem, idxOf_cons_ne rest hu, hticket, hu] using h
  · rw [if_pos hmem, if_neg hmem]
    cases call with
    | lock => exact h.draw hmem
    | tryLock =>
      have hempty : s.next = s.owner ↔ queue = [] := by
        rw [h.next_eq, h.ticket_iff hn le_rfl, length_eq_zero_iff]
      dsimp only
      by_cases hq : queue = []
      · rw [if_pos (hempty.2 hq), if_pos hq]
        subst hq
        simpa using (h.draw hmem).enter rfl
      · rw [if_neg fun heq => hq (hempty.1 heq), if_neg hq]
        exact h

/-- **The lock is a queue**: it serves up to `2 ^ 32 - 1` contenders one at a time and in
the order of their tickets, whatever the interleaving. -/
theorem lock_refines_queue (n : Fin (2 ^ 32)) (accesses : List (Fin n × LockCall)) :
    ∃ s q, run lockStep (lockInit n) accesses = .ok s ∧
      run queueStep ⟨[], false⟩ accesses = .ok q ∧ q.queue.Nodup ∧
      (∀ t, s.phase t = .holding ↔ q.held ∧ q.queue.head? = some t) ∧
      (∀ t, s.phase t = .out ↔ t ∉ q.queue) ∧ (s.isLocked ↔ q.queue ≠ []) := by
  have hboot : Refines (n := n) 0 0 (fun _ => .out) [] false :=
    ⟨by decide, rfl, nodup_nil, rfl, by simp⟩
  obtain ⟨s, q, hs, hq, h⟩ := run_simulates
    (R := fun s (q : LockQueue n) => Refines s.owner s.next s.phase q.queue q.held)
    (fun _ _ access h _ => h.step n.2 access) accesses (lockInit n) ⟨[], false⟩ hboot
    (admissible_of_forall (fun _ _ => trivial) _)
  refine ⟨s, q, hs, hq, h.nodup, fun t => ?_, fun t => ?_, ?_⟩
  · rw [h.phase_eq, phaseOf]
    cases q.queue with
    | nil => simp
    | cons u rest =>
      by_cases hu : u = t
      · simp [hu]
      · simp only [idxOf_cons_ne rest hu, head?_cons, Option.some.injEq, hu, and_false, iff_false,
          Nat.succ_ne_zero, if_false]
        split_ifs <;> simp
  · rw [h.phase_eq, phaseOf]
    split_ifs <;> simp [*]
  · rw [LockImpl.isLocked, Bool.not_eq_true', beq_eq_false_iff_ne, ne_comm, h.next_eq, ne_eq,
      h.ticket_iff n.2 le_rfl, length_eq_zero_iff]

end ChCore.Kernel
