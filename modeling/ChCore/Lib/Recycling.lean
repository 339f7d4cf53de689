import Mathlib.Logic.Function.Basic

/-!
# Recycled positions

Keys are given positions in a table, and a position that has been freed is given
away again. An *open* gives a free position to the key of a label, and a
*close* frees it. A close does not clear the slot of the key, so that the slot
may lead to a position that someone else has opened since.

The history of opens and closes, newest event first, says who opened a position
(`opener`) and whose a key is (`holder`). `Agrees` relates it to the slots and
to the positions in use; it is kept by every open and by every close through a
key that is held. As long as it is kept, a slot leads to what the label itself
opened exactly if the label holds the key (`Agrees.opener_iff`).
-/

namespace ChCore.Lib.Recycling

variable {κ L : Type} [DecidableEq κ]

/-- A position is opened or closed in the name of a label. -/
inductive Event (L : Type)
  | opened (label : L) (n : Nat)
  | closed (label : L) (n : Nat)
  deriving DecidableEq, Repr

/-- The label that opened a position which has not been closed since. -/
def opener : List (Event L) → Nat → Option L
  | [], _ => none
  | .opened l m :: log, n => if m = n then some l else opener log n
  | .closed _ m :: log, n => if m = n then none else opener log n

/-- The label that opened a key which has not been closed since. -/
def holder (keyOf : L → κ) : List (Event L) → κ → Option L
  | [], _ => none
  | .opened l _ :: log, k => if keyOf l = k then some l else holder keyOf log k
  | .closed l _ :: log, k => if keyOf l = k then none else holder keyOf log k

/-- A key that is held leads to what its holder opened, and another key leads to
nothing that was opened under it. -/
structure Agrees (keyOf : L → κ) (slot : κ → Option Nat) (used : Nat → Prop)
    (log : List (Event L)) : Prop where
  held : ∀ k l, holder keyOf log k = some l → ∃ n, slot k = some n ∧ used n ∧ opener log n = some l
  stale : ∀ k n l, holder keyOf log k = none → slot k = some n → used n →
    opener log n = some l → keyOf l ≠ k

variable {keyOf : L → κ} {slot : κ → Option Nat} {used : Nat → Prop}
  {log : List (Event L)}

lemma holder_keyOf {k : κ} {l : L} (h : holder keyOf log k = some l) : keyOf l = k := by
  induction log with
  | nil => cases h
  | cons event log ih =>
    cases event with
    | opened l' n =>
      rw [holder] at h
      by_cases hk : keyOf l' = k
      · rw [if_pos hk] at h
        cases h
        exact hk
      · rw [if_neg hk] at h
        exact ih h
    | closed l' n =>
      rw [holder] at h
      by_cases hk : keyOf l' = k
      · rw [if_pos hk] at h
        cases h
      rw [if_neg hk] at h
      exact ih h

lemma Agrees.nil : Agrees keyOf (fun _ => none) used [] where
  held := nofun
  stale := nofun

variable {n : Nat}

/-- The slot of a key leads to what a label opened under it exactly if the label
holds the key. -/
lemma Agrees.opener_iff (h : Agrees keyOf slot used log) {k : κ}
    (hslot : slot k = some n) (hused : used n) (l : L) :
    opener log n = some l ∧ keyOf l = k ↔ holder keyOf log k = some l := by
  constructor
  · rintro ⟨hopener, hkey⟩
    cases hholder : holder keyOf log k with
    | none => exact absurd hkey (h.stale k n l hholder hslot hused hopener)
    | some l' =>
      obtain ⟨m, hslot', -, hopener'⟩ := h.held k l' hholder
      rw [hslot] at hslot'
      cases hslot'
      rw [hopener] at hopener'
      exact hopener'.symm
  · intro hholder
    obtain ⟨m, hslot', -, hopener⟩ := h.held k l hholder
    rw [hslot] at hslot'
    cases hslot'
    exact ⟨hopener, holder_keyOf hholder⟩

/-- The relation does not depend on how slots and used positions are written. -/
lemma Agrees.congr {slot' : κ → Option Nat} {used' : Nat → Prop}
    (h : Agrees keyOf slot used log) (hslot : ∀ k, slot' k = slot k)
    (hused : ∀ n, used' n ↔ used n) : Agrees keyOf slot' used' log := by
  have heq : slot' = slot := funext hslot
  have hiff : used' = used := funext fun n => propext (hused n)
  rw [heq, hiff]
  exact h

/-- An open gives a position that is not in use to the key of a label. -/
lemma Agrees.opened (h : Agrees keyOf slot used log) (l : L) (hfree : ¬ used n) :
    Agrees keyOf (Function.update slot (keyOf l) (some n))
    (fun i => i = n ∨ used i) (.opened l n :: log) where
  held := by
    intro k l' hholder
    rw [holder] at hholder
    by_cases hk : keyOf l = k
    · rw [if_pos hk] at hholder
      cases hholder
      refine ⟨n, ?_, .inl rfl, ?_⟩
      · rw [hk, Function.update_self]
      · rw [opener, if_pos rfl]
    rw [if_neg hk] at hholder
    obtain ⟨m, hslot, hused, hopener⟩ := h.held k l' hholder
    have hne : n ≠ m := by
      rintro rfl
      exact hfree hused
    refine ⟨m, ?_, .inr hused, ?_⟩
    · rw [Function.update_of_ne (Ne.symm hk)]
      exact hslot
    rw [opener, if_neg hne]
    exact hopener
  stale := by
    intro k m l' hholder hslot hused hopener
    rw [holder] at hholder
    by_cases hk : keyOf l = k
    · rw [if_pos hk] at hholder
      cases hholder
    rw [if_neg hk] at hholder
    rw [Function.update_of_ne (Ne.symm hk)] at hslot
    rw [opener] at hopener
    by_cases hm : n = m
    · rw [if_pos hm] at hopener
      cases hopener
      exact hk
    rw [if_neg hm] at hopener
    have hold : used m := hused.resolve_left (Ne.symm hm)
    exact h.stale k m l' hholder hslot hold hopener

/-- A close through a key that is held frees the position of the key. -/
lemma Agrees.closed (h : Agrees keyOf slot used log) {l : L}
    (hheld : holder keyOf log (keyOf l) = some l) (hslot : slot (keyOf l) = some n) :
    Agrees keyOf slot (fun i => i ≠ n ∧ used i) (.closed l n :: log) where
  held := by
    intro k l' hholder
    rw [holder] at hholder
    by_cases hk : keyOf l = k
    · rw [if_pos hk] at hholder
      cases hholder
    rw [if_neg hk] at hholder
    obtain ⟨m, hslot', hused, hopener⟩ := h.held k l' hholder
    -- the position was opened under another key
    have hne : n ≠ m := by
      rintro rfl
      obtain ⟨n', hslot'', -, hopener'⟩ := h.held _ l hheld
      rw [hslot] at hslot''
      cases hslot''
      rw [hopener] at hopener'
      cases hopener'
      exact hk (holder_keyOf hholder)
    refine ⟨m, hslot', ⟨Ne.symm hne, hused⟩, ?_⟩
    rw [opener, if_neg hne]
    exact hopener
  stale := by
    intro k m l' hholder hslot' hused hopener
    rw [opener, if_neg (Ne.symm hused.1)] at hopener
    rw [holder] at hholder
    by_cases hk : keyOf l = k
    · rw [← hk, hslot] at hslot'
      cases hslot'
      exact absurd rfl hused.1
    · rw [if_neg hk] at hholder
      exact h.stale k m l' hholder hslot' hused.2 hopener

end ChCore.Lib.Recycling
