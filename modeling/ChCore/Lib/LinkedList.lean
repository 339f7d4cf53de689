import Mathlib.Data.List.Nodup

/-!
# Lists linked through memory

`Linked next p l` says that following `next` from the pointer `p` visits the
cells `l`, up to a null pointer. The memory the links are in is not named, so
the same facts serve any number of lists with different link fields.
-/

namespace ChCore.Lib.LinkedList

/-- The cells from `p` on are `l`; `0` is the null pointer. -/
def Linked (next : Nat → Nat) : Nat → List Nat → Prop
  | p, [] => p = 0
  | p, x :: l => p = x ∧ x ≠ 0 ∧ Linked next (next x) l

variable {next : Nat → Nat} {p : Nat}

lemma linked_nil : Linked next p [] ↔ p = 0 := Iff.rfl

variable {l : List Nat}

lemma linked_cons {x : Nat} :
    Linked next p (x :: l) ↔ p = x ∧ x ≠ 0 ∧ Linked next (next x) l := Iff.rfl

/-- A pointer that is not null leads to the first cell. -/
lemma Linked.cons_of_ne (h : Linked next p l) (hp : p ≠ 0) :
    ∃ l', l = p :: l' ∧ Linked next (next p) l' := by
  cases l with
  | nil => exact absurd h hp
  | cons x l =>
    obtain ⟨rfl, _, hrest⟩ := linked_cons.1 h
    exact ⟨l, rfl, hrest⟩

lemma Linked.nil_of_zero (h : Linked next 0 l) : l = [] := by
  cases l with
  | nil => rfl
  | cons x l =>
    obtain ⟨hx, hne, _⟩ := linked_cons.1 h
    exact absurd hx.symm hne

/-- The links decide the cells. -/
lemma Linked.unique : ∀ {p : Nat} {l' : List Nat}, Linked next p l → Linked next p l' → l = l' := by
  induction l with
  | nil =>
    intro p l' h h'
    rw [linked_nil.1 h] at h'
    exact h'.nil_of_zero.symm
  | cons x l ih =>
    intro p l' h h'
    obtain ⟨rfl, hne, hrest⟩ := linked_cons.1 h
    obtain ⟨l'', rfl, hrest'⟩ := h'.cons_of_ne hne
    rw [ih hrest hrest']

/-- Links that are changed elsewhere do not matter. -/
lemma Linked.congr {next' : Nat → Nat} :
    ∀ {p : Nat}, Linked next p l → (∀ x ∈ l, next' x = next x) → Linked next' p l := by
  induction l with
  | nil =>
    intro p h _
    exact h
  | cons x l ih =>
    intro p h hnext
    obtain ⟨hp, hne, hrest⟩ := linked_cons.1 h
    have hx := hnext x List.mem_cons_self
    refine linked_cons.2 ⟨hp, hne, ?_⟩
    rw [hx]
    exact ih hrest fun y hy => hnext y (List.mem_cons_of_mem _ hy)

end ChCore.Lib.LinkedList
