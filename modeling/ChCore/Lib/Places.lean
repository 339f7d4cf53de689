import Mathlib.Data.Finset.Card

/-!
# Items at places

A system that moves items between queues is described by a function that says
at which place each item is. That an item is in no two queues is then part of
the description and need not be proved. What is left for a queue is that it
lists the items of its place (`Lists`). The lemmas say how the lists change
when one item moves.
-/

namespace ChCore.Lib.Places

open Function List

variable {ι π : Type*} [DecidableEq ι] {place : ι → π} {p q : π} {t : ι}
  {l : List ι}

/-- `l` lists the items at place `p`, each once. -/
structure Lists (place : ι → π) (p : π) (l : List ι) : Prop where
  nodup : l.Nodup
  mem_iff : ∀ t, t ∈ l ↔ place t = p

omit [DecidableEq ι] in
lemma Lists.nil (h : ∀ t, place t ≠ p) : Lists place p [] := ⟨nodup_nil, fun t => by simp [h t]⟩

/-- An item arrives at the end of the list. -/
lemma Lists.append (h : Lists place p l) (ht : place t ≠ p) :
    Lists (update place t p) p (l ++ [t]) := by
  have hnot : t ∉ l := fun hmem => ht ((h.mem_iff t).mp hmem)
  refine ⟨?_, fun u => ?_⟩
  · rw [nodup_append]
    refine ⟨h.nodup, nodup_singleton t, ?_⟩
    intro a ha b hb
    rw [mem_singleton] at hb
    exact fun hab => hnot (hb ▸ hab ▸ ha)
  · by_cases hu : u = t
    · subst hu
      simp
    · simp [hu, h.mem_iff]

/-- An item leaves the list, if it was there at all. -/
lemma Lists.erase (h : Lists place p l) (hq : q ≠ p) : Lists (update place t q) p (l.erase t) := by
  refine ⟨h.nodup.erase t, fun u => ?_⟩
  by_cases hu : u = t
  · subst hu
    simp [h.nodup.not_mem_erase, hq]
  · simp [hu, mem_erase_of_ne hu, h.mem_iff]

/-- An item moves between two other places. -/
lemma Lists.frame (h : Lists place p l) (ht : place t ≠ p) (hq : q ≠ p) :
    Lists (update place t q) p l := by
  have hnot : t ∉ l := fun hmem => ht ((h.mem_iff t).mp hmem)
  have herase := h.erase (t := t) hq
  rwa [erase_of_not_mem hnot] at herase

/-- The first item leaves the list. -/
lemma Lists.tail (h : Lists place p (t :: l)) (hq : q ≠ p) : Lists (update place t q) p l := by
  have herase := h.erase (t := t) hq
  rwa [erase_cons_head] at herase

omit [DecidableEq ι] in
/-- A list of items that are among the first `n` is no longer than `n`. -/
lemma length_le_of_index (index : ι → Nat) {n : Nat} (hnodup : l.Nodup)
    (hinj : ∀ a ∈ l, ∀ b ∈ l, index a = index b → a = b)
    (hlt : ∀ a ∈ l, index a < n) : l.length ≤ n := by
  have hmap : (l.map index).Nodup := hnodup.map_on hinj
  have hsub : (l.map index).toFinset ⊆ Finset.range n := by
    intro i hi
    simp only [mem_toFinset, mem_map] at hi
    obtain ⟨a, ha, rfl⟩ := hi
    exact Finset.mem_range.mpr (hlt a ha)
  calc l.length = (l.map index).toFinset.card := by rw [toFinset_card_of_nodup hmap, length_map]
    _ ≤ (Finset.range n).card := Finset.card_le_card hsub
    _ = n := Finset.card_range n

end ChCore.Lib.Places
