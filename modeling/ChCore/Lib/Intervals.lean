import Mathlib.Algebra.Order.Ring.Int
import Mathlib.Algebra.Order.BigOperators.Group.Finset
import Mathlib.Order.Interval.Finset.Nat

/-!
# Intervals of addresses

Half-open intervals `[start, start + size)` of natural numbers: when two of
them are disjoint, and how the sizes of a family add up that covers a range.
-/

namespace ChCore.Lib.Intervals

/-- `[a, a + m)` and `[b, b + n)` have no number in common. -/
def Apart (a m b n : Nat) : Prop := ∀ x, a ≤ x → x < a + m → b ≤ x → x < b + n → False

variable {a m b n : Nat}

lemma Apart.symm (h : Apart a m b n) : Apart b n a m := fun x hb hb' ha ha' => h x ha ha' hb hb'

/-- Two intervals are apart when one ends before the other starts; for
intervals that are not empty there is no other way. -/
lemma apart_iff (hm : 0 < m) (hn : 0 < n) : Apart a m b n ↔ a + m ≤ b ∨ b + n ≤ a := by
  constructor
  · intro h
    by_contra hno
    exact h (max a b) (by omega) (by omega) (by omega) (by omega)
  · intro h x ha ha' hb hb'
    omega

lemma apart_iff_of_size : Apart a m b n ↔ m = 0 ∨ n = 0 ∨ a + m ≤ b ∨ b + n ≤ a := by
  rcases Nat.eq_zero_or_pos m with hm | hm
  · exact iff_of_true (fun x _ _ _ _ => by omega) (.inl hm)
  rcases Nat.eq_zero_or_pos n with hn | hn
  · exact iff_of_true (fun x _ _ _ _ => by omega) (Or.inr (.inl hn))
  rw [apart_iff hm hn]
  omega

instance (a m b n : Nat) : Decidable (Apart a m b n) := decidable_of_iff _ apart_iff_of_size.symm

/-- A smaller interval stays apart. -/
lemma Apart.mono {a' m' : Nat} (h : Apart a m b n) (hle : a ≤ a')
    (hend : a' + m' ≤ a + m) : Apart a' m' b n :=
  fun x ha ha' hb hb' => h x (by omega) (by omega) hb hb'

/-- **Counting a partition.** Intervals that are pairwise apart and together
cover `[0, n)` have sizes that add up to `n`. -/
theorem sum_sizes {ι : Type _} [DecidableEq ι] {S : Finset ι}
    (start size : ι → Nat) (hin : ∀ c ∈ S, start c + size c ≤ n)
    (hapart : ∀ c ∈ S, ∀ d ∈ S, c ≠ d → Apart (start c) (size c) (start d) (size d))
    (hcover : ∀ x, x < n → ∃ c ∈ S, start c ≤ x ∧ x < start c + size c) : ∑ c ∈ S, size c = n := by
  have hdisj : ∀ c ∈ S, ∀ d ∈ S, c ≠ d → Disjoint (Finset.Ico (start c) (start c + size c))
        (Finset.Ico (start d) (start d + size d)) := by
    intro c hc d hd hne
    rw [Finset.disjoint_left]
    intro x hx hx'
    rw [Finset.mem_Ico] at hx hx'
    exact hapart c hc d hd hne x hx.1 hx.2 hx'.1 hx'.2
  have hunion : S.biUnion (fun c => Finset.Ico (start c) (start c + size c)) = Finset.range n := by
    ext x
    simp only [Finset.mem_biUnion, Finset.mem_Ico, Finset.mem_range]
    constructor
    · rintro ⟨c, hc, _, hx⟩
      exact lt_of_lt_of_le hx (hin c hc)
    · exact hcover x
  calc ∑ c ∈ S, size c = ∑ c ∈ S, (Finset.Ico (start c) (start c + size c)).card := by
        refine Finset.sum_congr rfl ?_
        intro c _
        rw [Nat.card_Ico, Nat.add_sub_cancel_left]
    _ = (S.biUnion fun c => Finset.Ico (start c) (start c + size c)).card :=
        (Finset.card_biUnion hdisj).symm
    _ = n := by rw [hunion, Finset.card_range]

/-- The same for a list of intervals without repetitions. -/
lemma sum_sizes_list {ι : Type _} {l : List ι} (hnodup : l.Nodup)
    (start size : ι → Nat) (hin : ∀ c ∈ l, start c + size c ≤ n)
    (hapart : ∀ c ∈ l, ∀ d ∈ l, c ≠ d → Apart (start c) (size c) (start d) (size d))
    (hcover : ∀ x, x < n → ∃ c ∈ l, start c ≤ x ∧ x < start c + size c) : (l.map size).sum = n := by
  classical
  rw [← List.sum_toFinset size hnodup]
  refine sum_sizes start size ?_ ?_ ?_
  · intro c hc
    exact hin c (List.mem_toFinset.1 hc)
  · intro c hc d hd hne
    exact hapart c (List.mem_toFinset.1 hc) d (List.mem_toFinset.1 hd) hne
  intro x hx
  obtain ⟨c, hc, hmem⟩ := hcover x hx
  exact ⟨c, List.mem_toFinset.2 hc, hmem⟩

end ChCore.Lib.Intervals
