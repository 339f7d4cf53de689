import ChCore.Kernel.BuddySteps

/-!
# Free buddies are merged

No two buddies of an order below the largest one are both free. While
`split_page` and `merge_page` run there is one exception, the chunk in their
hands. Buddies are frames here: `buddy k x` is the frame at the same place in
the buddy of the block of order `k` around `x`.
-/

namespace ChCore.Kernel

open Lib.Dyadic

/-- No two free chunks could be merged, the chunk `hand` apart. -/
def Merged (pool : PhysMemPool) (hand : Option Nat) : Prop :=
  ∀ x k, k + 1 < buddyMaxOrder → pool.label x = some (k, 0) → pool.label (buddy k x) = some (k, 0) →
    ∃ p ∈ hand, x / 2 ^ k = (pool.base + p) / 2 ^ k ∨ buddy k x / 2 ^ k = (pool.base + p) / 2 ^ k

section

variable {pool pool' : PhysMemPool} {hand : Option Nat} {p k : Nat}

lemma Merged.of_none (h : Merged pool none) (hand : Option Nat) : Merged pool hand := by
  intro x j hj hx hb
  obtain ⟨q, hq, _⟩ := h x j hj hx hb
  cases hq

lemma Merged.congr (h : Merged pool hand) (hshape : SameShape pool pool')
    (hmeta : pool'.pageMetadata = pool.pageMetadata) : Merged pool' hand := by
  intro x j hj hx hb
  rw [label_congr hshape hmeta] at hx hb
  rw [hshape.base]
  exact h x j hj hx hb

/-- A block becomes one free chunk, and the chunk that was in hand lies in
it. -/
lemma Merged.free (h : Merged pool hand) (hbase : pool'.base = pool.base)
    (hlabel : ∀ x, pool'.label x = if x / 2 ^ k = (pool.base + p) / 2 ^ k then some (k, 0)
    else pool.label x)
    (hhand : ∀ q ∈ hand, ∀ x j, pool.label x = some (j, 0) → x / 2 ^ j = (pool.base + q) / 2 ^ j →
    x / 2 ^ k = (pool.base + p) / 2 ^ k) : Merged pool' (some p) := by
  intro x j hj hx hb
  rw [hlabel] at hx hb
  refine ⟨p, rfl, ?_⟩
  rw [hbase]
  by_cases hin : x / 2 ^ k = (pool.base + p) / 2 ^ k
  · rw [if_pos hin] at hx
    cases hx
    exact .inl hin
  rw [if_neg hin] at hx
  by_cases hbin : buddy j x / 2 ^ k = (pool.base + p) / 2 ^ k
  · rw [if_pos hbin] at hb
    cases hb
    exact .inr hbin
  rw [if_neg hbin] at hb
  obtain ⟨q, hq, hxq | hbq⟩ := h x j hj hx hb
  · exact absurd (hhand q hq x j hx hxq) hin
  · exact absurd (hhand q hq _ j hb hbq) hbin

variable (hcoh : Coherent pool.label)

include hcoh in
lemma Merged.markFree (h : Merged pool none) (hp : IsChunk pool p k 1) :
    Merged (setFreePage pool p k) (some p) := by
  refine h.free ?_ (label_setPages hp.aligned (hp.inside hcoh) 0) ?_
  · rfl
  intro q hq
  cases hq

include hcoh in
/-- A frame with the order of the chunk `p` that lies around it. -/
lemma IsChunk.order_eq {a x j b : Nat} (hp : IsChunk pool p k a) (hx : pool.label x = some (j, b))
    (hin : x / 2 ^ j = (pool.base + p) / 2 ^ j) : j = k := by
  have hself := hcoh x j b hx (pool.base + p) hin.symm
  rw [hp.isHead.1] at hself
  cases hself
  rfl

include hcoh in
/-- The chunk in hand is merged with its buddy. -/
lemma Merged.merge {q : Nat} (h : Merged pool (some p))
    (hp : IsChunk pool p k 0) (hq : IsChunk pool q k 0)
    (hbuddy : pool.base + q = buddy k (pool.base + p)) :
    Merged (setFreePage ((pool.listDel q).updNrFree k (· - 1))
    (min p q) (k + 1)) (some (min p q)) := by
  obtain ⟨hal, hin, hblock, _⟩ := hp.block hcoh hq hbuddy
  have hmerged : Merged (pool.setPages (min p q) (k + 1) 0) (some (min p q)) := by
    refine h.free ?_ (label_setPages hal hin 0) ?_
    · rfl
    intro r hr x j hx hxr
    cases hr
    obtain rfl := hp.order_eq hcoh hx hxr
    exact (hblock x).2 (.inl hxr)
  exact hmerged.congr ⟨rfl, rfl, rfl, fun _ => rfl, fun _ => rfl⟩ rfl

include hcoh in
/-- The chunk in hand stays as it is when its buddy is not free. -/
lemma Merged.done (h : Merged pool (some p)) (hp : IsChunk pool p k 0)
    (hstop : k + 1 < buddyMaxOrder → pool.label (buddy k (pool.base + p)) ≠ some (k, 0)) :
    Merged pool none := by
  intro x j hj hx hb
  exfalso
  obtain ⟨q, hq, hin⟩ := h x j hj hx hb
  cases hq
  -- one of the two is in the chunk, and then the other one is in its buddy
  rcases hin with hin | hin
  · obtain rfl := hp.order_eq hcoh hx hin
    apply hstop hj
    apply hcoh _ j 0 hb
    rw [buddy_div, buddy_div, hin]
  obtain rfl := hp.order_eq hcoh hb hin
  apply hstop hj
  apply hcoh _ j 0 hx
  rw [buddy_div, ← hin, buddy_div, Nat.xor_assoc, Nat.xor_self, Nat.xor_zero]

include hcoh in
/-- The chunk in hand is allocated. -/
lemma Merged.allocate (h : Merged pool (some p)) (hp : IsChunk pool p k 0) :
    Merged (((setAllocPage pool p k).updNrFree k (· - 1)).listDel p) none := by
  have hlabel := label_setPages hp.aligned (hp.inside hcoh) 1
  have hshape : SameShape (pool.setPages p k 1)
      (((setAllocPage pool p k).updNrFree k (· - 1)).listDel p) :=
    ⟨rfl, rfl, rfl, fun _ => rfl, fun _ => rfl⟩
  have hfree : ∀ x j, (pool.setPages p k 1).label x = some (j, 0) →
      pool.label x = some (j, 0) ∧ x / 2 ^ k ≠ (pool.base + p) / 2 ^ k := by
    intro x j hx
    rw [hlabel] at hx
    by_cases hin : x / 2 ^ k = (pool.base + p) / 2 ^ k
    · rw [if_pos hin] at hx
      cases hx
    rw [if_neg hin] at hx
    exact ⟨hx, hin⟩
  apply @Merged.congr (pool.setPages p k 1) _ none _ hshape rfl
  intro x j hj hx hb
  exfalso
  obtain ⟨hx, hxout⟩ := hfree x j hx
  obtain ⟨hb, hbout⟩ := hfree _ j hb
  obtain ⟨q, hq, hin⟩ := h x j hj hx hb
  cases hq
  rcases hin with hin | hin
  · obtain rfl := hp.order_eq hcoh hx hin
    exact hxout hin
  obtain rfl := hp.order_eq hcoh hb hin
  exact hbout hin

end

/-- The chunk in hand is split, and its first half is in hand then. -/
lemma Merged.split {pool : PhysMemPool} {p k : Nat}
    (hinv : PoolInv pool none) (h : Merged pool (some p))
    (hp : IsChunk pool p (k + 1) 0) : Merged (splitOnce pool p) (some p) := by
  have hlabel := label_splitOnce hinv hp
  have hbase := (splitOnce_shape pool p).base
  intro x j hj hx hb
  rw [hlabel] at hx hb
  refine ⟨p, rfl, ?_⟩
  rw [hbase]
  -- in the old chunk, `x` and its buddy are in the two halves
  have hhalf : j = k → x / 2 ^ (k + 1) = (pool.base + p) / 2 ^ (k + 1) →
      x / 2 ^ j = (pool.base + p) / 2 ^ j ∨ buddy j x / 2 ^ j = (pool.base + p) / 2 ^ j := by
    intro hjk hin
    rw [hjk]
    have := (div_succ_eq_iff k x (pool.base + p)).1 hin.symm
    rcases this with hx | hx
    · exact .inl hx.symm
    · exact .inr hx.symm
  by_cases hin : x / 2 ^ (k + 1) = (pool.base + p) / 2 ^ (k + 1)
  · rw [if_pos hin] at hx
    cases hx
    exact hhalf rfl hin
  rw [if_neg hin] at hx
  by_cases hbin : buddy j x / 2 ^ (k + 1) = (pool.base + p) / 2 ^ (k + 1)
  · rw [if_pos hbin] at hb
    cases hb
    rw [buddy_div_succ] at hbin
    exact absurd hbin hin
  rw [if_neg hbin] at hb
  obtain ⟨q, hq, hxq⟩ := h x j hj hx hb
  cases hq
  rcases hxq with hxq | hxq
  · obtain rfl := hp.order_eq hinv.coherent hx hxq
    exact absurd hxq hin
  obtain rfl := hp.order_eq hinv.coherent hb hxq
  exact absurd hxq hbin

/-- **Free blocks are in free chunks.** Where every frame of a block is free,
no smaller chunk is left in it. -/
theorem Merged.le_order {pool : PhysMemPool} (h : Merged pool none)
    (hcoh : Coherent pool.label) {k a : Nat} (hk : k < buddyMaxOrder)
    (hfree : ∀ x, x / 2 ^ k = a / 2 ^ k → ∃ j, pool.label x = some (j, 0)) (j : Nat) :
    ∀ x, x / 2 ^ k = a / 2 ^ k → pool.label x = some (j, 0) → k ≤ j := by
  induction j using Nat.strong_induction_on with
  | _ j ih =>
    intro x hin hx
    by_contra hlt
    have hbin : buddy j x / 2 ^ k = a / 2 ^ k :=
      (div_eq_of_le (by omega) (buddy_div_succ j x)).trans hin
    obtain ⟨l, hl⟩ := hfree _ hbin
    rcases Nat.lt_trichotomy l j with hlj | rfl | hlj
    · exact absurd (ih l hlj _ hbin hl) (by omega)
    · obtain ⟨p, hp, _⟩ := h x l (by omega) hx hl
      cases hp
    -- a larger chunk around the buddy would be around `x`
    have hself := hcoh _ l 0 hl x (div_eq_of_le hlj (buddy_div_succ j x).symm)
    rw [hx] at hself
    cases hself
    omega

end ChCore.Kernel
