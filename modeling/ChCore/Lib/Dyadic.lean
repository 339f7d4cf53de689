import Mathlib.Data.Nat.Bitwise
import Mathlib.Tactic.Ring

/-!
# Dyadic blocks and labellings of the naturals

A *dyadic block* of order `k` is an interval of `2 ^ k` numbers that starts at
a multiple of `2 ^ k`; the block of order `k` around `x` is the set of all `y`
with `y / 2 ^ k = x / 2 ^ k`. Quotients are the normal form of membership
here: every statement about blocks becomes a statement about `/ 2 ^ k`.

A *labelling* marks numbers with an order and a tag. It is `Coherent` when
the whole block around a marked number carries the mark of that number. A
coherent labelling is a partition of its domain into dyadic blocks, whatever
the tags are: each marked number lies in exactly one block
(`existsUnique_head`) and blocks do not meet (`head_eq_of_common`).
`Coherent.relabel` is the one rule by which such a partition is changed:
replace the marks on a union of blocks.
-/

namespace ChCore.Lib.Dyadic

open Nat

/-! ## Blocks -/

variable {k a y : Nat}

/-- Membership in the block that starts at a multiple of its size. -/
lemma div_eq_iff_of_dvd (h : 2 ^ k ∣ a) : y / 2 ^ k = a / 2 ^ k ↔ a ≤ y ∧ y < a + 2 ^ k := by
  obtain ⟨q, rfl⟩ := h
  have hpos : 0 < 2 ^ k := Nat.two_pow_pos k
  rw [Nat.mul_div_cancel_left q hpos]
  constructor
  · intro h
    have hdm := Nat.div_add_mod y (2 ^ k)
    have hlt := mod_lt y hpos
    rw [h] at hdm
    omega
  · rintro ⟨hle, hlt⟩
    refine (Nat.div_eq_iff hpos).2 ⟨?_, ?_⟩
    · rwa [mul_comm]
    rw [mul_comm q]
    omega

/-- The start of the block of order `k` around `x`. -/
def blockStart (k x : Nat) : Nat := x / 2 ^ k * 2 ^ k

lemma dvd_blockStart (k x : Nat) : 2 ^ k ∣ blockStart k x := dvd_mul_left _ _

@[simp] lemma blockStart_div (k x : Nat) : blockStart k x / 2 ^ k = x / 2 ^ k :=
  Nat.mul_div_cancel _ (Nat.two_pow_pos k)

variable {x : Nat}

/-- Two numbers of one block are in one block of every larger order. -/
lemma div_eq_of_le {l : Nat} (hkl : k ≤ l) (h : x / 2 ^ k = y / 2 ^ k) : x / 2 ^ l = y / 2 ^ l := by
  obtain ⟨d, rfl⟩ := Nat.exists_eq_add_of_le hkl
  rw [Nat.pow_add, ← Nat.div_div_eq_div_mul, ← Nat.div_div_eq_div_mul, h]

lemma div_two_pow_succ (x k : Nat) : x / 2 ^ (k + 1) = x / 2 ^ k / 2 := by
  rw [Nat.pow_succ, Nat.div_div_eq_div_mul]

/-! ## Buddies -/

lemma xor_one_div_two (q : Nat) : (q ^^^ 1) / 2 = q / 2 := by
  rw [xor_div_two, show 1 / 2 = 0 from rfl, xor_zero]

lemma xor_one_mod_two (q : Nat) : (q ^^^ 1) % 2 = (q + 1) % 2 := xor_mod_two_eq

/-- The other half of the block of order `k + 1` around `a`, when `a` starts a
block of order `k`. -/
def buddy (k a : Nat) : Nat := a ^^^ 2 ^ k

lemma buddy_div (k a : Nat) : buddy k a / 2 ^ k = a / 2 ^ k ^^^ 1 := by
  rw [buddy, Nat.xor_div_two_pow, Nat.div_self (Nat.two_pow_pos k)]

lemma dvd_buddy (h : 2 ^ k ∣ a) : 2 ^ k ∣ buddy k a := by
  rw [dvd_iff_mod_eq_zero] at h ⊢
  rw [buddy, xor_mod_two_pow, h, mod_self, xor_zero]

lemma buddy_div_ne (k a : Nat) : buddy k a / 2 ^ k ≠ a / 2 ^ k := by
  rw [buddy_div]
  intro h
  have := xor_one_mod_two (a / 2 ^ k)
  rw [h] at this
  omega

/-- A block and its buddy lie in the same block of the next order. -/
lemma buddy_div_succ (k a : Nat) : buddy k a / 2 ^ (k + 1) = a / 2 ^ (k + 1) := by
  rw [div_two_pow_succ, div_two_pow_succ, buddy_div, xor_one_div_two]

/-- The block of order `k + 1` is the block of order `k` and its buddy. -/
lemma div_succ_eq_iff (k a y : Nat) : y / 2 ^ (k + 1) = a / 2 ^ (k + 1) ↔
    y / 2 ^ k = a / 2 ^ k ∨ y / 2 ^ k = buddy k a / 2 ^ k := by
  rw [div_two_pow_succ, div_two_pow_succ, buddy_div]
  have h1 := xor_one_div_two (a / 2 ^ k)
  have h2 := xor_one_mod_two (a / 2 ^ k)
  generalize a / 2 ^ k = q at *
  generalize y / 2 ^ k = p at *
  generalize q ^^^ 1 = r at *
  constructor <;> omega

/-- The smaller of two buddies starts the block of the next order. -/
lemma dvd_min_buddy (h : 2 ^ k ∣ a) : 2 ^ (k + 1) ∣ min a (buddy k a) := by
  obtain ⟨q, hq⟩ := h
  obtain ⟨r, hr⟩ := dvd_buddy ⟨q, hq⟩
  have hpos := Nat.two_pow_pos k
  have hqd : a / 2 ^ k = q := by rw [hq, Nat.mul_div_cancel_left _ hpos]
  have hrd : buddy k a / 2 ^ k = r := by rw [hr, Nat.mul_div_cancel_left _ hpos]
  have hd := xor_one_div_two q
  have hm := xor_one_mod_two q
  rw [buddy_div, hqd] at hrd
  rw [hrd] at hd hm
  rw [hr, hq, Nat.mul_min_mul_left, Nat.pow_succ]
  refine mul_dvd_mul_left _ ?_
  omega

lemma min_buddy_div_succ (k a : Nat) : min a (buddy k a) / 2 ^ (k + 1) = a / 2 ^ (k + 1) := by
  rcases le_total a (buddy k a) with h | h
  · rw [min_eq_left h]
  · rw [min_eq_right h, buddy_div_succ]

/-! ## Halves -/

/-- The second half of a block of order `k + 1` starts a block of order `k`. -/
lemma dvd_second_half (h : 2 ^ (k + 1) ∣ a) : 2 ^ k ∣ a ∧ 2 ^ k ∣ a + 2 ^ k := by
  have hk : 2 ^ k ∣ a := dvd_trans (pow_dvd_pow 2 (le_succ k)) h
  exact ⟨hk, Nat.dvd_add hk (Nat.dvd_refl _)⟩

/-- A block is the union of its halves. -/
lemma div_succ_eq_iff_halves (h : 2 ^ (k + 1) ∣ a) (y : Nat) : y / 2 ^ (k + 1) = a / 2 ^ (k + 1) ↔
    y / 2 ^ k = a / 2 ^ k ∨ y / 2 ^ k = (a + 2 ^ k) / 2 ^ k := by
  have heven : a / 2 ^ k % 2 = 0 := by
    obtain ⟨q, rfl⟩ := h
    rw [pow_succ, mul_assoc, Nat.mul_div_cancel_left _ (Nat.two_pow_pos k), Nat.mul_mod_right]
  rw [div_two_pow_succ, div_two_pow_succ, Nat.add_div_right _ (Nat.two_pow_pos k)]
  generalize a / 2 ^ k = q at *
  generalize y / 2 ^ k = p at *
  constructor <;> omega

/-! ## Coherent labellings -/

variable {α : Type _}

/-- The whole block around a marked number carries its mark. -/
def Coherent (lab : Nat → Option (Nat × α)) : Prop :=
  ∀ x k a, lab x = some (k, a) → ∀ y, y / 2 ^ k = x / 2 ^ k → lab y = some (k, a)

/-- `x` starts a block of the labelling, with mark `(k, a)`. -/
def IsHead (lab : Nat → Option (Nat × α)) (x k : Nat) (a : α) : Prop :=
  lab x = some (k, a) ∧ 2 ^ k ∣ x

variable {lab : Nat → Option (Nat × α)}

/-- Change the marks on a region `R` that is a union of blocks, to marks whose
blocks stay inside `R`: the result is coherent again. -/
lemma Coherent.relabel {lab' : Nat → Option (Nat × α)} (R : Nat → Prop) (h : Coherent lab)
    (hunion : ∀ x y k a, R x → lab x = some (k, a) → y / 2 ^ k = x / 2 ^ k → R y)
    (hout : ∀ x, ¬ R x → lab' x = lab x)
    (hin : ∀ x y k a, R x → lab' x = some (k, a) → y / 2 ^ k = x / 2 ^ k → lab' y = some (k, a)) :
    Coherent lab' := by
  intro x k a hx y hy
  by_cases hR : R x
  · exact hin x y k a hR hx hy
  rw [hout x hR] at hx
  have hy' := h x k a hx y hy
  -- `y` cannot be in the region, or its block would drag `x` into it
  have hRy : ¬ R y := fun hRy => hR (hunion y x k a hRy hy' hy.symm)
  rw [hout y hRy, hy']

/-- Two blocks of a coherent labelling that meet are the same block. -/
lemma head_eq_of_common (h : Coherent lab) {l z : Nat} {a b : α}
    (hx : IsHead lab x k a) (hy : IsHead lab y l b)
    (hzx : z / 2 ^ k = x / 2 ^ k) (hzy : z / 2 ^ l = y / 2 ^ l) : x = y ∧ k = l ∧ a = b := by
  have h1 := h x k a hx.1 z hzx
  have h2 := h y l b hy.1 z hzy
  rw [h1] at h2
  simp only [Option.some.injEq, Prod.mk.injEq] at h2
  obtain ⟨rfl, rfl⟩ := h2
  exact ⟨(Nat.div_left_inj hx.2 hy.2).1 (hzx.symm.trans hzy), rfl, rfl⟩

/-- Every marked number lies in exactly one block. -/
lemma existsUnique_head (h : Coherent lab) {z : Nat} {a : α} (hz : lab z = some (k, a)) :
    IsHead lab (blockStart k z) k a ∧ ∀ x l b, IsHead lab x l b → z / 2 ^ l = x / 2 ^ l →
    x = blockStart k z ∧ l = k ∧ b = a := by
  have hhead : IsHead lab (blockStart k z) k a :=
    ⟨h z k a hz _ (blockStart_div k z), dvd_blockStart k z⟩
  refine ⟨hhead, ?_⟩
  intro x l b hx hzx
  exact head_eq_of_common h hx hhead hzx (blockStart_div k z).symm

end ChCore.Lib.Dyadic
