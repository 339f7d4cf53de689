import Mathlib.Data.List.Nodup
import Mathlib.Tactic.Ring

/-!
# Radix trees of fixed height

Every node of a radix tree has `k` slots. Those of the lowest nodes hold values
and those of the others lead to further nodes. A key is looked up by one index
for each level, the highest first. Storing a value makes the nodes that are
missing on its path.

With the digits of the key in base `k` as indices a tree of height `l` is a map
on the keys below `k ^ (l + 1)` (`get_put`), and a walk over all nodes meets each
of its values once (`mem_entries`, `nodup_entries`).
-/

namespace ChCore.Lib.RadixTree

open Function List Nat

variable {α : Type}

/-- A node with `l` levels of nodes below it. -/
def Node (α : Type) : Nat → Type
  | 0 => Nat → Option α
  | l + 1 => Nat → Option (Node α l)

/-- A node with empty slots. -/
def empty (α : Type) : (l : Nat) → Node α l
  | 0 => fun _ => none
  | _ + 1 => fun _ => none

/-- The value at the end of the path. -/
def get : (l : Nat) → Node α l → (Nat → Nat) → Option α
  | 0, node, index => node (index 0)
  | l + 1, node, index => (node (index (l + 1))).bind fun c => get l c index

/-- Write the slot at the end of the path. -/
def put : (l : Nat) → Node α l → (Nat → Nat) → Option α → Node α l
  | 0, node, index, v => update node (index 0) v
  | l + 1, node, index, v =>
    let child := (node (index (l + 1))).getD (empty α l)
    update node (index (l + 1)) (some (put l child index v))

/-- All nodes on the path exist. -/
def reaches : (l : Nat) → Node α l → (Nat → Nat) → Bool
  | 0, _, _ => true
  | l + 1, node, index =>
    match node (index (l + 1)) with
    | none => false
    | some c => reaches l c index

lemma get_empty (l : Nat) (index : Nat → Nat) : get l (empty α l) index = none := by cases l <;> rfl

/-- A missing node holds what an empty one does. -/
lemma get_getD (l : Nat) (child : Option (Node α l)) (index : Nat → Nat) :
    get l (child.getD (empty α l)) index = child.bind fun c => get l c index := by
  cases child with
  | none => exact get_empty l index
  | some c => rfl

variable {l : Nat}

/-- The slot that a store writes in a node. -/
lemma put_here (node : Node α (l + 1)) (index : Nat → Nat) (v : Option α) :
    (put (l + 1) node index v : Nat → Option (Node α l)) (index (l + 1)) =
    some (put l ((node (index (l + 1))).getD (empty α l)) index v) :=
  update_self _ _ _

variable {index : Nat → Nat} {i : Nat}

/-- The other slots of a node. -/
lemma put_other (node : Node α (l + 1)) (v : Option α) (h : i ≠ index (l + 1)) :
    (put (l + 1) node index v : Nat → Option (Node α l)) i = node i :=
  update_of_ne h _ _

lemma get_put_self (index : Nat → Nat) (v : Option α) (l : Nat) :
    ∀ node : Node α l, get l (put l node index v) index = v := by
  induction l with
  | zero =>
    intro node
    exact update_self _ _ _
  | succ l ih =>
    intro node
    rw [get, put_here]
    exact ih _

lemma get_put_of_ne {index' : Nat → Nat} (v : Option α) (l : Nat) :
    ∀ node : Node α l, (∃ i, i ≤ l ∧ index' i ≠ index i) →
    get l (put l node index v) index' = get l node index' := by
  induction l with
  | zero =>
    intro node h
    obtain ⟨i, hi, hne⟩ := h
    obtain rfl : i = 0 := by omega
    exact update_of_ne hne _ _
  | succ l ih =>
    intro node h
    by_cases htop : index' (l + 1) = index (l + 1)
    · obtain ⟨i, hi, hne⟩ := h
      have hil : i ≤ l := by
        by_contra hlt
        obtain rfl : i = l + 1 := by omega
        exact hne htop
      rw [get, get, htop, put_here, Option.bind_some, ih _ ⟨i, hil, hne⟩, get_getD]
    · rw [get, get, put_other node v htop]

/-! ## Keys -/

/-- The digits of a key. -/
def digit (k key i : Nat) : Nat := key / k ^ i % k

variable {k : Nat}

lemma eq_of_digits (l : Nat) : ∀ {a b : Nat}, a < k ^ (l + 1) → b < k ^ (l + 1) →
    (∀ i, i ≤ l → digit k a i = digit k b i) → a = b := by
  induction l with
  | zero =>
    intro a b ha hb h
    have h0 := h 0 (le_refl 0)
    simp only [digit, Nat.pow_zero, Nat.div_one, zero_add, Nat.pow_one] at h0 ha hb
    rwa [Nat.mod_eq_of_lt ha, Nat.mod_eq_of_lt hb] at h0
  | succ l ih =>
    intro a b ha hb h
    have hdiv : a / k = b / k := by
      apply ih
      · exact Nat.div_lt_of_lt_mul (by rwa [← Nat.pow_succ'])
      · exact Nat.div_lt_of_lt_mul (by rwa [← Nat.pow_succ'])
      intro i hi
      have hi' := h (i + 1) (by omega)
      simpa only [digit, Nat.div_div_eq_div_mul, ← Nat.pow_succ'] using hi'
    have hmod : a % k = b % k := by
      simpa only [digit, Nat.pow_zero, Nat.div_one] using h 0 (Nat.zero_le _)
    rw [← Nat.div_add_mod a k, hdiv, hmod, Nat.div_add_mod]

/-- **A radix tree is a map.** -/
theorem get_put {a b : Nat} (node : Node α l) (v : Option α)
    (ha : a < k ^ (l + 1)) (hb : b < k ^ (l + 1)) :
    get l (put l node (digit k a) v) (digit k b) = if b = a then v else get l node (digit k b) := by
  by_cases hab : b = a
  · rw [if_pos hab, hab, get_put_self]
  rw [if_neg hab]
  apply get_put_of_ne
  by_contra hall
  apply hab
  apply eq_of_digits l hb ha
  intro i hi
  by_contra hne
  exact hall ⟨i, hi, hne⟩

/-! ## Walking the tree -/

/-- The values of a tree with their keys, in the order of a walk over all slots.
`base` is the key of the first slot. -/
def entries (k : Nat) : (l : Nat) → Node α l → (base : Nat) → List (Nat × α)
  | 0, node, base =>
    (List.range k).flatMap fun i => (node i).toList.map fun v => (base + i, v)
  | l + 1, node, base =>
    (List.range k).flatMap fun i =>
      (node i).toList.flatMap fun c => entries k l c (base + i * k ^ (l + 1))

/-- A lookup uses the indices of the levels of the tree only. -/
lemma get_congr {index' : Nat → Nat} (l : Nat) :
    ∀ node : Node α l, (∀ i, i ≤ l → index i = index' i) →
    get l node index = get l node index' := by
  induction l with
  | zero =>
    intro node h
    rw [get, get, h 0 (le_refl 0)]
  | succ l ih =>
    intro node h
    have hbelow : ∀ c : Node α l, get l c index = get l c index' :=
      fun c => ih c fun i hi => h i (le_succ_of_le hi)
    rw [get, get, h (l + 1) le_rfl]
    simp only [hbelow]

lemma digit_top {r : Nat} (hi : i < k) (hr : r < k ^ l) : digit k (i * k ^ l + r) l = i := by
  have hpos : 0 < k ^ l := zero_lt_of_lt hr
  rw [digit, mul_comm, mul_add_div hpos, div_eq_of_lt hr, add_zero, Nat.mod_eq_of_lt hi]

lemma digit_below {r j : Nat} (hj : j < l) : digit k (i * k ^ l + r) j = digit k r j := by
  obtain ⟨d, rfl⟩ := Nat.exists_eq_add_of_lt hj
  rcases Nat.eq_zero_or_pos k with rfl | hk
  · have hzero : (0 : Nat) ^ (j + d + 1) = 0 := Nat.zero_pow (Nat.succ_pos _)
    rw [hzero, mul_zero, zero_add]
  have hsplit : i * k ^ (j + d + 1) + r = k ^ j * (k * (i * k ^ d)) + r := by
    rw [show j + d + 1 = j + (d + 1) by omega, pow_add, pow_succ]
    ring
  rw [digit, digit, hsplit, Nat.mul_add_div (Nat.pow_pos hk), Nat.mul_add_mod]

/-- The walk meets exactly the values that can be looked up. -/
lemma mem_entries (l : Nat) : ∀ (node : Node α l) (base key : Nat) (v : α),
    (key, v) ∈ entries k l node base ↔ ∃ r, r < k ^ (l + 1) ∧ key = base + r ∧
    get l node (digit k r) = some v := by
  induction l with
  | zero =>
    intro node base key v
    simp only [entries, mem_flatMap, mem_range, mem_map,
      Option.mem_toList, Prod.mk.injEq, zero_add, pow_one, get]
    constructor
    · rintro ⟨i, hi, w, hw, rfl, rfl⟩
      refine ⟨i, hi, rfl, ?_⟩
      rw [digit, Nat.pow_zero, Nat.div_one, Nat.mod_eq_of_lt hi]
      exact hw
    · rintro ⟨r, hr, rfl, hv⟩
      rw [digit, Nat.pow_zero, Nat.div_one, Nat.mod_eq_of_lt hr] at hv
      exact ⟨r, hr, v, hv, rfl, rfl⟩
  | succ l ih =>
    intro node base key v
    simp only [entries, mem_flatMap, mem_range, Option.mem_toList, ih]
    constructor
    · rintro ⟨i, hi, c, hc, r, hr, rfl, hv⟩
      refine ⟨i * k ^ (l + 1) + r, ?_, add_assoc _ _ _, ?_⟩
      · calc i * k ^ (l + 1) + r < i * k ^ (l + 1) + k ^ (l + 1) := by omega
          _ = (i + 1) * k ^ (l + 1) := (succ_mul _ _).symm
          _ ≤ k * k ^ (l + 1) := mul_le_mul_right _ hi
          _ = k ^ (l + 2) := pow_succ'.symm
      · rw [get, digit_top hi hr, hc, Option.bind_some, ← hv]
        exact get_congr l c fun j hj => digit_below (lt_succ_of_le hj)
    · rintro ⟨r, hr, rfl, hv⟩
      have hpos : 0 < k ^ (l + 1) := by
        apply pos_of_ne_zero
        intro hzero
        rw [Nat.pow_succ', hzero, mul_zero] at hr
        exact not_lt_zero r hr
      have hlow : r % k ^ (l + 1) < k ^ (l + 1) := mod_lt _ hpos
      have hhigh : r / k ^ (l + 1) < k := Nat.div_lt_of_lt_mul (by rwa [← Nat.pow_succ])
      have hr' : r = r / k ^ (l + 1) * k ^ (l + 1) + r % k ^ (l + 1) := (div_add_mod' r _).symm
      rw [hr', get, digit_top hhigh hlow] at hv
      obtain ⟨c, hc, hv⟩ := Option.bind_eq_some_iff.1 hv
      refine ⟨_, hhigh, c, hc, _, hlow, ?_, ?_⟩
      · rw [add_assoc, ← hr']
      rw [← hv]
      exact get_congr l c fun j hj =>
        (digit_below (lt_succ_of_le hj)).symm

/-- The walk meets no key twice. -/
lemma nodup_entries (l : Nat) : ∀ (node : Node α l) (base : Nat),
    ((entries k l node base).map Prod.fst).Nodup := by
  induction l with
  | zero =>
    intro node base
    rw [entries, map_flatMap, nodup_flatMap]
    constructor
    · intro i _
      cases (node i : Option α) with
      | none => exact nodup_nil
      | some v => exact nodup_singleton _
    · refine List.Pairwise.imp ?_ nodup_range
      intro i j hij key hi hj
      simp only [mem_map, Option.mem_toList] at hi hj
      obtain ⟨_, ⟨_, _, rfl⟩, rfl⟩ := hi
      obtain ⟨_, ⟨_, _, rfl⟩, hkey⟩ := hj
      exact hij (add_left_cancel hkey).symm
  | succ l ih =>
    intro node base
    rw [entries, map_flatMap, nodup_flatMap]
    constructor
    · intro i _
      cases hc : (node i : Option (Node α l)) with
      | none => exact nodup_nil
      | some c => simpa using ih c (base + i * k ^ (l + 1))
    · refine List.Pairwise.imp ?_ nodup_range
      intro i j hij key hi hj
      -- the keys below two slots lie in different ranges
      have hrange : ∀ i', key ∈ List.map Prod.fst ((node i').toList.flatMap fun c =>
            entries k l c (base + i' * k ^ (l + 1))) →
          (key - base) / k ^ (l + 1) = i' := by
        intro i' hmem
        obtain ⟨⟨key', v⟩, hentry, rfl⟩ := mem_map.1 hmem
        obtain ⟨c, _, hentry⟩ := mem_flatMap.1 hentry
        obtain ⟨r, hr, hkey, _⟩ := (mem_entries l c _ _ v).1 hentry
        have hsub : key' - base = k ^ (l + 1) * i' + r := by
          rw [hkey, mul_comm]
          omega
        rw [hsub, mul_add_div (zero_lt_of_lt hr), div_eq_of_lt hr, add_zero]
      exact hij ((hrange i hi).symm.trans (hrange j hj))

end ChCore.Lib.RadixTree
