import Mathlib.Algebra.BigOperators.Group.Finset.Sigma
import Mathlib.Data.Fintype.Card

/-!
# Multi-level tables

A table of `k` entries whose entries lead to further tables, down to a fixed
depth: page tables and radix trees. Tables are named by numbers, and
`child f i` is the table behind entry `i` of table `f`.

`nodeAt l p` is the table of level `l` on the path with digits `p` in base `k`.
It is computed from `child`, so nothing has to be remembered beside the memory
itself. `Unaliased` says that no table is on two paths; then a new table can be
linked in at one entry without any effect on the other paths (`nodeAt_link`),
a table can be taken out with no effect but on the paths through it
(`nodeAt_cut`), and tables of the last level can be written without any
(`nodeAt_congr`).
-/

namespace ChCore.Lib.Trie

open List Nat

/-- The table of level `l` on path `p`. -/
def nodeAt (k : Nat) (child : Nat → Nat → Option Nat) (root : Nat) : Nat → Nat → Option Nat
  | 0, p => if p = 0 then some root else none
  | l + 1, p => (nodeAt k child root l (p / k)).bind fun f => child f (p % k)

variable {k root depth : Nat} {child child' : Nat → Nat → Option Nat}

@[simp] lemma nodeAt_zero : nodeAt k child root 0 0 = some root := by rw [nodeAt, if_pos rfl]

lemma nodeAt_succ (l p : Nat) : nodeAt k child root (l + 1) p =
    (nodeAt k child root l (p / k)).bind fun f => child f (p % k) := rfl

variable {l p f : Nat}

lemma nodeAt_child (h : nodeAt k child root l (p / k) = some f) :
    nodeAt k child root (l + 1) p = child f (p % k) := by
  rw [nodeAt_succ, h, Option.bind_some]

variable {i : Nat}

lemma nodeAt_entry (hf : nodeAt k child root l p = some f) (hi : i < k) :
    nodeAt k child root (l + 1) (p * k + i) = child f i := by
  have hk : 0 < k := lt_of_le_of_lt (zero_le i) hi
  rw [nodeAt_succ, mul_comm, mul_add_div hk, div_eq_of_lt hi,
    add_zero, hf, mul_add_mod, mod_eq_of_lt hi, Option.bind_some]

/-- Some path of length at most `depth` leads to table `f`. -/
def InTree (k : Nat) (child : Nat → Nat → Option Nat) (root depth f : Nat) : Prop :=
  ∃ l p, l ≤ depth ∧ nodeAt k child root l p = some f

/-- Different paths of length at most `depth` lead to different tables. -/
def Unaliased (k : Nat) (child : Nat → Nat → Option Nat) (root depth : Nat) : Prop :=
  ∀ l m p q f, l ≤ depth → m ≤ depth → nodeAt k child root l p = some f →
    nodeAt k child root m q = some f → l = m ∧ p = q

/-- Only the entries of the inner tables matter. -/
lemma nodeAt_congr (h : ∀ l p f i, l < depth → nodeAt k child root l p = some f →
    child' f i = child f i) (l : Nat) :
    ∀ p, l ≤ depth → nodeAt k child' root l p = nodeAt k child root l p := by
  induction l with
  | zero =>
    intro p _
    rfl
  | succ l ih =>
    intro p hl
    rw [nodeAt_succ, nodeAt_succ, ih (p / k) (by omega)]
    cases hf : nodeAt k child root l (p / k) with
    | none => rfl
    | some f => exact h l _ f _ (by omega) hf

/-- Entry `i` of table `f` on path `p` gets a new empty table `g`. -/
structure Links (k : Nat) (child child' : Nat → Nat → Option Nat)
    (root depth l p f i g : Nat) : Prop where
  level : l < depth
  path : nodeAt k child root l p = some f
  index : i < k
  absent : child f i = none
  fresh : ¬ InTree k child root depth g
  here : child' f i = some g
  empty : ∀ j, child' g j = none
  other : ∀ f' j, InTree k child root depth f' → (f' ≠ f ∨ j ≠ i) → child' f' j = child f' j

variable {g : Nat}

/-- After linking, the new path leads to the new table, and every other path
leads where it led before. -/
lemma nodeAt_link (hun : Unaliased k child root depth)
    (h : Links k child child' root depth l p f i g) (m : Nat) :
    ∀ q, m ≤ depth → nodeAt k child' root m q = if m = l + 1 ∧ q = p * k + i then some g
    else nodeAt k child root m q := by
  have hk : 0 < k := lt_of_le_of_lt (zero_le i) h.index
  have hdiv : (p * k + i) / k = p := by
    rw [mul_comm, mul_add_div hk, div_eq_of_lt h.index, add_zero]
  have hmod : (p * k + i) % k = i := by rw [mul_comm, mul_add_mod, mod_eq_of_lt h.index]
  induction m with
  | zero =>
    intro q _
    rw [if_neg (by omega)]
    rfl
  | succ m ih =>
    intro q hm
    rw [nodeAt_succ, ih (q / k) (by omega)]
    by_cases hnew : m = l + 1 ∧ q / k = p * k + i
    · -- below the new table there is nothing, as there was before
      obtain ⟨rfl, hq⟩ := hnew
      have hnone : nodeAt k child root (l + 1) (q / k) = none := by
        rw [hq, nodeAt_entry h.path h.index, h.absent]
      rw [if_pos ⟨rfl, hq⟩, if_neg (by omega), nodeAt_succ, hnone]
      exact h.empty _
    rw [if_neg hnew, nodeAt_succ]
    cases hf : nodeAt k child root m (q / k) with
    | none =>
      rw [if_neg]
      · rfl
      rintro ⟨hml, rfl⟩
      rw [hdiv, show m = l by omega, h.path] at hf
      exact absurd hf (by simp)
    | some f' =>
      have hin : InTree k child root depth f' := ⟨m, q / k, by omega, hf⟩
      show child' f' (q % k) = _
      by_cases hhere : m + 1 = l + 1 ∧ q = p * k + i
      · obtain ⟨hml, rfl⟩ := hhere
        rw [hdiv, show m = l by omega, h.path] at hf
        cases hf
        rw [if_pos ⟨hml, rfl⟩, hmod, h.here]
      rw [if_neg hhere]
      refine h.other f' _ hin ?_
      by_cases hff : f' = f
      · right
        intro hi
        subst hff
        obtain ⟨rfl, hp⟩ := hun m l _ p f' (by omega) (le_of_lt h.level) hf h.path
        refine hhere ⟨rfl, ?_⟩
        have := div_add_mod q k
        rw [hp, hi, mul_comm] at this
        exact this.symm
      · exact .inl hff

lemma inTree_link (hun : Unaliased k child root depth)
    (h : Links k child child' root depth l p f i g) (f' : Nat) :
    InTree k child' root depth f' ↔ f' = g ∨ InTree k child root depth f' := by
  constructor
  · rintro ⟨m, q, hm, hq⟩
    rw [nodeAt_link hun h m q hm] at hq
    by_cases hnew : m = l + 1 ∧ q = p * k + i
    · rw [if_pos hnew] at hq
      cases hq
      exact .inl rfl
    · rw [if_neg hnew] at hq
      exact .inr ⟨m, q, hm, hq⟩
  · rintro (rfl | ⟨m, q, hm, hq⟩)
    · refine ⟨l + 1, p * k + i, h.level, ?_⟩
      rw [nodeAt_link hun h _ _ h.level, if_pos ⟨rfl, rfl⟩]
    refine ⟨m, q, hm, ?_⟩
    rw [nodeAt_link hun h m q hm, if_neg, hq]
    rintro ⟨rfl, rfl⟩
    rw [nodeAt_entry h.path h.index, h.absent] at hq
    exact absurd hq (by simp)

lemma Unaliased.link (hun : Unaliased k child root depth)
    (h : Links k child child' root depth l p f i g) : Unaliased k child' root depth := by
  intro a b q r f' ha hb hq hr
  rw [nodeAt_link hun h a q ha] at hq
  rw [nodeAt_link hun h b r hb] at hr
  by_cases hqn : a = l + 1 ∧ q = p * k + i
  · rw [if_pos hqn] at hq
    cases hq
    by_cases hrn : b = l + 1 ∧ r = p * k + i
    · exact ⟨hqn.1.trans hrn.1.symm, hqn.2.trans hrn.2.symm⟩
    rw [if_neg hrn] at hr
    exact absurd ⟨b, r, hb, hr⟩ h.fresh
  rw [if_neg hqn] at hq
  by_cases hrn : b = l + 1 ∧ r = p * k + i
  · rw [if_pos hrn] at hr
    cases hr
    exact absurd ⟨a, q, ha, hq⟩ h.fresh
  · rw [if_neg hrn] at hr
    exact hun a b q r f' ha hb hq hr

/-- A root without entries is a tree of one table. -/
lemma nodeAt_of_empty (h : ∀ i, child root i = none) (l : Nat) :
    ∀ p f, nodeAt k child root l p = some f → l = 0 ∧ p = 0 := by
  induction l with
  | zero =>
    intro p f hp
    by_cases h0 : p = 0
    · exact ⟨rfl, h0⟩
    rw [nodeAt, if_neg h0] at hp
    cases hp
  | succ l ih =>
    intro p f hp
    rw [nodeAt_succ] at hp
    cases hf : nodeAt k child root l (p / k) with
    | none =>
      rw [hf] at hp
      cases hp
    | some f' =>
      obtain ⟨rfl, hz⟩ := ih _ f' hf
      rw [hz, nodeAt_zero] at hf
      cases hf
      rw [hz, nodeAt_zero, Option.bind_some, h] at hp
      cases hp

lemma unaliased_of_empty (h : ∀ i, child root i = none) (depth : Nat) :
    Unaliased k child root depth := by
  intro l m p q f _ _ hp hq
  obtain ⟨hl, hp0⟩ := nodeAt_of_empty h l p f hp
  obtain ⟨hm, hq0⟩ := nodeAt_of_empty h m q f hq
  omega

/-! ## Taking a table out -/

/-- Path `q` of level `m` runs through entry `i` of the table of level `l` on
path `p`. -/
def Through (k l p i m q : Nat) : Prop := l < m ∧ q / k ^ (m - (l + 1)) = p * k + i

lemma through_div {m q : Nat} (h : Through k l p i m (q / k)) : Through k l p i (m + 1) q := by
  obtain ⟨hlt, hq⟩ := h
  refine ⟨by omega, ?_⟩
  rw [Nat.div_div_eq_div_mul, ← Nat.pow_succ'] at hq
  rw [← hq]
  congr 2
  omega

/-- Entry `i` of table `f` on path `p` leads to no table any more. At the last
level the entries lead to no tables anyway. -/
structure Cuts (k : Nat) (child child' : Nat → Nat → Option Nat)
    (root depth l p f i : Nat) : Prop where
  level : l ≤ depth
  path : nodeAt k child root l p = some f
  index : i < k
  here : l < depth → child' f i = none
  other : ∀ f' j, InTree k child root depth f' → (f' ≠ f ∨ j ≠ i) → child' f' j = child f' j

/-- After the cut, the paths through the entry lead nowhere, and every other
path leads where it led before. -/
lemma nodeAt_cut (hun : Unaliased k child root depth)
    (h : Cuts k child child' root depth l p f i) (m : Nat) :
    ∀ q, m ≤ depth → (Through k l p i m q → nodeAt k child' root m q = none) ∧
    (¬ Through k l p i m q → nodeAt k child' root m q = nodeAt k child root m q) := by
  have hk : 0 < k := lt_of_le_of_lt (zero_le i) h.index
  induction m with
  | zero =>
    intro q _
    exact ⟨fun hthr => absurd hthr.1 (not_lt_zero l), fun _ => rfl⟩
  | succ m ih =>
    intro q hm
    obtain ⟨hcut, hkeep⟩ := ih (q / k) (by omega)
    rw [nodeAt_succ, nodeAt_succ]
    by_cases hthr : Through k l p i m (q / k)
    · rw [hcut hthr]
      exact ⟨fun _ => rfl, fun hnot => absurd (through_div hthr) hnot⟩
    rw [hkeep hthr]
    cases hf : nodeAt k child root m (q / k) with
    | none => exact ⟨fun _ => rfl, fun _ => rfl⟩
    | some f' =>
      simp only [Option.bind_some]
      constructor
      · rintro ⟨hlt, hq⟩
        -- the path runs through the entry at its last step
        have hml : m = l := by
          by_contra hne
          refine hthr ⟨by omega, ?_⟩
          rw [Nat.div_div_eq_div_mul, ← Nat.pow_succ', ← hq]
          congr 2
          omega
        subst hml
        rw [Nat.sub_self, Nat.pow_zero, Nat.div_one] at hq
        have hdiv : q / k = p := by
          rw [hq, mul_comm, mul_add_div hk, div_eq_of_lt h.index, add_zero]
        have hmod : q % k = i := by rw [hq, mul_comm, mul_add_mod, mod_eq_of_lt h.index]
        rw [hdiv, h.path] at hf
        cases hf
        rw [hmod, h.here (by omega)]
      · intro hnot
        refine h.other f' _ ⟨m, q / k, by omega, hf⟩ ?_
        by_cases hff : f' = f
        · right
          intro hi
          subst hff
          obtain ⟨rfl, hp⟩ := hun m l _ p f' (by omega) h.level hf h.path
          refine hnot ⟨by omega, ?_⟩
          have := div_add_mod q k
          rw [hp, hi, mul_comm] at this
          rw [Nat.sub_self, Nat.pow_zero, Nat.div_one, this]
        · exact .inl hff

/-- What the cut leaves was there before. -/
lemma nodeAt_of_cut {m q : Nat} (hun : Unaliased k child root depth)
    (h : Cuts k child child' root depth l p f i) (hm : m ≤ depth)
    (hg : nodeAt k child' root m q = some g) : nodeAt k child root m q = some g := by
  obtain ⟨hcut, hkeep⟩ := nodeAt_cut hun h m q hm
  by_cases hthr : Through k l p i m q
  · rw [hcut hthr] at hg
    cases hg
  · rw [← hkeep hthr, hg]

lemma Unaliased.cut (hun : Unaliased k child root depth)
    (h : Cuts k child child' root depth l p f i) : Unaliased k child' root depth :=
  fun a b q r f' ha hb hq hr => hun a b q r f' ha hb
    (nodeAt_of_cut hun h ha hq) (nodeAt_of_cut hun h hb hr)

/-! ## Listing the tables -/

/-- The tables from `f` on down to `d` further levels, each after those behind
its entries. -/
def tables (k : Nat) (child : Nat → Nat → Option Nat) : Nat → Nat → List Nat
  | 0, f => [f]
  | d + 1, f => ((List.range k).flatMap fun i =>
    match child f i with
    | none => []
    | some g => tables k child d g) ++ [f]

lemma mem_tables_succ {d : Nat} : g ∈ tables k child (d + 1) f ↔
    (∃ i f', i < k ∧ child f i = some f' ∧ g ∈ tables k child d f') ∨ g = f := by
  simp only [tables, mem_append, mem_flatMap, mem_range, mem_singleton]
  refine or_congr_left ⟨?_, ?_⟩
  · rintro ⟨i, hi, hg⟩
    cases hc : child f i with
    | none => simp [hc] at hg
    | some f' => exact ⟨i, f', hi, hc, by simpa [hc] using hg⟩
  · rintro ⟨i, f', hi, hc, hg⟩
    exact ⟨i, hi, by simpa [hc] using hg⟩

/-- The beginning of a path that leads to a table leads to one. -/
lemma nodeAt_start (n : Nat) : ∀ q g, nodeAt k child root (l + n) q = some g →
    ∃ f, nodeAt k child root l (q / k ^ n) = some f := by
  induction n with
  | zero =>
    intro q g hg
    exact ⟨g, by simpa using hg⟩
  | succ n ih =>
    intro q g hg
    rw [← add_assoc, nodeAt_succ] at hg
    obtain ⟨f, hf, -⟩ := Option.bind_eq_some_iff.1 hg
    rw [Nat.pow_succ', ← Nat.div_div_eq_div_mul]
    exact ih _ f hf

/-- The listed tables are those whose path goes on from the path of the first. -/
lemma mem_tables (hk : 0 < k) (d : Nat) : ∀ {l p f : Nat}, nodeAt k child root l p = some f → ∀ g,
    g ∈ tables k child d f ↔
    ∃ n q, n ≤ d ∧ q / k ^ n = p ∧ nodeAt k child root (l + n) q = some g := by
  induction d with
  | zero =>
    intro l p f hf g
    simp only [tables, mem_singleton, le_zero]
    constructor
    · rintro rfl
      exact ⟨0, p, rfl, by simp, hf⟩
    · rintro ⟨n, q, rfl, hq, hg⟩
      rw [Nat.pow_zero, Nat.div_one] at hq
      rw [hq, add_zero, hf] at hg
      exact (Option.some.inj hg).symm
  | succ d ih =>
    intro l p f hf g
    rw [mem_tables_succ]
    constructor
    · rintro (⟨i, f', hi, hc, hg⟩ | rfl)
      · obtain ⟨n, q, hn, hq, hg⟩ := (ih ((nodeAt_entry hf hi).trans hc) g).1 hg
        refine ⟨n + 1, q, by omega, ?_, by rwa [add_right_comm] at hg⟩
        rw [Nat.pow_succ, ← Nat.div_div_eq_div_mul, hq, mul_comm,
          mul_add_div hk, div_eq_of_lt hi, add_zero]
      · exact ⟨0, p, by omega, by simp, hf⟩
    · rintro ⟨n, q, hn, hq, hg⟩
      cases n with
      | zero =>
        rw [Nat.pow_zero, Nat.div_one] at hq
        rw [hq, add_zero, hf] at hg
        exact .inr (Option.some.inj hg).symm
      | succ n =>
        rw [← add_assoc, add_right_comm] at hg
        obtain ⟨f', hf'⟩ := nodeAt_start n q g hg
        have hdiv : q / k ^ n / k = p := by rw [Nat.div_div_eq_div_mul, ← Nat.pow_succ, hq]
        refine .inl ⟨q / k ^ n % k, f', mod_lt _ hk, ?_, (ih hf' g).2 ⟨n, q, by omega, rfl, hg⟩⟩
        rwa [nodeAt_succ, hdiv, hf, Option.bind_some] at hf'

/-- No table is listed twice. -/
lemma nodup_tables (hk : 0 < k) (hun : Unaliased k child root depth) (d : Nat) :
    ∀ {l p f : Nat}, l + d ≤ depth → nodeAt k child root l p = some f →
    (tables k child d f).Nodup := by
  induction d with
  | zero =>
    intro l p f _ _
    exact nodup_singleton f
  | succ d ih =>
    intro l p f hl hf
    -- a table behind an entry has a path through that entry
    have hpath : ∀ i g, i < k → g ∈ (match child f i with
        | none => []
        | some f' => tables k child d f') →
        ∃ n q, n ≤ d ∧ q / k ^ n = p * k + i ∧ nodeAt k child root (l + 1 + n) q = some g := by
      intro i g hi hg
      cases hc : child f i with
      | none => simp [hc] at hg
      | some f' =>
        exact (mem_tables hk d ((nodeAt_entry hf hi).trans hc) g).1 (by simpa [hc] using hg)
    rw [tables, nodup_append, nodup_flatMap]
    refine ⟨⟨fun i hi => ?_, ?_⟩, nodup_singleton f, ?_⟩
    · cases hc : child f i with
      | none => exact nodup_nil
      | some f' => exact ih (by omega) ((nodeAt_entry hf (mem_range.1 hi)).trans hc)
    · refine nodup_range.imp_of_mem fun {i j} hi hj hne => ?_
      intro g hgi hgj
      obtain ⟨n, q, hn, hq, hg⟩ := hpath i g (mem_range.1 hi) hgi
      obtain ⟨m, r, hm, hr, hg'⟩ := hpath j g (mem_range.1 hj) hgj
      obtain ⟨hlevel, rfl⟩ := hun _ _ q r g (by omega) (by omega) hg hg'
      obtain rfl : n = m := by omega
      exact hne (add_left_cancel (hq.symm.trans hr))
    intro g hg f' hf' heq
    rw [mem_singleton] at hf'
    subst hf' heq
    obtain ⟨i, hi, hgi⟩ := mem_flatMap.1 hg
    obtain ⟨n, q, hn, -, hq⟩ := hpath i g (mem_range.1 hi) hgi
    have hlevel := (hun _ _ q p g (by omega) (by omega) hq hf).1
    omega

/-! ## Counting the tables -/

lemma lt_of_nodeAt (hk : 0 < k) (l : Nat) :
    ∀ p f, nodeAt k child root l p = some f → p < k ^ l := by
  induction l with
  | zero =>
    intro p f hp
    by_cases h0 : p = 0
    · rw [h0]
      exact one_pos
    rw [nodeAt, if_neg h0] at hp
    cases hp
  | succ l ih =>
    intro p f hp
    rw [nodeAt_succ] at hp
    cases hf : nodeAt k child root l (p / k) with
    | none =>
      rw [hf] at hp
      cases hp
    | some f' =>
      rw [pow_succ]
      exact (div_lt_iff_lt_mul hk).1 (ih _ f' hf)

/-- The paths below the root. -/
def paths (k depth : Nat) : Finset (Σ _ : Nat, Nat) :=
  (Finset.range depth).sigma fun l => Finset.range (k ^ (l + 1))

lemma card_paths (k depth : Nat) :
    (paths k depth).card = ∑ l ∈ Finset.range depth, k ^ (l + 1) := by
  simp only [paths, Finset.card_sigma, Finset.card_range]

/-- While a path leads nowhere, fewer tables than there are paths are in the
tree below the root. -/
lemma issued_lt (hk : 0 < k) {name : Nat → Nat} {n : Nat}
    (hinj : ∀ a b, a < n → b < n → name a = name b → a = b)
    (hat : ∀ a, a < n → ∃ l p, l < depth ∧ nodeAt k child root (l + 1) p = some (name a))
    (hl : l < depth) (hp : p < k ^ (l + 1)) (habsent : nodeAt k child root (l + 1) p = none) :
    n < (paths k depth).card := by
  choose level path hlevel hnode using hat
  have hmem : ⟨l, p⟩ ∈ paths k depth := by
    simp only [paths, Finset.mem_sigma, Finset.mem_range]
    exact ⟨hl, hp⟩
  -- the name of a table gives its path, so the issued names inject into the
  -- paths other than the absent one
  have hcard : (Finset.univ : Finset (Fin n)).card ≤ ((paths k depth).erase ⟨l, p⟩).card := by
    refine Finset.card_le_card_of_injOn (fun a => ⟨level a a.isLt, path a a.isLt⟩) ?_ ?_
    · intro a _
      have ha := hnode a a.isLt
      simp only [Finset.coe_erase, Set.mem_sdiff, Finset.mem_coe, paths,
        Finset.mem_sigma, Finset.mem_range, Set.mem_singleton_iff]
      refine ⟨⟨hlevel a a.isLt, lt_of_nodeAt hk _ _ _ ha⟩, ?_⟩
      intro heq
      cases heq
      rw [ha] at habsent
      cases habsent
    · intro a _ b _ heq
      simp only [Sigma.mk.injEq, heq_eq_eq] at heq
      have ha := hnode a a.isLt
      rw [heq.1, heq.2, hnode b b.isLt] at ha
      exact Fin.ext (hinj a b a.isLt b.isLt (Option.some.inj ha).symm)
  rw [Finset.card_univ, Fintype.card_fin, Finset.card_erase_of_mem hmem] at hcard
  have hpos := Finset.card_pos.2 ⟨_, hmem⟩
  omega

end ChCore.Lib.Trie
