import Mathlib.Tactic.NormNum
import ChCore.Kernel.PageTableOps
import ChCore.Kernel.PageBlockOps

/-!
# Mapping with blocks (`map_range_in_pgtbl_huge`)

`map_range_in_pgtbl_huge` chooses the size of the next piece from the length
that is left only. When `va` and `pa` are aligned to the largest piece that is
used, the result is the one of `map_range_in_pgtbl`; otherwise the first piece
begins below `va`, and some page of the range is left without a mapping, or
`pa` is rounded down.

Page numbers are counted modulo `2 ^ 36`, as the indices of the tables are, so a
range that passes the end of the address space goes on at its beginning.
-/

namespace ChCore.Kernel

open Lib.BitField Nat Lib.Trie

/-! ## Distances modulo a number -/

/-- How far `q` is from `e`, going up modulo `K`. -/
def lag (K e q : Nat) : Nat := if e % K ≤ q then q - e % K else q + K - e % K

section

variable {K e q : Nat} (hq : q < K)

include hq in
lemma lag_lt : lag K e q < K := by
  have := mod_lt e (show 0 < K by omega)
  unfold lag
  split_ifs <;> omega

include hq in
lemma add_lag : (e + lag K e q) % K = q := by
  have hlt := mod_lt e (show 0 < K by omega)
  unfold lag
  rw [add_mod]
  by_cases hle : e % K ≤ q
  · rw [if_pos hle, mod_eq_of_lt (show q - e % K < K by omega),
      Nat.add_sub_cancel' hle, Nat.mod_eq_of_lt hq]
  rw [if_neg hle, mod_eq_of_lt (show q + K - e % K < K by omega),
    Nat.add_sub_cancel' (by omega), Nat.add_mod_right, Nat.mod_eq_of_lt hq]

lemma lag_add {i : Nat} (hi : i < K) (e : Nat) : lag K e ((e + i) % K) = i := by
  have hlt := mod_lt e (show 0 < K by omega)
  unfold lag
  rw [add_mod, mod_eq_of_lt hi]
  by_cases hwrap : e % K + i < K
  · rw [mod_eq_of_lt hwrap, if_pos (by omega)]
    omega
  rw [mod_eq_sub_mod (show e % K + i ≥ K by omega),
    mod_eq_of_lt (show e % K + i - K < K by omega), if_neg (by omega)]
  omega

lemma lag_unique {i : Nat} (hi : i < K) (h : (e + i) % K = q) : lag K e q = i := by
  rw [← h]
  exact lag_add hi e

include hq in
/-- The distance from a later number. -/
lemma lag_shift {t : Nat} (ht : t ≤ K) : lag K (e + t) q =
    if t ≤ lag K e q then lag K e q - t else lag K e q + K - t := by
  have hlt := @lag_lt K e q hq
  have hadd := @add_lag K e q hq
  by_cases hle : t ≤ lag K e q
  · rw [if_pos hle]
    apply lag_unique (by omega)
    rw [show e + t + (lag K e q - t) = e + lag K e q by omega, hadd]
  rw [if_neg hle]
  apply lag_unique (by omega)
  rw [show e + t + (lag K e q + K - t) = e + lag K e q + K by omega, add_mod_right, hadd]

lemma lag_eq_zero {K e q : Nat} (hq : q < K) : lag K e q = 0 ↔ q = e % K := by
  constructor
  · intro h0
    have hadd := @add_lag K e q hq
    rw [h0, add_zero] at hadd
    exact hadd.symm
  · intro heq
    exact lag_unique (by omega) heq.symm

end

/-! ## The loops on the flat view -/

/-- The number of pages in a block of level `l`. -/
def span (l : Nat) : Nat := 512 ^ (3 - l)

/-- The number of blocks of level `l`. -/
def blocks (l : Nat) : Nat := 512 ^ (l + 1)

lemma span_pos (l : Nat) : 0 < span l := Nat.pow_pos (by decide)

variable {l : Nat}

lemma span_mul_blocks (hl : l ≤ 3) : span l * blocks l = 2 ^ 36 := by
  have hcases : l = 0 ∨ l = 1 ∨ l = 2 ∨ l = 3 := by omega
  rcases hcases with rfl | rfl | rfl | rfl <;> decide

lemma blockSize_eq (hl : l ≤ 3) : blockSize l = span l * pageSize := by
  have hcases : l = 0 ∨ l = 1 ∨ l = 2 ∨ l = 3 := by omega
  rcases hcases with rfl | rfl | rfl | rfl <;> decide

lemma path_eq_div (l v : Nat) : path (l + 1) v = v / span l := by
  unfold path span
  congr 2
  omega

lemma path_mod (hl : l ≤ 3) (c : Nat) : path (l + 1) (c % 2 ^ 36) = c / span l % blocks l := by
  rw [path_eq_div, ← span_mul_blocks hl, mod_mul_right_div_self]

lemma div_span_lt {v : Nat} (hl : l ≤ 3) (hv : v < 2 ^ 36) : v / span l < blocks l := by
  rw [div_lt_iff_lt_mul (span_pos l), mul_comm, span_mul_blocks hl]
  exact hv

lemma vpn_mul_page (c : Nat) : vpn (c * pageSize) = c % 2 ^ 36 := by
  unfold vpn
  rw [Nat.mul_div_cancel c (by decide)]

/-- The flat view after `r` rounds at level `l` from page `c` and frame `d`
on. -/
def layBlocks (l r c d : Nat) (F : Nat → Option (Nat × Nat)) (v : Nat) : Option (Nat × Nat) :=
  if lag (blocks l) (c / span l) (v / span l) < r then
    some (l, (d / span l + lag (blocks l) (c / span l) (v / span l)) % blocks l)
  else F v

/-- `mapOne` is a round at level `l`. -/
def Round (getPages : Nat → Nat) (root : Nat) (s0 : PtState) (l : Nat)
    (mapOne : PtState → Nat → Nat → Exec PtState) : Prop :=
  ∀ s va pa, Grown getPages root s0 l s → s.blockAt root (vpn va) = none →
    ∃ s', mapOne s va pa = .ok s' ∧
      Lays getPages root s0 l va (pa >>> blockShift l % 512 ^ (l + 1)) s s'

section

variable {getPages : Nat → Nat} {root : Nat} {s0 : PtState}

variable {l : Nat}

lemma mapBlock_round (hfresh : FreshFrom getPages root s0) (hl : l = 1 ∨ l = 2) (flags : Nat) :
    Round getPages root s0 l (mapBlock getPages root l flags) :=
  fun _ _ pa h hnone => mapBlock_lays hfresh hl flags pa h hnone

lemma mapPage_round (hfresh : FreshFrom getPages root s0) (flags : Nat) :
    Round getPages root s0 3 fun s va pa => mapPage getPages s root va pa flags :=
  fun _ _ pa h hnone => mapPage_lays hfresh flags pa h hnone

lemma page_shift (hl : l ≤ 3) (d : Nat) : (d * pageSize) >>> blockShift l = d / span l := by
  have hpow : 2 ^ blockShift l = span l * pageSize := blockSize_eq hl
  rw [Nat.shiftRight_eq_div_pow, hpow, Nat.mul_div_mul_right _ _ (by decide)]

lemma pages_div (hl : l ≤ 3) (n : Nat) : n * pageSize / blockSize l = n / span l := by
  rw [blockSize_eq hl, Nat.mul_div_mul_right _ _ (by decide)]

lemma pages_mod (hl : l ≤ 3) (n : Nat) : n * pageSize % blockSize l = n % span l * pageSize := by
  rw [blockSize_eq hl, mul_mod_mul_right]

lemma u64_piece {c : Nat} (hl : l ≤ 3) (hc : c + span l ≤ 2 ^ 40) :
    u64 (c * pageSize + blockSize l) = (c + span l) * pageSize := by
  rw [blockSize_eq hl, ← add_mul]
  apply u64_of_lt
  unfold pageSize
  omega

/-- What a loop over pieces does to the flat view. -/
lemma pieceLoop_spec (hl : l ≤ 3) {mapOne : PtState → Nat → Nat → Exec PtState}
    (hround : Round getPages root s0 l mapOne) (r : Nat) :
    ∀ (s : PtState) (c d : Nat), r ≤ blocks l → c + r * span l ≤ 2 ^ 40 →
    d + r * span l ≤ 2 ^ 40 → Grown getPages root s0 l s →
    (∀ i, i < r → s.blockAt root ((c + i * span l) % 2 ^ 36) = none) →
    ∃ s', pieceLoop mapOne (blockSize l) r s (c * pageSize) (d * pageSize) =
    .ok (s', (c + r * span l) * pageSize, (d + r * span l) * pageSize) ∧
    Grown getPages root s0 l s' ∧
    ∀ v, v < 2 ^ 36 → s'.blockAt root v = layBlocks l r c d (s.blockAt root) v := by
  induction r with
  | zero =>
    intro s c d _ _ _ h _
    refine ⟨s, ?_, h, fun v _ => ?_⟩
    · simp only [pieceLoop, zero_mul, add_zero]
    · rw [layBlocks, if_neg (not_lt_zero _)]
  | succ r ih =>
    intro s c d hr hc hd h hnone
    rw [succ_mul] at hc hd
    have hfirst : s.blockAt root (vpn (c * pageSize)) = none := by
      have := hnone 0 (by omega)
      rwa [zero_mul, add_zero, ← vpn_mul_page] at this
    obtain ⟨s1, hone, h1, hblock, -⟩ := hround s _ (d * pageSize) h hfirst
    rw [vpn_mul_page, page_shift hl] at hblock
    -- the pages still to be mapped are in other blocks
    have hnone1 : ∀ i, i < r → s1.blockAt root ((c + span l + i * span l) % 2 ^ 36) = none := by
      intro i hi
      have hnext := hnone (i + 1) (by omega)
      have hpage : c + (i + 1) * span l = c + span l + i * span l := by
        rw [succ_mul]
        omega
      rw [hpage] at hnext
      rw [hblock _ (mod_lt _ (by decide)), if_neg, hnext]
      rw [path_mod hl, path_mod hl, ← hpage, add_mul_div_right _ _ (span_pos l)]
      intro heq
      have hlt : (c / span l + (i + 1)) % blocks l < blocks l := mod_lt _ (by omega)
      have hzero := (lag_eq_zero hlt).2 heq
      rw [lag_add (by omega)] at hzero
      omega
    obtain ⟨s', hloop, h', hlay⟩ := ih s1 (c + span l) (d + span l) (by omega)
      (by omega) (by omega) h1 hnone1
    refine ⟨s', ?_, h', fun v hv => ?_⟩
    · have hshift : ∀ x, x + (r + 1) * span l = x + span l + r * span l := by
        intro x
        rw [succ_mul]
        omega
      rw [pieceLoop, hone, ok_bind, u64_piece hl (by omega),
        u64_piece hl (by omega), hloop, hshift, hshift]
    have hq := div_span_lt hl hv
    have hstep := @lag_shift _ (c / span l) _ hq 1 (by omega)
    have hzero := @lag_eq_zero _ (c / span l) _ hq
    rw [hlay v hv, layBlocks, layBlocks, hblock v hv, path_eq_div,
      path_mod hl, add_div_right c (span_pos l),
      add_div_right d (span_pos l), hstep]
    by_cases h0 : lag (blocks l) (c / span l) (v / span l) = 0
    · rw [h0, if_neg (show ¬ 1 ≤ 0 by omega),
        if_neg (show ¬ 0 + blocks l - 1 < r by omega), if_pos (hzero.1 h0),
        if_pos (succ_pos r), add_zero]
      rfl
    rw [if_pos (show 1 ≤ lag (blocks l) (c / span l) (v / span l) by omega),
      if_neg fun heq => h0 (hzero.2 heq)]
    by_cases hlt : lag (blocks l) (c / span l) (v / span l) < r + 1
    · rw [if_pos (by omega), if_pos hlt]
      congr 3
      omega
    · rw [if_neg (by omega), if_neg hlt]

lemma mapLoop_eq (flags n : Nat) : ∀ (s : PtState) (va pa : Nat),
    mapLoop getPages root flags n s va pa = do
      let r ← pieceLoop (fun s va pa => mapPage getPages s root va pa flags) (blockSize 3) n s va pa
      return r.1 := by
  induction n with
  | zero =>
    intro s va pa
    rfl
  | succ n ih =>
    intro s va pa
    rw [mapLoop, pieceLoop]
    cases mapPage getPages s root va pa flags with
    | error e => rfl
    | ok s1 => exact ih s1 _ _

end

/-! ## Which pages a loop maps -/

section

variable {l r c d y : Nat} {F : Nat → Option (Nat × Nat)}

lemma layBlocks_none (v : Nat) : layBlocks l 0 c d F v = F v := by
  rw [layBlocks, if_neg (not_lt_zero _)]

lemma page_div (hl : l ≤ 3) (y : Nat) : y % 2 ^ 36 / span l = y / span l % blocks l := by
  rw [← path_eq_div, path_mod hl]

lemma layBlocks_inside (hl : l ≤ 3) (hr : r ≤ blocks l)
    (hge : c / span l ≤ y / span l) (hlt : y / span l < c / span l + r) :
    layBlocks l r c d F (y % 2 ^ 36) =
    some (l, (d / span l + (y / span l - c / span l)) % blocks l) := by
  have hlag : lag (blocks l) (c / span l) (y / span l % blocks l) = y / span l - c / span l := by
    apply lag_unique (by omega)
    rw [Nat.add_sub_cancel' hge]
  rw [layBlocks, page_div hl, hlag, if_pos (by omega)]

lemma layBlocks_after (hl : l ≤ 3) (hge : c / span l + r ≤ y / span l)
    (hlt : y / span l < c / span l + blocks l) :
    layBlocks l r c d F (y % 2 ^ 36) = F (y % 2 ^ 36) := by
  have hlag : lag (blocks l) (c / span l) (y / span l % blocks l) = y / span l - c / span l := by
    apply lag_unique (by omega)
    rw [Nat.add_sub_cancel' (by omega)]
  rw [layBlocks, page_div hl, hlag, if_neg (by omega)]

lemma layBlocks_before (hl : l ≤ 3) (hlt : y / span l < c / span l)
    (hge : c / span l + r ≤ y / span l + blocks l) :
    layBlocks l r c d F (y % 2 ^ 36) = F (y % 2 ^ 36) := by
  have hlag : lag (blocks l) (c / span l) (y / span l % blocks l) =
      y / span l + blocks l - c / span l := by
    apply lag_unique (by omega)
    rw [Nat.add_sub_cancel' (by omega), Nat.add_mod_right]
  rw [layBlocks, page_div hl, hlag, if_neg (by omega)]

end

/-- The flat view after `map_range_in_pgtbl_huge` for `n` pages from page `a`
and frame `b` on. -/
def hugeView (a b n : Nat) (F : Nat → Option (Nat × Nat)) : Nat → Option (Nat × Nat) :=
  let q := n / span 1
  let k := n % span 1 / span 2
  layBlocks 3 (n % span 1 % span 2) (a + q * span 1 + k * span 2) (b + q * span 1 + k * span 2)
    (layBlocks 2 k (a + q * span 1) (b + q * span 1) (layBlocks 1 q a b F))

/-! ## The two functions -/

/-- A table for which `get_pages` has pages and in which nothing is mapped from
`va` on for `len` bytes. -/
structure MapTarget (getPages : Nat → Nat) (root : Nat) (s : PtState) (va len : Nat) : Prop where
  unaliased : Unaliased 512 (tableOf s.mem) root 3
  fresh : FreshFrom getPages root s
  free : ∀ x, va ≤ x → x < va + len → queryInPgtbl s root x = none

lemma span_one : span 1 = 262144 := by decide

lemma span_two : span 2 = 512 := by decide

lemma span_three : span 3 = 1 := rfl

lemma blocks_one : blocks 1 = 262144 := by decide

lemma blocks_two : blocks 2 = 134217728 := by decide

lemma blocks_three : blocks 3 = 68719476736 := by decide

section

variable {getPages : Nat → Nat} {root : Nat} {s : PtState} {a n : Nat}
  (h : MapTarget getPages root s (a * pageSize) (n * pageSize))

include h in
lemma MapTarget.page_free {j : Nat} (hj : j < n) : s.blockAt root ((a + j) % 2 ^ 36) = none := by
  have hquery := h.free ((a + j) * pageSize) (mul_le_mul_right _ (le_add_right a j)) (by
      rw [← add_mul]
      exact mul_lt_mul_of_pos_right (by omega) (by decide))
  have hpa := @queryInPgtbl_pa s root ((a + j) * pageSize)
  rw [hquery, vpn_mul_page] at hpa
  exact Option.map_eq_none_iff.1 hpa.symm

include h in
lemma MapTarget.map {b : Nat} (ha : a < 2 ^ 36) (hb : b < 2 ^ 36) (hn : n < 2 ^ 36) (flags : Nat) :
    ∃ s1, mapRangeInPgtbl getPages s root (a * pageSize) (b * pageSize)
    (n * pageSize) flags = .ok s1 ∧
    ∀ v, v < 2 ^ 36 → s1.blockAt root v = layBlocks 3 n a b (s.blockAt root) v := by
  have hblocks : blocks 3 = 2 ^ 36 := by decide
  obtain ⟨s1, hloop, _, hview⟩ := pieceLoop_spec (le_refl 3)
    (mapPage_round h.fresh flags) n s a b (by omega) (by rw [span_three]; omega)
    (by rw [span_three]; omega) (Grown.refl h.unaliased 3) (by
      intro i hi
      rw [span_three, mul_one]
      exact h.page_free hi)
  refine ⟨s1, ?_, hview⟩
  rw [mapRangeInPgtbl, pageRounds_mul, mapLoop_eq, hloop]
  rfl

variable {b q k r : Nat} (ha : a < 2 ^ 36) (hb : b < 2 ^ 36) (hn : n < 2 ^ 36)

include h ha hb hn in
/-- `q` rounds of the loop over blocks of level 1. -/
lemma MapTarget.first (flags : Nat) (hq : q * span 1 ≤ n) :
    ∃ s1, pieceLoop (mapBlock getPages root 1 flags) (blockSize 1) q s
    (a * pageSize) (b * pageSize) =
    .ok (s1, (a + q * span 1) * pageSize, (b + q * span 1) * pageSize) ∧
    Grown getPages root s 1 s1 ∧
    ∀ v, v < 2 ^ 36 → s1.blockAt root v = layBlocks 1 q a b (s.blockAt root) v := by
  rw [span_one] at hq ⊢
  have hloop := pieceLoop_spec (show 1 ≤ 3 by decide)
    (mapBlock_round h.fresh (Or.inl rfl) flags) q s a b
  rw [span_one, blocks_one] at hloop
  refine hloop (by omega) (by omega) (by omega) (Grown.refl h.unaliased 1) ?_
  intro i hi
  exact h.page_free (by omega)

include h ha hb hn in
/-- `k` rounds of the loop over blocks of level 2, which do not come back to the
first block of level 1. -/
lemma MapTarget.second (flags : Nat) {s1 : PtState} (h1 : Grown getPages root s 1 s1)
    (hview : ∀ v, v < 2 ^ 36 → s1.blockAt root v = layBlocks 1 q a b (s.blockAt root) v)
    (hk : q * span 1 + k * span 2 ≤ n)
    (hroom : ∀ i, i < k → a % span 1 + q * span 1 + i * span 2 < 2 ^ 36) :
    ∃ s2, pieceLoop (mapBlock getPages root 2 flags) (blockSize 2) k s1
    ((a + q * span 1) * pageSize) ((b + q * span 1) * pageSize) =
    .ok (s2, (a + q * span 1 + k * span 2) * pageSize, (b + q * span 1 + k * span 2) * pageSize) ∧
    Grown getPages root s 2 s2 ∧
    ∀ v, v < 2 ^ 36 → s2.blockAt root v = layBlocks 2 k (a + q * span 1) (b + q * span 1)
    (layBlocks 1 q a b (s.blockAt root)) v := by
  have hloop := pieceLoop_spec (show 2 ≤ 3 by decide)
    (mapBlock_round h.fresh (Or.inr rfl) flags) k s1 (a + q * span 1)
    (b + q * span 1)
  rw [span_one, span_two] at hk hroom
  rw [span_one, span_two, blocks_two] at hloop
  rw [span_one, span_two]
  obtain ⟨s2, hrun, h2, hview2⟩ := hloop (by omega) (by omega) (by omega) (h1.mono (by decide)) (by
      intro i hi
      have hlt := hroom i hi
      rw [hview _ (mod_lt _ (by decide)), layBlocks_after (by decide) (by rw [span_one]; omega)
          (by rw [span_one, blocks_one]; omega), add_assoc]
      exact h.page_free (by omega))
  refine ⟨s2, hrun, h2, fun v hv => ?_⟩
  rw [hview2 v hv, layBlocks, layBlocks, hview v hv]

include h ha hb hn in
/-- `r` rounds of the loop over pages. -/
lemma MapTarget.third (flags : Nat) {s2 : PtState} (h2 : Grown getPages root s 2 s2)
    (hview : ∀ v, v < 2 ^ 36 → s2.blockAt root v = layBlocks 2 k (a + q * span 1) (b + q * span 1)
    (layBlocks 1 q a b (s.blockAt root)) v) (hr : q * span 1 + k * span 2 + r ≤ n)
    (hroom : ∀ i, i < r → a % span 1 + q * span 1 + k * span 2 + i < 2 ^ 36) :
    ∃ s3, pieceLoop (fun s va pa => mapPage getPages s root va pa flags)
    (blockSize 3) r s2 ((a + q * span 1 + k * span 2) * pageSize)
    ((b + q * span 1 + k * span 2) * pageSize) =
    .ok (s3, (a + q * span 1 + k * span 2 + r) * pageSize,
    (b + q * span 1 + k * span 2 + r) * pageSize) ∧ Grown getPages root s 3 s3 ∧
    ∀ v, v < 2 ^ 36 → s3.blockAt root v = layBlocks 3 r (a + q * span 1 + k * span 2)
    (b + q * span 1 + k * span 2) (layBlocks 2 k (a + q * span 1) (b + q * span 1)
    (layBlocks 1 q a b (s.blockAt root))) v := by
  have hloop := pieceLoop_spec (le_refl 3) (mapPage_round h.fresh flags) r
    s2 (a + q * span 1 + k * span 2) (b + q * span 1 + k * span 2)
  rw [span_one] at hview
  rw [span_one, span_two] at hr hroom
  rw [span_one, span_two, span_three, blocks_three, mul_one] at hloop
  rw [span_one, span_two]
  obtain ⟨s3, hrun, h3, hview3⟩ := hloop (by omega) (by omega) (by omega) (h2.mono (by decide)) (by
      intro i hi
      have hlt := hroom i hi
      rw [mul_one, hview _ (mod_lt _ (by decide)),
        layBlocks_after (by decide) (by rw [span_two]; omega) (by rw [span_two, blocks_two]; omega),
        layBlocks_after (by decide) (by rw [span_one]; omega)
          (by rw [span_one, blocks_one]; omega), add_assoc, add_assoc]
      exact h.page_free (by omega))
  refine ⟨s3, hrun, h3, fun v hv => ?_⟩
  rw [hview3 v hv, layBlocks, layBlocks, hview v hv]

/-- The three loops of `map_range_in_pgtbl_huge`, counted in pages. -/
lemma mapRangeInPgtblHuge_pages (b n flags : Nat) :
    mapRangeInPgtblHuge getPages s root (a * pageSize) (b * pageSize) (n * pageSize) flags = do
      let r1 ← pieceLoop (mapBlock getPages root 1 flags) (blockSize 1)
        (n / span 1) s (a * pageSize) (b * pageSize)
      let r2 ← pieceLoop (mapBlock getPages root 2 flags) (blockSize 2)
        (n % span 1 / span 2) r1.1 r1.2.1 r1.2.2
      let r3 ← pieceLoop (fun s va pa => mapPage getPages s root va pa flags)
        (blockSize 3) (n % span 1 % span 2) r2.1 r2.2.1 r2.2.2
      return r3.1 := by
  simp only [mapRangeInPgtblHuge, mapRangeInPgtbl,
    pages_div (show 1 ≤ 3 by decide), pages_div (show 2 ≤ 3 by decide),
    pages_mod (show 1 ≤ 3 by decide), pages_mod (show 2 ≤ 3 by decide),
    pageRounds_mul, mapLoop_eq]

/-- No piece after the blocks of level 1 begins in the first of them. -/
structure StaysAhead (a n : Nat) : Prop where
  second : ∀ i, i < n % span 1 / span 2 → a % span 1 + n / span 1 * span 1 + i * span 2 < 2 ^ 36
  third : ∀ i, i < n % span 1 % span 2 → a % span 1 + n / span 1 * span 1 +
    n % span 1 / span 2 * span 2 + i < 2 ^ 36

include h ha hb hn in
/-- When the range does not come back to its first block of level 1,
`map_range_in_pgtbl_huge` returns. -/
lemma MapTarget.huge (flags : Nat) (hroom : StaysAhead a n) :
    ∃ s3, mapRangeInPgtblHuge getPages s root (a * pageSize) (b * pageSize)
    (n * pageSize) flags = .ok s3 ∧
    ∀ v, v < 2 ^ 36 → s3.blockAt root v = hugeView a b n (s.blockAt root) v := by
  obtain ⟨s1, hrun1, h1, hview1⟩ := h.first ha hb hn flags (div_mul_le_self n (span 1))
  obtain ⟨s2, hrun2, h2, hview2⟩ :=
    @MapTarget.second _ _ _ _ _ h b (n / span 1) (n % span 1 / span 2) ha hb hn
      flags s1 h1 hview1 (by rw [span_one, span_two]; omega) hroom.second
  obtain ⟨s3, hrun3, _, hview3⟩ := @MapTarget.third _ _ _ _ _ h b (n / span 1) (n % span 1 / span 2)
      (n % span 1 % span 2) ha hb hn flags s2 h2 hview2
      (by rw [span_one, span_two]; omega) hroom.third
  refine ⟨s3, ?_, hview3⟩
  rw [mapRangeInPgtblHuge_pages, hrun1, ok_bind, hrun2, ok_bind, hrun3]
  rfl

end

end ChCore.Kernel
