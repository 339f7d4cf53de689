import ChCore.Kernel.PageTableHuge

/-!
# When mapping with blocks is mapping

`HugeFits` is the condition under which `map_range_in_pgtbl_huge` and
`map_range_in_pgtbl` give every virtual address the same physical address.
-/

namespace ChCore.Kernel

open Lib.BitField Nat Lib.Trie

/-! ## Addresses -/

lemma blockPa_page {l : Nat} (hpos : 0 < l) (hl : l ≤ 3) (x c : Nat) : blockPa x (l, c) =
    some ((c * span l + vpn x % span l) * pageSize + x % pageSize) := by
  have hcases : l = 1 ∨ l = 2 ∨ l = 3 := by omega
  unfold blockPa vpn
  rw [if_neg (by simp only; omega), shiftLeft_eq]
  rcases hcases with rfl | rfl | rfl
  · simp only [blockShift, pageOrder, pageShift, pageSize, span_one]
    refine congrArg some ?_
    omega
  · simp only [blockShift, pageOrder, pageShift, pageSize, span_two]
    refine congrArg some ?_
    omega
  simp only [blockShift, pageOrder, pageShift, pageSize, span_three]
  refine congrArg some ?_
  omega

/-- Two blocks give an address the same physical address when the frames of its
page are the same. -/
lemma blockPa_congr {l m c d x : Nat} (hl : 0 < l ∧ l ≤ 3) (hm : 0 < m ∧ m ≤ 3)
    (h : c * span l + vpn x % span l = d * span m + vpn x % span m) :
    blockPa x (l, c) = blockPa x (m, d) := by
  rw [blockPa_page hl.1 hl.2, blockPa_page hm.1 hm.2, h]

/-! ## The flat views -/

section

variable {a b n u : Nat} {F : Nat → Option (Nat × Nat)}

section

variable {r c d y : Nat}

lemma one_inside (hr : r ≤ 262144) (hge : c / 262144 ≤ y / 262144)
    (hlt : y / 262144 < c / 262144 + r) : layBlocks 1 r c d F (y % 2 ^ 36) =
    some (1, (d / 262144 + (y / 262144 - c / 262144)) % 262144) :=
  layBlocks_inside (by decide) hr hge hlt

lemma one_after (hge : c / 262144 + r ≤ y / 262144) (hlt : y / 262144 < c / 262144 + 262144) :
    layBlocks 1 r c d F (y % 2 ^ 36) = F (y % 2 ^ 36) :=
  layBlocks_after (by decide) hge hlt

lemma two_inside (hr : r ≤ 134217728) (hge : c / 512 ≤ y / 512) (hlt : y / 512 < c / 512 + r) :
    layBlocks 2 r c d F (y % 2 ^ 36) = some (2, (d / 512 + (y / 512 - c / 512)) % 134217728) :=
  layBlocks_inside (by decide) hr hge hlt

lemma two_before (hlt : y / 512 < c / 512) (hge : c / 512 + r ≤ y / 512 + 134217728) :
    layBlocks 2 r c d F (y % 2 ^ 36) = F (y % 2 ^ 36) :=
  layBlocks_before (by decide) hlt hge

lemma two_after (hge : c / 512 + r ≤ y / 512) (hlt : y / 512 < c / 512 + 134217728) :
    layBlocks 2 r c d F (y % 2 ^ 36) = F (y % 2 ^ 36) :=
  layBlocks_after (by decide) hge hlt

lemma three_inside (hr : r ≤ 2 ^ 36) (hge : c ≤ y) (hlt : y < c + r) :
    layBlocks 3 r c d F (y % 2 ^ 36) = some (3, (d + (y - c)) % 2 ^ 36) := by
  have hlay := @layBlocks_inside 3 r c d y F (le_refl 3)
  rw [span_three, Nat.div_one, Nat.div_one, Nat.div_one] at hlay
  exact hlay hr hge hlt

end

/-- Page `a + u` after `map_range_in_pgtbl`. -/
lemma plain_inside (hn : n < 2 ^ 36) (hu : u < n) :
    layBlocks 3 n a b F ((a + u) % 2 ^ 36) = some (3, (b + u) % 2 ^ 36) := by
  rw [three_inside hn.le (by omega) (by omega), Nat.add_sub_cancel_left]

lemma plain_outside (hu : n ≤ u) (hlt : u < 2 ^ 36) :
    layBlocks 3 n a b F ((a + u) % 2 ^ 36) = F ((a + u) % 2 ^ 36) := by
  refine layBlocks_after (le_refl 3) ?_ ?_
  · rw [span_three]
    omega
  rw [span_three, blocks_three]
  omega

/-- Page `a + u`, when it comes before the last loop. -/
lemma huge_early (hn : n < 2 ^ 36) (hu : u < n / 262144 * 262144 + n % 262144 / 512 * 512) :
    hugeView a b n F ((a + u) % 2 ^ 36) = layBlocks 2 (n % 262144 / 512) (a + n / 262144 * 262144)
    (b + n / 262144 * 262144) (layBlocks 1 (n / 262144) a b F) ((a + u) % 2 ^ 36) := by
  refine layBlocks_before (le_refl 3) ?_ ?_
  · rw [span_one, span_two, span_three]
    omega
  rw [span_one, span_two, span_three, blocks_three]
  omega

/-- A page outside of the range, when the blocks are aligned. -/
lemma huge_outside (hbig : span 1 ≤ n → span 1 ∣ a)
    (hmid : span 2 ≤ n % span 1 → span 2 ∣ a) (hu : n ≤ u) (hlt : u < 2 ^ 36) :
    hugeView a b n F ((a + u) % 2 ^ 36) = F ((a + u) % 2 ^ 36) := by
  rw [span_one] at hbig
  rw [span_one, span_two] at hmid
  rw [hugeView, layBlocks_after (le_refl 3)]
  · rw [span_one, span_two]
    have hlevel1 : layBlocks 1 (n / 262144) a b F ((a + u) % 2 ^ 36) = F ((a + u) % 2 ^ 36) := by
      rcases Nat.eq_zero_or_pos (n / 262144) with h0 | hpos
      · rw [h0, layBlocks_none]
      obtain ⟨a', ha'⟩ := hbig (by omega)
      exact one_after (by omega) (by omega)
    rcases Nat.eq_zero_or_pos (n % 262144 / 512) with h0 | hpos
    · rw [h0, layBlocks_none, hlevel1]
    obtain ⟨a', ha'⟩ := hmid (by omega)
    rw [two_after (by omega) (by omega), hlevel1]
  · rw [span_one, span_two, span_three]
    omega
  · rw [span_one, span_two, span_three, blocks_three]
    omega

/-- The two views agree on every page when the blocks are aligned. -/
lemma views_agree (hn : n < 2 ^ 36) (hbig : span 1 ≤ n → span 1 ∣ a ∧ span 1 ∣ b)
    (hmid : span 2 ≤ n % span 1 → span 2 ∣ a ∧ span 2 ∣ b)
    (hu : u < 2 ^ 36) {x : Nat} (hx : vpn x = (a + u) % 2 ^ 36) :
    (layBlocks 3 n a b F ((a + u) % 2 ^ 36)).map (blockPa x) =
    (hugeView a b n F ((a + u) % 2 ^ 36)).map (blockPa x) := by
  rcases lt_or_ge u n with hun | hun
  · rw [span_one] at hbig
    rw [span_one, span_two] at hmid
    rw [plain_inside hn hun]
    rcases lt_or_ge u (n / 262144 * 262144) with h1 | h1
    · -- a block of level 1
      obtain ⟨⟨a', ha'⟩, b', hb'⟩ := hbig (by omega)
      rw [huge_early hn (Nat.lt_add_right _ h1), two_before (by omega) (by omega),
        one_inside (by omega) (by omega) (by omega)]
      refine congrArg some (blockPa_congr (by decide) (by decide) ?_)
      rw [hx, span_three, span_one]
      omega
    rcases lt_or_ge u (n / 262144 * 262144 + n % 262144 / 512 * 512) with h2 | h2
    · -- a block of level 2
      obtain ⟨⟨a', ha'⟩, b', hb'⟩ := hmid (by omega)
      rw [huge_early hn (by omega), two_inside (by omega) (by omega) (by omega)]
      refine congrArg some (blockPa_congr (by decide) (by decide) ?_)
      rw [hx, span_three, span_two]
      omega
    -- a page
    rw [hugeView, span_one, span_two, three_inside (by omega) (by omega) (by omega)]
    congr 3
    omega
  · rw [plain_outside hun hu, huge_outside (fun hle => (hbig hle).1)
      (fun hle => (hmid hle).1) hun hu]

/-- A first block of level 1 that begins below the range leaves a hole behind
the last one. -/
lemma huge_hole_one (hn : n < 2 ^ 36) (hq : span 1 ≤ n) (ha : a % span 1 ≠ 0)
    (hk : span 2 ≤ a % span 1 ∨ n % span 1 / span 2 = 0)
    (hu : u = n / span 1 * span 1 - a % span 1) :
    hugeView a b n F ((a + u) % 2 ^ 36) = F ((a + u) % 2 ^ 36) := by
  rw [span_one] at hq ha hu
  rw [span_one, span_two] at hk
  have hlevel1 : layBlocks 1 (n / 262144) a b F ((a + u) % 2 ^ 36) = F ((a + u) % 2 ^ 36) :=
    one_after (by omega) (by omega)
  have hlt : u < n / 262144 * 262144 := by omega
  rw [huge_early hn (Nat.lt_add_right _ hlt)]
  rcases Nat.eq_zero_or_pos (n % 262144 / 512) with h0 | hpos
  · rw [h0, layBlocks_none, hlevel1]
  · rw [two_before (by omega) (by omega), hlevel1]

/-- So does one of level 2. -/
lemma huge_hole_two (hn : n < 2 ^ 36) (hk : span 2 ≤ n % span 1)
    (ha : a % span 2 ≠ 0) (hq : n / span 1 = 0 ∨ a % span 1 < span 2)
    (hu : u = n / span 1 * span 1 + n % span 1 / span 2 * span 2 - a % span 2) :
    hugeView a b n F ((a + u) % 2 ^ 36) = F ((a + u) % 2 ^ 36) := by
  rw [span_one, span_two] at hk hq hu
  rw [span_two] at ha
  rw [huge_early hn (by omega), two_after (by omega) (by omega)]
  rcases Nat.eq_zero_or_pos (n / 262144) with h0 | hpos
  · rw [h0, layBlocks_none]
  · exact one_after (by omega) (by omega)

/-- The first page of a block of level 1 gets a rounded frame. -/
lemma huge_round_one (hn : n < 2 ^ 36) (hq : span 1 ≤ n) :
    hugeView a b n F (a % 2 ^ 36) = some (1, b / span 1 % blocks 1) := by
  have hearly := @huge_early a b n 0 F hn
  rw [span_one] at hq
  rw [add_zero] at hearly
  rw [span_one, hearly (by omega), two_before (by omega) (by omega),
    one_inside (by omega) (by omega) (by omega), Nat.sub_self, add_zero, blocks_one]

/-- So does that of a block of level 2. -/
lemma huge_round_two (hn : n < 2 ^ 36) (hq : n / span 1 = 0) (hk : span 2 ≤ n % span 1) :
    hugeView a b n F (a % 2 ^ 36) = some (2, b / span 2 % blocks 2) := by
  have hearly := @huge_early a b n 0 F hn
  rw [span_one] at hq
  rw [span_one, span_two] at hk
  rw [hq, zero_mul, add_zero, add_zero] at hearly
  rw [span_two, hearly (by omega), two_inside (by omega) (by omega) (by omega), Nat.sub_self,
    add_zero, blocks_two]

/-- A rounded frame is another frame. -/
lemma rounded_differs {l : Nat} (hl : l = 1 ∨ l = 2) (ha : span l ∣ a) (hne : ¬ span l ∣ b) :
    some (blockPa (a * pageSize) (3, (b + 0) % 2 ^ 36)) ≠
    some (blockPa (a * pageSize) (l, b / span l % blocks l)) := by
  intro heq
  have hpa := Option.some.inj heq
  rw [blockPa_page (by decide) (by decide), blockPa_page (by omega) (by omega), vpn_mul_page] at hpa
  have hframe := Option.some.inj hpa
  unfold pageSize at hframe
  rcases hl with rfl | rfl
  · rw [span_one] at *
    rw [span_three, blocks_one] at hframe
    omega
  rw [span_two] at *
  rw [span_three, blocks_two] at hframe
  omega

/-- The condition, counted in pages. -/
def PagesFit (a b n : Nat) : Prop := (span 1 ≤ n → span 1 ∣ a ∧ span 1 ∣ b) ∧
    (span 2 ≤ n % span 1 → span 2 ∣ a ∧ span 2 ∣ b)

/-- Without it some page of the range is mapped differently. -/
lemma views_differ (hn : n < 2 ^ 36) (hfree : ∀ j, j < n → F ((a + j) % 2 ^ 36) = none)
    (hnot : ¬ PagesFit a b n) :
    ∃ u, (layBlocks 3 n a b F ((a + u) % 2 ^ 36)).map (blockPa ((a + u) * pageSize)) ≠
    (hugeView a b n F ((a + u) % 2 ^ 36)).map (blockPa ((a + u) * pageSize)) := by
  -- a hole in the range is enough
  have hhole : ∀ u, u < n → hugeView a b n F ((a + u) % 2 ^ 36) = F ((a + u) % 2 ^ 36) →
      (layBlocks 3 n a b F ((a + u) % 2 ^ 36)).map (blockPa ((a + u) * pageSize)) ≠
        (hugeView a b n F ((a + u) % 2 ^ 36)).map (blockPa ((a + u) * pageSize)) := by
    intro u hu hview heq
    rw [hview, hfree u hu, plain_inside hn hu] at heq
    cases heq
  by_cases hhole1 : span 1 ≤ n ∧ a % span 1 ≠ 0 ∧ (span 2 ≤ a % span 1 ∨ n % span 1 / span 2 = 0)
  · obtain ⟨hq, ha, hk⟩ := hhole1
    refine ⟨_, hhole _ ?_ (huge_hole_one hn hq ha hk rfl)⟩
    rw [span_one] at hq ha ⊢
    omega
  by_cases hhole2 : span 2 ≤ n % span 1 ∧ a % span 2 ≠ 0 ∧ (n / span 1 = 0 ∨ a % span 1 < span 2)
  · obtain ⟨hk, ha, hq⟩ := hhole2
    refine ⟨_, hhole _ ?_ (huge_hole_two hn hk ha hq rfl)⟩
    rw [span_one, span_two] at hk ⊢
    rw [span_two] at ha
    omega
  -- `va` is aligned, so `pa` is not
  refine ⟨0, ?_⟩
  have hpos : 0 < n := by
    by_contra h0
    refine hnot ⟨fun hle => ?_, fun hle => ?_⟩
    · rw [span_one] at hle
      omega
    rw [span_one, span_two] at hle
    omega
  have hplain := @plain_inside a b n 0 F hn hpos
  rw [add_zero] at hplain ⊢
  rw [hplain]
  have hzero : ∀ l, a % span l = 0 → span l ∣ a := fun l =>
    dvd_of_mod_eq_zero
  by_cases hbig : span 1 ≤ n ∧ ¬ (span 1 ∣ a ∧ span 1 ∣ b)
  · have ha : a % span 1 = 0 := by
      rw [span_one, span_two] at *
      omega
    rw [huge_round_one hn hbig.1]
    exact rounded_differs (Or.inl rfl) (hzero 1 ha) fun hdvd => hbig.2 ⟨hzero 1 ha, hdvd⟩
  have hmid : ¬ (span 2 ≤ n % span 1 → span 2 ∣ a ∧ span 2 ∣ b) :=
    fun hmid => hnot ⟨fun hle => not_not.1 fun hne => hbig ⟨hle, hne⟩, hmid⟩
  obtain ⟨hk, hne⟩ := Classical.not_imp.1 hmid
  have hq : n / span 1 = 0 := by
    rw [span_one, span_two] at *
    omega
  have ha : a % span 2 = 0 := by
    rw [span_one, span_two] at *
    omega
  rw [huge_round_two hn hq hk]
  exact rounded_differs (Or.inr rfl) (hzero 2 ha) fun hdvd => hne ⟨hzero 2 ha, hdvd⟩

end

/-! ## The two functions -/

/-- Both calls return, and the tables give every address the same physical
address. -/
def SameAddresses (root : Nat) (huge plain : Exec PtState) : Prop :=
  ∃ s₁ s₂, huge = .ok s₁ ∧ plain = .ok s₂ ∧ ∀ va, (queryInPgtbl s₁ root va).map Query.pa =
      (queryInPgtbl s₂ root va).map Query.pa

/-- `va` and `pa` are aligned to the blocks that the length asks for. -/
def HugeFits (va pa len : Nat) : Prop := (blockSize 1 ≤ len → blockSize 1 ∣ va ∧ blockSize 1 ∣ pa) ∧
    (blockSize 2 ≤ len % blockSize 1 → blockSize 2 ∣ va ∧ blockSize 2 ∣ pa)

lemma hugeFits_pages (a b n : Nat) : HugeFits (a * pageSize) (b * pageSize) (n * pageSize) ↔
    PagesFit a b n := by
  have hpos : 0 < pageSize := by decide
  unfold HugeFits PagesFit
  rw [pages_mod (by decide), blockSize_eq (by decide), blockSize_eq (by decide),
    Nat.mul_le_mul_right_iff hpos, Nat.mul_le_mul_right_iff hpos,
    Nat.mul_dvd_mul_iff_right hpos, Nat.mul_dvd_mul_iff_right hpos,
    Nat.mul_dvd_mul_iff_right hpos, Nat.mul_dvd_mul_iff_right hpos]

section

variable {getPages : Nat → Nat} {root : Nat} {s : PtState} {a b n : Nat}
  (h : MapTarget getPages root s (a * pageSize) (n * pageSize))
  (ha : a < 2 ^ 36) (hb : b < 2 ^ 36) (hn : n < 2 ^ 36)

include h ha hb hn in
/-- On one table, when the range does not come back to its first block. -/
lemma MapTarget.same_iff (flags : Nat) (hroom : StaysAhead a n) : SameAddresses root
    (mapRangeInPgtblHuge getPages s root (a * pageSize) (b * pageSize) (n * pageSize) flags)
    (mapRangeInPgtbl getPages s root (a * pageSize) (b * pageSize)
    (n * pageSize) flags) ↔ PagesFit a b n := by
  obtain ⟨s₁, hhuge, hview1⟩ := h.huge ha hb hn flags hroom
  obtain ⟨s₂, hplain, hview2⟩ := h.map ha hb hn flags
  constructor
  · rintro ⟨t1, t2, ht1, ht2, hsame⟩
    rw [hhuge] at ht1
    rw [hplain] at ht2
    cases ht1
    cases ht2
    by_contra hnot
    obtain ⟨u, hne⟩ := @views_differ a b n _ hn (fun j hj => h.page_free hj) hnot
    refine hne ?_
    have heq := hsame ((a + u) * pageSize)
    rw [queryInPgtbl_pa, queryInPgtbl_pa, vpn_mul_page, hview1 _ (mod_lt _ (by decide)),
      hview2 _ (mod_lt _ (by decide))] at heq
    exact heq.symm
  · intro hfits
    refine ⟨s₁, s₂, hhuge, hplain, fun va => ?_⟩
    rw [queryInPgtbl_pa, queryInPgtbl_pa, hview1 _ (vpn_lt va), hview2 _ (vpn_lt va)]
    have hlt := @lag_lt (2 ^ 36) a (vpn va) (vpn_lt va)
    have hadd := @add_lag (2 ^ 36) a (vpn va) (vpn_lt va)
    have hagree := @views_agree a b n _ (s.blockAt root) hn hfits.1 hfits.2 hlt va hadd.symm
    rw [hadd] at hagree
    exact hagree.symm

end

/-! ## Ranges that come back to their first block

A range of almost `2 ^ 48` bytes whose first block begins below it comes back to
this block at its end. The walk for a block of level 2 then stops the kernel.
The walk for a page takes the frame of the block for a table, so what happens
depends on the memory there. -/

lemma pieceLoop_error {mapOne : PtState → Nat → Nat → Exec PtState}
    {size : Nat} {e : Fault} {s' : PtState} {va' pa' : Nat} (m i : Nat) :
    ∀ s va pa, pieceLoop mapOne size i s va pa = .ok (s', va', pa') → mapOne s' va' pa' = .error e →
    pieceLoop mapOne size (i + (m + 1)) s va pa = .error e := by
  induction i with
  | zero =>
    intro s va pa hrun herr
    cases hrun
    rw [zero_add, pieceLoop, herr]
    rfl
  | succ i ih =>
    intro s va pa hrun herr
    rw [succ_add, pieceLoop]
    rw [pieceLoop] at hrun
    cases hone : mapOne s va pa with
    | error e' =>
      rw [hone] at hrun
      cases hrun
    | ok s1 =>
      rw [hone] at hrun
      exact ih s1 _ _ hrun herr

section

variable {getPages : Nat → Nat} {root va c : Nat} {s : PtState}
  (hblock : s.blockAt root (vpn va) = some (1, c))

include hblock in
/-- A walk meets a block of level 1, and goes on in its frame. -/
lemma mapWalk_block : ∃ f, f / 2 ^ 18 = c ∧ ∀ d last, mapWalk getPages va (d + 2) s 0 root last =
    mapWalk getPages va d s 2 f (.block f) := by
  obtain ⟨m, g, hends⟩ := @exists_endsAt s root (vpn va) 3 0 root rfl (table_root (vpn_lt va))
  obtain ⟨rfl, hinv, htab, hpfn⟩ := hends.entry (vpn_lt va) hblock
  obtain ⟨f0, hf0, hchild⟩ := table_pred (show 0 < 3 by decide) hends.table
  rw [table_root (vpn_lt va)] at hf0
  cases hf0
  refine ⟨getField (s.mem g (slotIn 1 (vpn va))) 12 36, ?_, ?_⟩
  · have hfield : blockPfn 1 (s.mem g (slotIn 1 (vpn va))) =
        getField (s.mem g (slotIn 1 (vpn va))) 30 18 := rfl
    rw [← hpfn, hfield]
    unfold getField
    rw [BitVec.toNat_ushiftRight, BitVec.toNat_ushiftRight,
      shiftRight_eq_div_pow, shiftRight_eq_div_pow]
    omega
  intro d last
  have hidx : ptpIndex 1 va = slotIn 1 (vpn va) := ptpIndex_eq (by decide) va
  have hnext : getNextPtp getPages s g 1 va true =
      (s, .block (getField (s.mem g (slotIn 1 (vpn va))) 12 36)) := by
    simp only [getNextPtp, hidx, hinv, nextOfEntry, htab (by decide), Bool.false_eq_true, if_false]
  rw [mapWalk, getNextPtp_of_table (by decide) hchild]
  simp only [NextPtp.ptp, ok_bind]
  rw [mapWalk, hnext]
  rfl

include hblock in
lemma mapBlock_error (flags pa : Nat) : mapBlock getPages root 2 flags s va pa = .error .bug := by
  obtain ⟨f, _, hwalk⟩ := @mapWalk_block getPages root va c s hblock
  have hend : mapWalk getPages va 2 s 0 root .noMapping = .ok (s, .block f) := hwalk 0 _
  simp only [mapBlock, hend, ok_bind]

include hblock in
lemma mapPage_error (flags pa : Nat) (hmem : ∀ f i, f / 2 ^ 18 = c → s.mem f i = 1#64) :
    mapPage getPages s root va pa flags = .error .bug := by
  obtain ⟨f, hf, hwalk⟩ := @mapWalk_block getPages root va c s hblock
  have hnext : getNextPtp getPages s f 2 va true = (s, .block (getField 1#64 12 36)) := by
    simp only [getNextPtp, hmem f _ hf]
    rfl
  have hend : mapWalk getPages va 3 s 0 root .noMapping =
      .ok (s, .block (getField 1#64 12 36)) := by
    rw [hwalk 1, mapWalk, hnext]
    rfl
  simp only [mapPage, hend, ok_bind]

end

section

variable {getPages : Nat → Nat} {root : Nat} {s : PtState} {a b n : Nat}
  (h : MapTarget getPages root s (a * pageSize) (n * pageSize))
  (ha : a < 2 ^ 36) (hb : b < 2 ^ 36) (hn : n < 2 ^ 36)

/-- The page where a range comes back to its first block. -/
lemma back_to_first {q u : Nat} {F : Nat → Option (Nat × Nat)}
    (hq : q = 262143) (hb : b < 2 ^ 36) (hu : u < 2 ^ 36) (hback : 2 ^ 36 ≤ a % span 1 + u) :
    layBlocks 1 q a b F ((a + u) % 2 ^ 36) = some (1, b / span 1) := by
  have hlay := @layBlocks_inside 1 q a b (a + u - 2 ^ 36) F (by decide)
  have hpage : (a + u) % 2 ^ 36 = (a + u - 2 ^ 36) % 2 ^ 36 := by
    rw [span_one] at hback
    omega
  rw [span_one, blocks_one] at hlay
  rw [span_one] at hback ⊢
  rw [hpage, hlay (by omega) (by omega) (by omega)]
  refine congrArg (fun c => some (1, c)) ?_
  omega

lemma staysAhead_of_le (h : n + a % span 1 ≤ 2 ^ 36) : StaysAhead a n := by
  rw [span_one] at h
  constructor
  · rw [span_one, span_two]
    omega
  · rw [span_one, span_two]
    omega

include h ha hb hn in
/-- The loop over blocks of level 2 comes back to the first block. -/
lemma MapTarget.second_error (flags : Nat) (hback : ∃ i, i < n % span 1 / span 2 ∧
    2 ^ 36 ≤ a % span 1 + n / span 1 * span 1 + i * span 2) :
    mapRangeInPgtblHuge getPages s root (a * pageSize) (b * pageSize)
    (n * pageSize) flags = .error .bug := by
  obtain ⟨i, hi, hge⟩ := hback
  have hq : n / span 1 = 262143 := by
    rw [span_one, span_two] at *
    omega
  obtain ⟨s1, hrun1, h1, hview1⟩ := @MapTarget.first _ _ _ _ _ h b 262143 ha hb
    hn flags (by rw [← hq]; exact div_mul_le_self n (span 1))
  -- the first round that begins there
  obtain ⟨k, hk⟩ : ∃ k, k = (262144 - a % 262144 + 511) / 512 := ⟨_, rfl⟩
  rw [hq] at hge
  rw [span_one, span_two] at hi hge
  rw [span_one] at hq
  obtain ⟨s2, hrun2, _, hview2⟩ := @MapTarget.second _ _ _ _ _ h b 262143 k ha hb
    hn flags s1 h1 hview1 (by rw [span_one, span_two]; omega)
    (by rw [span_one, span_two]; omega)
  have hmeet : s2.blockAt root (vpn ((a + 262143 * span 1 + k * span 2) * pageSize)) =
      some (1, b / span 1) := by
    rw [vpn_mul_page, hview2 _ (mod_lt _ (by decide)),
      layBlocks_after (by decide) (by rw [span_one, span_two]; omega)
        (by rw [span_one, span_two, blocks_two]; omega), add_assoc]
    exact back_to_first rfl hb (by rw [span_one, span_two]; omega)
      (by rw [span_one, span_two]; omega)
  obtain ⟨m, hm⟩ : ∃ m, n % span 1 / span 2 = k + (m + 1) :=
    Nat.exists_eq_add_of_lt (by rw [span_one, span_two]; omega)
  rw [mapRangeInPgtblHuge_pages, span_one, hq, ← span_one, hrun1, ok_bind,
    hm, pieceLoop_error m _ _ _ _ hrun2 (mapBlock_error hmeet flags _)]
  rfl

include h ha hb hn in
/-- The loop over pages comes back to the first block, and finds a block in its
frame. -/
lemma MapTarget.third_error (flags : Nat) (hsecond : ∀ i, i < n % span 1 / span 2 →
    a % span 1 + n / span 1 * span 1 + i * span 2 < 2 ^ 36)
    (hback : ∃ i, i < n % span 1 % span 2 ∧ 2 ^ 36 ≤ a % span 1 + n / span 1 * span 1 +
    n % span 1 / span 2 * span 2 + i) (hmem : ∀ f, f / 2 ^ 18 = b / span 1 →
    ¬ s.Holds root f ∧ (∀ m, getPages m ≠ f) ∧ ∀ i, s.mem f i = 1#64) :
    mapRangeInPgtblHuge getPages s root (a * pageSize) (b * pageSize)
    (n * pageSize) flags = .error .bug := by
  obtain ⟨i, hi, hge⟩ := hback
  have hq : n / span 1 = 262143 := by
    rw [span_one, span_two] at *
    omega
  obtain ⟨s1, hrun1, h1, hview1⟩ := @MapTarget.first _ _ _ _ _ h b 262143 ha hb
    hn flags (by rw [← hq]; exact div_mul_le_self n (span 1))
  obtain ⟨k, hk⟩ : ∃ k, k = n % span 1 / span 2 := ⟨_, rfl⟩
  rw [hq, ← hk] at hge hsecond
  obtain ⟨s2, hrun2, h2, hview2⟩ := @MapTarget.second _ _ _ _ _ h b 262143 k ha
    hb hn flags s1 h1 hview1
    (by rw [hk]; rw [span_one] at *; rw [span_two]; omega) hsecond
  -- the first page that lies there
  obtain ⟨r, hr⟩ : ∃ r, r = 262144 - a % 262144 - k * 512 := ⟨_, rfl⟩
  rw [span_one, span_two] at hi hge hk
  rw [span_one] at hq
  obtain ⟨s3, hrun3, h3, hview3⟩ := @MapTarget.third _ _ _ _ _ h b 262143 k r ha
    hb hn flags s2 h2 hview2 (by rw [span_one, span_two]; omega)
    (by rw [span_one, span_two]; omega)
  have hmeet : s3.blockAt root (vpn ((a + 262143 * span 1 + k * span 2 + r) * pageSize)) =
      some (1, b / span 1) := by
    rw [vpn_mul_page, hview3 _ (mod_lt _ (by decide)), layBlocks_after (by decide)
        (by rw [span_one, span_two, span_three]; omega)
        (by rw [span_one, span_two, span_three, blocks_three]; omega),
      layBlocks_after (by decide) (by rw [span_one, span_two]; omega)
        (by rw [span_one, span_two, blocks_two]; omega), add_assoc,
      add_assoc]
    exact back_to_first rfl hb (by rw [span_one, span_two]; omega)
      (by rw [span_one, span_two]; omega)
  have hkept : ∀ f j, f / 2 ^ 18 = b / span 1 → s3.mem f j = 1#64 := by
    intro f j hf
    obtain ⟨hnot, hpages, hones⟩ := hmem f hf
    rw [h3.outside f hnot fun ⟨m, _, _, hm⟩ => hpages m hm, hones]
  obtain ⟨m, hm⟩ : ∃ m, n % span 1 % span 2 = r + (m + 1) :=
    Nat.exists_eq_add_of_lt (by rw [span_one, span_two]; omega)
  rw [mapRangeInPgtblHuge_pages, hm, span_one, span_two, hq, ← hk, hrun1, ok_bind, hrun2, ok_bind,
    pieceLoop_error m _ _ _ _ hrun3 (mapPage_error hmeet flags _ hkept)]
  rfl

end

/-- A table with an empty root in a memory that is full of blocks. -/
def bareTable (root : Nat) : PtState := ⟨fun f _ => if f = root then 0#64 else 1#64, 0⟩

lemma bareTable_root (root i : Nat) : tableOf (bareTable root).mem root i = none := by
  simp only [tableOf, bareTable, if_true]
  rfl

variable {root : Nat}

lemma bareTable_holds {f : Nat} (h : (bareTable root).Holds root f) : f = root := by
  obtain ⟨l, p, _, hp⟩ := h
  obtain ⟨rfl, rfl⟩ := nodeAt_of_empty (bareTable_root root) l p f hp
  rw [nodeAt_zero] at hp
  exact (Option.some.inj hp).symm

lemma bareTable_query (root va : Nat) : queryInPgtbl (bareTable root) root va = none := by
  have hends : EndsAt (bareTable root) root (vpn va) 0 root :=
    ⟨by decide, table_root (vpn_lt va), Or.inr (bareTable_root root _)⟩
  have hat := hends.blockAt (vpn_lt va)
  have hinv : isPteInvalid ((bareTable root).mem root (slotIn 0 (vpn va))) = true := by
    simp only [bareTable, if_true]
    rfl
  rw [hinv, if_pos rfl] at hat
  have hpa := @queryInPgtbl_pa (bareTable root) root va
  rw [hat] at hpa
  exact Option.map_eq_none_iff.1 hpa

/-- The pages that follow the root. -/
def pagesAfter (root n : Nat) : Nat := root + 1 + n % tableCount

variable {n : Nat}

lemma pagesAfter_of_lt (hn : n < tableCount) : pagesAfter root n = root + 1 + n := by
  rw [pagesAfter, mod_eq_of_lt hn]

lemma pagesAfter_range (root n : Nat) :
    root < pagesAfter root n ∧ pagesAfter root n ≤ root + tableCount := by
  have := mod_lt n (show 0 < tableCount by decide)
  unfold pagesAfter
  omega

lemma bareTable_target (hroot : root + tableCount < 2 ^ 36) (va len : Nat) :
    MapTarget (pagesAfter root) root (bareTable root) va len where
  unaliased := unaliased_of_empty (bareTable_root root) 3
  fresh :=
    { distinct := by
        intro m n hm hn heq
        simp only [bareTable, zero_add, pagesAfter_of_lt hm, pagesAfter_of_lt hn] at heq
        omega
      unused := by
        intro n _ hin
        have heq := bareTable_holds hin
        have := pagesAfter_range root ((bareTable root).pages + n)
        omega
      fits := by
        intro n _
        have := pagesAfter_range root ((bareTable root).pages + n)
        omega }
  free := fun x _ _ => bareTable_query root x

/-- For a range that comes back there is a table on which the call does not
return. -/
lemma exists_huge_error {a b : Nat} (ha : a < 2 ^ 36) (hb : b < 2 ^ 36)
    (hn : n < 2 ^ 36) (flags : Nat) (hback : ¬ StaysAhead a n) :
    ∃ getPages root s, MapTarget getPages root s (a * pageSize) (n * pageSize) ∧
    mapRangeInPgtblHuge getPages s root (a * pageSize) (b * pageSize)
    (n * pageSize) flags = .error .bug := by
  -- keep the tables away from the frames of the first block
  obtain ⟨root, hroot, haway⟩ : ∃ root, root + tableCount < 2 ^ 36 ∧
      ∀ f, f / 2 ^ 18 = b / span 1 → f < root ∨ root + tableCount < f := by
    have hcount : tableCount = 134480384 := rfl
    by_cases hlow : b / span 1 < 2 ^ 17
    · refine ⟨2 ^ 35, by omega, fun f hf => ?_⟩
      omega
    refine ⟨0, by omega, fun f hf => ?_⟩
    omega
  have htarget := bareTable_target hroot (a * pageSize) (n * pageSize)
  refine ⟨_, root, _, htarget, ?_⟩
  by_cases hsecond : ∃ i, i < n % span 1 / span 2 ∧
      2 ^ 36 ≤ a % span 1 + n / span 1 * span 1 + i * span 2
  · exact htarget.second_error ha hb hn flags hsecond
  simp only [not_exists, not_and, not_le] at hsecond
  refine htarget.third_error ha hb hn flags hsecond ?_ ?_
  · by_contra hthird
    simp only [not_exists, not_and, not_le] at hthird
    exact hback ⟨hsecond, hthird⟩
  intro f hf
  have hf' := haway f hf
  refine ⟨fun hin => ?_, fun m heq => ?_, fun i => ?_⟩
  · have := bareTable_holds hin
    omega
  · have := pagesAfter_range root m
    omega
  simp only [bareTable]
  rw [if_neg (by omega)]

/-! ## The result -/

/-- A range that fits does not come back. -/
lemma PagesFit.staysAhead {a b : Nat} (h : PagesFit a b n) (hn : n < 2 ^ 36) : StaysAhead a n := by
  apply staysAhead_of_le
  have hbig := h.1
  rw [span_one] at *
  omega

/-- `map_range_in_pgtbl_huge` maps like `map_range_in_pgtbl` on every table
exactly when the addresses are aligned to the blocks that the length asks for.
Unless the range is so long that it comes back to its first block, this holds
for each single table. -/
theorem huge_mapping_agrees {va pa len : Nat} (hva : pageSize ∣ va)
    (hpa : pageSize ∣ pa) (hlen : pageSize ∣ len) (hva48 : va < 2 ^ 48)
    (hpa48 : pa < 2 ^ 48) (hlen48 : len < 2 ^ 48) (flags : Nat) :
    ((∀ getPages root s, MapTarget getPages root s va len → SameAddresses root
          (mapRangeInPgtblHuge getPages s root va pa len flags)
          (mapRangeInPgtbl getPages s root va pa len flags)) ↔
      HugeFits va pa len) ∧
    (len + va % blockSize 1 ≤ 2 ^ 48 → ∀ getPages root s, MapTarget getPages root s va len →
        (SameAddresses root (mapRangeInPgtblHuge getPages s root va pa len flags)
          (mapRangeInPgtbl getPages s root va pa len flags) ↔
        HugeFits va pa len)) := by
  obtain ⟨a, rfl⟩ := hva
  obtain ⟨b, rfl⟩ := hpa
  obtain ⟨n, rfl⟩ := hlen
  simp only [mul_comm pageSize] at *
  have ha : a < 2 ^ 36 := by
    unfold pageSize at hva48
    omega
  have hb : b < 2 ^ 36 := by
    unfold pageSize at hpa48
    omega
  have hn : n < 2 ^ 36 := by
    unfold pageSize at hlen48
    omega
  rw [hugeFits_pages]
  constructor
  · constructor
    · intro hall
      by_cases hroom : StaysAhead a n
      · have htarget := @bareTable_target 0 (by decide) (a * pageSize) (n * pageSize)
        exact (htarget.same_iff ha hb hn flags hroom).1 (hall _ _ _ htarget)
      obtain ⟨getPages, root, s, htarget, herr⟩ := exists_huge_error ha hb hn flags hroom
      obtain ⟨s₁, _, hok, _⟩ := hall getPages root s htarget
      rw [herr] at hok
      cases hok
    · intro hfits getPages root s htarget
      exact (htarget.same_iff ha hb hn flags (hfits.staysAhead hn)).2 hfits
  · intro hroom getPages root s htarget
    refine htarget.same_iff ha hb hn flags (staysAhead_of_le ?_)
    rw [pages_mod (by decide)] at hroom
    unfold pageSize at hroom
    omega

/-- Two megabytes at address 0 of an empty table. -/
theorem huge_mapping_agrees_two_mib : SameAddresses 0
      (mapRangeInPgtblHuge (pagesAfter 0) (bareTable 0) 0 0 0 0x200000 0)
      (mapRangeInPgtbl (pagesAfter 0) (bareTable 0) 0 0 0 0x200000 0) :=
  ((huge_mapping_agrees (by decide) (by decide) (by decide) (by decide)
    (by decide) (by decide) 0).2 (by decide) (pagesAfter 0) 0 (bareTable 0)
    (bareTable_target (by decide) 0 0x200000)).2
      ⟨fun hle => absurd hle (by decide), fun _ => by decide⟩

/-- Two megabytes from the second page on: the block lies one page too low, and
the last page of the range has no mapping. -/
theorem huge_mapping_leaves_hole :
    ∃ s₁ s₂, mapRangeInPgtblHuge (pagesAfter 0) (bareTable 0) 0 0x1000 0 0x200000 0 = .ok s₁ ∧
      mapRangeInPgtbl (pagesAfter 0) (bareTable 0) 0 0x1000 0 0x200000 0 = .ok s₂ ∧
      queryInPgtbl s₁ 0 0x200000 = none ∧
      (queryInPgtbl s₂ 0 0x200000).map Query.pa = some (some 0x1ff000) := by
  have htarget : MapTarget (pagesAfter 0) 0 (bareTable 0) (1 * pageSize)
      (512 * pageSize) := bareTable_target (by decide) _ _
  obtain ⟨s₁, hhuge, hview1⟩ := @MapTarget.huge _ _ _ _ _ htarget 0 (by decide)
    (by decide) (by decide) 0 (staysAhead_of_le (by decide))
  obtain ⟨s₂, hplain, hview2⟩ := @MapTarget.map _ _ _ _ _ htarget 0 (by decide)
    (by decide) (by decide) 0
  refine ⟨s₁, s₂, hhuge, hplain, ?_, ?_⟩
  · have hpa := @queryInPgtbl_pa s₁ 0 0x200000
    have hhole := @huge_hole_two 1 0 512 511 ((bareTable 0).blockAt 0)
      (by decide) (by decide) (by decide) (by decide) (by decide)
    have hfree := htarget.page_free (show 511 < 512 by decide)
    rw [hview1 _ (vpn_lt _)] at hpa
    rw [hfree] at hhole
    exact Option.map_eq_none_iff.1 (hpa.trans (congrArg _ hhole))
  · rw [queryInPgtbl_pa, hview2 _ (vpn_lt _)]
    rfl

end ChCore.Kernel
