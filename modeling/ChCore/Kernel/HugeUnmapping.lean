import ChCore.Kernel.HugeMapping

/-!
# Unmapping huge mappings

At addresses that are aligned to 1 GiB, `map_range_in_pgtbl_huge` and
`unmap_range_in_pgtbl_huge` cut a range into the same pieces. Both run three
loops over pieces of falling size; what one round does to the pages of its piece
(`RoundAt`) is carried through the loops once, for both.
-/

namespace ChCore.Kernel

open Lib.Trie Nat

/-! ## Loops over aligned pieces -/

/-- `one` is a round at level `l`: on a table that meets `Inv`, at a piece whose
first page meets `Old`, it gives the pages of the piece the view `New` and leaves
the others alone. -/
def RoundAt (root : Nat) (Inv : Nat → PtState → Prop) (Old : Nat → Option (Nat × Nat) → Prop)
    (New : Nat → Nat → Option (Nat × Nat)) (l : Nat)
    (one : PtState → Nat → Nat → Exec PtState) : Prop :=
  ∀ s c d, span l ∣ c → c + span l ≤ 2 ^ 36 → d + span l ≤ 2 ^ 36 → Inv l s →
    Old l (s.blockAt root c) →
    ∃ s', one s (c * pageSize) (d * pageSize) = .ok s' ∧ Inv l s' ∧
      (∀ v, c ≤ v → v < c + span l → s'.blockAt root v = New l (d / span l)) ∧
      ∀ v, v < 2 ^ 36 → ¬ (c ≤ v ∧ v < c + span l) → SamePage s s' root v

/-- The level of the piece with page `u` of a range of `n` pages. -/
def pieceLevel (n u : Nat) : Nat :=
  if u < n / span 1 * span 1 then 1 else if u < n / span 2 * span 2 then 2 else 3

section

variable {root : Nat} {Inv : Nat → PtState → Prop}
  {Old : Nat → Option (Nat × Nat) → Prop} {New : Nat → Nat → Option (Nat × Nat)}

lemma RoundAt.loop {l : Nat} (hl : l ≤ 3) {one : PtState → Nat → Nat → Exec PtState}
    (hround : RoundAt root Inv Old New l one) (r : Nat) :
    ∀ s c d, span l ∣ c → c + r * span l ≤ 2 ^ 36 → d + r * span l ≤ 2 ^ 36 →
    Inv l s → (∀ v, c ≤ v → v < c + r * span l → Old l (s.blockAt root v)) →
    ∃ s', pieceLoop one (blockSize l) r s (c * pageSize) (d * pageSize) =
    .ok (s', (c + r * span l) * pageSize, (d + r * span l) * pageSize) ∧ Inv l s' ∧
    (∀ v, c ≤ v → v < c + r * span l → s'.blockAt root v = New l (d / span l + (v - c) / span l)) ∧
    ∀ v, v < 2 ^ 36 → ¬ (c ≤ v ∧ v < c + r * span l) → SamePage s s' root v := by
  have hpos := span_pos l
  induction r with
  | zero =>
    intro s c d _ _ _ h _
    refine ⟨s, ?_, h, fun v _ _ => by omega, fun v _ _ => .refl s root v⟩
    simp only [pieceLoop, zero_mul, add_zero]
  | succ r ih =>
    intro s c d hc hcr hdr h hold
    have hsum (x : Nat) : x + (r + 1) * span l = x + span l + r * span l := by
      rw [succ_mul]
      omega
    rw [hsum] at hcr hdr hold ⊢
    obtain ⟨s1, hone, h₁, hpiece, hother⟩ := hround s c d hc (by omega)
      (by omega) h (hold c (le_refl c) (by omega))
    obtain ⟨s', hloop, h', hrest, hsame⟩ := ih s1 (c + span l) (d + span l)
      (Nat.dvd_add hc (Nat.dvd_refl _)) hcr hdr h₁ fun v hge hlt => by
        rw [(hother v (by omega) (by omega)).block]
        exact hold v (by omega) hlt
    refine ⟨s', ?_, h', fun v hge hlt => ?_, fun v hv hout => ?_⟩
    · rw [pieceLoop, hone, ok_bind, u64_piece hl (by omega), u64_piece hl (by omega), hloop, hsum]
    · by_cases hfirst : v < c + span l
      · rw [(hsame v (by omega) (by omega)).block, hpiece v hge hfirst,
          div_eq_of_lt (show v - c < span l by omega), add_zero]
      rw [hrest v (by omega) hlt, add_div_right d hpos,
        show v - c = v - (c + span l) + span l by omega,
        add_div_right _ hpos]
      congr 1
      omega
    · exact (hother v hv (by omega)).trans (hsame v hv (by omega))

/-- The three loops, for a range of `n` pages from an aligned page on. -/
lemma huge_loops {one : Nat → PtState → Nat → Nat → Exec PtState}
    (hround : ∀ l, 0 < l → l ≤ 3 → RoundAt root Inv Old New l (one l))
    (hinv : ∀ l s, Inv l s → Inv (l + 1) s) {s : PtState} {a b n : Nat}
    (ha : span 1 ∣ a) (hb : span 1 ∣ b) (han : a + n ≤ 2 ^ 36)
    (hbn : b + n ≤ 2 ^ 36) (h : Inv 1 s)
    (hold : ∀ u, u < n → Old (pieceLevel n u) (s.blockAt root (a + u))) :
    ∃ s' va pa, (do
        let r1 ← pieceLoop (one 1) (blockSize 1) (n / span 1) s (a * pageSize) (b * pageSize)
        let r2 ← pieceLoop (one 2) (blockSize 2) (n % span 1 / span 2) r1.1 r1.2.1 r1.2.2
        pieceLoop (one 3) (blockSize 3) (n % span 1 % span 2) r2.1 r2.2.1
          r2.2.2) = .ok (s', va, pa) ∧ Inv 3 s' ∧
      (∀ u, u < n → ∃ e, s'.blockAt root (a + u) = New (pieceLevel n u) e ∧
        e * span (pieceLevel n u) + (a + u) % span (pieceLevel n u) = b + u) ∧
      ∀ v, v < 2 ^ 36 → ¬ (a ≤ v ∧ v < a + n) → SamePage s s' root v := by
  have h1 := (hround 1 (by decide) (by decide)).loop (by decide) (n / span 1) s a b
  have h2 := fun s => (hround 2 (by decide) (by decide)).loop (by decide)
    (n % span 1 / span 2) s (a + n / span 1 * span 1) (b + n / span 1 * span 1)
  have h3 := fun s => (hround 3 (by decide) (by decide)).loop (by decide) (n % span 1 % span 2) s
    (a + n / span 1 * span 1 + n % span 1 / span 2 * span 2)
    (b + n / span 1 * span 1 + n % span 1 / span 2 * span 2)
  unfold pieceLevel at hold ⊢
  simp only [span_one, span_two, span_three, mul_one] at *
  obtain ⟨s1, hrun1, hi1, hin1, hout1⟩ := h1 ha (by omega) (by omega) h fun v hge hlt => by
      have := hold (v - a) (by omega)
      rwa [if_pos (by omega), Nat.add_sub_cancel' hge] at this
  obtain ⟨s2, hrun2, hi2, hin2, hout2⟩ := h2 s1 (by omega) (by omega)
    (by omega) (hinv 1 s1 hi1) fun v hge hlt => by
      have := hold (v - a) (by omega)
      rw [if_neg (by omega), if_pos (by omega), Nat.add_sub_cancel' (by omega)] at this
      rwa [(hout1 v (by omega) (by omega)).block]
  obtain ⟨s3, hrun3, hi3, hin3, hout3⟩ := h3 s2 (Nat.one_dvd _) (by omega)
    (by omega) (hinv 2 s2 hi2) fun v hge hlt => by
      have := hold (v - a) (by omega)
      rw [if_neg (by omega), if_neg (by omega), Nat.add_sub_cancel' (by omega)] at this
      rwa [(hout2 v (by omega) (by omega)).block, (hout1 v (by omega) (by omega)).block]
  refine ⟨s3, _, _, by rw [hrun1, ok_bind, hrun2, ok_bind, hrun3],
    hi3, fun u hu => ?_, fun v hv hout => ?_⟩
  · by_cases hu1 : u < n / 262144 * 262144
    · rw [if_pos hu1, span_one, (hout3 _ (by omega) (by omega)).block,
        (hout2 _ (by omega) (by omega)).block]
      exact ⟨_, hin1 _ (by omega) (by omega), by omega⟩
    by_cases hu2 : u < n / 512 * 512
    · rw [if_neg hu1, if_pos hu2, span_two, (hout3 _ (by omega) (by omega)).block]
      exact ⟨_, hin2 _ (by omega) (by omega), by omega⟩
    rw [if_neg hu1, if_neg hu2, span_three]
    exact ⟨_, hin3 _ (by omega) (by omega), by omega⟩
  · exact ((hout1 v hv (by omega)).trans (hout2 v hv (by omega))).trans (hout3 v hv (by omega))

end

/-! ## The rounds -/

section

variable {getPages : Nat → Nat} {root : Nat} {s : PtState}

/-- The pages of the piece that starts at page `c`. -/
lemma path_piece {l c v : Nat} (hpos : 0 < l) (hl : l ≤ 3) (hc : span l ∣ c) (hlt : c < 2 ^ 36) :
    path (l + 1) v = path (l + 1) (vpn (c * pageSize)) ↔ c ≤ v ∧ v < c + span l := by
  have hcases : l = 1 ∨ l = 2 ∨ l = 3 := by omega
  rw [vpn_mul_page, mod_eq_of_lt hlt, path_eq_div, path_eq_div]
  rcases hcases with rfl | rfl | rfl
  · rw [span_one] at *
    omega
  · rw [span_two] at *
    omega
  rw [span_three]
  omega

lemma Round.at {s0 : PtState} {l : Nat} (hpos : 0 < l) (hl : l ≤ 3)
    {one : PtState → Nat → Nat → Exec PtState} (hround : Round getPages root s0 l one) :
    RoundAt root (Grown getPages root s0) (fun _ o => o = none) (fun l e => some (l, e)) l one := by
  intro s c d hc hcl hdl h hnone
  have hspan := span_pos l
  have hpiece (v : Nat) := path_piece (v := v) hpos hl hc (by omega)
  have hvpn : vpn (c * pageSize) = c := by rw [vpn_mul_page, mod_eq_of_lt (by omega)]
  obtain ⟨s', hone, hlays⟩ := hround s (c * pageSize) (d * pageSize) h (hvpn.symm ▸ hnone)
  refine ⟨s', hone, hlays.grown, fun v hge hlt => ?_, fun v hv hout => ?_⟩
  · have hframe : d / span l < 512 ^ (l + 1) := div_span_lt hl (by omega)
    rw [hlays.block v (by omega), if_pos ((hpiece v).2 ⟨hge, hlt⟩),
      page_shift hl, mod_eq_of_lt hframe]
  · exact hlays.other v hv fun heq => hout ((hpiece v).1 heq)

/-- One round of `map_range_in_pgtbl_huge`. -/
def mapPiece (getPages : Nat → Nat) (root flags l : Nat) : PtState → Nat → Nat → Exec PtState :=
  if l = 3 then fun s va pa => mapPage getPages s root va pa flags
  else mapBlock getPages root l flags

lemma mapPiece_at {s0 : PtState} (hfresh : FreshFrom getPages root s0)
    (flags : Nat) (l : Nat) (hpos : 0 < l) (hl : l ≤ 3) :
    RoundAt root (Grown getPages root s0) (fun _ o => o = none)
    (fun l e => some (l, e)) l (mapPiece getPages root flags l) := by
  unfold mapPiece
  split
  · rename_i h3
    subst h3
    exact (mapPage_round hfresh flags).at hpos hl
  · exact (mapBlock_round hfresh (by omega) flags).at hpos hl

lemma table_le {v l g : Nat} (d : Nat) (hl : l + d ≤ 3)
    (h : s.table root (l + d) (path (l + d) v) = some g) :
    ∃ f, s.table root l (path l v) = some f := by
  induction d generalizing g with
  | zero => exact ⟨g, h⟩
  | succ d ih =>
    obtain ⟨f, hf, -⟩ := table_pred (show l + d < 3 by omega) h
    exact ih (by omega) hf

lemma unmapWalk_table {va g : Nat} (d : Nat) :
    ∀ l f, l + d ≤ 3 → s.table root l (path l (vpn va)) = some f →
    s.table root (l + d) (path (l + d) (vpn va)) = some g → unmapWalk s va d l f = .ok g := by
  induction d with
  | zero =>
    intro l f _ hf hg
    exact congrArg Except.ok (Option.some.inj (hf.symm.trans hg))
  | succ d ih =>
    intro l f hl hf hg
    rw [← add_assoc, add_right_comm] at hg
    obtain ⟨f', hf'⟩ := table_le d (by omega) hg
    have hchild := (table_succ (by omega) hf).symm.trans hf'
    rw [unmapWalk, getNextPtp_of_table (by omega) hchild]
    exact ih (l + 1) f' (by omega) hf' hg

/-- A round of `unmap_range_in_pgtbl_huge`, where a piece was mapped. -/
lemma unmapBlock_at (l : Nat) (hpos : 0 < l) (hl : l ≤ 3) :
    RoundAt root (fun _ s => Unaliased 512 (tableOf s.mem) root 3)
    (fun l o => ∃ e, o = some (l, e)) (fun _ _ => none) l fun s va _ => unmapBlock root l s va := by
  rintro s c d hc hcl - h ⟨e, hblock⟩
  have hspan := span_pos l
  have hpiece (v : Nat) := path_piece (v := v) hpos hl hc (by omega)
  have hvpn : vpn (c * pageSize) = c := by rw [vpn_mul_page, mod_eq_of_lt (by omega)]
  have hv := vpn_lt (c * pageSize)
  obtain ⟨m, f, hends⟩ := exists_endsAt (vpn (c * pageSize)) 3 0 root rfl (table_root hv)
  obtain ⟨rfl, -⟩ := hends.entry hv (hvpn.symm ▸ hblock)
  have hidx : ptpIndex m (c * pageSize) = slotIn m (vpn (c * pageSize)) := ptpIndex_eq (by omega) _
  have hwalk : unmapWalk s (c * pageSize) m 0 root = .ok f :=
    unmapWalk_table m 0 root (by omega) (table_root hv) (by rw [zero_add]; exact hends.table)
  have hinvalid := clearValid_invalid (s.mem f (slotIn m (vpn (c * pageSize))))
  refine ⟨_, by simp only [unmapBlock, hwalk, ok_bind, hidx]; rfl,
    h.cut (cuts_write hl hends.table fun _ => .inl hinvalid),
    fun v hge hlt => ?_, fun v hv' hout => ?_⟩
  · obtain ⟨hslot, hnow⟩ := endsAt_write h hl hends.table
      (fun _ => .inl hinvalid) ((hpiece v).2 ⟨hge, hlt⟩)
    rw [hnow.blockAt (by omega), hslot, write_mem_here, hinvalid]
    rfl
  · exact same_write h hl hends.table (fun _ => .inl hinvalid) hv' fun heq =>
      hout ((hpiece v).1 heq)

lemma unmapPieces_eq (l n : Nat) : ∀ (s : PtState) (va pa : Nat), unmapPieces root l n s va = do
      let r ← pieceLoop (fun s va _ => unmapBlock root l s va) (blockSize l) n s va pa
      return (r.1, r.2.1) := by
  induction n with
  | zero =>
    intro s va pa
    rfl
  | succ n ih =>
    intro s va pa
    rw [unmapPieces, pieceLoop]
    cases unmapBlock root l s va with
    | error e => rfl
    | ok s1 => exact ih s1 _ _

lemma unmapLoop_eq (n : Nat) : ∀ (s : PtState) (va : Nat), unmapLoop root n s va = do
      let r ← unmapPieces root 3 n s va
      return r.1 := by
  induction n with
  | zero =>
    intro s va
    rfl
  | succ n ih =>
    intro s va
    rw [unmapLoop, unmapPieces, unmapBlock, unmapPage]
    cases unmapWalk s va 3 0 root with
    | error e => rfl
    | ok f => exact ih _ _

end

/-! ## The two functions -/

section

variable {getPages : Nat → Nat} {root : Nat} {s : PtState} {a b n : Nat}
  (ha : span 1 ∣ a) (hb : span 1 ∣ b) (han : a + n ≤ 2 ^ 36)
  (hbn : b + n ≤ 2 ^ 36)

include ha hb han hbn in
lemma MapTarget.huge_aligned
    (h : MapTarget getPages root s (a * pageSize) (n * pageSize)) (flags : Nat) :
    ∃ s', mapRangeInPgtblHuge getPages s root (a * pageSize) (b * pageSize)
    (n * pageSize) flags = .ok s' ∧ Unaliased 512 (tableOf s'.mem) root 3 ∧
    (∀ u, u < n → ∃ e, s'.blockAt root (a + u) = some (pieceLevel n u, e) ∧
    e * span (pieceLevel n u) + (a + u) % span (pieceLevel n u) = b + u) ∧
    ∀ v, v < 2 ^ 36 → ¬ (a ≤ v ∧ v < a + n) → SamePage s s' root v := by
  obtain ⟨s', va, pa, hrun, hgrown, hin, hout⟩ := huge_loops
    (mapPiece_at h.fresh flags) (fun l _ hl => hl.mono (le_succ l)) ha hb han
    hbn (Grown.refl h.unaliased 1) fun u hu => by
      have := h.page_free hu
      rwa [mod_eq_of_lt (by omega)] at this
  refine ⟨s', ?_, hgrown.unaliased, hin, hout⟩
  rw [mapRangeInPgtblHuge_pages]
  simp only [mapPiece, if_true, (by decide : ¬ 1 = 3), (by decide : ¬ 2 = 3), if_false] at hrun
  obtain ⟨r1, hr1, hrun⟩ := bind_eq_ok.1 hrun
  obtain ⟨r2, hr2, hrun⟩ := bind_eq_ok.1 hrun
  rw [hr1, ok_bind, hr2, ok_bind, hrun]
  rfl

include ha han in
lemma unmapRangeInPgtblHuge_aligned (hun : Unaliased 512 (tableOf s.mem) root 3)
    (hmapped : ∀ u, u < n → ∃ e, s.blockAt root (a + u) = some (pieceLevel n u, e)) :
    ∃ s', unmapRangeInPgtblHuge s root (a * pageSize) (n * pageSize) = .ok s' ∧
    (∀ u, u < n → s'.blockAt root (a + u) = none) ∧
    ∀ v, v < 2 ^ 36 → ¬ (a ≤ v ∧ v < a + n) → SamePage s s' root v := by
  obtain ⟨s', va, pa, hrun, -, hin, hout⟩ := huge_loops unmapBlock_at
    (fun _ _ h => h) ha ha han han hun hmapped
  refine ⟨s', ?_, fun u hu => (hin u hu).elim fun _ h => h.1, hout⟩
  simp only [unmapRangeInPgtblHuge, unmapRangeInPgtbl,
    pages_div (show 1 ≤ 3 by decide), pages_div (show 2 ≤ 3 by decide),
    pages_mod (show 1 ≤ 3 by decide), pages_mod (show 2 ≤ 3 by decide),
    pageRounds_mul, unmapLoop_eq]
  obtain ⟨r1, hr1, hrun⟩ := bind_eq_ok.1 hrun
  obtain ⟨r2, hr2, hrun⟩ := bind_eq_ok.1 hrun
  rw [unmapPieces_eq 1 _ s _ (a * pageSize), hr1, ok_bind, pure_eq_ok,
    ok_bind, unmapPieces_eq 2 _ r1.1 _ r1.2.2, hr2, ok_bind,
    pure_eq_ok, ok_bind,
    unmapPieces_eq 3 _ r2.1 _ r2.2.2, hrun]
  rfl

end

lemma pieceLevel_range (n u : Nat) : 0 < pieceLevel n u ∧ pieceLevel n u ≤ 3 := by
  unfold pieceLevel
  split_ifs <;> decide

/-- What the two functions do to the answers of `query_in_pgtbl`. -/
lemma MapTarget.huge_queries {getPages : Nat → Nat} {root va pa len : Nat}
    {s : PtState} (h : MapTarget getPages root s va len) (hva : 2 ^ 30 ∣ va)
    (hpa : 2 ^ 30 ∣ pa) (hlen : pageSize ∣ len) (hvend : va + len ≤ 2 ^ 48)
    (hpend : pa + len ≤ 2 ^ 48) (flags : Nat) :
    ∃ s1 s2, mapRangeInPgtblHuge getPages s root va pa len flags = .ok s1 ∧
    unmapRangeInPgtblHuge s1 root va len = .ok s2 ∧
    (∀ x, va ≤ x % 2 ^ 48 → x % 2 ^ 48 < va + len → (queryInPgtbl s1 root x).map Query.pa =
    some (some (pa + (x % 2 ^ 48 - va))) ∧ queryInPgtbl s2 root x = none) ∧
    ∀ x, ¬ (va ≤ x % 2 ^ 48 ∧ x % 2 ^ 48 < va + len) →
    queryInPgtbl s1 root x = queryInPgtbl s root x ∧
    queryInPgtbl s2 root x = queryInPgtbl s1 root x := by
  obtain ⟨a, rfl⟩ : pageSize ∣ va := dvd_trans (by decide) hva
  obtain ⟨b, rfl⟩ : pageSize ∣ pa := dvd_trans (by decide) hpa
  obtain ⟨n, rfl⟩ := hlen
  simp only [mul_comm pageSize] at *
  have ha : span 1 ∣ a := by
    rw [span_one]
    unfold pageSize at hva
    omega
  have hb : span 1 ∣ b := by
    rw [span_one]
    unfold pageSize at hpa
    omega
  -- page numbers are those of the low 48 bits
  have hvpn (x : Nat) : vpn x = x % 2 ^ 48 / pageSize := by
    unfold vpn pageSize
    omega
  have hpage (x : Nat) : a ≤ vpn x ∧ vpn x < a + n ↔
      a * pageSize ≤ x % 2 ^ 48 ∧ x % 2 ^ 48 < a * pageSize + n * pageSize := by
    rw [hvpn]
    unfold pageSize
    omega
  obtain ⟨s1, hmap, hun, hin, hout⟩ := h.huge_aligned ha hb
    (by unfold pageSize at hvend; omega) (by unfold pageSize at hpend; omega)
    flags
  obtain ⟨s2, hunmap, hin', hout'⟩ := unmapRangeInPgtblHuge_aligned ha
    (by unfold pageSize at hvend; omega) hun fun u hu =>
      (hin u hu).imp fun _ he => he.1
  refine ⟨s1, s2, hmap, hunmap, fun x hge hlt => ?_, fun x hx => ?_⟩
  · obtain ⟨hav, hvn⟩ := (hpage x).2 ⟨hge, hlt⟩
    obtain ⟨u, hu⟩ := Nat.exists_eq_add_of_le hav
    obtain ⟨e, hblock, hframe⟩ := hin u (by omega)
    have hgone := hin' u (by omega)
    rw [← hu] at hblock hframe hgone
    obtain ⟨hpos, hle⟩ := pieceLevel_range n u
    constructor
    · rw [queryInPgtbl_pa, hblock, Option.map_some, blockPa_page hpos hle, hframe]
      refine congrArg (fun y => some (some y)) ?_
      rw [hvpn] at hu
      unfold pageSize at *
      omega
    · have hnone := @queryInPgtbl_pa s2 root x
      rw [hgone] at hnone
      exact Option.map_eq_none_iff.1 hnone
  · have hv := mt (hpage x).1 hx
    exact ⟨(hout _ (vpn_lt x) hv).query x rfl, (hout' _ (vpn_lt x) hv).query x rfl⟩

/-- **Huge mappings are undone.** At addresses aligned to 1 GiB,
`map_range_in_pgtbl_huge` maps a range that was free, and
`unmap_range_in_pgtbl_huge` frees it again; both leave alone every address whose
low 48 bits are outside of the range. -/
theorem huge_mapping_undone {getPages : Nat → Nat} {root va pa len : Nat}
    {s : PtState} (hva : 2 ^ 30 ∣ va) (hpa : 2 ^ 30 ∣ pa)
    (hlen : pageSize ∣ len) (hvend : va + len ≤ 2 ^ 48)
    (hpend : pa + len ≤ 2 ^ 48) (h : MapTarget getPages root s va len)
    (flags : Nat) :
    ∃ s1 s2, mapRangeInPgtblHuge getPages s root va pa len flags = .ok s1 ∧
      unmapRangeInPgtblHuge s1 root va len = .ok s2 ∧
      (∀ x, va ≤ x → x < va + len →
        (queryInPgtbl s1 root x).map Query.pa = some (some (pa + (x - va))) ∧
          queryInPgtbl s2 root x = none) ∧
      ∀ x, ¬ (va ≤ x % 2 ^ 48 ∧ x % 2 ^ 48 < va + len) →
        queryInPgtbl s1 root x = queryInPgtbl s root x ∧
          queryInPgtbl s2 root x = queryInPgtbl s1 root x := by
  obtain ⟨s1, s2, hmap, hunmap, hin, hout⟩ := h.huge_queries hva hpa hlen hvend hpend flags
  refine ⟨s1, s2, hmap, hunmap, fun x hge hlt => ?_, hout⟩
  have hx : x % 2 ^ 48 = x := mod_eq_of_lt (by omega)
  have hboth := hin x (hx.symm ▸ hge) (hx.symm ▸ hlt)
  rwa [hx] at hboth

/-- A range of one block of each size. -/
theorem huge_mapping_undone_all_sizes :
    ∃ s1 s2, mapRangeInPgtblHuge (pagesAfter 0) (bareTable 0) 0 (2 ^ 30) (2 ^ 31) 0x40201000 0 =
        .ok s1 ∧ unmapRangeInPgtblHuge s1 0 (2 ^ 30) 0x40201000 = .ok s2 ∧
      (∀ x, 2 ^ 30 ≤ x → x < 2 ^ 30 + 0x40201000 →
        (queryInPgtbl s1 0 x).map Query.pa = some (some (2 ^ 31 + (x - 2 ^ 30))) ∧
          queryInPgtbl s2 0 x = none) ∧
      ∀ x, ¬ (2 ^ 30 ≤ x % 2 ^ 48 ∧ x % 2 ^ 48 < 2 ^ 30 + 0x40201000) →
        queryInPgtbl s1 0 x = queryInPgtbl (bareTable 0) 0 x ∧
          queryInPgtbl s2 0 x = queryInPgtbl s1 0 x :=
  huge_mapping_undone (by decide) (by decide) (by decide) (by decide)
    (by decide) (bareTable_target (by decide) (2 ^ 30) 0x40201000) 0

/-- The address `2 ^ 48` is outside of the first page, and is mapped with it. -/
theorem huge_mapping_changes_high_address :
    ∃ s1, mapRangeInPgtblHuge (pagesAfter 0) (bareTable 0) 0 0 0 0x1000 0 =
        .ok s1 ∧ ¬ (0 ≤ 2 ^ 48 ∧ 2 ^ 48 < 0 + 0x1000) ∧
      queryInPgtbl s1 0 (2 ^ 48) ≠ queryInPgtbl (bareTable 0) 0 (2 ^ 48) := by
  have htarget := @bareTable_target 0 (by decide) 0 0x1000
  obtain ⟨s1, _, hmap, -, hin, -⟩ := htarget.huge_queries (by decide)
    (show 2 ^ 30 ∣ 0 by decide) (by decide) (by decide) (by decide) 0
  refine ⟨s1, hmap, by decide, fun heq => ?_⟩
  have hpa := (hin (2 ^ 48) (by decide) (by decide)).1
  rw [heq, bareTable_query] at hpa
  cases hpa

end ChCore.Kernel
