import ChCore.Kernel.PageTableInv

/-!
# Specifications of mapping and unmapping

What `get_next_ptp`, `map_range_in_pgtbl` and `unmap_range_in_pgtbl` do to the
flat view. Allocating inner tables changes nothing in it, and writing a
last-level entry changes it at one page number.
-/

namespace ChCore.Kernel

open Function Option Lib.BitField Lib.Trie

/-- Tables are added, and the flat view stays as it is. -/
structure Grows (root : Nat) (s s' : PtState) : Prop where
  node : ∀ l p f, l ≤ 3 → s.node root l p = some f → s'.node root l p = some f
  entry : ∀ v, s'.entryAt root v = s.entryAt root v

lemma Grows.refl (root : Nat) (s : PtState) : Grows root s s := ⟨fun _ _ _ _ h => h, fun _ => rfl⟩

lemma Grows.trans {root : Nat} {s s' s'' : PtState} (h : Grows root s s')
    (h' : Grows root s' s'') : Grows root s s'' where
  node := fun l p f hl hf => h'.node l p f hl (h.node l p f hl hf)
  entry := fun v => (h'.entry v).trans (h.entry v)

section

variable {getPages : Nat → Nat} {root : Nat} {s : PtState}

/-- The state after `get_next_ptp` has put a new table behind entry `i` of
table `f`. -/
def withTable (getPages : Nat → Nat) (s : PtState) (f i : Nat) : PtState where
  mem := Function.update (Function.update s.mem (getPages s.pages) fun _ => 0#64) f
    (Function.update (s.mem f) i (writeTable 0#64 (getPages s.pages)))
  pages := s.pages + 1

variable {f i : Nat}

lemma withTable_mem_here : (withTable getPages s f i).mem f i =
    writeTable 0#64 (getPages s.pages) := by
  simp only [withTable, update_self]

lemma withTable_mem_new (hne : getPages s.pages ≠ f) (j : Nat) :
    (withTable getPages s f i).mem (getPages s.pages) j = 0#64 := by
  simp only [withTable, update_of_ne hne, update_self]

lemma withTable_mem_other {f' j : Nat} (hnew : f' ≠ getPages s.pages) (hother : f' ≠ f ∨ j ≠ i) :
    (withTable getPages s f i).mem f' j = s.mem f' j := by
  by_cases hff : f' = f
  · subst hff
    have hj : j ≠ i := hother.resolve_left (fun hne => hne rfl)
    simp only [withTable, update_self, update_of_ne hj]
  · simp only [withTable, update_of_ne hff, update_of_ne hnew]

variable (hfresh : FreshPages getPages root) (h : PtInv getPages root s)

variable {l p : Nat}

lemma node_absent (hf : s.node root l p = some f) (hi : i < 512)
    (habsent : childOf s.mem f i = none) : s.node root (l + 1) (p * 512 + i) = none := by
  have hdiv : (p * 512 + i) / 512 = p := by omega
  have hmod : (p * 512 + i) % 512 = i := by omega
  show nodeAt _ _ _ _ _ = none
  have hf' : nodeAt 512 (childOf s.mem) root l ((p * 512 + i) / 512) = some f := by
    rw [hdiv]
    exact hf
  rw [nodeAt_child hf', hmod, habsent]

include hfresh h in
/-- While a table is missing, `get_pages` has not been called as often as there
are tables. -/
lemma PtInv.pages_lt (hl : l < 3) (hf : s.node root l p = some f)
    (hi : i < 512) (habsent : childOf s.mem f i = none) : s.pages < tableCount := by
  have hp : p < 512 ^ l := lt_of_nodeAt (by decide) l p f hf
  have hpath : p * 512 + i < 512 ^ (l + 1) := by
    rw [Nat.pow_succ]
    omega
  have hcount : (paths 512 3).card = tableCount := by
    rw [card_paths]
    rfl
  rw [← hcount]
  refine issued_lt (by decide) ?_ h.issued hl hpath (node_absent hf hi habsent)
  intro a b ha hb heq
  have hroom := h.room
  exact hfresh.distinct a b (by omega) (by omega) heq

include hfresh h in
lemma PtInv.notUsed (hlt : s.pages < tableCount) : ¬ s.Uses root (getPages s.pages) := by
  intro hin
  rcases h.used _ hin with hroot | ⟨n, hn, heq⟩
  · exact hfresh.notRoot _ hlt hroot
  have := hfresh.distinct n s.pages (by omega) hlt heq
  omega

include hfresh h in
lemma PtInv.links (hl : l < 3) (hf : s.node root l p = some f) (hi : i < 512)
    (habsent : childOf s.mem f i = none) :
    Links 512 (childOf s.mem) (childOf (withTable getPages s f i).mem) root 3
    l p f i (getPages s.pages) := by
  have hpages := h.pages_lt hfresh hl hf hi habsent
  have hnot := h.notUsed hfresh hpages
  have hne : getPages s.pages ≠ f := by
    rintro rfl
    exact hnot ⟨l, p, le_of_lt hl, hf⟩
  exact {
    level := hl
    path := hf
    index := hi
    absent := habsent
    fresh := hnot
    here := by
      rw [childOf, withTable_mem_here, (writeTable_valid _ _).1,
        writeTable_frame _ (hfresh.fits _ hpages)]
      rfl
    empty := by
      intro j
      rw [childOf, withTable_mem_new hne]
      rfl
    other := by
      intro f' j hin hor
      have hnew : f' ≠ getPages s.pages := by
        rintro rfl
        exact hnot hin
      rw [childOf, childOf, withTable_mem_other hnew hor]
  }

include hfresh h in
/-- A new table keeps the invariant and the flat view. -/
lemma PtInv.withTable (hl : l < 3) (hf : s.node root l p = some f)
    (hi : i < 512) (habsent : childOf s.mem f i = none) :
    PtInv getPages root (withTable getPages s f i) ∧
    Grows root s (ChCore.Kernel.withTable getPages s f i) ∧
    (ChCore.Kernel.withTable getPages s f i).node root (l + 1) (p * 512 + i) =
    some (getPages s.pages) := by
  have hlinks := h.links hfresh hl hf hi habsent
  have hpages := h.pages_lt hfresh hl hf hi habsent
  have hnot := h.notUsed hfresh hpages
  have hne : getPages s.pages ≠ f := by
    rintro rfl
    exact hnot ⟨l, p, le_of_lt hl, hf⟩
  have hnode : ∀ m q, m ≤ 3 → (ChCore.Kernel.withTable getPages s f i).node root m q =
        if m = l + 1 ∧ q = p * 512 + i then some (getPages s.pages)
        else s.node root m q :=
    fun m q hm => nodeAt_link h.unaliased hlinks m q hm
  have holdne : ∀ m q f', m ≤ 3 → s.node root m q = some f' → f' ≠ getPages s.pages := by
    intro m q f' hm hq heq
    rw [heq] at hq
    exact hnot ⟨m, q, hm, hq⟩
  have hnoneNew := node_absent hf hi habsent
  have hkept : ∀ m q f', m ≤ 3 → s.node root m q = some f' →
      (ChCore.Kernel.withTable getPages s f i).node root m q = some f' := by
    intro m q f' hm hq
    rw [hnode m q hm, if_neg, hq]
    rintro ⟨rfl, rfl⟩
    rw [hnoneNew] at hq
    cases hq
  -- a table other than `f` is unchanged
  have hleaf : ∀ q f' j, s.node root 3 q = some f' →
      (ChCore.Kernel.withTable getPages s f i).mem f' j = s.mem f' j := by
    intro q f' j hq
    refine withTable_mem_other (holdne 3 q f' (le_refl 3) hq) (Or.inl ?_)
    rintro rfl
    have := h.unaliased l 3 p q f' (le_of_lt hl) (le_refl 3) hf hq
    omega
  refine ⟨?_, ?_, ?_⟩
  · exact {
      unaliased := h.unaliased.link hlinks
      inner := by
        intro m q f' j hm hq
        rw [hnode m q (le_of_lt hm)] at hq
        by_cases hnew : m = l + 1 ∧ q = p * 512 + i
        · rw [if_pos hnew] at hq
          cases hq
          exact .inl (withTable_mem_new hne j)
        rw [if_neg hnew] at hq
        by_cases hhere : f' = f ∧ j = i
        · obtain ⟨rfl, rfl⟩ := hhere
          exact .inr ⟨_, hfresh.fits _ hpages, withTable_mem_here⟩
        rw [withTable_mem_other (holdne m q f' (le_of_lt hm) hq) (by omega)]
        exact h.inner m q f' j hm hq
      leaf := by
        intro q f' j hq
        rw [hnode 3 q (le_refl 3)] at hq
        by_cases hnew : 3 = l + 1 ∧ q = p * 512 + i
        · rw [if_pos hnew] at hq
          cases hq
          rw [withTable_mem_new hne]
          exact cleanEntry_zero
        · rw [if_neg hnew] at hq
          rw [hleaf q f' j hq]
          exact h.leaf q f' j hq
      used := by
        intro f' hin
        rcases (inTree_link h.unaliased hlinks f').1 hin with rfl | hold
        · exact .inr ⟨s.pages, Nat.lt_succ_self _, rfl⟩
        rcases h.used f' hold with hroot | ⟨n, hn, heq⟩
        · exact .inl hroot
        · exact .inr ⟨n, Nat.lt_succ_of_lt hn, heq⟩
      issued := by
        intro n hn
        by_cases hlast : n = s.pages
        · subst hlast
          refine ⟨l, p * 512 + i, hl, ?_⟩
          rw [hnode (l + 1) _ hl, if_pos ⟨rfl, rfl⟩]
        have hn' : n < s.pages + 1 := hn
        obtain ⟨m, q, hm, hq⟩ := h.issued n (by omega)
        exact ⟨m, q, hm, hkept (m + 1) q _ hm hq⟩
      room := hpages
    }
  · constructor
    · exact hkept
    · intro v
      unfold PtState.entryAt
      rw [hnode 3 (v / 512) (le_refl 3)]
      by_cases hnew : 3 = l + 1 ∧ v / 512 = p * 512 + i
      · obtain ⟨hl3, hv⟩ := hnew
        rw [if_pos ⟨hl3, hv⟩, hv, show (3 : Nat) = l + 1 from hl3, hnoneNew,
          bind_some, withTable_mem_new hne]
        rfl
      rw [if_neg hnew]
      cases hq : s.node root 3 (v / 512) with
      | none => rfl
      | some f' => rw [bind_some, bind_some, hleaf _ f' _ hq]
  · rw [hnode (l + 1) _ hl, if_pos ⟨rfl, rfl⟩]

include hfresh h in
/-- `get_next_ptp` with `alloc` set, in an inner table. -/
lemma getNextPtp_alloc {va : Nat} (hl : l < 3) (hf : s.node root l (path l (vpn va)) = some f) :
    ∃ s' g, getNextPtp getPages s f l va true = (s', .normal g) ∧
    PtInv getPages root s' ∧ Grows root s s' ∧
    s'.node root (l + 1) (path (l + 1) (vpn va)) = some g := by
  have hidx := ptpIndex_eq (show l < 4 by omega) va
  have hlt : ptpIndex l va < 512 := by
    rw [hidx]
    exact Nat.mod_lt _ (by decide)
  obtain ⟨hnone, hsome⟩ := h.next hl hf va
  cases hc : childOf s.mem f (ptpIndex l va) with
  | some g =>
    refine ⟨s, g, hsome getPages g true hc, h, Grows.refl root s, ?_⟩
    rw [node_step hl hf, ← hidx, hc]
  | none =>
    obtain ⟨hinv, _⟩ := hnone getPages hc
    have hzero : s.mem f (ptpIndex l va) = 0#64 := by
      rcases h.inner l _ f (ptpIndex l va) hl hf with hz | ⟨g, _, htab⟩
      · exact hz
      rw [htab, (writeTable_valid _ _).1] at hinv
      exact absurd hinv (by decide)
    have hpages := h.pages_lt hfresh hl hf hlt hc
    have hne : f ≠ getPages s.pages := by
      rintro rfl
      exact h.notUsed hfresh hpages ⟨l, _, le_of_lt hl, hf⟩
    obtain ⟨hinv', hgrows, hnode⟩ := h.withTable hfresh hl hf hlt hc
    refine ⟨_, getPages s.pages, ?_, hinv', hgrows, ?_⟩
    · simp only [getNextPtp, if_true, update_of_ne hne, hzero,
        nextOfEntry, (writeTable_valid _ _).2,
        writeTable_frame _ (hfresh.fits _ hpages)]
      rfl
    have hpath : path (l + 1) (vpn va) = path l (vpn va) * 512 + ptpIndex l va := by
      rw [hidx, ← path_succ (show l < 4 by omega)]
      omega
    rw [hpath]
    exact hnode

end

/-! ## Writing a last-level entry -/

lemma PtState.write_mem (s : PtState) (f i f' j : Nat) (w : BitVec 64) :
    (s.write f i w).mem f' j = if f' = f ∧ j = i then w else s.mem f' j := by
  by_cases hf : f' = f
  · subst hf
    by_cases hj : j = i
    · subst hj
      simp only [PtState.write, update_self, and_self, if_true]
    simp only [PtState.write, update_self, update_of_ne hj, hj, and_false, if_false]
  · simp only [PtState.write, update_of_ne hf, hf, false_and, if_false]

section

variable {getPages : Nat → Nat} {root : Nat} {s : PtState} {p g : Nat}
  (h : PtInv getPages root s) (hg : s.node root 3 p = some g)

include h hg in
lemma PtInv.node_write (i : Nat) (w : BitVec 64) {l : Nat} (hl : l ≤ 3)
    (q : Nat) : (s.write g i w).node root l q = s.node root l q := by
  refine nodeAt_congr ?_ l q hl
  intro m r f j hm hf
  have hne : f ≠ g := by
    rintro rfl
    have := h.unaliased m 3 r p f (le_of_lt hm) (le_refl 3) hf hg
    omega
  have hsame : (s.write g i w).mem f j = s.mem f j := by
    rw [PtState.write_mem, if_neg (fun hc => hne hc.1)]
  rw [childOf, childOf, hsame]

include h hg in
/-- A clean entry can be written to any place of a last-level table. -/
lemma PtInv.write {w : BitVec 64} (hw : CleanEntry w) (i : Nat) :
    PtInv getPages root (s.write g i w) := by
  have hnode := fun l hl q => @PtInv.node_write getPages root s p g h hg i w l hl q
  exact {
    unaliased := by
      intro l m q r f hl hm hq hr
      have hq' : s.node root l q = some f := (hnode l hl q).symm.trans hq
      have hr' : s.node root m r = some f := (hnode m hm r).symm.trans hr
      exact h.unaliased l m q r f hl hm hq' hr'
    inner := by
      intro l q f j hl hq
      rw [hnode l (le_of_lt hl)] at hq
      have hne : f ≠ g := by
        rintro rfl
        have := h.unaliased l 3 q p f (le_of_lt hl) (le_refl 3) hq hg
        omega
      rw [PtState.write_mem, if_neg (fun hc => hne hc.1)]
      exact h.inner l q f j hl hq
    leaf := by
      intro q f j hq
      rw [hnode 3 (le_refl 3)] at hq
      rw [PtState.write_mem]
      by_cases hhere : f = g ∧ j = i
      · rw [if_pos hhere]
        exact hw
      rw [if_neg hhere]
      exact h.leaf q f j hq
    used := by
      rintro f ⟨l, q, hl, hq⟩
      have hq' : s.node root l q = some f := (hnode l hl q).symm.trans hq
      exact h.used f ⟨l, q, hl, hq'⟩
    issued := by
      intro n hn
      obtain ⟨l, q, hl, hq⟩ := h.issued n hn
      exact ⟨l, q, hl, (hnode (l + 1) hl q).trans hq⟩
    room := h.room
  }

include h hg in
/-- The flat view changes at one page number. -/
lemma PtInv.entryAt_write {i : Nat} (hi : i < 512) (w : BitVec 64) (v : Nat) :
    (s.write g i w).entryAt root v =
    if v = p * 512 + i then (if isPteInvalid w then none else some w) else s.entryAt root v := by
  unfold PtState.entryAt
  rw [h.node_write hg i w (le_refl 3)]
  by_cases hv : v = p * 512 + i
  · have hdiv : v / 512 = p := by omega
    have hmod : v % 512 = i := by omega
    have hhere : (s.write g i w).mem g (v % 512) = w := by
      rw [PtState.write_mem, if_pos ⟨rfl, hmod⟩]
    rw [if_pos hv, hdiv, hg, bind_some, hhere]
  rw [if_neg hv]
  cases hf : s.node root 3 (v / 512) with
  | none => rfl
  | some f =>
    have hsame : (s.write g i w).mem f (v % 512) = s.mem f (v % 512) := by
      rw [PtState.write_mem, if_neg]
      rintro ⟨rfl, hmod⟩
      obtain ⟨_, hdiv⟩ := h.unaliased 3 3 _ p f (le_refl 3) (le_refl 3) hf hg
      omega
    rw [bind_some, bind_some, hsame]

end

/-! ## One page -/

section

variable {getPages : Nat → Nat} {root : Nat} (hfresh : FreshPages getPages root)

lemma vpn_split (va : Nat) : vpn va = path 3 (vpn va) * 512 + ptpIndex 3 va := by
  rw [ptpIndex_eq (by decide), path_four]
  unfold path
  omega

lemma ptpIndex_lt (l va : Nat) : ptpIndex l va < 512 := by
  unfold ptpIndex
  rw [Nat.and_two_pow_sub_one_eq_mod]
  exact Nat.mod_lt _ (by decide)

include hfresh in
lemma mapWalk_spec (va : Nat) (d : Nat) :
    ∀ l (s : PtState) f last, l + d = 3 → PtInv getPages root s →
    s.node root l (path l (vpn va)) = some f → (d = 0 → last = .normal f) →
    ∃ s' g, mapWalk getPages va d s l f last = .ok (s', .normal g) ∧
    PtInv getPages root s' ∧ Grows root s s' ∧ s'.node root 3 (path 3 (vpn va)) = some g := by
  induction d with
  | zero =>
    intro l s f last hl h hf hlast
    obtain rfl : l = 3 := by omega
    refine ⟨s, f, ?_, h, Grows.refl root s, hf⟩
    rw [mapWalk, hlast rfl]
  | succ d ih =>
    intro l s f last hl h hf _
    obtain ⟨s1, g1, hnext, h1, hgrows1, hnode1⟩ :=
      getNextPtp_alloc hfresh h (show l < 3 by omega) hf
    obtain ⟨s', g, hwalk, h', hgrows, hnode⟩ :=
      ih (l + 1) s1 g1 (.normal g1) (by omega) h1 hnode1 (fun _ => rfl)
    refine ⟨s', g, ?_, h', hgrows1.trans hgrows, hnode⟩
    rw [mapWalk, hnext]
    exact hwalk

variable {s : PtState}

include hfresh in
/-- One round of `map_range_in_pgtbl`: the page of `va` gets the entry for the
frame of `pa`, whatever was there before. -/
lemma mapPage_spec (h : PtInv getPages root s) (va pa flags : Nat) :
    ∃ s', mapPage getPages s root va pa flags = .ok s' ∧ PtInv getPages root s' ∧
    (∀ l p f, l ≤ 3 → s.node root l p = some f → s'.node root l p = some f) ∧
    (s'.node root 3 (vpn va / 512)).isSome ∧
    ∀ v, s'.entryAt root v = if v = vpn va then some (writePage 0#64 (pa >>> pageShift) flags)
    else s.entryAt root v := by
  obtain ⟨s1, g, hwalk, h1, hgrows, hnode⟩ :=
    mapWalk_spec hfresh va 3 0 s root .noMapping rfl h (node_root va) (by simp)
  have hclean := h1.leaf _ g (ptpIndex 3 va) hnode
  have hentry := writePage_eq hclean (pa >>> pageShift) flags
  refine ⟨s1.write g (ptpIndex 3 va)
    (writePage (s1.mem g (ptpIndex 3 va)) (pa >>> pageShift) flags), ?_, ?_,
    ?_, ?_, ?_⟩
  · simp only [mapPage, hwalk, ok_bind, pure_eq_ok]
  · exact h1.write hnode (hclean.writePage _ _) _
  · intro l p f hl hf
    rw [h1.node_write hnode _ _ hl]
    exact hgrows.node l p f hl hf
  · rw [h1.node_write hnode _ _ (le_refl 3)]
    show (s1.node root 3 (path 3 (vpn va))).isSome = true
    rw [hnode]
    rfl
  intro v
  rw [h1.entryAt_write hnode (ptpIndex_lt 3 va), hentry, ← vpn_split,
    (writePage_spec _ _ _).1, hgrows.entry]
  rfl

/-- The walk of `unmap_range_in_pgtbl` follows existing tables, and only those. -/
lemma unmapWalk_eq_ok (h : PtInv getPages root s) {va g : Nat} (d : Nat) :
    ∀ l f, l + d = 3 → s.node root l (path l (vpn va)) = some f →
    (unmapWalk s va d l f = .ok g ↔ s.node root 3 (path 3 (vpn va)) = some g) := by
  induction d with
  | zero =>
    intro l f hl hf
    obtain rfl : l = 3 := by omega
    rw [hf, unmapWalk, Except.ok.injEq, Option.some.injEq]
  | succ d ih =>
    intro l f hl hf
    have hl3 : l < 3 := by omega
    have hstep := node_step hl3 hf
    rw [← ptpIndex_eq (by omega)] at hstep
    obtain ⟨hnone, hsome⟩ := h.next hl3 hf va
    cases hc : childOf s.mem f (ptpIndex l va) with
    | some f' =>
      rw [unmapWalk, hsome _ f' _ hc]
      exact ih (l + 1) f' (by omega) (by rw [hstep, hc])
    | none =>
      have habs : s.node root 3 (path 3 (vpn va)) = none :=
        node_none (by rw [hstep, hc]) 3 (by omega) (le_refl 3)
      rw [unmapWalk, (hnone _ hc).2, habs]
      exact iff_of_false nofun nofun

/-- One round of `unmap_range_in_pgtbl`, for a page whose tables exist. -/
lemma unmapPage_spec (h : PtInv getPages root s) {va : Nat}
    (htab : (s.node root 3 (vpn va / 512)).isSome) :
    ∃ s', unmapPage s root va = .ok s' ∧ PtInv getPages root s' ∧
    (∀ l p, l ≤ 3 → s'.node root l p = s.node root l p) ∧
    ∀ v, s'.entryAt root v = if v = vpn va then none else s.entryAt root v := by
  obtain ⟨g, hg⟩ := isSome_iff_exists.1 htab
  have hwalk := (unmapWalk_eq_ok h 3 0 root rfl (node_root va)).2 hg
  have hclean := h.leaf _ g (ptpIndex 3 va) hg
  refine ⟨s.write g (ptpIndex 3 va) (setField (s.mem g (ptpIndex 3 va)) 0 1 0), ?_, ?_, ?_, ?_⟩
  · simp only [unmapPage, hwalk, ok_bind, pure_eq_ok]
  · exact h.write hg hclean.clearValid _
  · intro l p hl
    exact h.node_write hg _ _ hl p
  intro v
  have hsplit := vpn_split va
  rw [show path 3 (vpn va) = vpn va / 512 from rfl] at hsplit
  rw [h.entryAt_write hg (ptpIndex_lt 3 va), ← hsplit, clearValid_invalid]
  rfl

end

/-! ## Ranges -/

lemma vpn_mul {v : Nat} (hv : v < 2 ^ 36) : vpn (v * pageSize) = v := by
  unfold vpn
  rw [Nat.mul_div_cancel v (by decide), Nat.mod_eq_of_lt hv]

lemma u64_next {v : Nat} (hv : v < 2 ^ 36) :
    u64 (v * pageSize + pageSize) = (v + 1) * pageSize := by
  unfold u64 pageSize
  omega

lemma mul_pageSize_shiftRight (f : Nat) : (f * pageSize) >>> pageShift = f := by
  rw [Nat.shiftRight_eq_div_pow]
  exact Nat.mul_div_cancel f (by decide)

lemma pageRounds_mul (n : Nat) : pageRounds (n * pageSize) = n := by
  unfold pageRounds pageSize
  omega

section

variable {getPages : Nat → Nat} {root : Nat}

/-- Mapping a range of pages, seen through the flat view. -/
lemma mapLoop_spec (hfresh : FreshPages getPages root) (flags n : Nat) :
    ∀ (s : PtState) (v f : Nat), v + n ≤ 2 ^ 36 → f + n ≤ 2 ^ 36 → PtInv getPages root s →
    ∃ s', mapLoop getPages root flags n s (v * pageSize) (f * pageSize) =
    .ok s' ∧ PtInv getPages root s' ∧
    (∀ l p g, l ≤ 3 → s.node root l p = some g → s'.node root l p = some g) ∧
    (∀ u, v ≤ u → u < v + n → (s'.node root 3 (u / 512)).isSome) ∧
    ∀ u, s'.entryAt root u = if v ≤ u ∧ u < v + n then some (writePage 0#64 (f + (u - v)) flags)
    else s.entryAt root u := by
  induction n with
  | zero =>
    intro s v f _ _ h
    refine ⟨s, rfl, h, fun _ _ _ _ hg => hg, fun u h1 h2 => by omega, ?_⟩
    intro u
    rw [if_neg (by omega)]
  | succ n ih =>
    intro s v f hv hf h
    obtain ⟨s₁, hmap, h₁, hkeep, htab, hentry⟩ :=
      mapPage_spec hfresh h (v * pageSize) (f * pageSize) flags
    rw [vpn_mul (by omega)] at htab hentry
    rw [mul_pageSize_shiftRight] at hentry
    obtain ⟨s2, hrest, h₂, hkeep2, htab2, hentry2⟩ := ih s₁ (v + 1) (f + 1) (by omega) (by omega) h₁
    refine ⟨s2, ?_, h₂, ?_, ?_, ?_⟩
    · rw [mapLoop, hmap, ok_bind, u64_next (by omega), u64_next (by omega)]
      exact hrest
    · intro l p g hl hg
      exact hkeep2 l p g hl (hkeep l p g hl hg)
    · intro u hlo hhi
      by_cases hu : u = v
      · subst hu
        obtain ⟨g, hg⟩ := isSome_iff_exists.1 htab
        rw [hkeep2 3 _ g (le_refl 3) hg]
        rfl
      · exact htab2 u (by omega) (by omega)
    intro u
    rw [hentry2 u, hentry u]
    by_cases hu : u = v
    · subst hu
      rw [if_neg (by omega), if_pos rfl, if_pos (by omega), Nat.sub_self]
      rfl
    by_cases hin : v + 1 ≤ u ∧ u < v + 1 + n
    · have hoff : f + 1 + (u - (v + 1)) = f + (u - v) := by omega
      rw [if_pos hin, if_pos (by omega), hoff]
    · rw [if_neg hin, if_neg hu, if_neg (by omega)]

/-- Unmapping a range of pages, seen through the flat view. -/
lemma unmapLoop_spec (n : Nat) : ∀ (s : PtState) (v : Nat), v + n ≤ 2 ^ 36 → PtInv getPages root s →
    (∀ u, v ≤ u → u < v + n → (s.node root 3 (u / 512)).isSome) →
    ∃ s', unmapLoop root n s (v * pageSize) = .ok s' ∧ PtInv getPages root s' ∧
    (∀ l p, l ≤ 3 → s'.node root l p = s.node root l p) ∧
    ∀ u, s'.entryAt root u = if v ≤ u ∧ u < v + n then none else s.entryAt root u := by
  induction n with
  | zero =>
    intro s v _ h _
    refine ⟨s, rfl, h, fun _ _ _ => rfl, ?_⟩
    intro u
    rw [if_neg (by omega)]
  | succ n ih =>
    intro s v hv h htab
    have hpage : (s.node root 3 (vpn (v * pageSize) / 512)).isSome := by
      rw [vpn_mul (by omega)]
      exact htab v (le_refl v) (by omega)
    obtain ⟨s₁, hunmap, h₁, hkeep, hentry⟩ := unmapPage_spec h hpage
    rw [vpn_mul (by omega)] at hentry
    obtain ⟨s2, hrest, h₂, hkeep2, hentry2⟩ := ih s₁ (v + 1) (by omega) h₁ (fun u hlo hhi => by
        rw [hkeep 3 _ (le_refl 3)]
        exact htab u (by omega) (by omega))
    refine ⟨s2, ?_, h₂, ?_, ?_⟩
    · rw [unmapLoop, hunmap, ok_bind, u64_next (by omega)]
      exact hrest
    · intro l p hl
      rw [hkeep2 l p hl, hkeep l p hl]
    intro u
    rw [hentry2 u, hentry u]
    by_cases hu : u = v
    · subst hu
      rw [if_neg (by omega), if_pos rfl, if_pos (by omega)]
    by_cases hin : v + 1 ≤ u ∧ u < v + 1 + n
    · rw [if_pos hin, if_pos (by omega)]
    · rw [if_neg hin, if_neg hu, if_neg (by omega)]

end

end ChCore.Kernel
