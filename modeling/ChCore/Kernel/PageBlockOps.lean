import ChCore.Kernel.PageBlocks

/-!
# Mapping pages and blocks

One round of each of the three mapping loops does the same at its own level:
it walks to the table of the level, adding tables where there are none, and
writes an entry there. On the flat view of `PageBlocks` a round is one update
(`mapBlock_blockAt`, `mapPage_blockAt`).

`Grown` relates the table in the middle of a call to the one before the call.
Its tables are the old ones and pages from `get_pages`, and no other memory has
been written.
-/

namespace ChCore.Kernel

open Function Lib.BitField Lib.Trie

/-- What is assumed of `get_pages` from `s0` on: the pages are different, no
tables, and their frame numbers fit in an entry. More than `tableCount` calls
are never made. -/
structure FreshFrom (getPages : Nat → Nat) (root : Nat) (s0 : PtState) : Prop where
  distinct : ∀ m n, m < tableCount → n < tableCount →
    getPages (s0.pages + m) = getPages (s0.pages + n) → m = n
  unused : ∀ n, n < tableCount → ¬ s0.Holds root (getPages (s0.pages + n))
  fits : ∀ n, n < tableCount → getPages (s0.pages + n) < 2 ^ 36

/-- Frame `f` was returned by `get_pages` between `s0` and `s`. -/
def Issued (getPages : Nat → Nat) (s0 s : PtState) (f : Nat) : Prop :=
  ∃ n, s0.pages ≤ n ∧ n < s.pages ∧ getPages n = f

/-- The table `s` comes from `s0` by adding tables, none below level `L`, and
writing blocks and pages. -/
structure Grown (getPages : Nat → Nat) (root : Nat) (s0 : PtState) (L : Nat)
    (s : PtState) : Prop where
  unaliased : Unaliased 512 (tableOf s.mem) root 3
  holds : ∀ f, s.Holds root f → s0.Holds root f ∨ Issued getPages s0 s f
  issued : ∀ n, s0.pages ≤ n → n < s.pages →
    ∃ l p, l < L ∧ s.table root (l + 1) p = some (getPages n)
  outside : ∀ f, ¬ s0.Holds root f → ¬ Issued getPages s0 s f → s.mem f = s0.mem f
  pages : s0.pages ≤ s.pages

variable {getPages : Nat → Nat} {root : Nat} {s0 : PtState}

lemma Grown.refl (h : Unaliased 512 (tableOf s0.mem) root 3) (L : Nat) :
    Grown getPages root s0 L s0 where
  unaliased := h
  holds := fun _ hf => .inl hf
  issued := fun n hge hlt => by omega
  outside := fun _ _ _ => rfl
  pages := le_rfl

lemma Grown.mono {s : PtState} {L L' : Nat} (h : Grown getPages root s0 L s) (hL : L ≤ L') :
    Grown getPages root s0 L' s where
  unaliased := h.unaliased
  holds := h.holds
  issued := by
    intro n hge hlt
    obtain ⟨l, p, hl, hp⟩ := h.issued n hge hlt
    exact ⟨l, p, by omega, hp⟩
  outside := h.outside
  pages := h.pages

/-! ## Adding a table -/

/-- The state after `get_next_ptp` has put a new table behind entry `i` of
table `f`. -/
def addTable (getPages : Nat → Nat) (s : PtState) (f i : Nat) : PtState :=
  let mem := Function.update s.mem (getPages s.pages) fun _ => 0#64
  ⟨Function.update mem f (Function.update (mem f) i
    (writeTable (mem f i) (getPages s.pages))), s.pages + 1⟩

section

variable {getPages : Nat → Nat} {s : PtState} {f i : Nat}

lemma addTable_mem_here : ∃ w, (addTable getPages s f i).mem f i =
    writeTable w (getPages s.pages) := by
  simp only [addTable, update_self]
  exact ⟨_, rfl⟩

lemma addTable_mem_new (hne : getPages s.pages ≠ f) (j : Nat) :
    (addTable getPages s f i).mem (getPages s.pages) j = 0#64 := by
  simp only [addTable, update_of_ne hne, update_self]

lemma addTable_mem_other {f' j : Nat} (hnew : f' ≠ getPages s.pages) (hother : f' ≠ f ∨ j ≠ i) :
    (addTable getPages s f i).mem f' j = s.mem f' j := by
  by_cases hff : f' = f
  · subst hff
    have hj : j ≠ i := hother.resolve_left fun hne => hne rfl
    simp only [addTable, update_self, update_of_ne hj, update_of_ne hnew]
  · simp only [addTable, update_of_ne hff, update_of_ne hnew]

variable {root L l v0 : Nat} {s0 : PtState}
  (hfresh : FreshFrom getPages root s0) (h : Grown getPages root s0 L s)
  (hl : l < 3) (hf : s.table root l (path l v0) = some f) (hL : L ≤ 3)
  (habsent : tableOf s.mem f (slotIn l v0) = none)

include h hfresh hl hf hL habsent in
/-- While a table is missing, `get_pages` has not been called as often as there
are tables. -/
lemma Grown.pages_lt : s.pages < s0.pages + tableCount := by
  have hpath : path (l + 1) v0 < 512 ^ (l + 1) := by
    have hp : path l v0 < 512 ^ l := lt_of_nodeAt (by decide) l _ f hf
    have := slotIn_lt l v0
    rw [← path_slotIn (by omega), Nat.pow_succ]
    omega
  have hcount : (paths 512 3).card = tableCount := by
    rw [card_paths]
    rfl
  have hpages := h.pages
  by_contra hge
  -- the first `tableCount` pages are all in the tree
  have hlt := @issued_lt 512 root 3 (tableOf s.mem) l (path (l + 1) v0)
    (by decide) (fun a => getPages (s0.pages + a)) tableCount hfresh.distinct
    (by
      intro a ha
      obtain ⟨m, p, hm, hp⟩ := h.issued (s0.pages + a) (by omega) (by omega)
      exact ⟨m, p, by omega, hp⟩) hl hpath
    ((table_succ hl hf).trans habsent)
  omega

include h hfresh in
lemma Grown.notHeld (hlt : s.pages < s0.pages + tableCount) :
    ¬ s.Holds root (getPages s.pages) := by
  have hpages := h.pages
  obtain ⟨k, hk⟩ := Nat.exists_eq_add_of_le hpages
  intro hin
  rcases h.holds _ hin with hold | ⟨n, hge, hn, heq⟩
  · rw [hk] at hold
    exact hfresh.unused k (by omega) hold
  obtain ⟨m, rfl⟩ := Nat.exists_eq_add_of_le hge
  rw [hk] at heq
  have := hfresh.distinct m k (by omega) (by omega) heq
  omega

include h hfresh hl hf hL habsent in
lemma Grown.links :
    Links 512 (tableOf s.mem) (tableOf (addTable getPages s f (slotIn l v0)).mem) root 3
    l (path l v0) f (slotIn l v0) (getPages s.pages) := by
  have hlt := h.pages_lt hfresh hl hf hL habsent
  have hnot := h.notHeld hfresh hlt
  have hne : getPages s.pages ≠ f := by
    intro heq
    rw [heq] at hnot
    exact hnot ⟨l, _, le_of_lt hl, hf⟩
  have hfits : getPages s.pages < 2 ^ 36 := by
    obtain ⟨k, hk⟩ := Nat.exists_eq_add_of_le h.pages
    rw [hk]
    exact hfresh.fits k (by omega)
  exact {
    level := hl
    path := hf
    index := slotIn_lt l v0
    absent := habsent
    fresh := hnot
    here := by
      obtain ⟨w, hw⟩ := @addTable_mem_here getPages s f (slotIn l v0)
      rw [tableOf, hw, (writeTable_valid _ _).1, (writeTable_valid _ _).2, writeTable_frame _ hfits]
      rfl
    empty := by
      intro j
      rw [tableOf, addTable_mem_new hne]
      rfl
    other := by
      intro f' j hin hor
      have hnew : f' ≠ getPages s.pages := by
        intro heq
        rw [heq] at hin
        exact hnot hin
      rw [tableOf, tableOf, addTable_mem_other hnew hor]
  }

include h hfresh hl hf hL habsent in
/-- The old tables stay where they were. -/
lemma Grown.table_addTable {m q g : Nat} (hm : m ≤ 3) (hg : s.table root m q = some g) :
    (addTable getPages s f (slotIn l v0)).table root m q = some g := by
  refine (nodeAt_link h.unaliased (h.links hfresh hl hf hL habsent) m q hm).trans ?_
  rw [if_neg, show nodeAt 512 (tableOf s.mem) root m q = some g from hg]
  rintro ⟨rfl, rfl⟩
  rw [path_slotIn (by omega), table_succ hl hf, habsent] at hg
  cases hg

include h hfresh hl hf hL habsent in
lemma Grown.table_new : (addTable getPages s f (slotIn l v0)).table root (l + 1)
    (path (l + 1) v0) = some (getPages s.pages) := by
  refine (nodeAt_link h.unaliased (h.links hfresh hl hf hL habsent) (l + 1) _ hl).trans ?_
  rw [path_slotIn (by omega), if_pos ⟨rfl, rfl⟩]

include h hfresh hl hf hL habsent in
lemma Grown.add (hlL : l < L) : Grown getPages root s0 L (addTable getPages s f (slotIn l v0)) := by
  have hlinks := h.links hfresh hl hf hL habsent
  have hpages := h.pages
  have hmore : ∀ f', Issued getPages s0 s f' →
      Issued getPages s0 (addTable getPages s f (slotIn l v0)) f' := by
    rintro f' ⟨n, hge, hn, heq⟩
    exact ⟨n, hge, Nat.lt_succ_of_lt hn, heq⟩
  have hnew : Issued getPages s0 (addTable getPages s f (slotIn l v0))
      (getPages s.pages) := ⟨s.pages, hpages, Nat.lt_succ_self _, rfl⟩
  exact {
    unaliased := h.unaliased.link hlinks
    holds := by
      intro f' hin
      rcases (inTree_link h.unaliased hlinks f').1 hin with rfl | hold
      · exact .inr hnew
      · exact (h.holds f' hold).imp_right (hmore f')
    issued := by
      intro n hge hn
      by_cases hlast : n = s.pages
      · subst hlast
        exact ⟨l, _, hlL, h.table_new hfresh hl hf hL habsent⟩
      have hn' : n < s.pages + 1 := hn
      obtain ⟨m, q, hm, hq⟩ := h.issued n hge (by omega)
      exact ⟨m, q, hm, h.table_addTable hfresh hl hf hL habsent (by omega) hq⟩
    outside := by
      intro f' hold hnot
      have hne : f' ≠ getPages s.pages := by
        intro heq
        rw [heq] at hnot
        exact hnot hnew
      have hfne : f' ≠ f := by
        intro heq
        rw [heq] at hold hnot
        rcases h.holds f ⟨l, _, by omega, hf⟩ with hin | hissued
        · exact hold hin
        · exact hnot (hmore f hissued)
      rw [← h.outside f' hold fun hin => hnot (hmore f' hin)]
      funext j
      exact addTable_mem_other hne (.inl hfne)
    pages := Nat.le_succ_of_le hpages
  }

include h hfresh hl hf hL in
/-- An empty table maps nothing. -/
lemma Grown.same_addTable (hinv : isPteInvalid (s.mem f (slotIn l v0)) = true) {v : Nat}
    (hv : v < 2 ^ 36) : SamePage s (addTable getPages s f (slotIn l v0)) root v := by
  have habsent : tableOf s.mem f (slotIn l v0) = none := by rw [tableOf, if_pos hinv]
  have hnew := h.table_new hfresh hl hf hL habsent
  have hnot := h.notHeld hfresh (h.pages_lt hfresh hl hf hL habsent)
  have hne : getPages s.pages ≠ f := by
    intro heq
    rw [heq] at hnot
    exact hnot ⟨l, _, le_of_lt hl, hf⟩
  obtain ⟨m, g, hends⟩ := exists_endsAt v 3 0 root rfl (table_root hv)
  have hkept := h.table_addTable hfresh hl hf hL habsent hends.level hends.table
  by_cases hsame : path (l + 1) v = path (l + 1) v0
  · -- the walk ended at the entry and now ends in the new table
    have hpath : path l v = path l v0 := by
      rw [← path_succ (by omega) v, hsame, path_succ (by omega)]
    have hslot : slotIn l v = slotIn l v0 := by
      unfold slotIn
      rw [hsame]
    have hold : EndsAt s root v l f := by
      refine ⟨le_of_lt hl, ?_, Or.inr ?_⟩
      · rw [hpath]
        exact hf
      rw [hslot]
      exact habsent
    have hzero : ∀ j, (addTable getPages s f (slotIn l v0)).mem
        (getPages s.pages) j = 0#64 := addTable_mem_new hne
    have hnow : EndsAt (addTable getPages s f (slotIn l v0)) root v (l + 1) (getPages s.pages) := by
      refine ⟨hl, ?_, Or.inr ?_⟩
      · rw [hsame]
        exact hnew
      rw [tableOf, hzero]
      rfl
    exact hold.same hnow hv (.inr ⟨by rw [hzero]; rfl, by rw [hslot, hinv]⟩)
  · have hother := other_word h.unaliased (le_of_lt hl) hf hends.level hsame hends.table
    have hgne : g ≠ getPages s.pages := by
      intro heq
      rw [← heq] at hnot
      exact hnot ⟨m, _, hends.level, hends.table⟩
    have hword := addTable_mem_other hgne hother
    have hnow : EndsAt (addTable getPages s f (slotIn l v0)) root v m g := by
      refine ⟨hends.level, hkept, ?_⟩
      rw [tableOf, hword]
      exact hends.stop
    exact hends.same hnow hv (.inl ⟨rfl, hword⟩)

end

/-! ## Walking to a level -/

section

variable {getPages : Nat → Nat} {root L : Nat} {s0 : PtState} (hfresh : FreshFrom getPages root s0)

include hfresh in
/-- For a page that is not mapped, `get_next_ptp` finds the next table or adds
it. -/
lemma Grown.next_ptp {s : PtState} (h : Grown getPages root s0 L s)
    {l f va : Nat} (hlL : l < L) (hL : L ≤ 3) (hf : s.table root l (path l (vpn va)) = some f)
    (hnone : s.blockAt root (vpn va) = none) :
    ∃ s' g, getNextPtp getPages s f l va true = (s', .normal g) ∧ Grown getPages root s0 L s' ∧
    (∀ v, v < 2 ^ 36 → SamePage s s' root v) ∧
    s'.table root (l + 1) (path (l + 1) (vpn va)) = some g := by
  have hl : l < 3 := by omega
  have hidx : ptpIndex l va = slotIn l (vpn va) := ptpIndex_eq (by omega) va
  have hsucc := table_succ hl hf
  cases hinv : isPteInvalid (s.mem f (slotIn l (vpn va))) with
  | true =>
    have habsent : tableOf s.mem f (slotIn l (vpn va)) = none := by rw [tableOf, if_pos hinv]
    have hlinks := h.links hfresh hl hf hL habsent
    refine ⟨addTable getPages s f (slotIn l (vpn va)),
      getPages s.pages, ?_, h.add hfresh hl hf hL habsent hlL,
      fun v hv => h.same_addTable hfresh hl hf hL hinv hv,
      h.table_new hfresh hl hf hL habsent⟩
    -- the entry read at the end is the one just written
    have hentry := hlinks.here
    obtain ⟨w, hw⟩ := @addTable_mem_here getPages s f (slotIn l (vpn va))
    simp only [tableOf, hw, (writeTable_valid _ _).1,
      (writeTable_valid _ _).2, Bool.false_eq_true, if_false, if_true,
      Option.some.injEq] at hentry
    simp only [addTable, update_self] at hw
    simp only [getNextPtp, hidx, hinv, if_true, hw, nextOfEntry, (writeTable_valid _ _).2, hentry,
      addTable]
  | false =>
    cases htab : isPteTable (s.mem f (slotIn l (vpn va))) with
    | false =>
      -- a block here would map the page
      have hends : EndsAt s root (vpn va) l f := by
        refine ⟨le_of_lt hl, hf, Or.inr ?_⟩
        simp only [tableOf, hinv, htab, Bool.false_eq_true, if_false]
      rw [hends.blockAt (vpn_lt va), hinv] at hnone
      cases hnone
    | true =>
      have htable : tableOf s.mem f (slotIn l (vpn va)) =
          some (getField (s.mem f (slotIn l (vpn va))) 12 36) := by
        simp only [tableOf, hinv, htab, Bool.false_eq_true, if_false, if_true]
      exact ⟨s, _, getNextPtp_of_table (by omega) htable _ _, h,
        fun v _ => .refl s root v, hsucc.trans htable⟩

include hfresh in
lemma Grown.walk_to (va : Nat) (hL : L ≤ 3) (d : Nat) :
    ∀ l (s : PtState) f last, l + d = L → Grown getPages root s0 L s →
    s.table root l (path l (vpn va)) = some f →
    s.blockAt root (vpn va) = none → (d = 0 → last = .normal f) →
    ∃ s' g, mapWalk getPages va d s l f last = .ok (s', .normal g) ∧ Grown getPages root s0 L s' ∧
    (∀ v, v < 2 ^ 36 → SamePage s s' root v) ∧ s'.table root L (path L (vpn va)) = some g := by
  induction d with
  | zero =>
    intro l s f last hl h hf _ hlast
    obtain rfl : l = L := by omega
    refine ⟨s, f, ?_, h, fun v _ => .refl s root v, hf⟩
    rw [mapWalk, hlast rfl]
  | succ d ih =>
    intro l s f last hl h hf hnone _
    obtain ⟨s1, g1, hnext, h1, hsame1, hg1⟩ := h.next_ptp hfresh (by omega) hL hf hnone
    have hnone1 := (hsame1 _ (vpn_lt va)).block.trans hnone
    obtain ⟨s', g, hwalk, h', hsame, hg⟩ :=
      ih (l + 1) s1 g1 (.normal g1) (by omega) h1 hg1 hnone1 fun _ => rfl
    refine ⟨s', g, ?_, h', fun v hv => (hsame1 v hv).trans (hsame v hv), hg⟩
    rw [mapWalk, hnext]
    exact hwalk

end

/-! ## One round -/

/-- Writing a block or page keeps the tables above it. -/
lemma Grown.write {L : Nat} {s : PtState} (h : Grown getPages root s0 L s)
    {v0 f pfn : Nat} {w : BitVec 64} (hL : L ≤ 3)
    (hf : s.table root L (path L v0) = some f) (hw : BlockEntry L pfn w) :
    Grown getPages root s0 L (s.write f (slotIn L v0) w) := by
  have hcut := cuts_write hL hf hw.stop
  exact {
    unaliased := h.unaliased.cut hcut
    holds := by
      rintro g ⟨m, q, hm, hq⟩
      exact h.holds g ⟨m, q, hm, nodeAt_of_cut h.unaliased hcut hm hq⟩
    issued := by
      intro n hge hn
      obtain ⟨l, p, hl, hp⟩ := h.issued n hge hn
      refine ⟨l, p, hl, ?_⟩
      refine ((nodeAt_cut h.unaliased hcut (l + 1) p (by omega)).2 ?_).trans hp
      intro hthr
      have := hthr.1
      omega
    outside := by
      intro g hold hnot
      have hne : g ≠ f := by
        intro heq
        rw [heq] at hold hnot
        exact (h.holds f ⟨L, _, hL, hf⟩).elim hold hnot
      rw [← h.outside g hold hnot]
      funext j
      exact write_mem_other (.inl hne)
    pages := h.pages
  }

lemma setPteFlags_low (w : BitVec 64) (flags : Nat) {i : Nat} (hi : i < 2) :
    (setPteFlags w flags).getLsbD i = w.getLsbD i := by
  have hrange := flagFields_range flags
  rw [setPteFlags_eq, getLsbD_setFields_of_not fun f hf => (hrange f hf).1]
  intro f hf hhas
  have := (hrange f hf).2
  unfold FieldWrite.Has at hhas
  omega

lemma writeBlock_entry {l : Nat} (hl : l = 1 ∨ l = 2) (w : BitVec 64) (pfn flags : Nat) :
    BlockEntry l (pfn % 512 ^ (l + 1)) (writeBlock l w pfn flags) := by
  have hshift : 21 ≤ blockShift l ∧ blockShift l + (48 - blockShift l) ≤ 48 ∧
      2 ^ (48 - blockShift l) = 512 ^ (l + 1) := by
    rcases hl with rfl | rfl <;> decide
  refine ⟨?_, fun _ => ?_, ?_⟩
  · rw [isPteInvalid_eq, writeBlock, setPteFlags_low _ _ (by decide),
      getLsbD_setField _ (by omega), if_neg (by omega),
      getLsbD_setField _ (by decide), getLsbD_setField _ (by decide)]
    rfl
  · rw [isPteTable_eq, writeBlock, setPteFlags_low _ _ (by decide),
      getLsbD_setField _ (by omega), if_neg (by omega),
      getLsbD_setField _ (by decide)]
    rfl
  have hrange := flagFields_range flags
  rw [blockPfn, writeBlock, setPteFlags_eq, getField_setFields fun f hf => (hrange f hf).1,
    getField_setField_self _ (by omega), hshift.2.2]
  intro f hf
  have := (hrange f hf).2
  omega

lemma writePage_entry (w : BitVec 64) (pfn flags : Nat) :
    BlockEntry 3 (pfn % 512 ^ 4) (writePage w pfn flags) :=
  ⟨(writePage_spec w pfn flags).1, fun hlt => absurd hlt (lt_irrefl 3),
    (writePage_spec w pfn flags).2.2⟩

/-- A round at level `l`: the block of `va` is mapped to `pfn`. -/
structure Lays (getPages : Nat → Nat) (root : Nat) (s0 : PtState)
    (l va pfn : Nat) (s s' : PtState) : Prop where
  grown : Grown getPages root s0 l s'
  block : ∀ v, v < 2 ^ 36 → s'.blockAt root v =
    if path (l + 1) v = path (l + 1) (vpn va) then some (l, pfn)
    else s.blockAt root v
  other : ∀ v, v < 2 ^ 36 → path (l + 1) v ≠ path (l + 1) (vpn va) → SamePage s s' root v

section

variable {getPages : Nat → Nat} {root : Nat} {s0 s : PtState} (hfresh : FreshFrom getPages root s0)

variable {va : Nat}

include hfresh in
lemma Grown.walk_write {l pfn : Nat} (h : Grown getPages root s0 l s)
    (hpos : 0 < l) (hl : l ≤ 3) (hnone : s.blockAt root (vpn va) = none)
    {entry : BitVec 64 → BitVec 64} (hentry : ∀ w, BlockEntry l pfn (entry w)) :
    ∃ s' g, mapWalk getPages va l s 0 root .noMapping = .ok (s', .normal g) ∧
    Lays getPages root s0 l va pfn s
    (s'.write g (ptpIndex l va) (entry (s'.mem g (ptpIndex l va)))) := by
  obtain ⟨s', g, hwalk, h', hsame, hg⟩ :=
    Grown.walk_to hfresh va hl l 0 s root .noMapping (zero_add l) h
      (table_root (vpn_lt va)) hnone (by omega)
  have hidx : ptpIndex l va = slotIn l (vpn va) := ptpIndex_eq (by omega) va
  rw [hidx]
  refine ⟨s', g, hwalk, h'.write hl hg (hentry _), ?_, ?_⟩
  · intro v hv
    rw [blockAt_write h'.unaliased hl hg (hentry _) hv, (hsame v hv).block]
  intro v hv hne
  exact (hsame v hv).trans (same_write h'.unaliased hl hg (hentry _).stop hv hne)

include hfresh in
/-- One round of the loops over blocks. -/
lemma mapBlock_lays {l : Nat} (hl : l = 1 ∨ l = 2) (flags : Nat) (pa : Nat)
    (h : Grown getPages root s0 l s) (hnone : s.blockAt root (vpn va) = none) :
    ∃ s', mapBlock getPages root l flags s va pa = .ok s' ∧
    Lays getPages root s0 l va (pa >>> blockShift l % 512 ^ (l + 1)) s s' := by
  obtain ⟨s', g, hwalk, hlays⟩ := h.walk_write hfresh (by omega) (by omega)
    hnone fun w => writeBlock_entry hl w (pa >>> blockShift l) flags
  refine ⟨_, ?_, hlays⟩
  simp only [mapBlock, hwalk, ok_bind, pure_eq_ok]

include hfresh in
/-- One round of the loop over pages. -/
lemma mapPage_lays (flags : Nat) (pa : Nat) (h : Grown getPages root s0 3 s)
    (hnone : s.blockAt root (vpn va) = none) : ∃ s', mapPage getPages s root va pa flags = .ok s' ∧
    Lays getPages root s0 3 va (pa >>> pageShift % 512 ^ 4) s s' := by
  obtain ⟨s', g, hwalk, hlays⟩ := h.walk_write hfresh (by omega) (by omega)
    hnone fun w => writePage_entry w (pa >>> pageShift) flags
  refine ⟨_, ?_, hlays⟩
  simp only [mapPage, hwalk, ok_bind, pure_eq_ok]

end

end ChCore.Kernel
