import ChCore.Kernel.PageTableInv

/-!
# Page tables with blocks

A valid entry of level 1 or 2 may also be a block of 1 GiB or 2 MiB. Such a
table is still a multi-level table in the sense of `Lib.Trie`, when only the
entries with the table bit count as links. The flat view `blockAt` gives for a
page number the block or page that maps it: its level and its frame number,
counted in units of the level. `query_in_pgtbl` answers from it.

Writing a block over an entry takes out all that was below the entry; everything
else keeps its place (`blockAt_write`).
-/

namespace ChCore.Kernel

open Lib.BitField Function Lib.Trie

/-! ## The flat view -/

/-- The table behind an entry. A block leads to none. -/
def tableOf (mem : Nat → Nat → BitVec 64) (f i : Nat) : Option Nat :=
  if isPteInvalid (mem f i) then none
  else if isPteTable (mem f i) then some (getField (mem f i) 12 36)
  else none

/-- The table of level `l` on path `p`. -/
def PtState.table (s : PtState) (root l p : Nat) : Option Nat := nodeAt 512 (tableOf s.mem) root l p

/-- Frame `f` holds one of the tables. -/
def PtState.Holds (s : PtState) (root f : Nat) : Prop := InTree 512 (tableOf s.mem) root 3 f

/-- The index of page `v` in its table of level `l`. -/
def slotIn (l v : Nat) : Nat := path (l + 1) v % 512

lemma slotIn_lt (l v : Nat) : slotIn l v < 512 := Nat.mod_lt _ (by decide)

/-- The frame number in a block or page of level `l`. -/
def blockPfn (l : Nat) (w : BitVec 64) : Nat := getField w (blockShift l) (48 - blockShift l)

/-- The block or page that maps page `v`, from level `l` on. -/
def PtState.blockFrom (s : PtState) (v : Nat) : Nat → Nat → Nat → Option (Nat × Nat)
  | 0, _, _ => none
  | levels + 1, l, f =>
    match if l = 3 then none else tableOf s.mem f (slotIn l v) with
    | some g => s.blockFrom v levels (l + 1) g
    | none =>
      if isPteInvalid (s.mem f (slotIn l v)) then none
      else some (l, blockPfn l (s.mem f (slotIn l v)))

/-- The block or page that maps page `v`: its level, and its frame number in
units of the level. -/
def PtState.blockAt (s : PtState) (root v : Nat) : Option (Nat × Nat) := s.blockFrom v 4 0 root

/-- The physical address of `va` in a block or page; a block of level 0 has
none. -/
def blockPa (va : Nat) (b : Nat × Nat) : Option Nat := if b.1 = 0 then none
  else some ((b.2 <<< blockShift b.1) + va % 2 ^ blockShift b.1)

variable {l : Nat}

lemma queryResult_pa (hl : l ≤ 3) (va : Nat) (w : BitVec 64) :
    (queryResult l va w).pa = blockPa va (l, blockPfn l w) := by
  have hcases : l = 0 ∨ l = 1 ∨ l = 2 ∨ l = 3 := by omega
  rcases hcases with rfl | rfl | rfl | rfl <;> rfl

section

variable {s : PtState} {root : Nat}

/-- The table of level `l` for page `v` is `f`, and the walk ends there. -/
structure EndsAt (s : PtState) (root v l f : Nat) : Prop where
  level : l ≤ 3
  table : s.table root l (path l v) = some f
  stop : l = 3 ∨ tableOf s.mem f (slotIn l v) = none

variable {v : Nat}

lemma table_root (hv : v < 2 ^ 36) : s.table root 0 (path 0 v) = some root := by
  rw [path_zero hv]
  exact nodeAt_zero

variable {l f : Nat}

lemma table_succ (hl : l < 3) (hf : s.table root l (path l v) = some f) :
    s.table root (l + 1) (path (l + 1) v) = tableOf s.mem f (slotIn l v) := by
  refine nodeAt_child ?_
  rw [path_succ (by omega)]
  exact hf

lemma table_pred {g : Nat} (hl : l < 3) (hg : s.table root (l + 1) (path (l + 1) v) = some g) :
    ∃ f, s.table root l (path l v) = some f ∧ tableOf s.mem f (slotIn l v) = some g := by
  cases hf : s.table root l (path l v) with
  | none =>
    unfold PtState.table at hg hf
    rw [nodeAt_succ, path_succ (by omega), hf] at hg
    cases hg
  | some f => exact ⟨f, rfl, (table_succ hl hf).symm.trans hg⟩

lemma exists_endsAt (v : Nat) (d : Nat) : ∀ l f, l + d = 3 → s.table root l (path l v) = some f →
    ∃ m g, EndsAt s root v m g := by
  induction d with
  | zero =>
    intro l f hl hf
    exact ⟨l, f, by omega, hf, Or.inl (by omega)⟩
  | succ d ih =>
    intro l f hl hf
    cases hg : tableOf s.mem f (slotIn l v) with
    | none => exact ⟨l, f, by omega, hf, Or.inr hg⟩
    | some g =>
      have hnext := (table_succ (by omega) hf).trans hg
      exact ih (l + 1) g (by omega) hnext

lemma blockAt_of_table (l : Nat) : ∀ f, l ≤ 3 → v < 2 ^ 36 → s.table root l (path l v) = some f →
    s.blockAt root v = s.blockFrom v (4 - l) l f := by
  induction l with
  | zero =>
    intro f _ hv hf
    rw [table_root hv] at hf
    cases hf
    rfl
  | succ l ih =>
    intro g hl hv hg
    obtain ⟨f, hf, hchild⟩ := table_pred (by omega) hg
    have hlevels : 4 - l = 4 - (l + 1) + 1 := by omega
    rw [ih f (by omega) hv hf, hlevels, PtState.blockFrom, if_neg (by omega), hchild]

/-- What maps a page is decided where its walk ends. -/
lemma EndsAt.blockAt (h : EndsAt s root v l f) (hv : v < 2 ^ 36) : s.blockAt root v =
    if isPteInvalid (s.mem f (slotIn l v)) then none
    else some (l, blockPfn l (s.mem f (slotIn l v))) := by
  have hlevels : 4 - l = 3 - l + 1 := by have := h.level; omega
  rw [blockAt_of_table l f h.level hv h.table, hlevels, PtState.blockFrom]
  rcases h.stop with hl | hnone
  · rw [if_pos hl]
  by_cases hl : l = 3
  · rw [if_pos hl]
  · rw [if_neg hl, hnone]

/-- `get_next_ptp` goes to the table behind an entry. -/
lemma getNextPtp_of_table {va g : Nat} (hl : l < 4)
    (hg : tableOf s.mem f (slotIn l (vpn va)) = some g) (getPages : Nat → Nat) (alloc : Bool) :
    getNextPtp getPages s f l va alloc = (s, .normal g) := by
  have hidx : ptpIndex l va = slotIn l (vpn va) := ptpIndex_eq hl va
  unfold tableOf at hg
  cases hinv : isPteInvalid (s.mem f (slotIn l (vpn va))) with
  | true =>
    rw [hinv] at hg
    cases hg
  | false =>
    cases htab : isPteTable (s.mem f (slotIn l (vpn va))) with
    | false =>
      rw [hinv, htab] at hg
      cases hg
    | true =>
      rw [hinv, htab] at hg
      cases hg
      simp only [getNextPtp, hidx, hinv, nextOfEntry, htab, Bool.false_eq_true, if_false, if_true]

lemma query_of_table {va : Nat} (l : Nat) : ∀ f, l ≤ 3 → s.table root l (path l (vpn va)) = some f →
    queryInPgtbl s root va = queryLoop s va (4 - l) l f := by
  induction l with
  | zero =>
    intro f _ hf
    rw [table_root (vpn_lt va)] at hf
    cases hf
    rfl
  | succ l ih =>
    intro g hl hg
    obtain ⟨f, hf, hchild⟩ := table_pred (by omega) hg
    have hlevels : 4 - l = 4 - (l + 1) + 1 := by omega
    rw [ih f (by omega) hf, hlevels, queryLoop, getNextPtp_of_table (by omega) hchild]
    exact if_neg (by omega)

/-- The entry where the walk ends is the result of `query_in_pgtbl`. -/
lemma EndsAt.query {va : Nat} (h : EndsAt s root (vpn va) l f) : queryInPgtbl s root va =
    if isPteInvalid (s.mem f (slotIn l (vpn va))) then none
    else some (queryResult l va (s.mem f (slotIn l (vpn va)))) := by
  have hl := h.level
  have hlevels : 4 - l = 3 - l + 1 := by omega
  have hidx : ptpIndex l va = slotIn l (vpn va) := ptpIndex_eq (by omega) va
  rw [query_of_table l f hl h.table, hlevels, queryLoop]
  simp only [getNextPtp, hidx]
  cases hinv : isPteInvalid (s.mem f (slotIn l (vpn va))) with
  | true => rfl
  | false =>
    simp only [Bool.false_eq_true, if_false, nextOfEntry]
    cases htab : isPteTable (s.mem f (slotIn l (vpn va))) with
    | false => rfl
    | true =>
      have h3 : l = 3 := by
        refine h.stop.resolve_right ?_
        simp [tableOf, hinv, htab]
      simp only [if_true, if_pos h3]

/-- `query_in_pgtbl` answers from the flat view. -/
lemma queryInPgtbl_pa (va : Nat) : (queryInPgtbl s root va).map Query.pa =
    (s.blockAt root (vpn va)).map (blockPa va) := by
  obtain ⟨m, g, hends⟩ := exists_endsAt (vpn va) 3 0 root rfl (table_root (vpn_lt va))
  rw [hends.query, hends.blockAt (vpn_lt va)]
  split
  · rfl
  · exact congrArg some (queryResult_pa hends.level va _)

/-- Page `v` is mapped in `s'` as in `s`, by the same entry. -/
structure SamePage (s s' : PtState) (root v : Nat) : Prop where
  block : s'.blockAt root v = s.blockAt root v
  query : ∀ va, vpn va = v → queryInPgtbl s' root va = queryInPgtbl s root va

lemma SamePage.refl (s : PtState) (root v : Nat) : SamePage s s root v := ⟨rfl, fun _ _ => rfl⟩

lemma SamePage.trans {s1 s2 : PtState} (h : SamePage s s1 root v)
    (h' : SamePage s1 s2 root v) : SamePage s s2 root v :=
  ⟨h'.block.trans h.block, fun va hva => (h'.query va hva).trans (h.query va hva)⟩

lemma EndsAt.same {s' : PtState} {m g : Nat} (h : EndsAt s root v l f)
    (h' : EndsAt s' root v m g) (hv : v < 2 ^ 36)
    (hword : m = l ∧ s'.mem g (slotIn m v) = s.mem f (slotIn l v) ∨
    isPteInvalid (s'.mem g (slotIn m v)) = true ∧ isPteInvalid (s.mem f (slotIn l v)) = true) :
    SamePage s s' root v := by
  rcases hword with ⟨rfl, hword⟩ | ⟨hinv', hinv⟩
  · refine ⟨by rw [h'.blockAt hv, h.blockAt hv, hword], ?_⟩
    rintro va rfl
    rw [h'.query, h.query, hword]
  refine ⟨by rw [h'.blockAt hv, h.blockAt hv, hinv, hinv']; rfl, ?_⟩
  rintro va rfl
  rw [h'.query, h.query, hinv, hinv']
  rfl

/-- The entry of a block. -/
lemma EndsAt.entry {m c : Nat} (h : EndsAt s root v l f) (hv : v < 2 ^ 36)
    (hblock : s.blockAt root v = some (m, c)) :
    l = m ∧ isPteInvalid (s.mem f (slotIn l v)) = false ∧
    (l < 3 → isPteTable (s.mem f (slotIn l v)) = false) ∧
    blockPfn l (s.mem f (slotIn l v)) = c := by
  rw [h.blockAt hv] at hblock
  cases hinv : isPteInvalid (s.mem f (slotIn l v)) with
  | true =>
    rw [hinv] at hblock
    cases hblock
  | false =>
    rw [hinv] at hblock
    cases hblock
    refine ⟨rfl, rfl, fun hl => ?_, rfl⟩
    have hnone := h.stop.resolve_left (ne_of_lt hl)
    cases htab : isPteTable (s.mem f (slotIn l v)) with
    | false => rfl
    | true =>
      rw [tableOf, hinv, htab] at hnone
      cases hnone

end

/-! ## Writing an entry -/

/-- An entry at which a walk ends at level `l`, valid and with frame number
`pfn`. -/
structure BlockEntry (l pfn : Nat) (w : BitVec 64) : Prop where
  valid : isPteInvalid w = false
  stops : l < 3 → isPteTable w = false
  pfn : blockPfn l w = pfn

lemma path_slotIn (hl : l ≤ 3) (v : Nat) : path l v * 512 + slotIn l v = path (l + 1) v := by
  unfold slotIn
  rw [← path_succ (by omega) v]
  omega

lemma through_path {m : Nat} (hl : l ≤ 3) (hm : m ≤ 3) (v v0 : Nat) :
    Through 512 l (path l v0) (slotIn l v0) m (path m v) ↔
    l < m ∧ path (l + 1) v = path (l + 1) v0 := by
  unfold Through
  rw [path_slotIn hl]
  refine and_congr_right fun hlm => ?_
  have hdiv : path m v / 512 ^ (m - (l + 1)) = path (l + 1) v := by
    unfold path
    rw [Nat.div_div_eq_div_mul, ← Nat.pow_add]
    congr 2
    omega
  rw [hdiv]

section

variable {s : PtState} {root l v0 f pfn : Nat} {w : BitVec 64}

lemma write_mem_other {f' j : Nat} (h : f' ≠ f ∨ j ≠ slotIn l v0) :
    (s.write f (slotIn l v0) w).mem f' j = s.mem f' j := by
  by_cases hff : f' = f
  · subst hff
    have hj : j ≠ slotIn l v0 := h.resolve_left fun hne => hne rfl
    simp only [PtState.write, update_self, update_of_ne hj]
  · simp only [PtState.write, update_of_ne hff]

lemma write_mem_here : (s.write f (slotIn l v0) w).mem f (slotIn l v0) = w := by
  simp only [PtState.write, update_self]

variable (hun : Unaliased 512 (tableOf s.mem) root 3) (hl : l ≤ 3)
  (hf : s.table root l (path l v0) = some f)
  (hstop : l < 3 → isPteInvalid w = true ∨ isPteTable w = false)

lemma BlockEntry.stop (hw : BlockEntry l pfn w) :
    l < 3 → isPteInvalid w = true ∨ isPteTable w = false :=
  fun hlt => .inr (hw.stops hlt)

include hl hf hstop in
lemma cuts_write : Cuts 512 (tableOf s.mem) (tableOf (s.write f (slotIn l v0) w).mem) root 3
    l (path l v0) f (slotIn l v0) where
  level := hl
  path := hf
  index := slotIn_lt l v0
  here := by
    intro hlt
    rw [tableOf, write_mem_here]
    rcases hstop hlt with hinv | htab
    · rw [hinv]
      rfl
    · rw [htab, if_neg Bool.false_ne_true, ite_self]
  other := by
    intro f' j _ hne
    rw [tableOf, tableOf, write_mem_other hne]

include hun hl hf in
/-- Another page has another word at every level from `l` on. -/
lemma other_word {v m g : Nat} (hm : m ≤ 3) (hne : path (l + 1) v ≠ path (l + 1) v0)
    (hg : s.table root m (path m v) = some g) : g ≠ f ∨ slotIn m v ≠ slotIn l v0 := by
  by_cases hgf : g = f
  · right
    intro hslot
    subst hgf
    obtain ⟨rfl, hp⟩ := hun m l _ _ g hm hl hg hf
    apply hne
    rw [← path_slotIn hl, ← path_slotIn hl, hp, hslot]
  · exact .inl hgf

include hun hl hf hstop in
/-- The walks of the pages below the entry end there. -/
lemma endsAt_write {v : Nat} (hsame : path (l + 1) v = path (l + 1) v0) :
    slotIn l v = slotIn l v0 ∧ EndsAt (s.write f (slotIn l v0) w) root v l f := by
  have hcut := cuts_write hl hf hstop
  have hpath : path l v = path l v0 := by rw [← path_succ (by omega) v, hsame, path_succ (by omega)]
  have hslot : slotIn l v = slotIn l v0 := by
    unfold slotIn
    rw [hsame]
  have htable : (s.write f (slotIn l v0) w).table root l (path l v) = some f := by
    have hnot : ¬ Through 512 l (path l v0) (slotIn l v0) l (path l v) :=
      fun hthr => absurd hthr.1 (lt_irrefl l)
    refine ((nodeAt_cut hun hcut l _ hl).2 hnot).trans ?_
    rw [hpath]
    exact hf
  refine ⟨hslot, hl, htable, ?_⟩
  rcases Nat.lt_or_eq_of_le hl with hlt | hl3
  · rw [hslot]
    exact .inr (hcut.here hlt)
  · exact .inl hl3

include hun hl hf hstop in
/-- The other pages stay as they are. -/
lemma same_write {v : Nat} (hv : v < 2 ^ 36) (hne : path (l + 1) v ≠ path (l + 1) v0) :
    SamePage s (s.write f (slotIn l v0) w) root v := by
  obtain ⟨m, g, hends⟩ := exists_endsAt v 3 0 root rfl (table_root hv)
  have hother := other_word hun hl hf hends.level hne hends.table
  have hword := @write_mem_other s l v0 f w g (slotIn m v) hother
  refine hends.same ⟨hends.level, ?_, ?_⟩ hv (.inl ⟨rfl, hword⟩)
  · refine ((nodeAt_cut hun (cuts_write hl hf hstop) m _ hends.level).2 ?_).trans hends.table
    rw [through_path hl hends.level]
    exact fun hthr => hne hthr.2
  · rw [tableOf, hword]
    exact hends.stop

include hun hl hf in
/-- The pages below the entry are mapped by it, the others as before. -/
lemma blockAt_write (hw : BlockEntry l pfn w) {v : Nat} (hv : v < 2 ^ 36) :
    (s.write f (slotIn l v0) w).blockAt root v =
    if path (l + 1) v = path (l + 1) v0 then some (l, pfn) else s.blockAt root v := by
  by_cases hsame : path (l + 1) v = path (l + 1) v0
  · obtain ⟨hslot, hends⟩ := endsAt_write hun hl hf hw.stop hsame
    rw [if_pos hsame, hends.blockAt hv, hslot, write_mem_here, hw.valid, hw.pfn]
    rfl
  · rw [if_neg hsame, (same_write hun hl hf hw.stop hv hsame).block]

end

end ChCore.Kernel
