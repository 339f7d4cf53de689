import ChCore.Kernel.PageTableOps

/-!
# Ranges at any address

The callers of `map_range_in_pgtbl` and `unmap_range_in_pgtbl` do not check
addresses. What the loops do to the flat view is the same everywhere: round
`k` works on the page number of `va + k * PAGE_SIZE`, whose high bits do not
count.
-/

namespace ChCore.Kernel

open Lib.Trie Lib.BitField

lemma getField_writePage {pfn : Nat} (hpfn : pfn < 2 ^ 36) (flags : Nat) :
    getField (writePage 0#64 pfn flags) 12 36 = pfn := by
  rw [(writePage_spec 0#64 pfn flags).2.2, Nat.mod_eq_of_lt hpfn]

/-- The physical address that `query_in_pgtbl` reports. -/
def physAddr (s : PtState) (root va : Nat) : Option Nat := (queryInPgtbl s root va).bind Query.pa

lemma physAddr_eq {getPages : Nat → Nat} {root : Nat} {s : PtState}
    (h : PtInv getPages root s) (va : Nat) :
    physAddr s root va = (s.entryAt root (vpn va)).map fun w =>
    getField w 12 36 * pageSize + va % pageSize := by
  rw [physAddr, queryInPgtbl_eq h]
  cases s.entryAt root (vpn va) with
  | none => rfl
  | some w =>
    simp only [Option.map_some, Option.bind_some, queryResult, Nat.shiftLeft_eq]
    rfl

lemma vpn_u64_add (x y : Nat) : vpn (u64 x + y) = vpn (x + y) := by
  unfold vpn u64 pageSize
  omega

/-- Round `k + 1` from `va` is round `k` from the next page. -/
lemma vpn_next (va k : Nat) :
    vpn (u64 (va + pageSize) + k * pageSize) = vpn (va + (k + 1) * pageSize) := by
  rw [vpn_u64_add, add_assoc, add_comm pageSize, Nat.succ_mul]

section

variable {getPages : Nat → Nat} {root : Nat}

/-- After mapping, the pages of the range have entries, and so do those that had
one; all tables are still there. Every entry was there before or is one of the
new ones. -/
lemma mapLoop_new (hfresh : FreshPages getPages root) (flags n : Nat) :
    ∀ (s : PtState) (va pa : Nat), PtInv getPages root s →
    ∃ s', mapLoop getPages root flags n s va pa = .ok s' ∧ PtInv getPages root s' ∧
    (∀ l p f, l ≤ 3 → s.node root l p = some f → s'.node root l p = some f) ∧
    (∀ u, (s'.entryAt root u).isSome ↔ (s.entryAt root u).isSome ∨
    ∃ k, k < n ∧ u = vpn (va + k * pageSize)) ∧
    (pa < 2 ^ 64 → ∀ u w, s'.entryAt root u = some w → s.entryAt root u = some w ∨
    ∃ k, k < n ∧ u = vpn (va + k * pageSize) ∧
    w = writePage 0#64 (u64 (pa + k * pageSize) >>> pageShift) flags) := by
  induction n with
  | zero =>
    intro s va pa h
    exact ⟨s, rfl, h, fun _ _ _ _ hf => hf, fun u => by simp, fun _ _ _ hw => .inl hw⟩
  | succ n ih =>
    intro s va pa h
    obtain ⟨s1, hmap, h1, hkeep, _, hentry⟩ := mapPage_spec hfresh h va pa flags
    obtain ⟨s2, hrest, h2, hkeep2, hsome, hentry2⟩ :=
      ih s1 (u64 (va + pageSize)) (u64 (pa + pageSize)) h1
    refine ⟨s2, ?_, h2, fun l p f hl hf =>
      hkeep2 l p f hl (hkeep l p f hl hf), fun u => ?_, fun hpa u w hw => ?_⟩
    · rw [mapLoop, hmap, ok_bind]
      exact hrest
    · rw [hsome u, hentry u]
      constructor
      · rintro (hold | ⟨k, hk, rfl⟩)
        · by_cases hu : u = vpn va
          · exact .inr ⟨0, n.succ_pos, by rwa [zero_mul]⟩
          rw [if_neg hu] at hold
          exact .inl hold
        · exact .inr ⟨k + 1, by omega, vpn_next va k⟩
      · rintro (hold | ⟨k, hk, rfl⟩)
        · left
          by_cases hu : u = vpn va
          · rw [if_pos hu]
            rfl
          · rwa [if_neg hu]
        cases k with
        | zero =>
          left
          rw [zero_mul, add_zero, if_pos rfl]
          rfl
        | succ k => exact .inr ⟨k, by omega, (vpn_next va k).symm⟩
    rcases hentry2 (u64_lt _) u w hw with hold | ⟨k, hk, hu, hval⟩
    · rw [hentry u] at hold
      by_cases hu : u = vpn va
      · rw [if_pos hu] at hold
        refine .inr ⟨0, Nat.succ_pos n, ?_, ?_⟩
        · rw [zero_mul]
          exact hu
        rw [zero_mul, add_zero, u64_of_lt hpa]
        exact (Option.some.inj hold).symm
      · rw [if_neg hu] at hold
        exact .inl hold
    · refine .inr ⟨k + 1, by omega, ?_, ?_⟩
      · rw [hu, vpn_next]
      have hnext : u64 (u64 (pa + pageSize) + k * pageSize) = u64 (pa + (k + 1) * pageSize) := by
        unfold u64 pageSize
        omega
      rw [hval, hnext]

/-- The same for whole pages of physical memory. -/
lemma mapLoop_entries (hfresh : FreshPages getPages root) (flags n : Nat)
    (s : PtState) (va f : Nat) (hf : f + n ≤ 2 ^ 36) (h : PtInv getPages root s) :
    ∃ s', mapLoop getPages root flags n s va (f * pageSize) = .ok s' ∧ PtInv getPages root s' ∧
    ∀ u w, s'.entryAt root u = some w → s.entryAt root u = some w ∨
    ∃ k, k < n ∧ u = vpn (va + k * pageSize) ∧ w = writePage 0#64 (f + k) flags := by
  have hpa : f * pageSize < 2 ^ 64 := by
    unfold pageSize
    omega
  obtain ⟨s', hrun, h', -, -, hentry⟩ := mapLoop_new hfresh flags n s va (f * pageSize) h
  refine ⟨s', hrun, h', fun u w hw => ?_⟩
  rcases hentry hpa u w hw with hold | ⟨k, hk, hu, hval⟩
  · exact .inl hold
  refine .inr ⟨k, hk, hu, ?_⟩
  have hlt : (f + k) * pageSize < 2 ^ 64 := by
    unfold pageSize
    omega
  rw [hval, ← add_mul, u64_of_lt hlt, mul_pageSize_shiftRight]

variable {s : PtState}

/-- Mapping one page. -/
lemma mapRange_page (hfresh : FreshPages getPages root)
    (h : PtInv getPages root s) (va pa flags : Nat) :
    ∃ s', mapRangeInPgtbl getPages s root va pa pageSize flags = .ok s' ∧ PtInv getPages root s' ∧
    ∀ u, s'.entryAt root u = if u = vpn va then some (writePage 0#64 (pa >>> pageShift) flags)
    else s.entryAt root u := by
  obtain ⟨s', hmap, h', -, -, hentry⟩ := mapPage_spec hfresh h va pa flags
  refine ⟨s', ?_, h', hentry⟩
  have hrounds : pageRounds pageSize = 1 := rfl
  rw [mapRangeInPgtbl, hrounds, mapLoop, hmap]
  rfl

/-- One round that returns. -/
lemma unmapPage_inv {s' : PtState} (h : PtInv getPages root s) {va : Nat}
    (hrun : unmapPage s root va = .ok s') :
    PtInv getPages root s' ∧ (s.node root 3 (vpn va / 512)).isSome ∧
    (∀ l p, l ≤ 3 → s'.node root l p = s.node root l p) ∧
    ∀ v, s'.entryAt root v = if v = vpn va then none else s.entryAt root v := by
  obtain ⟨g, hwalk, _⟩ := bind_eq_ok.1 hrun
  have hg := (unmapWalk_eq_ok h 3 0 root rfl (node_root va)).1 hwalk
  have htab : (s.node root 3 (vpn va / 512)).isSome := by
    rw [show vpn va / 512 = path 3 (vpn va) from rfl, hg]
    rfl
  obtain ⟨s1, hrun1, h1, hkeep, hentry⟩ := unmapPage_spec h htab
  rw [hrun] at hrun1
  cases hrun1
  exact ⟨h1, htab, hkeep, hentry⟩

/-- After unmapping, the entries of the range are gone and all others are as
before. -/
lemma unmapLoop_entries (n : Nat) : ∀ (s s' : PtState) (va : Nat), PtInv getPages root s →
    unmapLoop root n s va = .ok s' →
    PtInv getPages root s' ∧ (∀ k, k < n → s'.entryAt root (vpn (va + k * pageSize)) = none) ∧
    ∀ u, (∀ k, k < n → u ≠ vpn (va + k * pageSize)) → s'.entryAt root u = s.entryAt root u := by
  induction n with
  | zero =>
    intro s s' va h hrun
    cases hrun
    exact ⟨h, fun k hk => absurd hk (Nat.not_lt_zero k), fun _ _ => rfl⟩
  | succ n ih =>
    intro s s' va h hrun
    obtain ⟨s1, hpage, hrest⟩ := bind_eq_ok.1 hrun
    obtain ⟨h1, -, -, hentry⟩ := unmapPage_inv h hpage
    obtain ⟨h', hgone, hkeep⟩ := ih s1 s' _ h1 hrest
    refine ⟨h', fun k hk => ?_, fun u hu => ?_⟩
    · by_cases hlater : ∃ j, j < n ∧ vpn (va + k * pageSize) =
          vpn (u64 (va + pageSize) + j * pageSize)
      · obtain ⟨j, hj, heq⟩ := hlater
        rw [heq]
        exact hgone j hj
      rw [hkeep _ fun j hj heq => hlater ⟨j, hj, heq⟩, hentry]
      cases k with
      | zero => rw [zero_mul, add_zero, if_pos rfl]
      | succ k => exact (hlater ⟨k, by omega, (vpn_next va k).symm⟩).elim
    · have hfirst : u ≠ vpn va := by
        have hzero := hu 0 (Nat.succ_pos n)
        rwa [zero_mul, add_zero] at hzero
      rw [hkeep u fun k hk => ?_, hentry, if_neg hfirst]
      rw [vpn_next]
      exact hu (k + 1) (by omega)

/-- Unmapping returns if all tables are there, and leaves them there. -/
lemma unmapLoop_ok (n : Nat) : ∀ (s : PtState) (va : Nat), PtInv getPages root s →
    (∀ k, k < n → (s.node root 3 (vpn (va + k * pageSize) / 512)).isSome) →
    ∃ s', unmapLoop root n s va = .ok s' ∧ PtInv getPages root s' ∧
    ∀ l p, l ≤ 3 → s'.node root l p = s.node root l p := by
  induction n with
  | zero =>
    intro s va h _
    exact ⟨s, rfl, h, fun _ _ _ => rfl⟩
  | succ n ih =>
    intro s va h htab
    have hfirst := htab 0 (Nat.succ_pos n)
    rw [zero_mul, add_zero] at hfirst
    obtain ⟨s1, hpage, h1, hkeep, -⟩ := unmapPage_spec h hfirst
    obtain ⟨s2, hrest, h2, hkeep2⟩ := ih s1 (u64 (va + pageSize)) h1 (by
      intro k hk
      rw [vpn_next, hkeep 3 _ (le_refl 3)]
      exact htab (k + 1) (by omega))
    refine ⟨s2, ?_, h2, fun l p hl => (hkeep2 l p hl).trans (hkeep l p hl)⟩
    rw [unmapLoop, hpage, ok_bind]
    exact hrest

/-- Every entry after unmapping was there before, and not in the range. -/
lemma unmapLoop_inv (n : Nat) (s s' : PtState) (va : Nat)
    (h : PtInv getPages root s) (hrun : unmapLoop root n s va = .ok s') :
    PtInv getPages root s' ∧ ∀ u w, s'.entryAt root u = some w → s.entryAt root u = some w ∧
    ∀ k, k < n → u ≠ vpn (va + k * pageSize) := by
  obtain ⟨h', hgone, hkeep⟩ := unmapLoop_entries n s s' va h hrun
  refine ⟨h', fun u w hw => ?_⟩
  have hout : ∀ k, k < n → u ≠ vpn (va + k * pageSize) := by
    intro k hk hu
    rw [hu, hgone k hk] at hw
    cases hw
  exact ⟨(hkeep u hout).symm.trans hw, hout⟩

end

end ChCore.Kernel
