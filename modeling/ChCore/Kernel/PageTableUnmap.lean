import ChCore.Kernel.PageTableRanges
import ChCore.Kernel.PageTableRuns
import ChCore.Kernel.VmspaceRuns

/-!
# When `unmap_range_in_pgtbl` returns

The walk for a page has a `BUG_ON` at every level that has no next table. So the
loop returns exactly if the last-level table of each page exists, mapped or not.
Regions of anonymous memory have no tables before their first page fault, and
unmapping them then halts the kernel.
-/

namespace ChCore.Kernel

open Lib.Trie Lib.Runs

section

variable {getPages : Nat → Nat} {root : Nat}

/-- The loop only returns if all tables are there. -/
lemma unmapLoop_tables (n : Nat) :
    ∀ (s s' : PtState) (v : Nat), v + n ≤ 2 ^ 36 → PtInv getPages root s →
    unmapLoop root n s (v * pageSize) = .ok s' →
    ∀ u, v ≤ u → u < v + n → (s.node root 3 (u / 512)).isSome := by
  induction n with
  | zero =>
    intro s s' v _ _ _ u hlo hhi
    omega
  | succ n ih =>
    intro s s' v hv h hrun u hlo hhi
    obtain ⟨s1, hpage, hrest⟩ := bind_eq_ok.1 hrun
    obtain ⟨h1, htab, hkeep, -⟩ := unmapPage_inv h hpage
    rw [vpn_mul (by omega)] at htab
    by_cases hu : u = v
    · rw [hu]
      exact htab
    rw [u64_next (by omega)] at hrest
    have hlater := ih s1 s' (v + 1) (by omega) h1 hrest u (by omega) (by omega)
    rwa [hkeep 3 _ (le_refl 3)] at hlater

/-- **The loop returns exactly if all tables are there**, and then the pages of
the range are not mapped and the others are as before. -/
theorem unmapLoop_iff {s : PtState} (h : PtInv getPages root s) {v n : Nat} (hv : v + n ≤ 2 ^ 36) :
    (∃ s', unmapLoop root n s (v * pageSize) = .ok s' ∧ ∀ va, queryInPgtbl s' root va =
    if v ≤ vpn va ∧ vpn va < v + n then none else queryInPgtbl s root va) ↔
    ∀ u, v ≤ u → u < v + n → (s.node root 3 (u / 512)).isSome := by
  constructor
  · intro hret
    obtain ⟨s', hrun, -⟩ := hret
    exact unmapLoop_tables n s s' v hv h hrun
  · intro htab
    obtain ⟨s', hrun, h', -, hentry⟩ := unmapLoop_spec n s v hv h htab
    refine ⟨s', hrun, fun va => ?_⟩
    rw [queryInPgtbl_eq h', queryInPgtbl_eq h, hentry]
    by_cases hin : v ≤ vpn va ∧ vpn va < v + n
    · rw [if_pos hin, if_pos hin]
      rfl
    · rw [if_neg hin, if_neg hin]

end

/-! ## Page tables that were built by calls -/

/-- Mappings of whole pages of physical memory. -/
def PtOp.Physical : PtOp → Prop
  | .map _ pa len _ => pageSize ∣ pa ∧ pa + len ≤ 2 ^ 48
  | .unmap _ _ => True

instance : ∀ op : PtOp, Decidable op.Physical
  | .map _ _ _ _ => inferInstanceAs (Decidable (_ ∧ _))
  | .unmap _ _ => inferInstanceAs (Decidable True)

lemma ptStep_inv {getPages : Nat → Nat} {root : Nat}
    (hfresh : FreshPages getPages root) (s : PtState) (op : PtOp) (s' : PtState)
    (h : PtInv getPages root s) (hphys : op.Physical)
    (hstep : ptStep getPages root s op = .ok s') : PtInv getPages root s' := by
  cases op with
  | map va pa len flags =>
    obtain ⟨⟨f, rfl⟩, hpa⟩ := hphys
    have hf : f + pageRounds len ≤ 2 ^ 36 := by
      unfold pageRounds
      unfold pageSize at hpa ⊢
      omega
    obtain ⟨s1, hrun, h1, -⟩ := mapLoop_entries hfresh flags (pageRounds len) s va f hf h
    rw [mul_comm f] at hrun
    rw [ptStep, mapRangeInPgtbl, hrun] at hstep
    cases hstep
    exact h1
  | unmap va len => exact (unmapLoop_inv _ s s' va h hstep).1

/-- The call for a region returns. -/
def RegionUnmaps (s : PtState) (root v n : Nat) : Prop :=
  ∀ (vs : Vmspace) (pmos : Nat → Option Pmobject) (q : Nat) (vmr : Vmregion),
    vs.pgtbl = s → vs.pgd = root →
    findVmrForVa vs (v * pageSize) = some (q, vmr) →
    vmr.start = v * pageSize → vmr.size = n * pageSize →
    (∃ r, vmspaceUnmapRange vs (v * pageSize) (n * pageSize) = .ok r) ∧
      ∃ r, vmspaceMunmapWithAddr pmos vs (v * pageSize) (n * pageSize) = .ok r

lemma unmapPages_ok {vs : Vmspace} {va len : Nat} {s' : PtState}
    (h : unmapRangeInPgtbl vs.pgtbl vs.pgd va len = .ok s') :
    unmapPages vs va len = .ok { vs with pgtbl := s' } := by
  simp [unmapPages, h]

/-- A region is unmapped if its pages can be. -/
lemma regionUnmaps_of_ok {s s' : PtState} {root v n : Nat}
    (h : unmapRangeInPgtbl s root (v * pageSize) (n * pageSize) = .ok s') :
    RegionUnmaps s root v n := by
  intro vs pmos q vmr hs hroot hfind hstart hsize
  have hpages : unmapPages (delVmrFromVmspace vs q) (v * pageSize)
      (n * pageSize) = .ok { delVmrFromVmspace vs q with pgtbl := s' } := by
    apply unmapPages_ok
    rw [← hs, ← hroot] at h
    exact h
  constructor
  · by_cases hn : n * pageSize = 0
    · refine ⟨(delVmrFromVmspace vs q, 0), ?_⟩
      simp [vmspaceUnmapRange, hfind, hn]
    refine ⟨({ delVmrFromVmspace vs q with pgtbl := s' }, 0), ?_⟩
    simp [vmspaceUnmapRange, hfind, hstart, hsize, hpages, hn]
  · by_cases hn : n * pageSize = 0
    · exact ⟨vs, by simp [vmspaceMunmapWithAddr, unmapVmrs, hn]⟩
    refine ⟨{ delVmrFromVmspace vs q with pgtbl := s' }, ?_⟩
    have hlist : vs.vmrList ≠ [] := by
      intro hnil
      simp [findVmrForVa, hnil] at hfind
    obtain ⟨rounds, hrounds⟩ : ∃ r, vs.vmrList.length = r + 1 := ⟨vs.vmrList.length - 1, by
        have := List.length_pos_of_ne_nil hlist
        omega⟩
    rw [vmspaceMunmapWithAddr, hrounds, unmapVmrs]
    simp only [if_neg hn, hfind, hsize, gt_iff_lt, lt_irrefl, if_false, hpages,
      ok_bind, Nat.sub_self]
    simp [unmapVmrs]

/-- **Unmapping a range returns exactly if its tables exist**, on every page
table that calls have built from a zeroed root page. It leaves the pages of the
range unmapped and all others alone, and then regions on this range can be
unmapped. -/
theorem unmap_range_returns_iff {getPages : Nat → Nat} {root : Nat}
    (hfresh : FreshPages getPages root) {s0 s : PtState}
    (hroot : ∀ i, s0.mem root i = 0#64) (hpages : s0.pages = 0)
    (ops : List PtOp) (hphys : ∀ op ∈ ops, op.Physical)
    (hrun : run (ptStep getPages root) s0 ops = .ok s) (v n : Nat)
    (hv : v * pageSize + n * pageSize ≤ 2 ^ 48) :
    ((∃ s', unmapRangeInPgtbl s root (v * pageSize) (n * pageSize) = .ok s' ∧
      ∀ va, queryInPgtbl s' root va = if v * pageSize ≤ va % 2 ^ 48 ∧
            va % 2 ^ 48 < v * pageSize + n * pageSize then none
        else queryInPgtbl s root va) ∧ RegionUnmaps s root v n) ↔
      ∀ u, v ≤ u → u < v + n → (s.node root 3 (u / 512)).isSome := by
  have hinv : PtInv getPages root s := run_preserves_of_forall (ptStep_inv hfresh) ops s0 s
      (PtRefines.empty hroot hpages).inv hphys hrun
  have hv36 : v + n ≤ 2 ^ 36 := by
    unfold pageSize at hv
    omega
  have hiff := unmapLoop_iff hinv hv36
  have hrange : ∀ va, (v ≤ vpn va ∧ vpn va < v + n) ↔ (v * pageSize ≤ va % 2 ^ 48 ∧
        va % 2 ^ 48 < v * pageSize + n * pageSize) := by
    intro va
    rw [vpn_eq]
    unfold pageSize
    omega
  simp only [hrange] at hiff
  rw [unmapRangeInPgtbl, pageRounds_mul, hiff]
  constructor
  · exact And.left
  · intro htab
    obtain ⟨s', hret, -⟩ := hiff.mpr htab
    have hok : unmapRangeInPgtbl s root (v * pageSize) (n * pageSize) = .ok s' := by
      rw [unmapRangeInPgtbl, pageRounds_mul]
      exact hret
    exact ⟨htab, regionUnmaps_of_ok hok⟩

/-- Two pages are mapped, and the 2 MiB around them can be unmapped. -/
theorem unmap_range_returns_iff_block : ∃ s,
    run (ptStep Nat.succ 0) PtState.zero [.map 0x201000 0x5000 0x2000 vmrWrite] = .ok s ∧
    (((∃ s', unmapRangeInPgtbl s 0 (512 * pageSize) (512 * pageSize) = .ok s' ∧
      ∀ va, queryInPgtbl s' 0 va = if 512 * pageSize ≤ va % 2 ^ 48 ∧
            va % 2 ^ 48 < 512 * pageSize + 512 * pageSize then none
        else queryInPgtbl s 0 va) ∧ RegionUnmaps s 0 512 512) ↔
      ∀ u, 512 ≤ u → u < 512 + 512 → (s.node 0 3 (u / 512)).isSome) := by
  have hzero : ∀ i, PtState.zero.mem 0 i = 0#64 := fun _ => rfl
  exact exists_ok (by decide +kernel) fun s hrun =>
    unmap_range_returns_iff freshPages_succ hzero rfl _ (by decide) hrun 512 512 (by decide)

/-- The kernel halts when a page that was never touched is unmapped: in an empty
page table, and by `sys_handle_munmap` right after `sys_handle_mmap`. -/
theorem unmap_untouched_halts : unmapRangeInPgtbl PtState.zero 0 0x1000 0x1000 = .error .bug ∧
    (∃ st, run (vmStep .always Nat.succ) (initVm 0) [.mmap 0x1000 3 0x22 (-1)] = .ok st ∧
      vmStep .always Nat.succ st (.munmap mmapStart 0x1000) = .error .bug) := by
  exact ⟨rfl, _, rfl, rfl⟩

end ChCore.Kernel
