import ChCore.Lib.ByteMem
import ChCore.Lib.Heaps
import ChCore.Kernel.Radix

/-!
# The bytes of a memory object

Objects of type `PMO_DATA` lie in one piece of physical memory. Those of type
`PMO_ANONYM` and `PMO_SHM` get their pages one by one, when a page is used for
the first time; `handle_trans_fault` and `read_write_pmo` do this in the same
way (`touchPage`). `pmoByte` is what an object contains, with zeroes where it
has no pages yet, and touching a page does not change it.
-/

namespace ChCore.Kernel

open Lib.ByteMem Lib.Heaps

/-- Physical memory, and how many pages `get_pages` has returned. -/
structure PhysMem where
  bytes : Mem
  pages : Nat

section

variable (getPage : Nat → Option Nat)

/-- A page from `get_pages(0)` that is set to zero. The kernel halts if there
is none. -/
def newZeroPage (mem : PhysMem) : Exec (PhysMem × Nat) := match getPage mem.pages with
  | none => .error .bug
  | some pa => .ok (⟨fill mem.bytes pa pageSize 0, mem.pages + 1⟩, pa)

/-- The physical page for a page of an object, which is allocated when it is
used for the first time. -/
def touchPage (mem : PhysMem) (pmo : PmobjectOf Radix) (index : Nat) :
    Exec (PhysMem × PmobjectOf Radix × Nat) :=
  let pa := getPageFromPmo pmo index
  if pa = 0 then do
    let (mem, pa) ← newZeroPage getPage mem
    let pmo ← commitPageToPmo true pmo index pa
    return (mem, pmo, pa)
  else .ok (mem, pmo, pa)

/-- What is assumed of `get_pages`: pages are aligned and not in use, and
physical page 0 is not among them. -/
structure FreshObjectPages : Prop where
  aligned : ∀ n pa, getPage n = some pa → pageSize ∣ pa
  nonzero : ∀ n pa, getPage n = some pa → pa ≠ 0
  distinct : ∀ m n pa, getPage m = some pa → getPage n = some pa → m = n

/-- There is always another page. -/
structure EndlessPages : Prop extends FreshObjectPages getPage where
  some : ∀ n, ∃ pa, getPage n = some pa

end

/-- The byte at offset `x` of an object. -/
def pmoByte (bytes : Mem) (pmo : PmobjectOf Radix) (x : Nat) : UInt8 :=
  if pmo.type = .anonym ∨ pmo.type = .shm then
    match pmo.radix.slot (x / pageSize) with
    | some pa => bytes (pa + x % pageSize)
    | none => 0
  else bytes (pmo.start + x)

/-- The pages of an object come from `get_pages`, and no page is recorded
twice. -/
structure PagesOk (getPage : Nat → Option Nat) (mem : PhysMem) (pmo : PmobjectOf Radix) : Prop where
  issued : ∀ key pa, key < 2 ^ 64 → pmo.radix.slot key = some pa →
    ∃ n, n < mem.pages ∧ getPage n = some pa
  single : ∀ key key' pa, key < 2 ^ 64 → key' < 2 ^ 64 →
    pmo.radix.slot key = some pa → pmo.radix.slot key' = some pa → key = key'

section

variable {getPage : Nat → Option Nat} {mem : PhysMem} {pmo : PmobjectOf Radix}

variable {key pa : Nat} (h : PagesOk getPage mem pmo) (hfresh : FreshObjectPages getPage)

include h hfresh in
lemma PagesOk.aligned (hkey : key < 2 ^ 64) (hpa : pmo.radix.slot key = some pa) :
    pageSize ∣ pa ∧ pa ≠ 0 := by
  obtain ⟨n, -, hn⟩ := h.issued key pa hkey hpa
  exact ⟨hfresh.aligned n pa hn, hfresh.nonzero n pa hn⟩

include h hfresh in
/-- Two pages of an object have no byte in common. -/
lemma PagesOk.apart {key' pa' i i' : Nat} (hkey : key < 2 ^ 64) (hkey' : key' < 2 ^ 64)
    (hpa : pmo.radix.slot key = some pa) (hpa' : pmo.radix.slot key' = some pa')
    (hne : key' ≠ key) (hi : i < pageSize) (hi' : i' < pageSize) : pa' + i' ≠ pa + i := by
  intro heq
  obtain ⟨f, rfl⟩ := (h.aligned hfresh hkey hpa).1
  obtain ⟨f', rfl⟩ := (h.aligned hfresh hkey' hpa').1
  have hf : f' = f := by
    unfold pageSize at heq hi hi'
    omega
  subst hf
  exact hne (h.single key' key _ hkey' hkey hpa' hpa)

/-- The outcomes of touching a page: it was there, or it is a new one. -/
inductive PageTouch (getPage : Nat → Option Nat) (mem : PhysMem)
    (pmo : PmobjectOf Radix) (index : Nat) :
    PhysMem → PmobjectOf Radix → Nat → Prop
  | found {pa : Nat} (hslot : pmo.radix.slot index = some pa) :
    PageTouch getPage mem pmo index mem pmo pa
  | new {pa : Nat} {radix' : Radix} (hnone : pmo.radix.slot index = none)
    (hpa : getPage mem.pages = some pa)
    (hslot : ∀ key, key < 2 ^ 64 → radix'.slot key =
      if key = index then some pa else pmo.radix.slot key) :
    PageTouch getPage mem pmo index ⟨fill mem.bytes pa pageSize 0, mem.pages + 1⟩
      { pmo with radix := radix' } pa

variable {index : Nat}

/-- Touching a page has one of the two outcomes. -/
lemma touchPage_cases (hfresh : FreshObjectPages getPage)
    (hnext : ∃ pa, getPage mem.pages = some pa)
    (htype : pmo.type = .anonym ∨ pmo.type = .shm) (hindex : index < 2 ^ 64)
    (hnonzero : ∀ pa, pmo.radix.slot index = some pa → pa ≠ 0) :
    ∃ mem' pmo' pa, touchPage getPage mem pmo index = .ok (mem', pmo', pa) ∧
    PageTouch getPage mem pmo index mem' pmo' pa := by
  have hget : getPageFromPmo pmo index = (pmo.radix.slot index).getD 0 :=
    radixGet_eq pmo.radix index
  cases hslot : pmo.radix.slot index with
  | some pa =>
    rw [hslot, Option.getD_some] at hget
    refine ⟨mem, pmo, pa, ?_, .found hslot⟩
    simp [touchPage, hget, hnonzero pa hslot]
  | none =>
    rw [hslot, Option.getD_none] at hget
    obtain ⟨pa, hpa⟩ := hnext
    obtain ⟨radix', hadd, hslot'⟩ := radixAdd_slot hindex (hfresh.nonzero _ pa hpa) hslot
    have hcommit : commitPageToPmo true pmo index pa = .ok { pmo with radix := radix' } := by
      rcases htype with htype | htype <;> simp [commitPageToPmo, htype, hadd]
    refine ⟨_, _, pa, ?_, .new hslot hpa hslot'⟩
    simp [touchPage, hget, newZeroPage, hpa, hcommit]

include h hfresh in
/-- The next page from `get_pages` is not a page of the object. -/
lemma PagesOk.ne_next {q : Nat} (hpa : getPage mem.pages = some pa) (hkey : key < 2 ^ 64)
    (hq : pmo.radix.slot key = some q) : q ≠ pa := by
  intro heq
  obtain ⟨n, hn, hnq⟩ := h.issued key q hkey hq
  rw [heq] at hnq
  have := hfresh.distinct n mem.pages pa hnq hpa
  omega

include h hfresh in
/-- A new page is recorded. -/
lemma PagesOk.commit {radix' : Radix} (hpa : getPage mem.pages = some pa)
    (hslot : ∀ key, key < 2 ^ 64 →
    radix'.slot key = if key = index then some pa else pmo.radix.slot key) (bytes : Mem) :
    PagesOk getPage ⟨bytes, mem.pages + 1⟩ { pmo with radix := radix' } where
  issued key q hkey hq := by
    rcases bind_eq_some hslot hkey hq with ⟨-, rfl⟩ | ⟨-, hq⟩
    · exact ⟨mem.pages, Nat.lt_succ_self _, hpa⟩
    obtain ⟨n, hn, hnq⟩ := h.issued key q hkey hq
    exact ⟨n, Nat.lt_succ_of_lt hn, hnq⟩
  single := bind_single hslot (fun _ hkey hq => absurd rfl (h.ne_next hfresh hpa hkey hq)) h.single

include h hfresh in
/-- A new page holds the zeroes that the object had there before. -/
lemma pmoByte_commit (htype : pmo.type = .anonym ∨ pmo.type = .shm) {radix' : Radix}
    (hnone : pmo.radix.slot index = none) (hpa : getPage mem.pages = some pa)
    (hslot : ∀ key, key < 2 ^ 64 →
    radix'.slot key = if key = index then some pa else pmo.radix.slot key)
    {x : Nat} (hx : x < 2 ^ 64) :
    pmoByte (fill mem.bytes pa pageSize 0) { pmo with radix := radix' } x =
      pmoByte mem.bytes pmo x := by
  have hkey : x / pageSize < 2 ^ 64 := (Nat.div_le_self _ _).trans_lt hx
  have hmod : x % pageSize < pageSize := Nat.mod_lt _ (by decide)
  simp only [pmoByte, if_pos htype, hslot _ hkey]
  by_cases hki : x / pageSize = index
  · rw [if_pos hki, hki, hnone]
    exact fill_of_inside hmod
  rw [if_neg hki]
  cases hq : pmo.radix.slot (x / pageSize) with
  | none => rfl
  | some q =>
    have hne := h.ne_next hfresh hpa hkey hq
    obtain ⟨f, rfl⟩ := (h.aligned hfresh hkey hq).1
    obtain ⟨g, rfl⟩ := hfresh.aligned _ pa hpa
    have hfg : f ≠ g := fun hfg => hne (by rw [hfg])
    apply fill_of_outside
    unfold pageSize at hmod ⊢
    omega

/-- What touching a page does to the object and to its bytes. -/
structure Touched (getPage : Nat → Option Nat) (mem mem' : PhysMem)
    (pmo pmo' : PmobjectOf Radix) (index pa : Nat) : Prop where
  pages : PagesOk getPage mem' pmo'
  here : pmo'.radix.slot index = some pa
  type : pmo'.type = pmo.type
  size : pmo'.size = pmo.size
  start : pmo'.start = pmo.start
  bytes : ∀ x, x < 2 ^ 64 → pmoByte mem'.bytes pmo' x = pmoByte mem.bytes pmo x

/-- **Touching a page** finds one that holds the bytes of the object. -/
theorem touchPage_spec (hpages : EndlessPages getPage)
    (h : PagesOk getPage mem pmo) (htype : pmo.type = .anonym ∨ pmo.type = .shm)
    (hindex : index < 2 ^ 64) :
    ∃ mem' pmo' pa, touchPage getPage mem pmo index = .ok (mem', pmo', pa) ∧
    Touched getPage mem mem' pmo pmo' index pa := by
  have hfresh := hpages.toFreshObjectPages
  obtain ⟨mem', pmo', pa, htouch, hcases⟩ := touchPage_cases hfresh
    (hpages.some mem.pages) htype hindex
    fun pa hpa => (h.aligned hfresh hindex hpa).2
  refine ⟨mem', pmo', pa, htouch, ?_⟩
  cases hcases with
  | found hslot => exact ⟨h, hslot, rfl, rfl, rfl, fun _ _ => rfl⟩
  | new hnone hpa hslot =>
    exact {
      pages := h.commit hfresh hpa hslot _
      here := by rw [hslot index hindex, if_pos rfl]
      type := rfl
      size := rfl
      start := rfl
      bytes := fun x hx => pmoByte_commit h hfresh htype hnone hpa hslot hx
    }

end

end ChCore.Kernel
