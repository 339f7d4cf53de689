import ChCore.Lib.Runs
import ChCore.Kernel.Radix
import ChCore.Userland.Tmpfs

/-!
# The two radix trees are maps

The kernel and the file systems have a radix tree each, with 4 and with 9 bits of
the key for a level. Both are instances of `Lib.RadixTree`. After any sequence
of additions a lookup returns the value added last under its key, and null if
there is none; the kernel's `radix_free` gives each value that is in the tree to
the deleter once.
-/

namespace ChCore.Userland

open Kernel Lib.Runs Function

/-- A map after a value is added under a key; null is no value. -/
def addTo (map : Nat → Nat) (add : Nat × Nat) : Nat → Nat := update map add.1 add.2

/-- The map after some additions. -/
def added (adds : List (Nat × Nat)) : Nat → Nat := adds.foldl addTo fun _ => 0

/-! ## The kernel -/

/-- One addition to the kernel's tree. -/
def radixStep (radix : Kernel.Radix) (add : Nat × Nat) : Exec Kernel.Radix := do
  let (radix, _) ← Kernel.radixAdd true radix add.1 add.2
  .ok radix

/-- The keys have 64 bits, and no value is added over another one. -/
def RadixAllowed (radix : Kernel.Radix) (add : Nat × Nat) : Prop :=
  add.1 < 2 ^ 64 ∧ (add.2 = 0 ∨ Kernel.radixGet radix add.1 = 0)

instance (radix : Kernel.Radix) (add : Nat × Nat) : Decidable (RadixAllowed radix add) :=
  inferInstanceAs (Decidable (_ ∧ (_ ∨ _)))

/-- The kernel's tree stores the map. -/
structure KernelTreeIsMap (radix : Kernel.Radix) (map : Nat → Nat) : Prop where
  get : ∀ key, key < 2 ^ 64 → Kernel.radixGet radix key = map key
  others : ∀ add, RadixAllowed radix add →
    ∃ radix', Kernel.radixAdd true radix add.1 add.2 = .ok (radix', 0) ∧
      ∀ key, key < 2 ^ 64 → key ≠ add.1 → Kernel.radixGet radix' key = Kernel.radixGet radix key
  free : ∃ keys : List Nat, keys.Nodup ∧ (∀ key, key ∈ keys ↔ key < 2 ^ 64 ∧ map key ≠ 0) ∧
    (radixFree true radix).2 = keys.map map

/-- The slots of the tree hold the map. -/
def Stores (radix : Kernel.Radix) (map : Nat → Nat) : Prop :=
  ∀ key, key < 2 ^ 64 → radix.slot key = slotOf (map key)

section

variable {radix : Kernel.Radix} {map : Nat → Nat}

lemma slotOf_getD (value : Nat) : (slotOf value).getD 0 = value := by
  rw [slotOf]
  split
  case isTrue hzero => exact hzero.symm
  case isFalse => rfl

lemma slotOf_eq_none {value : Nat} : slotOf value = none ↔ value = 0 := by
  rw [slotOf]
  split
  case isTrue hzero => exact ⟨fun _ => hzero, fun _ => rfl⟩
  case isFalse hvalue =>
    constructor
    · intro h
      cases h
    · intro hzero
      exact absurd hzero hvalue

lemma Stores.get (h : Stores radix map) {key : Nat} (hkey : key < 2 ^ 64) :
    Kernel.radixGet radix key = map key := by
  rw [Kernel.radixGet_eq, h key hkey, slotOf_getD]

lemma Stores.add (h : Stores radix map) {add : Nat × Nat} (hallowed : RadixAllowed radix add) :
    ∃ radix', Kernel.radixAdd true radix add.1 add.2 = .ok (radix', 0) ∧
    Stores radix' (addTo map add) := by
  obtain ⟨hkey, hvalue⟩ := hallowed
  have hnew : add.2 = 0 ∨ radix.slot add.1 = none := by
    rw [h add.1 hkey, slotOf_eq_none, ← h.get hkey]
    exact hvalue
  obtain ⟨radix', hadd, hslot⟩ := Kernel.radixAdd_put hkey hnew
  refine ⟨radix', hadd, fun key hkey' => ?_⟩
  rw [hslot key hkey', addTo, update_apply]
  split
  · rfl
  · exact h key hkey'

lemma Stores.isMap (h : Stores radix map) : KernelTreeIsMap radix map where
  get := fun _ hkey => h.get hkey
  others := by
    intro add hallowed
    obtain ⟨radix', hadd, hstores⟩ := h.add hallowed
    refine ⟨radix', hadd, fun key hkey hne => ?_⟩
    rw [hstores.get hkey, h.get hkey, addTo, update_of_ne hne]
  free := by
    obtain ⟨keys, hnodup, hmem, hcalls⟩ := radixFree_calls radix
    have hkeys : ∀ key, key ∈ keys ↔ key < 2 ^ 64 ∧ map key ≠ 0 := by
      intro key
      rw [hmem]
      refine and_congr_right fun hkey => ?_
      rw [h key hkey, Ne, slotOf_eq_none]
    refine ⟨keys, hnodup, hkeys, ?_⟩
    rw [hcalls]
    exact List.map_congr_left fun key hkey => h.get ((hkeys key).1 hkey).1

/-- A tree without a root, and one that was initialised, hold nothing. -/
lemma stores_new (h : radix = newRadix ∨ radix.root = none) : Stores radix fun _ => 0 := by
  intro key _
  rcases h with rfl | hroot
  · exact newRadix_slot key
  rw [Kernel.Radix.slot, hroot, Option.getD_none]
  exact Lib.RadixTree.get_empty _ _

/-- After a sequence of additions the tree stores the map after them. -/
lemma Stores.run (adds : List (Nat × Nat)) : ∀ {radix map}, Stores radix map →
    Admissible radixStep RadixAllowed radix adds →
    ∃ radix', run radixStep radix adds = .ok radix' ∧ Stores radix' (adds.foldl addTo map) := by
  induction adds with
  | nil =>
    intro radix map h _
    exact ⟨radix, rfl, h⟩
  | cons add adds ih =>
    intro radix map h hadm
    obtain ⟨radix', hadd, hstores⟩ := h.add hadm.1
    have hstep : radixStep radix add = .ok radix' := by
      rw [radixStep, hadd]
      rfl
    rw [run_cons_ok adds hstep]
    exact ih hstores (hadm.2 radix' hstep)

end

/-! ## The file systems -/

/-- One addition to the tree of the file systems. -/
def radixAddTo (radix : Radix) (add : Nat × Nat) : Radix := radixAdd radix add.1 add.2

/-- The tree of the file systems stores the map. -/
structure UserTreeIsMap (radix : Radix) (map : Nat → Nat) : Prop where
  get : ∀ key, key < 2 ^ 64 → radixGet radix key = map key
  others : ∀ key value key', key < 2 ^ 64 → key' < 2 ^ 64 → key' ≠ key →
    radixGet (radixAdd radix key value) key' = radixGet radix key'

lemma radixGet_add (radix : Radix) {key key' : Nat} (value : Nat)
    (hkey : key < 2 ^ 64) (hkey' : key' < 2 ^ 64) : radixGet (radixAdd radix key value) key' =
    if key' = key then value else radixGet radix key' := by
  rw [radixGet_eq, radixAdd_put radix value hkey hkey', radixGet_eq]
  split
  · exact slotOf_getD value
  · rfl

lemma userTree_isMap (adds : List (Nat × Nat)) : ∀ {radix : Radix} {map : Nat → Nat},
    (∀ key, key < 2 ^ 64 → radixGet radix key = map key) → (∀ add ∈ adds, add.1 < 2 ^ 64) →
    UserTreeIsMap (adds.foldl radixAddTo radix) (adds.foldl addTo map) := by
  induction adds with
  | nil =>
    intro radix map h _
    refine ⟨h, fun key value key' hkey hkey' hne => ?_⟩
    rw [List.foldl_nil, radixGet_add radix value hkey hkey', if_neg hne]
  | cons add adds ih =>
    intro radix map h hkeys
    have hadd : add.1 < 2 ^ 64 := hkeys add List.mem_cons_self
    refine ih (fun key hkey => ?_) fun e he =>
      hkeys e (List.mem_cons_of_mem add he)
    rw [radixAddTo, radixGet_add radix add.2 hadd hkey, addTo, update_apply]
    split
    · rfl
    · exact h key hkey

/-- **Both radix trees are maps.** -/
theorem radix_trees_are_maps : (∀ radix : Kernel.Radix, radix = newRadix ∨ radix.root = none →
      ∀ adds, Admissible radixStep RadixAllowed radix adds →
        ∃ radix', run radixStep radix adds = .ok radix' ∧ KernelTreeIsMap radix' (added adds)) ∧
    ∀ adds : List (Nat × Nat), (∀ add ∈ adds, add.1 < 2 ^ 64) →
      UserTreeIsMap (adds.foldl radixAddTo initRadix) (added adds) := by
  constructor
  · intro radix hnew adds hadm
    obtain ⟨radix', hrun, hstores⟩ := Stores.run adds (stores_new hnew) hadm
    exact ⟨radix', hrun, hstores.isMap⟩
  · intro adds hkeys
    refine userTree_isMap adds (fun key _ => ?_) hkeys
    rw [radixGet_eq, initRadix_slot]
    rfl

/-- A value is added, deleted, and another one added under another key. -/
theorem radix_trees_are_maps_three_adds :
    ∃ radix', run radixStep newRadix [(5, 100), (5, 0), (2 ^ 63, 200)] = .ok radix' ∧
      KernelTreeIsMap radix' (added [(5, 100), (5, 0), (2 ^ 63, 200)]) :=
  radix_trees_are_maps.1 newRadix (.inl rfl) _ (by decide +kernel)

end ChCore.Userland
