import ChCore.Lib.RadixTree
import ChCore.Kernel.Vmspace

/-!
# The radix tree of a memory object

`kernel/lib/radix.c`, and the two functions of `kernel/object/memory.c` that
record and look up the pages of an object in it. A value is a physical address,
and the null pointer is an empty slot.

Seen from outside, the tree is the list of the pages that were recorded
(`Radix.Holds`), which is how the other modules see memory objects.
-/

namespace ChCore.Kernel

open Lib.RadixTree List

/-- `RADIX_NODE_BITS`. -/
def radixNodeBits : Nat := 4

/-- `RADIX_NODE_MASK`. -/
def radixNodeMask : Nat := 2 ^ radixNodeBits - 1

/-- `RADIX_LEVELS - 1`: keys of 64 bits have 16 digits, and the nodes for the
last one hold values. -/
def radixHeight : Nat := 15

/-- `struct radix`. -/
structure Radix where
  root : Option (Node Nat radixHeight)

/-- `new_radix` and `init_radix`. -/
def newRadix : Radix := ⟨some (empty Nat radixHeight)⟩

/-- The array `index`. -/
def radixIndex (key i : Nat) : Nat := (key >>> (radixNodeBits * i)) &&& radixNodeMask

/-- A pointer as the content of a slot. -/
def slotOf (value : Nat) : Option Nat := if value = 0 then none else some value

/-- `radix_get`. -/
def radixGet (radix : Radix) (key : Nat) : Nat := match radix.root with
  | none => 0
  | some node => (get radixHeight node (radixIndex key)).getD 0

/-- `radix_add`; `nodes` says whether there is memory for new nodes. -/
def radixAdd (nodes : Bool) (radix : Radix) (key value : Nat) : Exec (Radix × Int) :=
  let index := radixIndex key
  let node := radix.root.getD (empty Nat radixHeight)
  if nodes = false ∧ (radix.root.isNone ∨ reaches radixHeight node index = false) then
    .ok (radix, -enomem)
  else if get radixHeight node index ≠ none ∧ value ≠ 0 then .error .bug
  else .ok (⟨some (put radixHeight node index (slotOf value))⟩, 0)

/-- `RADIX_NODE_SIZE`. -/
def radixNodeSize : Nat := 2 ^ radixNodeBits

/-- `radix_free_node` for a node with `l` levels below it: the values that
`value_deleter` is called on, in their order, if there is a `value_deleter`. -/
def radixFreeNode (deleter : Bool) : (l : Nat) → Node Nat l → List Nat
  | 0, node =>
    if deleter then
      (List.range radixNodeSize).flatMap fun i => (node i).toList
    else []
  | l + 1, node =>
    (List.range radixNodeSize).flatMap fun i =>
      (node i).toList.flatMap (radixFreeNode deleter l)

/-- `radix_free`, with the calls of `value_deleter`. -/
def radixFree (deleter : Bool) (radix : Radix) : Int × List Nat := match radix.root with
  | none => (-einval, [])
  | some node => (0, radixFreeNode deleter radixHeight node)

/-- `get_page_from_pmo`. -/
def getPageFromPmo (pmo : PmobjectOf Radix) (index : Nat) : Nat := radixGet pmo.radix index

/-- `commit_page_to_pmo`. -/
def commitPageToPmo (nodes : Bool) (pmo : PmobjectOf Radix) (index pa : Nat) :
    Exec (PmobjectOf Radix) :=
  if pmo.type ≠ .anonym ∧ pmo.type ≠ .shm then .error .bug
  else do
    let (radix, ret) ← radixAdd nodes pmo.radix index pa
    if ret ≠ 0 then .error .bug else return { pmo with radix }

/-! ## The map that a tree stores -/

lemma radixIndex_eq (key : Nat) : radixIndex key = digit 16 key := by
  funext i
  rw [radixIndex, radixNodeMask, Nat.and_two_pow_sub_one_eq_mod,
    Nat.shiftRight_eq_div_pow, digit, radixNodeBits, Nat.pow_mul]

/-- The slot of a key. -/
def Radix.slot (radix : Radix) (key : Nat) : Option Nat :=
  get radixHeight (radix.root.getD (empty Nat radixHeight)) (radixIndex key)

lemma radixGet_eq (radix : Radix) (key : Nat) : radixGet radix key = (radix.slot key).getD 0 := by
  unfold radixGet Radix.slot
  cases radix.root with
  | none => rw [Option.getD_none, get_empty, Option.getD_none]
  | some node => rfl

lemma newRadix_slot (key : Nat) : newRadix.slot key = none := get_empty radixHeight (radixIndex key)

/-- **Adding** changes the slot of the key and no other. -/
theorem radixAdd_put {radix : Radix} {key value : Nat} (hkey : key < 2 ^ 64)
    (hnew : value = 0 ∨ radix.slot key = none) :
    ∃ radix', radixAdd true radix key value = .ok (radix', 0) ∧
    ∀ key', key' < 2 ^ 64 → radix'.slot key' =
    if key' = key then slotOf value else radix.slot key' := by
  refine ⟨⟨some (put radixHeight (radix.root.getD (empty Nat radixHeight))
    (radixIndex key) (slotOf value))⟩, ?_, fun key' hkey' => ?_⟩
  · have hfree : ¬ (get radixHeight (radix.root.getD (empty Nat radixHeight))
        (radixIndex key) ≠ none ∧ value ≠ 0) := by
      rintro ⟨hslot, hvalue⟩
      exact hslot (hnew.resolve_left hvalue)
    rw [radixAdd, if_neg (by simp), if_neg hfree]
  · have hput := get_put (k := 16) (radix.root.getD (empty Nat radixHeight))
      (slotOf value) hkey hkey'
    rw [← radixIndex_eq, ← radixIndex_eq] at hput
    exact hput

/-- Adding a page that is not there. -/
lemma radixAdd_slot {radix : Radix} {key value : Nat} (hkey : key < 2 ^ 64)
    (hvalue : value ≠ 0) (hnew : radix.slot key = none) :
    ∃ radix', radixAdd true radix key value = .ok (radix', 0) ∧
    ∀ key', key' < 2 ^ 64 → radix'.slot key' =
    if key' = key then some value else radix.slot key' := by
  obtain ⟨radix', hadd, hslot⟩ := radixAdd_put hkey (.inr hnew)
  rw [slotOf, if_neg hvalue] at hslot
  exact ⟨radix', hadd, hslot⟩

/-- `radix_free` walks over the tree. -/
lemma radixFreeNode_eq (l : Nat) : ∀ (node : Node Nat l) (base : Nat), radixFreeNode true l node =
    (entries radixNodeSize l node base).map Prod.snd := by
  induction l with
  | zero =>
    intro node base
    simp only [radixFreeNode, entries, map_flatMap, map_map, if_true, Function.comp_def, map_id']
  | succ l ih =>
    intro node base
    simp only [radixFreeNode, entries, map_flatMap]
    congr 1
    funext i
    congr 1
    funext c
    exact ih c _

/-- The calls of `value_deleter`: one for each key that has a value. -/
lemma radixFree_calls (radix : Radix) : ∃ keys : List Nat, keys.Nodup ∧
    (∀ key, key ∈ keys ↔ key < 2 ^ 64 ∧ radix.slot key ≠ none) ∧
    (radixFree true radix).2 = keys.map (radixGet radix) := by
  cases hroot : radix.root with
  | none =>
    refine ⟨[], nodup_nil, fun key => ?_, ?_⟩
    · rw [Radix.slot, hroot, Option.getD_none, get_empty]
      simp
    rw [radixFree, hroot]
    rfl
  | some node =>
    have hmem : ∀ key v, (key, v) ∈ entries radixNodeSize radixHeight node 0 ↔
        key < 2 ^ 64 ∧ radix.slot key = some v := by
      intro key v
      rw [mem_entries, Radix.slot, hroot, radixIndex_eq]
      constructor
      · rintro ⟨r, hr, rfl, hv⟩
        rw [zero_add]
        exact ⟨hr, hv⟩
      · rintro ⟨hkey, hv⟩
        exact ⟨key, hkey, (zero_add key).symm, hv⟩
    refine ⟨(entries radixNodeSize radixHeight node 0).map Prod.fst,
      nodup_entries _ _ _, fun key => ?_, ?_⟩
    · rw [mem_map, Option.ne_none_iff_exists']
      constructor
      · rintro ⟨⟨key', v⟩, he, rfl⟩
        exact ⟨((hmem key' v).1 he).1, v, ((hmem key' v).1 he).2⟩
      · rintro ⟨hkey, v, hv⟩
        exact ⟨(key, v), (hmem key v).2 ⟨hkey, hv⟩, rfl⟩
    rw [radixFree, hroot]
    change radixFreeNode true radixHeight node = _
    rw [radixFreeNode_eq _ _ 0, map_map]
    apply map_congr_left
    rintro ⟨key, v⟩ he
    change v = radixGet radix key
    rw [radixGet_eq, ((hmem key v).1 he).2, Option.getD_some]

/-- The tree stores the pages of the list. -/
structure Radix.Holds (radix : Radix) (pages : List (Nat × Nat)) : Prop where
  slot : ∀ key, key < 2 ^ 64 → radix.slot key = pages.lookup key
  nonzero : ∀ e ∈ pages, e.2 ≠ 0

/-- A page that is there is found. -/
lemma Radix.Holds.get_eq_zero {radix : Radix} {pages : List (Nat × Nat)}
    (h : radix.Holds pages) {key : Nat} (hkey : key < 2 ^ 64) :
    radixGet radix key = 0 ↔ pages.lookup key = none := by
  rw [radixGet_eq, h.slot key hkey]
  cases hp : pages.lookup key with
  | none => simp
  | some pa =>
    have hmem : (key, pa) ∈ pages := by
      obtain ⟨before, after, hsplit, -⟩ := lookup_eq_some_iff.mp hp
      simp [hsplit]
    simpa using h.nonzero _ hmem

/-- The tree follows the list. -/
lemma Radix.Holds.add {radix : Radix} {pages : List (Nat × Nat)}
    (h : radix.Holds pages) {key value : Nat} (hkey : key < 2 ^ 64)
    (hvalue : value ≠ 0) (hnew : pages.lookup key = none) :
    ∃ radix', radixAdd true radix key value = .ok (radix', 0) ∧
    radix'.Holds ((key, value) :: pages) := by
  obtain ⟨radix', hadd, hslot⟩ := radixAdd_slot hkey hvalue ((h.slot key hkey).trans hnew)
  refine ⟨radix', hadd, fun key' hkey' => ?_, fun e he => ?_⟩
  · rw [hslot key' hkey']
    by_cases heq : key' = key
    · simp [heq]
    rw [if_neg heq, lookup_cons, beq_false_of_ne heq]
    exact h.slot key' hkey'
  · rcases mem_cons.mp he with rfl | he
    · exact hvalue
    · exact h.nonzero e he

end ChCore.Kernel
