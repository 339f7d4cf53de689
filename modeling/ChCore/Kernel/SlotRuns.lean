import ChCore.Lib.Runs
import ChCore.Kernel.SlotTable

/-!
# Histories of a slot table

The slot table of one capability group under any sequence of allocations, each
followed by the installation of a slot, and frees. Between the calls the two
bitmaps and the array describe each other, so that the search through the two
levels finds the smallest number that is not in use.

The arrays of a table come from `kmalloc`, which has no chunk above `2 ^ 13` pages:
a table never has so many slots that its size would not fit in an `int`.
-/

namespace ChCore.Kernel

open Lib.Runs

/-- A call on the slot table of a capability group. -/
inductive SlotOp
  /-- `alloc_slot_id`, and `install_slot` of the slot at this address. -/
  | alloc (slot : Nat)
  /-- `free_slot_id`. -/
  | free (slotId : Int)
  deriving DecidableEq, Repr

/-- One call, on the table and the number of allocations made so far. -/
def slotStep (mem : Allocator) (s : SlotTable × Nat) : SlotOp → Exec (SlotTable × Nat)
  | .alloc slot => do
    let (slotId, t, n) ← allocSlotId mem s.1 s.2
    .ok (← installSlot t slotId slot, n)
  | .free slotId => do .ok (← freeSlotId s.1 slotId, s.2)

/-- Numbers that are freed are numbers of the table. -/
def SlotAllowed (s : SlotTable × Nat) : SlotOp → Prop
  | .alloc _ => True
  | .free slotId => 0 ≤ slotId ∧ slotId < s.1.slotsSize

instance (s : SlotTable × Nat) : ∀ op, Decidable (SlotAllowed s op) := fun op => by
  cases op <;> (dsimp only [SlotAllowed]; infer_instance)

/-- All numbers of the table are in use. -/
def TableFull (t : SlotTable) : Prop := ∀ i : Nat, i < t.slotsSize → getSlot t i ≠ none

/-- What holds between two calls, and what the next allocation does. -/
structure SlotLaw (mem : Allocator) (t : SlotTable) (n : Nat) : Prop where
  bmp : ∀ i, i < t.slotsSize → (bitAt t.slotsBmp i = true ↔ t.slots.getD i none ≠ none)
  full : ∀ j, j < t.slotsBmp.length →
    (bitAt t.fullSlotsBmp j = true ↔ t.slotsBmp.getD j 0#64 = ~~~0#64)
  /-- The smallest unused number is returned, the table grows exactly when all
  numbers are in use, and every entry stays where it is. -/
  alloc : ∃ (i : Nat) (t' : SlotTable) (n' : Nat), allocSlotId mem t n = .ok ((i : Int), t', n') ∧
      getSlot t i = none ∧ (∀ j : Nat, j < i → getSlot t j ≠ none) ∧
      i < t'.slotsSize ∧
      (TableFull t → t'.slotsSize = t.slotsSize + bitsPerLong) ∧
      (¬ TableFull t → t'.slotsSize = t.slotsSize) ∧
      ∀ j, getSlot t' j = getSlot t j

/-! ## The law follows from the invariant -/

section

variable {t : SlotTable}

variable {i : Nat}

lemma TableOk.bit_iff (h : TableOk t none) (hi : i < t.slotsSize) :
    bitAt t.slotsBmp i = true ↔ t.slots.getD i none ≠ none := by
  rw [h.bmp i hi]
  simp only [reduceCtorEq, or_false]

lemma TableOk.bit_iff_getSlot (h : TableOk t none) (hi : i < t.slotsSize) :
    bitAt t.slotsBmp i = true ↔ getSlot t i ≠ none := by
  rw [h.bit_iff hi, getSlot_nat, if_pos hi]

lemma TableOk.full_iff (h : TableOk t none) :
    TableFull t ↔ ∀ i, i < t.slotsSize → bitAt t.slotsBmp i = true := by
  constructor
  · intro hfull i hi
    exact (h.bit_iff_getSlot hi).2 (hfull i hi)
  · intro hall i hi
    exact (h.bit_iff_getSlot hi).1 (hall i hi)

lemma TableOk.bit_clear (h : TableOk t none)
    (hclear : bitAt t.slotsBmp i = false) : getSlot t i = none := by
  by_cases hi : i < t.slotsSize
  · by_contra hne
    rw [(h.bit_iff_getSlot hi).2 hne] at hclear
    exact absurd hclear (by decide)
  · rw [getSlot_nat, if_neg hi]

/-- A bit that is set belongs to a number of the table. -/
lemma TableOk.bit_lt (h : TableOk t none) (hset : bitAt t.slotsBmp i = true) : i < t.slotsSize := by
  by_contra hge
  have hout : bitsPerLong * t.slotsBmp.length ≤ i := by
    rw [h.bmpLen, Nat.mul_div_cancel' h.dvd]
    exact Nat.not_lt.1 hge
  rw [bitAt_of_ge hout] at hset
  exact absurd hset (by decide)

lemma TableOk.law {mem : Allocator} (hmem : ∀ n, mem.ok n = true)
    (h : TableOk t none) (n : Nat) : SlotLaw mem t n where
  bmp := fun _ hi => h.bit_iff hi
  full := by
    intro j hj
    rw [h.full j (h.bmpLen ▸ hj), word_full_iff]
  alloc := by
    obtain ⟨i, t', n', hrun, _, htaken⟩ := allocSlotId_taken (fun _ k _ => hmem (n + k)) h
    refine ⟨i, t', n', hrun, h.bit_clear htaken.unused, ?_,
      (htaken.ok.free i rfl).1, ?_, ?_, htaken.same⟩
    · intro j hj
      have hset := htaken.least j hj
      exact (h.bit_iff_getSlot (h.bit_lt hset)).1 hset
    · intro hfull
      rw [htaken.size, if_pos (h.full_iff.1 hfull)]
    · intro hfull
      rw [htaken.size, if_neg (fun hall => hfull (h.full_iff.2 hall))]

end

/-! ## Runs -/

lemma TableOk.step {mem : Allocator} (hmem : ∀ n, mem.ok n = true)
    {s : SlotTable × Nat} {op : SlotOp} (h : TableOk s.1 none) (hallowed : SlotAllowed s op) :
    ∃ s', slotStep mem s op = .ok s' ∧ TableOk s'.1 none := by
  cases op with
  | alloc slot =>
    obtain ⟨i, t', n', hrun, _, htaken⟩ := allocSlotId_taken (fun _ k _ => hmem (s.2 + k)) h
    obtain ⟨t'', hinstall, hok, _⟩ := installSlot_spec htaken.ok slot
    refine ⟨(t'', n'), ?_, hok⟩
    simp only [slotStep, hrun, ok_bind, hinstall]
  | free slotId =>
    have hlo : 0 ≤ slotId := hallowed.1
    have hhi : slotId < s.1.slotsSize := hallowed.2
    obtain ⟨t', hfree, hok, _⟩ := @freeSlotId_spec s.1 none slotId.toNat h (by omega) (.inl rfl)
    rw [Int.toNat_of_nonneg hlo] at hfree
    refine ⟨(t', s.2), ?_, hok⟩
    rw [slotStep, hfree]
    rfl

/-- A table is initialised for at least one slot. -/
lemma slotTableInit_ok {mem : Allocator} (hmem : ∀ n, mem.ok n = true)
    {size : Nat} (hsize : 0 < size) (n : Nat) :
    ∃ t, slotTableInit mem n size = (some t, n + 3) ∧ TableOk t none := by
  refine ⟨emptyTable (bitsToLongs size * bitsPerLong), ?_, emptyTable_ok ?_ ?_⟩
  · simp only [slotTableInit, hmem, not_true_eq_false, if_false]
  · unfold bitsToLongs bitsPerLong
    omega
  · exact Nat.dvd_mul_left _ _

/-- After the initialisation of a table and every sequence of calls, with
allocation succeeding, the bitmaps are exact and the next number that is allocated
is the smallest unused one. -/
theorem slot_table_exact (mem : Allocator) (hmem : ∀ n, mem.ok n = true)
    (size : Nat) (hsize : 0 < size) :
    ∃ t, slotTableInit mem 0 size = (some t, 3) ∧
      ∀ ops, Admissible (slotStep mem) SlotAllowed (t, 3) ops →
        ∃ t' n', run (slotStep mem) (t, 3) ops = .ok (t', n') ∧ SlotLaw mem t' n' := by
  obtain ⟨t, hinit, hok⟩ := slotTableInit_ok hmem hsize 0
  refine ⟨t, hinit, fun ops hadm => ?_⟩
  obtain ⟨⟨t', n'⟩, hrun, hok'⟩ :=
    run_total (fun _ _ h hallowed => TableOk.step hmem h hallowed) ops (t, 3) hok hadm
  exact ⟨t', n', hrun, hok'.law hmem n'⟩

/-- Two slots are installed in a new table and the first one is freed. -/
theorem slot_table_exact_two_slots :
    ∃ t, slotTableInit Allocator.always 0 bitsPerLong = (some t, 3) ∧
      ∃ t' n', run (slotStep Allocator.always) (t, 3)
          [.alloc 10, .alloc 11, .free 0] = .ok (t', n') ∧
        SlotLaw Allocator.always t' n' := by
  obtain ⟨t, hinit, hall⟩ :=
    slot_table_exact Allocator.always (fun _ => rfl) bitsPerLong (by decide)
  refine ⟨t, hinit, hall _ ?_⟩
  obtain rfl : emptyTable 64 = t := by
    have hfst := congrArg Prod.fst hinit
    exact Option.some.inj hfst
  decide +kernel

end ChCore.Kernel
