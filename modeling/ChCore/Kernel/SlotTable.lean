import Mathlib.Data.List.GetD
import ChCore.Kernel.Bitops

/-!
# Slot tables (`kernel/object/cap_group.c`, `kernel/include/object/cap_group.h`)

A capability group keeps an array of pointers to slots, a bitmap of the used
slot numbers, and a second bitmap of the words of the first one that are full.

Between the operations the two bitmaps describe the array exactly
(`TableOk t none`). Between `alloc_slot_id` and `install_slot` one number is
taken that has no slot yet, which is the second argument of `TableOk`. What a
caller needs is `getSlot`: every operation has one lemma that says how it
changes the map from slot numbers to slots.
-/

namespace ChCore.Kernel

open List Nat

/-- The outcome of the allocations that the kernel makes, in their order:
whether an allocation succeeds, and what a word of a block from `kmalloc`
holds before it is written. -/
structure Allocator where
  ok : Nat → Bool
  junk : Nat → Nat

/-- Allocations that all succeed. -/
def Allocator.always : Allocator := ⟨fun _ => true, fun _ => 0⟩

/-- `struct slot_table`; a slot is named by its address. -/
structure SlotTable where
  slotsSize : Nat
  slots : List (Option Nat)
  fullSlotsBmp : Bitmap
  slotsBmp : Bitmap
  deriving DecidableEq, Repr

/-- `get_slot`. -/
def getSlot (t : SlotTable) (slotId : Int) : Option Nat :=
  if slotId < 0 ∨ (t.slotsSize : Int) ≤ slotId then none
  else t.slots.getD slotId.toNat none

/-- The zeroed arrays that `slot_table_init` sets up for `size` slots. -/
def emptyTable (size : Nat) : SlotTable where
  slotsSize := size
  slots := List.replicate size none
  fullSlotsBmp := List.replicate (bitsToLongs (bitsToLongs size)) 0#64
  slotsBmp := List.replicate (bitsToLongs size) 0#64

/-- `slot_table_init`, from the `n`-th allocation on; `none` is `-ENOMEM`. -/
def slotTableInit (mem : Allocator) (n size : Nat) : Option SlotTable × Nat :=
  if ¬ mem.ok n then (none, n + 1)
  else if ¬ mem.ok (n + 1) then (none, n + 2)
  else if ¬ mem.ok (n + 2) then (none, n + 3)
  else (some (emptyTable (bitsToLongs size * bitsPerLong)), n + 3)

/-- `memcpy` of `n` elements to the start of an array. -/
def memcpy {α : Type} (dst src : List α) (n : Nat) : List α := src.take n ++ dst.drop n

/-- `expand_slot_table`. -/
def expandSlotTable (mem : Allocator) (n : Nat) (t : SlotTable) : Option SlotTable × Nat :=
  let oldSize := t.slotsSize
  let newSize := oldSize + bitsPerLong
  match slotTableInit mem n newSize with
  | (none, n) => (none, n)
  | (some new, n) =>
    (some
      { slotsSize := newSize
        slots := memcpy new.slots t.slots oldSize
        fullSlotsBmp := memcpy new.fullSlotsBmp t.fullSlotsBmp
          (bitsToLongs (bitsToLongs oldSize))
        slotsBmp := memcpy new.slotsBmp t.slotsBmp (bitsToLongs oldSize) },
      n)

/-- The end of `alloc_slot_id`: mark the number that was found. -/
def takeSlotId (t : SlotTable) (emptyIdx : Nat) : Exec SlotTable := do
  let bmp ← setBit emptyIdx t.slotsBmp
  let w ← readWord bmp (emptyIdx / bitsPerLong)
  if w = ~~~0#64 then
    let full ← setBit (emptyIdx / bitsPerLong) t.fullSlotsBmp
    return { t with slotsBmp := bmp, fullSlotsBmp := full }
  else return { t with slotsBmp := bmp }

/-- The search of one round of `alloc_slot_id`; `none` is the jump to
`expand`. -/
def findSlotId (t : SlotTable) : Exec (Option Nat) := do
  let bmpSize := t.slotsSize
  let fullBmpSize := bitsToLongs bmpSize
  let emptyIdx ← findNextZeroBit t.fullSlotsBmp fullBmpSize 0
  if fullBmpSize ≤ emptyIdx then return none
  else
    let emptyIdx ← findNextZeroBit t.slotsBmp bmpSize (emptyIdx * bitsPerLong)
    if bmpSize ≤ emptyIdx then return none else return some emptyIdx

/-- The loop of `alloc_slot_id`. The table is never full after it has been
expanded, so two rounds are always enough. -/
def allocSlotLoop (mem : Allocator) : Nat → SlotTable → Nat → Exec (Int × SlotTable × Nat)
  | 0, _, _ => .error .bug
  | rounds + 1, t, n => do
    match ← findSlotId t with
    | some emptyIdx =>
      let t ← takeSlotId t emptyIdx
      return ((emptyIdx : Int), t, n)
    | none =>
      match expandSlotTable mem n t with
      | (none, n) => return (-enomem, t, n)
      | (some t, n) => allocSlotLoop mem rounds t n

/-- `alloc_slot_id`. -/
def allocSlotId (mem : Allocator) (t : SlotTable) (n : Nat) : Exec (Int × SlotTable × Nat) :=
  allocSlotLoop mem 2 t n

/-- An index into an array from an `int`; a negative one is out of bounds. -/
def arrayIndex (i : Int) (len : Nat) : Exec Nat :=
  if 0 ≤ i ∧ i < len then .ok i.toNat else .error .outOfBounds

/-- `free_slot_id`. -/
def freeSlotId (t : SlotTable) (slotId : Int) : Exec SlotTable := do
  let i ← arrayIndex slotId t.slots.length
  let bmp ← clearBit i t.slotsBmp
  let full ← clearBit (i / bitsPerLong) t.fullSlotsBmp
  return { t with slotsBmp := bmp, fullSlotsBmp := full,
                  slots := t.slots.set i none }

/-- `install_slot`. -/
def installSlot (t : SlotTable) (slotId : Int) (slot : Nat) : Exec SlotTable := do
  let i ← arrayIndex slotId t.slots.length
  if ← getBit i t.slotsBmp then
    return { t with slots := t.slots.set i (some slot) }
  else .error .bug

/-- `is_valid_slot_id`. -/
def isValidSlotId (t : SlotTable) (slotId : Int) : Exec Bool := do
  if slotId < 0 ∨ (t.slotsSize : Int) ≤ slotId then return false
  else if ¬ (← getBit slotId.toNat t.slotsBmp) then return false
  else if t.slots.getD slotId.toNat none = none then .error .bug
  else return true

/-! ## The invariant -/

/-- The bitmaps describe the array; `taken` is a number without a slot. -/
structure TableOk (t : SlotTable) (taken : Option Nat) : Prop where
  pos : 0 < t.slotsSize
  dvd : bitsPerLong ∣ t.slotsSize
  slotsLen : t.slots.length = t.slotsSize
  bmpLen : t.slotsBmp.length = t.slotsSize / bitsPerLong
  fullLen : t.fullSlotsBmp.length = bitsToLongs (t.slotsSize / bitsPerLong)
  bmp : ∀ i, i < t.slotsSize → (bitAt t.slotsBmp i = true ↔
      t.slots.getD i none ≠ none ∨ taken = some i)
  full : ∀ j, j < t.slotsSize / bitsPerLong → (bitAt t.fullSlotsBmp j = true ↔
      ∀ i, i / bitsPerLong = j → bitAt t.slotsBmp i = true)
  fullTail : ∀ j, t.slotsSize / bitsPerLong ≤ j → bitAt t.fullSlotsBmp j = false
  free : ∀ i, taken = some i → i < t.slotsSize ∧ t.slots.getD i none = none

variable {n : Nat}

lemma bitsToLongs_of_dvd (h : bitsPerLong ∣ n) : bitsToLongs n = n / bitsPerLong := by
  unfold bitsToLongs
  unfold bitsPerLong at *
  omega

lemma le_bitsToLongs (n : Nat) : n ≤ bitsPerLong * bitsToLongs n := by
  unfold bitsToLongs bitsPerLong
  omega

lemma getD_replicate_self {α : Type} (n i : Nat) (d : α) : (List.replicate n d).getD i d = d := by
  rw [getD_eq_getElem?_getD, getElem?_getD_replicate_default_eq]

lemma bitAt_replicate (n i : Nat) : bitAt (List.replicate n 0#64) i = false := by
  rw [bitAt, getD_replicate_self, BitVec.getLsbD_zero]

lemma emptyTable_ok {size : Nat} (hpos : 0 < size)
    (hdvd : bitsPerLong ∣ size) : TableOk (emptyTable size) none := by
  have hlongs := bitsToLongs_of_dvd hdvd
  exact {
    pos := hpos
    dvd := hdvd
    slotsLen := length_replicate
    bmpLen := by simp only [emptyTable, length_replicate, hlongs]
    fullLen := by simp only [emptyTable, length_replicate, hlongs]
    bmp := by
      intro i _
      simp only [emptyTable, bitAt_replicate, getD_replicate_self]
      simp
    full := by
      intro j _
      simp only [emptyTable, bitAt_replicate]
      constructor
      · intro h
        exact absurd h (by decide)
      · intro h
        exact h (j * bitsPerLong) (Nat.mul_div_cancel _ (by decide))
    fullTail := fun j _ => bitAt_replicate _ j
    free := fun i h => by simp at h
  }

/-! ## Reading -/

variable {t : SlotTable} {taken : Option Nat} {i : Nat}

lemma TableOk.lt_bmp (h : TableOk t taken) (hi : i < t.slotsSize) :
    i < bitsPerLong * t.slotsBmp.length := by
  rw [h.bmpLen, Nat.mul_div_cancel' h.dvd]
  exact hi

lemma TableOk.lt_full (h : TableOk t taken) (hi : i < t.slotsSize) :
    i / bitsPerLong < t.slotsSize / bitsPerLong ∧
    i / bitsPerLong < bitsPerLong * t.fullSlotsBmp.length := by
  have hdvd := h.dvd
  have hlt : i / bitsPerLong < t.slotsSize / bitsPerLong := by
    unfold bitsPerLong at *
    omega
  refine ⟨hlt, ?_⟩
  rw [h.fullLen]
  exact lt_of_lt_of_le hlt (le_bitsToLongs _)

lemma getSlot_nat (t : SlotTable) (i : Nat) :
    getSlot t i = if i < t.slotsSize then t.slots.getD i none else none := by
  unfold getSlot
  by_cases hi : i < t.slotsSize
  · rw [if_neg (by omega), if_pos hi, Int.toNat_natCast]
  · rw [if_pos (by omega), if_neg hi]

/-- A slot number that has a slot is a natural number inside the table. -/
lemma getSlot_some {slotId : Int} {p : Nat} (h : getSlot t slotId = some p) :
    ∃ i : Nat, slotId = i ∧ i < t.slotsSize ∧ t.slots.getD i none = some p := by
  unfold getSlot at h
  by_cases hout : slotId < 0 ∨ (t.slotsSize : Int) ≤ slotId
  · rw [if_pos hout] at h
    exact absurd h (by simp)
  rw [if_neg hout] at h
  exact ⟨slotId.toNat, by omega, by omega, h⟩

variable {α : Type}

lemma getD_set {l : List α} (h : i < l.length) (a d : α) (j : Nat) :
    (l.set i a).getD j d = if j = i then a else l.getD j d := by
  rw [getD_eq_getElem?_getD, getD_eq_getElem?_getD]
  by_cases hj : j = i
  · subst hj
    rw [if_pos rfl, List.getElem?_set_self h, Option.getD_some]
  · rw [if_neg hj, List.getElem?_set_ne (Ne.symm hj)]

lemma isValidSlotId_eq (h : TableOk t none) (slotId : Int) :
    isValidSlotId t slotId = .ok (getSlot t slotId).isSome := by
  unfold isValidSlotId
  by_cases hout : slotId < 0 ∨ (t.slotsSize : Int) ≤ slotId
  · rw [if_pos hout, getSlot, if_pos hout]
    rfl
  obtain ⟨i, rfl⟩ : ∃ i : Nat, slotId = i := ⟨slotId.toNat, by omega⟩
  have hi : i < t.slotsSize := by omega
  have hbmp := h.bmp i hi
  rw [if_neg hout, getSlot_nat, if_pos hi, Int.toNat_natCast, getBit_eq (h.lt_bmp hi), ok_bind]
  cases hslot : t.slots.getD i none with
  | none =>
    have hbit : bitAt t.slotsBmp i = false := by
      rw [← Bool.not_eq_true, hbmp, hslot]
      simp
    rw [hbit]
    rfl
  | some p =>
    have hbit : bitAt t.slotsBmp i = true := by
      rw [hbmp, hslot]
      simp
    rw [hbit]
    rfl

/-! ## Taking a slot number -/

lemma takeSlotId_spec (h : TableOk t none) (hi : i < t.slotsSize)
    (hbit : bitAt t.slotsBmp i = false) : ∃ t', takeSlotId t i = .ok t' ∧ TableOk t' (some i) ∧
    t'.slotsSize = t.slotsSize ∧ t'.slots = t.slots := by
  obtain ⟨bmp, hset, hlen, hbits⟩ := setBit_spec (h.lt_bmp hi)
  obtain ⟨hword, hfull⟩ := h.lt_full hi
  have hnone : t.slots.getD i none = none := by
    by_contra hne
    rw [(h.bmp i hi).2 (.inl hne)] at hbit
    exact absurd hbit (by decide)
  have hnew : ∀ j, j < t.slotsSize → (bitAt bmp j = true ↔
        t.slots.getD j none ≠ none ∨ some i = some j) := by
    intro j hj
    have hold := h.bmp j hj
    simp only [reduceCtorEq, or_false] at hold
    rw [hbits j, Bool.or_eq_true, decide_eq_true_eq, hold, Option.some.injEq, eq_comm]
  have hother : ∀ j, j ≠ i / bitsPerLong → ((∀ k, k / bitsPerLong = j → bitAt bmp k = true) ↔
        ∀ k, k / bitsPerLong = j → bitAt t.slotsBmp k = true) := by
    intro j hj
    have hsame : ∀ k, k / bitsPerLong = j → bitAt bmp k = bitAt t.slotsBmp k := by
      rintro k rfl
      have hne : k ≠ i := fun hk => hj (by rw [hk])
      rw [hbits k, decide_eq_false hne, Bool.or_false]
    constructor <;> intro hall k hk
    · rw [← hsame k hk]
      exact hall k hk
    rw [hsame k hk]
    exact hall k hk
  unfold takeSlotId
  rw [hset, ok_bind, readWord_eq (by rw [hlen, h.bmpLen]; exact hword), ok_bind]
  by_cases hones : bmp.getD (i / bitsPerLong) 0#64 = ~~~0#64
  · obtain ⟨full, hsetF, hlenF, hbitsF⟩ := setBit_spec hfull
    rw [if_pos hones, hsetF, ok_bind]
    refine ⟨_, rfl, ?_, rfl, rfl⟩
    exact {
      pos := h.pos
      dvd := h.dvd
      slotsLen := h.slotsLen
      bmpLen := hlen.trans h.bmpLen
      fullLen := hlenF.trans h.fullLen
      bmp := hnew
      full := by
        intro j hj
        show bitAt full j = true ↔ _
        rw [hbitsF j, Bool.or_eq_true, decide_eq_true_eq]
        by_cases hji : j = i / bitsPerLong
        · subst hji
          simp only [or_true, true_iff]
          exact (word_full_iff bmp _).1 hones
        simp only [hji, or_false]
        rw [h.full j hj]
        exact (hother j hji).symm
      fullTail := by
        intro j hj
        replace hj : t.slotsSize / bitsPerLong ≤ j := hj
        show bitAt full j = false
        rw [hbitsF j, h.fullTail j hj, decide_eq_false (by omega)]
        rfl
      free := by
        intro j hj
        cases hj
        exact ⟨hi, hnone⟩
    }
  rw [if_neg hones]
  refine ⟨_, rfl, ?_, rfl, rfl⟩
  exact {
    pos := h.pos
    dvd := h.dvd
    slotsLen := h.slotsLen
    bmpLen := hlen.trans h.bmpLen
    fullLen := h.fullLen
    bmp := hnew
    full := by
      intro j hj
      show bitAt t.fullSlotsBmp j = true ↔ _
      by_cases hji : j = i / bitsPerLong
      · subst hji
        rw [h.full _ hj]
        constructor
        · intro hall
          rw [hall i rfl] at hbit
          exact absurd hbit (by decide)
        · intro hall
          exact absurd ((word_full_iff bmp _).2 hall) hones
      · rw [h.full j hj]
        exact (hother j hji).symm
    fullTail := h.fullTail
    free := by
      intro j hj
      cases hj
      exact ⟨hi, hnone⟩
  }

/-- The search finds the first free number, or every word is full. -/
lemma findSlotId_spec (h : TableOk t none) : (∃ i, findSlotId t = .ok (some i) ∧ i < t.slotsSize ∧
    bitAt t.slotsBmp i = false ∧ ∀ j, j < i → bitAt t.slotsBmp j = true) ∨
    (findSlotId t = .ok none ∧ ∀ i, i < t.slotsSize → bitAt t.slotsBmp i = true) := by
  have hdvd := h.dvd
  have hpos := h.pos
  have hlongs := bitsToLongs_of_dvd hdvd
  have hwords : 0 < t.slotsSize / bitsPerLong := by
    unfold bitsPerLong at *
    omega
  obtain ⟨w, hsearch, hfirst⟩ := findNextBitHelper_spec hwords
    (by rw [h.fullLen]; exact le_bitsToLongs _) 0 true
  by_cases hw : t.slotsSize / bitsPerLong ≤ w
  · right
    constructor
    · simp only [findSlotId, findNextZeroBit, hlongs, hsearch, ok_bind, if_pos hw, pure_eq_ok]
    · intro i hi
      have hlt := (h.lt_full hi).1
      have hset := hfirst.below (i / bitsPerLong) (zero_le _) (by omega)
      exact (h.full _ hlt).1 hset i rfl
  left
  have hclear : bitAt t.fullSlotsBmp w = false := (hfirst.hit (by omega)).2
  obtain ⟨r, hsearch', hfirst'⟩ := findNextBitHelper_spec hpos
    (by rw [h.bmpLen, Nat.mul_div_cancel' hdvd])
    (w * bitsPerLong) true
  have hr : r < t.slotsSize := by
    by_contra hge
    -- otherwise all bits from word `w` on are set, so `w` is marked full
    have hall : ∀ i, i / bitsPerLong = w → bitAt t.slotsBmp i = true := by
      intro i hi
      refine hfirst'.below i ?_ ?_ <;> unfold bitsPerLong at * <;> omega
    rw [(h.full w (by omega)).2 hall] at hclear
    exact absurd hclear (by decide)
  refine ⟨r, ?_, hr, (hfirst'.hit hr).2, ?_⟩
  · simp only [findSlotId, findNextZeroBit, hlongs, hsearch, ok_bind,
      if_neg hw, hsearch', if_neg (not_le.2 hr), pure_eq_ok]
  intro j hj
  by_cases hlow : j / bitsPerLong < w
  · -- the words before `w` are marked full
    have hmark := hfirst.below (j / bitsPerLong) (zero_le _) hlow
    exact (h.full _ (by omega)).1 hmark j rfl
  apply hfirst'.below j _ hj
  unfold bitsPerLong at *
  omega

lemma memcpy_getD {dst src : List α} (hlen : src.length = n)
    (hle : n ≤ dst.length) (i : Nat) (d : α) :
    (memcpy dst src n).getD i d = if i < n then src.getD i d else dst.getD i d := by
  subst hlen
  unfold memcpy
  rw [take_length, getD_eq_getElem?_getD, getD_eq_getElem?_getD, getD_eq_getElem?_getD,
    List.getElem?_append]
  by_cases hi : i < src.length
  · rw [if_pos hi, if_pos hi]
  rw [if_neg hi, if_neg hi, List.getElem?_drop]
  congr 2
  omega

lemma memcpy_length {dst src : List α} (hlen : src.length = n) (hle : n ≤ dst.length) :
    (memcpy dst src n).length = dst.length := by
  unfold memcpy
  rw [length_append, length_take, length_drop]
  omega

/-- Copying a bitmap to the start of a larger zeroed one keeps its bits. -/
lemma bitAt_memcpy_zero {p : Bitmap} {m : Nat} (hlen : p.length = n) (hle : n ≤ m) (i : Nat) :
    bitAt (memcpy (List.replicate m 0#64) p n) i = bitAt p i := by
  have hzero : ∀ k, (List.replicate m 0#64).getD k 0#64 = 0#64 := by
    intro k
    rw [getD_eq_getElem?_getD, List.getElem?_replicate]
    split <;> rfl
  unfold bitAt
  rw [memcpy_getD hlen (by simpa using hle), hzero]
  by_cases hi : i / bitsPerLong < n
  · rw [if_pos hi]
  rw [if_neg hi]
  congr 1
  rw [getD_eq_default]
  omega

/-- A bit outside the words of a bitmap is clear. -/
lemma bitAt_of_ge {p : Bitmap} (h : bitsPerLong * p.length ≤ i) : bitAt p i = false := by
  unfold bitAt
  rw [getD_eq_default]
  · exact BitVec.getLsbD_zero
  unfold bitsPerLong at *
  omega

variable {mem : Allocator}

lemma expandSlotTable_spec (hmem : ∀ k, k < 3 → mem.ok (n + k) = true) (h : TableOk t none) :
    ∃ t', expandSlotTable mem n t = (some t', n + 3) ∧ TableOk t' none ∧
    (∀ j, getSlot t' j = getSlot t j) ∧ t'.slotsSize = t.slotsSize + bitsPerLong ∧
    (∀ i, bitAt t'.slotsBmp i = bitAt t.slotsBmp i) ∧
    ∃ i, i < t'.slotsSize ∧ bitAt t'.slotsBmp i = false := by
  have hdvd := h.dvd
  have hlongs := bitsToLongs_of_dvd hdvd
  have hdvd' : bitsPerLong ∣ t.slotsSize + bitsPerLong := Nat.dvd_add hdvd (Nat.dvd_refl _)
  have hlongs' := bitsToLongs_of_dvd hdvd'
  have hround : bitsToLongs (t.slotsSize + bitsPerLong) * bitsPerLong =
      t.slotsSize + bitsPerLong := by
    rw [hlongs', Nat.div_mul_cancel hdvd']
  have hdiv : (t.slotsSize + bitsPerLong) / bitsPerLong =
      t.slotsSize / bitsPerLong + 1 := Nat.add_div_right _ (by decide)
  have hinit : slotTableInit mem n (t.slotsSize + bitsPerLong) =
      (some (emptyTable (t.slotsSize + bitsPerLong)), n + 3) := by
    have hzero : mem.ok n = true := hmem 0 (by decide)
    simp [slotTableInit, hzero, hmem 1, hmem 2, hround]
  have hle1 : t.slotsSize / bitsPerLong ≤ t.slotsSize / bitsPerLong + 1 := le_succ _
  have hle2 : bitsToLongs (t.slotsSize / bitsPerLong) ≤
      bitsToLongs (t.slotsSize / bitsPerLong + 1) := by
    unfold bitsToLongs
    exact Nat.div_le_div_right (by omega)
  have hexp : expandSlotTable mem n t = (some
      { slotsSize := t.slotsSize + bitsPerLong
        slots := memcpy (List.replicate (t.slotsSize + bitsPerLong) none) t.slots t.slotsSize
        fullSlotsBmp := memcpy (List.replicate (bitsToLongs (t.slotsSize / bitsPerLong + 1)) 0#64)
          t.fullSlotsBmp (bitsToLongs (t.slotsSize / bitsPerLong))
        slotsBmp := memcpy (List.replicate (t.slotsSize / bitsPerLong + 1) 0#64)
          t.slotsBmp (t.slotsSize / bitsPerLong) }, n + 3) := by
    simp only [expandSlotTable, hinit, emptyTable, hlongs, hlongs', hdiv]
  have hslots : ∀ i, (memcpy (List.replicate (t.slotsSize + bitsPerLong) none)
      t.slots t.slotsSize).getD i none = if i < t.slotsSize then t.slots.getD i none else none := by
    intro i
    rw [memcpy_getD h.slotsLen (by simp), getD_replicate_self]
  have hbmp := bitAt_memcpy_zero h.bmpLen hle1
  have hfull := bitAt_memcpy_zero h.fullLen hle2
  have hclear : ∀ i, t.slotsSize ≤ i → bitAt t.slotsBmp i = false := by
    intro i hi
    apply bitAt_of_ge
    rw [h.bmpLen, Nat.mul_div_cancel' hdvd]
    exact hi
  refine ⟨_, hexp, ?_, ?_, rfl, hbmp, t.slotsSize, ?_, ?_⟩
  · exact {
      pos := by have := h.pos; show 0 < t.slotsSize + bitsPerLong; omega
      dvd := hdvd'
      slotsLen := by rw [memcpy_length h.slotsLen (by simp), length_replicate]
      bmpLen := by rw [memcpy_length h.bmpLen (by simp), length_replicate, hdiv]
      fullLen := by rw [memcpy_length h.fullLen (by simpa using hle2), length_replicate, hdiv]
      bmp := by
        intro i _
        rw [hbmp, hslots]
        by_cases hi : i < t.slotsSize
        · rw [if_pos hi]
          exact h.bmp i hi
        rw [if_neg hi, hclear i (by omega)]
        simp
      full := by
        intro j hj
        rw [hdiv] at hj
        simp only [hfull, hbmp]
        by_cases hlt : j < t.slotsSize / bitsPerLong
        · exact h.full j hlt
        -- the new word is empty, and its mark is clear
        have hjs : t.slotsSize ≤ j * bitsPerLong := by
          unfold bitsPerLong at *
          omega
        constructor
        · intro hset
          rw [h.fullTail j (by omega)] at hset
          exact absurd hset (by decide)
        · intro hall
          have := hall (j * bitsPerLong) (Nat.mul_div_cancel _ (by decide))
          rw [hclear _ hjs] at this
          exact absurd this (by decide)
      fullTail := by
        intro j hj
        rw [hdiv] at hj
        rw [hfull]
        exact h.fullTail j (by omega)
      free := fun i hi => by simp at hi
    }
  · intro j
    rcases Int.lt_or_le j 0 with hneg | hnonneg
    · simp only [getSlot, if_pos (Or.inl hneg)]
    obtain ⟨i, rfl⟩ : ∃ i : Nat, j = i := ⟨j.toNat, by omega⟩
    rw [getSlot_nat, getSlot_nat, hslots]
    by_cases hi : i < t.slotsSize
    · simp only [if_pos hi, if_pos (Nat.lt_add_right _ hi)]
    · simp only [if_neg hi, ite_self]
  · show t.slotsSize < t.slotsSize + bitsPerLong
    exact Nat.lt_add_of_pos_right (by decide)
  · rw [hbmp]
    exact hclear _ le_rfl

/-- One round on a table with a free number takes the first one. -/
lemma allocSlotLoop_found (mem : Allocator) (h : TableOk t none)
    (hfind : findSlotId t = .ok (some i)) (hi : i < t.slotsSize)
    (hbit : bitAt t.slotsBmp i = false) (rounds n : Nat) :
    ∃ t', allocSlotLoop mem (rounds + 1) t n = .ok ((i : Int), t', n) ∧
    TableOk t' (some i) ∧ t'.slotsSize = t.slotsSize ∧ ∀ j, getSlot t' j = getSlot t j := by
  obtain ⟨t', htake, hok, hsize, hslots⟩ := takeSlotId_spec h hi hbit
  refine ⟨t', ?_, hok, hsize, ?_⟩
  · simp only [allocSlotLoop, hfind, htake, ok_bind, pure_eq_ok]
  intro j
  rw [getSlot, getSlot, hsize, hslots]

/-- What `alloc_slot_id` does: it takes the smallest number `i` that is not used,
in a table that is one word larger if all numbers were used. -/
structure SlotIdTaken (t t' : SlotTable) (i : Nat) : Prop where
  ok : TableOk t' (some i)
  unused : bitAt t.slotsBmp i = false
  least : ∀ j, j < i → bitAt t.slotsBmp j = true
  size : t'.slotsSize = if ∀ j, j < t.slotsSize → bitAt t.slotsBmp j = true
    then t.slotsSize + bitsPerLong else t.slotsSize
  same : ∀ j, getSlot t' j = getSlot t j

/-- There is memory for a larger table if one is needed. -/
lemma allocSlotId_taken
    (hmem : (∀ j, j < t.slotsSize → bitAt t.slotsBmp j = true) → ∀ k, k < 3 → mem.ok (n + k) = true)
    (h : TableOk t none) : ∃ (i : Nat) (t' : SlotTable) (n' : Nat),
    allocSlotId mem t n = .ok ((i : Int), t', n') ∧ n ≤ n' ∧ SlotIdTaken t t' i := by
  rcases findSlotId_spec h with ⟨i, hfind, hi, hbit, hleast⟩ | ⟨hnone, hall⟩
  · obtain ⟨t', hrun, hok, hsize, hget⟩ := allocSlotLoop_found mem h hfind hi hbit 1 n
    have hnotAll : ¬ ∀ j, j < t.slotsSize → bitAt t.slotsBmp j = true := by
      intro hall
      rw [hall i hi] at hbit
      exact absurd hbit (by decide)
    refine ⟨i, t', n, hrun, le_refl n, hok, hbit, hleast, ?_, hget⟩
    rw [if_neg hnotAll, hsize]
  obtain ⟨t1, hexp, hok1, hget1, hsize1, hbits1, j, hj, hclear⟩ :=
    expandSlotTable_spec (hmem hall) h
  rcases findSlotId_spec hok1 with ⟨i, hfind, hi, hbit, hleast⟩ | ⟨_, hall1⟩
  · obtain ⟨t', hrun, hok, hsize, hget⟩ := allocSlotLoop_found mem hok1 hfind hi hbit 0 (n + 3)
    refine ⟨i, t', n + 3, ?_, by omega, hok, ?_, ?_, ?_, ?_⟩
    · rw [← hrun]
      simp only [allocSlotId, allocSlotLoop, hnone, ok_bind, hexp]
    · rw [← hbits1]
      exact hbit
    · intro k hk
      rw [← hbits1]
      exact hleast k hk
    · rw [if_pos hall, hsize, hsize1]
    · intro k
      rw [hget, hget1]
  · rw [hall1 j hj] at hclear
    exact absurd hclear (by decide)

/-- `alloc_slot_id` returns a number that has no slot, and takes it. No other
number changes. -/
lemma allocSlotId_spec (hmem : ∀ n, mem.ok n = true) (h : TableOk t none) (n : Nat) :
    ∃ (i : Nat) (t' : SlotTable) (n' : Nat),
    allocSlotId mem t n = .ok ((i : Int), t', n') ∧ n ≤ n' ∧
    TableOk t' (some i) ∧ ∀ j, getSlot t' j = getSlot t j := by
  obtain ⟨i, t', n', hrun, hle, htaken⟩ := allocSlotId_taken (fun _ k _ => hmem (n + k)) h
  exact ⟨i, t', n', hrun, hle, htaken.ok, htaken.same⟩

/-! ## Installing and freeing a slot -/

lemma getSlot_set {t' : SlotTable} (hi : i < t.slotsSize)
    (hlen : t.slots.length = t.slotsSize) {a : Option Nat}
    (hsize : t'.slotsSize = t.slotsSize) (hslots : t'.slots = t.slots.set i a)
    (j : Int) : getSlot t' j = if j = i then a else getSlot t j := by
  rcases Int.lt_or_le j 0 with hneg | hnonneg
  · simp only [getSlot, if_pos (Or.inl hneg), if_neg (show j ≠ i by omega)]
  obtain ⟨k, rfl⟩ : ∃ k : Nat, j = k := ⟨j.toNat, by omega⟩
  rw [getSlot_nat, getSlot_nat, hsize, hslots, getD_set (hlen ▸ hi)]
  simp only [Int.natCast_inj]
  by_cases hk : k = i
  · subst hk
    simp only [if_pos hi, if_true]
  · simp only [if_neg hk]

lemma arrayIndex_nat {len : Nat} (h : i < len) : arrayIndex (i : Int) len = .ok i := by
  unfold arrayIndex
  rw [if_pos (by omega), Int.toNat_natCast]

lemma installSlot_spec (h : TableOk t (some i)) (slot : Nat) :
    ∃ t', installSlot t (i : Int) slot = .ok t' ∧ TableOk t' none ∧
    ∀ j : Int, getSlot t' j = if j = i then some slot else getSlot t j := by
  obtain ⟨hi, _⟩ := h.free i rfl
  have hbit : bitAt t.slotsBmp i = true := (h.bmp i hi).2 (Or.inr rfl)
  have hlen : i < t.slots.length := by rw [h.slotsLen]; exact hi
  refine ⟨{ t with slots := t.slots.set i (some slot) }, ?_, ?_, getSlot_set hi h.slotsLen rfl rfl⟩
  · simp only [installSlot, arrayIndex_nat hlen, ok_bind,
      getBit_eq (h.lt_bmp hi), hbit, if_true, pure_eq_ok]
  exact {
    pos := h.pos
    dvd := h.dvd
    slotsLen := (length_set).trans h.slotsLen
    bmpLen := h.bmpLen
    fullLen := h.fullLen
    bmp := by
      intro j hj
      show bitAt t.slotsBmp j = true ↔
        (t.slots.set i (some slot)).getD j none ≠ none ∨ none = some j
      rw [h.bmp j hj, getD_set hlen]
      by_cases hji : j = i
      · subst hji
        simp
      · simp [hji, Ne.symm hji]
    full := h.full
    fullTail := h.fullTail
    free := fun j hj => by simp at hj
  }

/-- `free_slot_id` of a used number, or of one that was just taken. -/
lemma freeSlotId_spec (h : TableOk t taken) (hi : i < t.slotsSize)
    (htaken : taken = none ∨ taken = some i) :
    ∃ t', freeSlotId t (i : Int) = .ok t' ∧ TableOk t' none ∧
    ∀ j : Int, getSlot t' j = if j = i then none else getSlot t j := by
  have hlen : i < t.slots.length := by rw [h.slotsLen]; exact hi
  obtain ⟨hword, hfull⟩ := h.lt_full hi
  obtain ⟨bmp, hclear, hlenB, hbits⟩ := clearBit_spec (h.lt_bmp hi)
  obtain ⟨full, hclearF, hlenF, hbitsF⟩ := clearBit_spec hfull
  refine ⟨{ t with slotsBmp := bmp, fullSlotsBmp := full,
                   slots := t.slots.set i none }, ?_, ?_,
    getSlot_set hi h.slotsLen rfl rfl⟩
  · simp only [freeSlotId, arrayIndex_nat hlen, ok_bind, hclear, hclearF, pure_eq_ok]
  exact {
    pos := h.pos
    dvd := h.dvd
    slotsLen := (length_set).trans h.slotsLen
    bmpLen := hlenB.trans h.bmpLen
    fullLen := hlenF.trans h.fullLen
    bmp := by
      intro j hj
      show bitAt bmp j = true ↔ (t.slots.set i none).getD j none ≠ none ∨ none = some j
      rw [hbits j, Bool.and_eq_true, h.bmp j hj, getD_set hlen]
      by_cases hji : j = i
      · subst hji
        simp
      · rcases htaken with rfl | rfl <;> simp [hji, Ne.symm hji]
    full := by
      intro j hj
      show bitAt full j = true ↔ ∀ k, k / bitsPerLong = j → bitAt bmp k = true
      rw [hbitsF j, Bool.and_eq_true, h.full j hj]
      by_cases hji : j = i / bitsPerLong
      · -- the word of `i` has a clear bit now
        subst hji
        constructor
        · rintro ⟨_, hne⟩
          exact absurd hne (by simp)
        · intro hall
          have := hall i rfl
          rw [hbits i] at this
          exact absurd this (by simp)
      have hsame : ∀ k, k / bitsPerLong = j → bitAt bmp k = bitAt t.slotsBmp k := by
        rintro k rfl
        have hne : k ≠ i := fun hk => hji (by rw [hk])
        rw [hbits k, decide_eq_false hne]
        simp
      constructor
      · rintro ⟨hall, _⟩ k hk
        rw [hsame k hk]
        exact hall k hk
      · intro hall
        refine ⟨?_, by simpa using hji⟩
        intro k hk
        rw [← hsame k hk]
        exact hall k hk
    fullTail := by
      intro j hj
      show bitAt full j = false
      rw [hbitsF j, h.fullTail j hj]
      rfl
    free := fun j hj => by simp at hj
  }

end ChCore.Kernel
