import Mathlib.Data.BitVec
import ChCore.Kernel.Base

/-!
# Bitmaps (`kernel/include/common/bitops.h`)

A bitmap is an array of 64-bit words. Reading or writing a word outside the
array is a fault, so that a function that returns has stayed inside it.

`bitAt` is the abstract view, a function from bit numbers to `Bool`; every
operation has one lemma that says what it does in that view.
-/

namespace ChCore.Kernel

/-- `BITS_PER_LONG`. -/
def bitsPerLong : Nat := 64

/-- `BITS_TO_LONGS`. -/
def bitsToLongs (nr : Nat) : Nat := (nr + (bitsPerLong - 1)) / bitsPerLong

/-- An array of `unsigned long`. -/
abbrev Bitmap := List (BitVec 64)

/-- `p[i]`. -/
def readWord (p : Bitmap) (i : Nat) : Exec (BitVec 64) := match p[i]? with
  | some w => .ok w
  | none => .error .outOfBounds

/-- `get_bit_in_slot`. -/
def getBitInSlot (slot : BitVec 64) (bit : Nat) : BitVec 64 := slot &&& (1#64 <<< bit)

/-- `set_bit`. -/
def setBit (nr : Nat) (p : Bitmap) : Exec Bitmap := do
  let w ← readWord p (nr / bitsPerLong)
  return p.set (nr / bitsPerLong) (w ||| (1#64 <<< (nr % bitsPerLong)))

/-- `get_bit`. -/
def getBit (nr : Nat) (p : Bitmap) : Exec Bool := do
  let w ← readWord p (nr / bitsPerLong)
  return (w >>> (nr % bitsPerLong)) &&& 1#64 ≠ 0#64

/-- `clear_bit`. -/
def clearBit (nr : Nat) (p : Bitmap) : Exec Bitmap := do
  let w ← readWord p (nr / bitsPerLong)
  return p.set (nr / bitsPerLong) (w &&& ~~~(1#64 <<< (nr % bitsPerLong)))

/-- The inner loop of `find_next_bit_helper`: look at `bits` bits of word
`elem` from `curBit` on. The flag tells a hit from the end of the loop. -/
def scanBits (p : Bitmap) (elem : Nat) (invert : Bool) : Nat → Nat → Nat → Exec (Bool × Nat)
  | 0, _, res => .ok (false, res)
  | bits + 1, curBit, res => do
    let w ← readWord p elem
    let curBitValue := getBitInSlot w curBit
    if (if invert then curBitValue = 0#64 else curBitValue ≠ 0#64) then
      return (true, res)
    else scanBits p elem invert bits (curBit + 1) (res + 1)

/-- `size - 1` for an unsigned `size`. -/
def lastBit (size : Nat) : Nat := if size = 0 then 2 ^ 64 - 1 else size - 1

/-- The outer loop of `find_next_bit_helper`, with the number of words that
are left. -/
def scanElems (p : Bitmap) (size maxElem : Nat) (invert : Bool) : Nat → Nat → Nat → Nat → Exec Nat
  | 0, _, _, _ => .ok size
  | elems + 1, elem, curBit, res => do
    let maxBit := if elem < maxElem then bitsPerLong - 1
      else lastBit size % bitsPerLong
    let (found, res) ← scanBits p elem invert (maxBit + 1 - curBit) curBit res
    if found then return res
    else scanElems p size maxElem invert elems (elem + 1) 0 res

/-- `find_next_bit_helper`. -/
def findNextBitHelper (p : Bitmap) (size start : Nat) (invert : Bool) : Exec Nat :=
  let maxElem := lastBit size / bitsPerLong
  scanElems p size maxElem invert (maxElem + 1 - start / bitsPerLong)
    (start / bitsPerLong) (start % bitsPerLong) start

/-- `find_next_zero_bit`. -/
def findNextZeroBit (p : Bitmap) (size start : Nat) : Exec Nat :=
  findNextBitHelper p size start true

/-- `find_next_bit`. -/
def findNextBit (p : Bitmap) (size start : Nat) : Exec Nat := findNextBitHelper p size start false

/-! ## The abstract view -/

/-- Bit `i` of a bitmap; bits outside it are clear. -/
def bitAt (p : Bitmap) (i : Nat) : Bool := (p.getD (i / bitsPerLong) 0#64).getLsbD (i % bitsPerLong)

variable {p : Bitmap} {i : Nat}

lemma readWord_eq (h : i < p.length) : readWord p i = .ok (p.getD i 0#64) := by
  unfold readWord
  rw [List.getD_eq_getElem?_getD, List.getElem?_eq_getElem h]
  rfl

lemma word_lt (h : i < bitsPerLong * p.length) : i / bitsPerLong < p.length := by
  unfold bitsPerLong at *
  omega

lemma getBitInSlot_ne_zero (w : BitVec 64) (hi : i < 64) :
    getBitInSlot w i ≠ 0#64 ↔ w.getLsbD i = true := by
  rw [getBitInSlot, ← BitVec.twoPow_eq, BitVec.and_twoPow]
  have hne : BitVec.twoPow 64 i ≠ 0#64 := by
    intro h
    have := congrArg (fun v => v.getLsbD i) h
    simp [hi] at this
  cases w.getLsbD i with
  | true => simpa using hne
  | false => simp

lemma getBit_eq (h : i < bitsPerLong * p.length) : getBit i p = .ok (bitAt p i) := by
  unfold getBit bitAt
  rw [readWord_eq (word_lt h), ok_bind,
    BitVec.and_one_eq_setWidth_ofBool_getLsbD, BitVec.getLsbD_ushiftRight,
    add_zero]
  cases (p.getD (i / bitsPerLong) 0#64).getLsbD (i % bitsPerLong) <;> rfl

/-- Rewriting one word changes the bits of that word only. -/
lemma bitAt_set (h : i < p.length) (w : BitVec 64) (j : Nat) : bitAt (p.set i w) j =
    if j / bitsPerLong = i then w.getLsbD (j % bitsPerLong) else bitAt p j := by
  unfold bitAt
  rw [List.getD_eq_getElem?_getD, List.getD_eq_getElem?_getD]
  by_cases hj : j / bitsPerLong = i
  · rw [if_pos hj, hj, List.getElem?_set_self h, Option.getD_some]
  · rw [if_neg hj, List.getElem?_set_ne (Ne.symm hj)]

lemma setBit_spec (h : i < bitsPerLong * p.length) : ∃ q, setBit i p = .ok q ∧ q.length = p.length ∧
    ∀ j, bitAt q j = (bitAt p j || decide (j = i)) := by
  have hw := word_lt h
  refine ⟨_, by rw [setBit, readWord_eq hw, ok_bind]; rfl, List.length_set, ?_⟩
  intro j
  rw [bitAt_set hw]
  by_cases hj : j / bitsPerLong = i / bitsPerLong
  · have hlt : j % bitsPerLong < 64 := Nat.mod_lt _ (by decide)
    rw [if_pos hj, bitAt, hj]
    by_cases hij : j = i
    · subst hij
      simp [hlt]
    have hm : j % bitsPerLong ≠ i % bitsPerLong := by
      unfold bitsPerLong at *
      omega
    simp [hij]
    omega
  · have hij : j ≠ i := by
      rintro rfl
      exact hj rfl
    simp [hj, hij]

lemma clearBit_spec (h : i < bitsPerLong * p.length) :
    ∃ q, clearBit i p = .ok q ∧ q.length = p.length ∧
    ∀ j, bitAt q j = (bitAt p j && !decide (j = i)) := by
  have hw := word_lt h
  refine ⟨_, by rw [clearBit, readWord_eq hw, ok_bind]; rfl, List.length_set, ?_⟩
  intro j
  rw [bitAt_set hw]
  by_cases hj : j / bitsPerLong = i / bitsPerLong
  · have hlt : j % bitsPerLong < 64 := Nat.mod_lt _ (by decide)
    rw [if_pos hj, bitAt, hj]
    by_cases hij : j = i
    · subst hij
      simp [hlt]
    have hm : j % bitsPerLong ≠ i % bitsPerLong := by
      unfold bitsPerLong at *
      omega
    simp [hij, hlt]
    omega
  · have hij : j ≠ i := by
      rintro rfl
      exact hj rfl
    simp [hj, hij]

/-! ## The search -/

/-- `r` is the first place from `start` on where the bitmap differs from
`skip`, or `size` when there is none below `size`. -/
structure FirstAt (p : Bitmap) (size start : Nat) (skip : Bool) (r : Nat) : Prop where
  le : r ≤ size
  below : ∀ j, start ≤ j → j < r → bitAt p j = skip
  hit : r < size → start ≤ r ∧ bitAt p r = !skip

lemma scanBits_spec {elem : Nat} (helem : elem < p.length) (invert : Bool) (bits : Nat) :
    ∀ curBit res, curBit + bits ≤ bitsPerLong → res = elem * bitsPerLong + curBit →
    ∃ found r, scanBits p elem invert bits curBit res = .ok (found, r) ∧
    res ≤ r ∧ (∀ j, res ≤ j → j < r → bitAt p j = invert) ∧
    if found then r < res + bits ∧ bitAt p r = !invert else r = res + bits := by
  induction bits with
  | zero =>
    intro curBit res _ _
    refine ⟨false, res, rfl, le_refl res, ?_, rfl⟩
    intro j hle hlt
    omega
  | succ bits ih =>
    intro curBit res hbits hres
    have hcur : curBit < 64 := by
      unfold bitsPerLong at hbits
      omega
    have hbit : bitAt p res = (p.getD elem 0#64).getLsbD curBit := by
      have h1 : res / bitsPerLong = elem := by
        unfold bitsPerLong at *
        omega
      have h2 : res % bitsPerLong = curBit := by
        unfold bitsPerLong at *
        omega
      rw [bitAt, h1, h2]
    have hcond : (if invert then getBitInSlot (p.getD elem 0#64) curBit = 0#64
        else getBitInSlot (p.getD elem 0#64) curBit ≠ 0#64) ↔
        bitAt p res = !invert := by
      rw [hbit]
      have hne := getBitInSlot_ne_zero (p.getD elem 0#64) hcur
      cases invert with
      | true => rw [if_pos rfl, Bool.not_true, ← Bool.not_eq_true, ← hne, not_ne_iff]
      | false => simpa using hne
    unfold scanBits
    rw [readWord_eq helem, ok_bind]
    by_cases hhit : bitAt p res = !invert
    · refine ⟨true, res, ?_, le_refl res, ?_, by omega, hhit⟩
      · simp only [if_pos (hcond.2 hhit), pure_eq_ok]
      intro j hle hlt
      omega
    obtain ⟨found, r, hrun, hle, hskip, hend⟩ := ih (curBit + 1) (res + 1) (by omega) (by omega)
    refine ⟨found, r, ?_, by omega, ?_, ?_⟩
    · simp only [if_neg (fun hc => hhit (hcond.1 hc)), hrun]
    · intro j hj hlt
      rcases Nat.eq_or_lt_of_le hj with rfl | hgt
      · simpa using hhit
      · exact hskip j (by omega) hlt
    cases found with
    | true => exact ⟨by have := hend.1; omega, hend.2⟩
    | false =>
      have : r = res + 1 + bits := hend
      show r = res + (bits + 1)
      omega

lemma scanElems_spec {size : Nat} (hpos : 0 < size)
    (hsize : size ≤ bitsPerLong * p.length) (invert : Bool) (elems : Nat) :
    ∀ elem curBit res, elem + elems = (size - 1) / bitsPerLong + 1 →
    curBit < bitsPerLong → res = elem * bitsPerLong + curBit →
    ∃ r, scanElems p size ((size - 1) / bitsPerLong) invert elems elem
    curBit res = .ok r ∧ FirstAt p size res invert r := by
  have hlast : lastBit size = size - 1 := if_neg (by omega)
  induction elems with
  | zero =>
    intro elem curBit res helems hcur hres
    refine ⟨size, rfl, le_refl size, ?_, fun h => by omega⟩
    intro j hle hj
    unfold bitsPerLong at *
    omega
  | succ elems ih =>
    intro elem curBit res helems hcur hres
    have helem : elem < p.length := by
      unfold bitsPerLong at *
      omega
    -- the bits of this word that belong to the bitmap
    have hmax : (if elem < (size - 1) / bitsPerLong then bitsPerLong - 1
        else (size - 1) % bitsPerLong) + 1 =
        min bitsPerLong (size - elem * bitsPerLong) := by
      unfold bitsPerLong at *
      split <;> omega
    obtain ⟨found, r, hrun, hle, hskip, hend⟩ := scanBits_spec helem invert
        (min bitsPerLong (size - elem * bitsPerLong) - curBit) curBit res
        (by omega) hres
    simp only [scanElems, hlast, hmax, hrun, ok_bind]
    cases found with
    | true =>
      obtain ⟨hr, hhit⟩ := hend
      refine ⟨r, rfl, by omega, hskip, fun _ => ⟨hle, hhit⟩⟩
    | false =>
      have hr : r = res + (min bitsPerLong (size - elem * bitsPerLong) - curBit) := hend
      rcases Nat.eq_zero_or_pos elems with hz | hmore
      · -- that was the last word
        subst hz
        refine ⟨size, rfl, le_refl size, ?_, fun h => by omega⟩
        intro j hj hjs
        refine hskip j hj ?_
        unfold bitsPerLong at *
        omega
      have hnext : r = (elem + 1) * bitsPerLong + 0 := by
        unfold bitsPerLong at *
        omega
      obtain ⟨r', hrun', hfirst⟩ := ih (elem + 1) 0 r (by omega) (by decide) hnext
      refine ⟨r', by simpa using hrun', hfirst.le, ?_, ?_⟩
      · intro j hj hlt'
        by_cases hjr : j < r
        · exact hskip j hj hjr
        · exact hfirst.below j (by omega) hlt'
      · intro h
        have := hfirst.hit h
        exact ⟨by omega, this.2⟩

/-- `find_next_bit_helper` stays inside the words of the first `size` bits and
returns the first bit it looks for. -/
lemma findNextBitHelper_spec {size : Nat} (hpos : 0 < size)
    (hsize : size ≤ bitsPerLong * p.length) (start : Nat) (invert : Bool) :
    ∃ r, findNextBitHelper p size start invert = .ok r ∧ FirstAt p size start invert r := by
  have hlast : lastBit size = size - 1 := if_neg (by omega)
  simp only [findNextBitHelper, hlast]
  by_cases hout : (size - 1) / bitsPerLong < start / bitsPerLong
  · have hz : (size - 1) / bitsPerLong + 1 - start / bitsPerLong = 0 := by omega
    rw [hz]
    refine ⟨size, rfl, le_refl size, ?_, fun h => by omega⟩
    intro j hle hj
    unfold bitsPerLong at *
    omega
  · refine scanElems_spec hpos hsize invert _ _ _ start (by omega) (Nat.mod_lt _ (by decide)) ?_
    unfold bitsPerLong
    omega

/-- A word is all ones when each of its bits is set. -/
lemma word_full_iff (p : Bitmap) (j : Nat) : p.getD j 0#64 = ~~~0#64 ↔
    ∀ i, i / bitsPerLong = j → bitAt p i = true := by
  constructor
  · intro h i hi
    have hlt : i % bitsPerLong < 64 := Nat.mod_lt _ (by decide)
    rw [bitAt, hi, h, BitVec.getLsbD_not, BitVec.getLsbD_zero]
    simpa using hlt
  · intro h
    apply BitVec.eq_of_getLsbD_eq
    intro i hi
    have hbit := h (j * bitsPerLong + i) (by unfold bitsPerLong; omega)
    have h1 : (j * bitsPerLong + i) / bitsPerLong = j := by
      unfold bitsPerLong
      omega
    have h2 : (j * bitsPerLong + i) % bitsPerLong = i := by
      unfold bitsPerLong
      omega
    rw [bitAt, h1, h2] at hbit
    rw [hbit, BitVec.getLsbD_not, BitVec.getLsbD_zero]
    simpa using hi

/-! ## All set bits -/

/-- `for_each_set_bit` from `start` on, with the bits that it visits. -/
def setBitsFrom (p : Bitmap) (size : Nat) : Nat → Nat → Exec (List Nat)
  | 0, _ => .error .bug
  | rounds + 1, start => do
    let pos ← findNextBit p size start
    if pos < size then return pos :: (← setBitsFrom p size rounds (pos + 1))
    else return []

/-- `for_each_set_bit`. -/
def forEachSetBit (p : Bitmap) (size : Nat) : Exec (List Nat) := setBitsFrom p size (size + 1) 0

lemma setBitsFrom_eq {size : Nat} (hpos : 0 < size) (hsize : size ≤ bitsPerLong * p.length)
    (rounds : Nat) : ∀ start ≤ size, size < start + rounds →
    setBitsFrom p size rounds start = .ok ((List.range' start (size - start)).filter (bitAt p)) := by
  induction rounds with
  | zero =>
    intro start hle hlt
    omega
  | succ rounds ih =>
    intro start hle hlt
    obtain ⟨r, hrun, hfirst⟩ := findNextBitHelper_spec hpos hsize start false
    have hskip : ∀ n, n ≤ r - start → (List.range' start n).filter (bitAt p) = [] := by
      intro n hn
      rw [List.filter_eq_nil_iff]
      intro j hj
      rw [List.mem_range'_1] at hj
      simp [hfirst.below j hj.1 (by omega)]
    rw [setBitsFrom, findNextBit, hrun, ok_bind]
    by_cases hr : r < size
    · obtain ⟨hge, hbit⟩ := hfirst.hit hr
      rw [if_pos hr, ih (r + 1) hr (by omega), ok_bind, show size - start =
        (r - start) + (size - (r + 1) + 1) by omega, ← List.range'_append_1, List.filter_append,
        hskip _ le_rfl, show start + (r - start) = r by omega, List.range'_succ]
      simp [hbit]
    · rw [if_neg hr, hskip _ (by have := hfirst.le; omega)]
      rfl

/-- **The search for a bit**, in an array of just the words that hold the first
`size` bits: it stays inside, and finds the first bit that it looks for. -/
theorem find_next_bit_first {size : Nat} (hpos : 0 < size) (hmax : size < 2 ^ 31)
    (hlen : p.length = bitsToLongs size) (start : Nat) :
    (∃ r, findNextZeroBit p size start = .ok r ∧ r < 2 ^ 31 ∧ FirstAt p size start true r) ∧
    (∃ r, findNextBit p size start = .ok r ∧ r < 2 ^ 31 ∧ FirstAt p size start false r) ∧
    forEachSetBit p size = .ok ((List.range size).filter (bitAt p)) := by
  have hsize : size ≤ bitsPerLong * p.length := by
    rw [hlen]
    unfold bitsToLongs bitsPerLong
    omega
  obtain ⟨r, hzero, hfirst⟩ := findNextBitHelper_spec hpos hsize start true
  obtain ⟨r', hone, hfirst'⟩ := findNextBitHelper_spec hpos hsize start false
  refine ⟨⟨r, hzero, lt_of_le_of_lt hfirst.le hmax, hfirst⟩,
    ⟨r', hone, lt_of_le_of_lt hfirst'.le hmax, hfirst'⟩, ?_⟩
  rw [forEachSetBit, setBitsFrom_eq hpos hsize _ 0 (by omega) (by omega), List.range_eq_range', Nat.sub_zero]

/-- Two words, of which 70 bits are in use. -/
theorem find_next_bit_first_two_words : forEachSetBit [5#64, 0xff#64] 70 =
    .ok ((List.range 70).filter (bitAt [5#64, 0xff#64])) :=
  (find_next_bit_first (by decide) (by decide) rfl 0).2.2

end ChCore.Kernel
