import Mathlib.Data.Nat.Bitwise
import Mathlib.Data.BitVec

/-!
# Bit fields of a 64-bit word

A field is a number of bits from a lowest one on, as in a C structure of bit
fields. `getLsbD_setField` says what writing a field does to every bit, and
the other lemmas follow from it.
-/

namespace ChCore.Lib.BitField

/-- Read the `n` bits from bit `lo` on. -/
def getField (w : BitVec 64) (lo n : Nat) : Nat := (w >>> lo).toNat % 2 ^ n

/-- Write the low `n` bits of `v` to the `n` bits from bit `lo` on. -/
def setField (w : BitVec 64) (lo n v : Nat) : BitVec 64 :=
  (w &&& ~~~(BitVec.ofNat 64 (2 ^ n - 1) <<< lo)) |||
    (BitVec.ofNat 64 (v % 2 ^ n) <<< lo)

variable {lo n : Nat}

lemma getLsbD_setField (w : BitVec 64) (h : lo + n ≤ 64) (v i : Nat) :
    (setField w lo n v).getLsbD i =
    if lo ≤ i ∧ i < lo + n then v.testBit (i - lo) else w.getLsbD i := by
  by_cases hi : i < 64
  · simp only [setField, BitVec.getLsbD_or, BitVec.getLsbD_and,
      BitVec.getLsbD_not, BitVec.getLsbD_shiftLeft, BitVec.getLsbD_ofNat,
      Nat.testBit_two_pow_sub_one, Nat.testBit_mod_two_pow, hi]
    by_cases hlo : i < lo
    · simp [hlo, Nat.not_le.2 hlo]
    have hlt : i - lo < 64 := by omega
    by_cases hn : i < lo + n
    · have h1 : i - lo < n := by omega
      simp [hlo, Nat.not_lt.1 hlo, hn, hlt, h1]
    have h1 : ¬ i - lo < n := by omega
    simp [hn, h1]
  · have hge : 64 ≤ i := Nat.not_lt.1 hi
    rw [BitVec.getLsbD_of_ge _ _ hge, BitVec.getLsbD_of_ge _ _ hge, if_neg (by omega)]

lemma testBit_getField (w : BitVec 64) (lo n i : Nat) :
    (getField w lo n).testBit i = (decide (i < n) && w.getLsbD (lo + i)) := by
  rw [getField, Nat.testBit_mod_two_pow, BitVec.testBit_toNat, BitVec.getLsbD_ushiftRight]

lemma getField_setField_self (w : BitVec 64) (h : lo + n ≤ 64) (v : Nat) :
    getField (setField w lo n v) lo n = v % 2 ^ n := by
  apply Nat.eq_of_testBit_eq
  intro i
  rw [testBit_getField, getLsbD_setField w h, Nat.testBit_mod_two_pow]
  by_cases hi : i < n
  · rw [if_pos (by omega), Nat.add_sub_cancel_left]
  · simp [hi]

/-- Writing a field leaves the fields beside it alone. -/
lemma getField_setField_of_disjoint (w : BitVec 64) {lo' n' : Nat}
    (h : lo' + n' ≤ 64) (hdisj : lo + n ≤ lo' ∨ lo' + n' ≤ lo) (v : Nat) :
    getField (setField w lo' n' v) lo n = getField w lo n := by
  apply Nat.eq_of_testBit_eq
  intro i
  rw [testBit_getField, testBit_getField, getLsbD_setField w h]
  by_cases hi : i < n
  · rw [if_neg (by omega)]
  · simp [hi]

/-! ## Several fields -/

/-- A write to a field. -/
structure FieldWrite where
  lo : Nat
  n : Nat
  v : Nat

/-- Bit `i` belongs to the field. -/
def FieldWrite.Has (f : FieldWrite) (i : Nat) : Prop := f.lo ≤ i ∧ i < f.lo + f.n

/-- Write the fields from left to right. -/
def setFields (w : BitVec 64) (l : List FieldWrite) : BitVec 64 :=
  l.foldl (fun w f => setField w f.lo f.n f.v) w

variable {l : List FieldWrite} (hl : ∀ f ∈ l, f.lo + f.n ≤ 64)

include hl in
/-- Two words that agree on the bits that are not written agree afterwards. -/
lemma getLsbD_setFields_congr (i : Nat) :
    ∀ w w' : BitVec 64, ((∃ f ∈ l, f.Has i) ∨ w.getLsbD i = w'.getLsbD i) →
    (setFields w l).getLsbD i = (setFields w' l).getLsbD i := by
  induction l with
  | nil =>
    intro w w' h
    rcases h with ⟨f, hf, _⟩ | h
    · exact absurd hf (by simp)
    · exact h
  | cons f l ih =>
    intro w w' h
    have hf := hl f List.mem_cons_self
    refine ih (fun g hg => hl g (List.mem_cons_of_mem _ hg))
      (setField w f.lo f.n f.v) (setField w' f.lo f.n f.v) ?_
    rw [getLsbD_setField w hf, getLsbD_setField w' hf]
    by_cases hhas : f.lo ≤ i ∧ i < f.lo + f.n
    · rw [if_pos hhas, if_pos hhas]
      exact .inr rfl
    rw [if_neg hhas, if_neg hhas]
    rcases h with ⟨g, hg, hgi⟩ | h
    · rcases List.mem_cons.1 hg with rfl | hg'
      · exact absurd hgi hhas
      · exact .inl ⟨g, hg', hgi⟩
    · exact .inr h

include hl in
/-- A bit of no field keeps its value. -/
lemma getLsbD_setFields_of_not (i : Nat) (h : ∀ f ∈ l, ¬ f.Has i) :
    ∀ w : BitVec 64, (setFields w l).getLsbD i = w.getLsbD i := by
  induction l with
  | nil =>
    intro w
    rfl
  | cons f l ih =>
    intro w
    have hrest := ih (fun g hg => hl g (List.mem_cons_of_mem _ hg))
      (fun g hg => h g (List.mem_cons_of_mem _ hg))
      (setField w f.lo f.n f.v)
    have hnot : ¬ (f.lo ≤ i ∧ i < f.lo + f.n) := h f List.mem_cons_self
    rw [getLsbD_setField w (hl f List.mem_cons_self), if_neg hnot] at hrest
    exact hrest

include hl in
/-- A field that is disjoint from all that are written keeps its value. -/
lemma getField_setFields (w : BitVec 64) (h : ∀ f ∈ l, lo + n ≤ f.lo ∨ f.lo + f.n ≤ lo) :
    getField (setFields w l) lo n = getField w lo n := by
  apply Nat.eq_of_testBit_eq
  intro i
  rw [testBit_getField, testBit_getField]
  by_cases hi : i < n
  · rw [getLsbD_setFields_of_not hl]
    intro f hf hhas
    have := h f hf
    unfold FieldWrite.Has at hhas
    omega
  · simp [hi]

end ChCore.Lib.BitField
