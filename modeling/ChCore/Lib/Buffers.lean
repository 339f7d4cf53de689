import Mathlib.Data.List.Basic

/-!
# Texts in a buffer

A buffer is a list that is read by position. Two things are done with it
here: pieces of it are overwritten in place (`splice`), and it is searched for
the next separator (`seek`). A buffer that holds pieces, each ended by the
separator, is searched piece by piece: `seek_piece`, `slice_piece` and
`drop_piece` say what is found in front of such a buffer, cut out of it, and
left of it.
-/

namespace ChCore.Lib.Buffers

open List

variable {α : Type}

/-! ## Overwriting a part -/

/-- `xs` with the elements from `pos` on overwritten by `ys`. -/
def splice (xs : List α) (pos : Nat) (ys : List α) : List α :=
  xs.take pos ++ ys ++ xs.drop (pos + ys.length)

section

variable {xs ys zs : List α} {pos : Nat}

lemma length_splice (h : pos ≤ xs.length) :
    (splice xs pos ys).length = max xs.length (pos + ys.length) := by
  rw [splice, length_append, length_append, length_take, length_drop]
  omega

/-- The elements that are written, and those around them. -/
lemma getElem?_splice (h : pos ≤ xs.length) (i : Nat) :
    (splice xs pos ys)[i]? = if pos ≤ i ∧ i < pos + ys.length then ys[i - pos]? else xs[i]? := by
  have htake : (xs.take pos).length = pos := by rw [length_take, Nat.min_eq_left h]
  by_cases hlo : i < pos
  · rw [if_neg (by omega), splice, append_assoc,
      List.getElem?_append_left (by omega), List.getElem?_take_of_lt hlo]
  rw [splice, append_assoc, List.getElem?_append_right (by omega), htake]
  by_cases hhi : i < pos + ys.length
  · rw [if_pos (by omega), List.getElem?_append_left (by omega)]
  rw [if_neg (by omega), List.getElem?_append_right (by omega), List.getElem?_drop]
  congr 1
  omega

/-- Two parts that lie one after the other are overwritten like one part. -/
lemma splice_splice (h : pos + ys.length ≤ xs.length) :
    splice (splice xs pos ys) (pos + ys.length) zs = splice xs pos (ys ++ zs) := by
  have htake : (xs.take pos ++ ys).length = pos + ys.length := by
    rw [length_append, length_take]
    omega
  have hfront : (splice xs pos ys).take (pos + ys.length) = xs.take pos ++ ys := by
    rw [splice, ← htake, take_left]
  have hback : (splice xs pos ys).drop (pos + ys.length + zs.length) =
      xs.drop (pos + (ys ++ zs).length) := by
    rw [splice, drop_append, htake, drop_eq_nil_of_le (by omega),
      nil_append, drop_drop, length_append]
    congr 1
    omega
  rw [splice, hfront, hback, splice, append_assoc (xs.take pos)]

/-- Overwriting behind a text that is followed by `n` copies of one element. -/
lemma splice_text {text : List α} {n : Nat} {a : α} :
    splice (text ++ List.replicate n a) text.length ys =
    text ++ ys ++ List.replicate (n - ys.length) a := by
  rw [splice, take_left, drop_append, Nat.add_sub_cancel_left,
    drop_eq_nil_of_le (by omega), nil_append, drop_replicate]

end

/-! ## Searching for a separator -/

/-- The elements from position `first` up to position `last`. -/
def slice (xs : List α) (first last : Nat) : List α := (xs.drop first).take (last - first)

variable [DecidableEq α] {sep : α}

/-- The position of the first separator in `xs`, whose first element is at
`pos`; the position behind `xs` if there is none. -/
def seek (sep : α) : List α → Nat → Nat
  | [], pos => pos
  | x :: xs, pos => if x = sep then pos else seek sep xs (pos + 1)

variable {xs : List α}

lemma seek_absent (h : sep ∉ xs) : ∀ pos, seek sep xs pos = pos + xs.length := by
  induction xs with
  | nil =>
    intro pos
    rfl
  | cons x xs ih =>
    intro pos
    rw [mem_cons, not_or] at h
    rw [seek, if_neg (Ne.symm h.1), ih h.2, length_cons]
    omega

variable {t rest : List α}

lemma seek_piece (h : sep ∉ t) : ∀ pos, seek sep (t ++ sep :: rest) pos = pos + t.length := by
  induction t with
  | nil =>
    intro pos
    rw [nil_append, seek, if_pos rfl, length_nil, Nat.add_zero]
  | cons x xs ih =>
    intro pos
    rw [mem_cons, not_or] at h
    rw [cons_append, seek, if_neg (Ne.symm h.1), ih h.2, length_cons]
    omega

variable {pos : Nat}

omit [DecidableEq α] in
lemma slice_piece (h : xs.drop pos = t ++ sep :: rest) : slice xs pos (pos + t.length) = t := by
  rw [slice, h, Nat.add_sub_cancel_left, take_left]

omit [DecidableEq α] in
lemma drop_piece (h : xs.drop pos = t ++ sep :: rest) : xs.drop (pos + t.length + 1) = rest := by
  have hsplit : t ++ sep :: rest = (t ++ [sep]) ++ rest := by rw [append_assoc, singleton_append]
  have hlen : t.length + 1 = (t ++ [sep]).length := by rw [length_append, length_singleton]
  rw [Nat.add_assoc, ← drop_drop, h, hsplit, hlen, drop_left]

omit [DecidableEq α] in
/-- The separator behind a piece lies in the buffer. -/
lemma piece_lt_length (h : xs.drop pos = t ++ sep :: rest) : pos + t.length < xs.length := by
  have hlen := congrArg List.length h
  rw [length_drop, length_append, length_cons] at hlen
  omega

end ChCore.Lib.Buffers
