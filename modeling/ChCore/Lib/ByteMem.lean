import Mathlib.Algebra.Order.Ring.Int

/-!
# Byte-addressed memory

Memory is a function from addresses to bytes. Numbers are kept in it in
little-endian order. What a program proof needs is that a number that was
stored is loaded again (`load_store`), and that loads from other bytes do not
see the store (`load_store_of_apart`, `store_of_outside`).
-/

namespace ChCore.Lib.ByteMem

open Function

abbrev Mem := Nat → UInt8

/-- The number in the `n` bytes from `a` on. -/
def load (m : Mem) : Nat → Nat → Nat
  | _, 0 => 0
  | a, n + 1 => (m a).toNat + 256 * load m (a + 1) n

/-- The low `n` bytes of `v` are stored from `a` on. -/
def store (m : Mem) : Nat → Nat → Nat → Mem
  | _, 0, _ => m
  | a, n + 1, v =>
    store (update m a (UInt8.ofNat v)) (a + 1) n (v / 256)

/-- A store changes no byte outside of its range. -/
lemma store_of_outside (n : Nat) :
    ∀ (m : Mem) (a v x : Nat), x < a ∨ a + n ≤ x → store m a n v x = m x := by
  induction n with
  | zero =>
    intro m a v x _
    rfl
  | succ n ih =>
    intro m a v x hx
    rw [store, ih _ _ _ _ (by omega), update_of_ne (by omega)]

/-- A load depends on the bytes of its range only. -/
lemma load_congr (n : Nat) : ∀ {m m' : Mem} {a : Nat}, (∀ x, a ≤ x → x < a + n → m' x = m x) →
    load m' a n = load m a n := by
  induction n with
  | zero =>
    intro m m' a _
    rfl
  | succ n ih =>
    intro m m' a h
    rw [load, load, h a le_rfl (by omega), ih fun x hlo hhi => h x (by omega) (by omega)]

variable {m : Mem} {a n b : Nat}

lemma load_store_of_apart {k v : Nat} (h : b + k ≤ a ∨ a + n ≤ b) :
    load (store m a n v) b k = load m b k :=
  load_congr k fun x _ _ => store_of_outside n m a v x (by omega)

lemma load_store (n : Nat) : ∀ (m : Mem) (a v : Nat), load (store m a n v) a n = v % 256 ^ n := by
  induction n with
  | zero =>
    intro m a v
    rw [load, Nat.pow_zero, Nat.mod_one]
  | succ n ih =>
    intro m a v
    rw [load, store, ih, store_of_outside _ _ _ _ _ (by omega), update_self, UInt8.toNat_ofNat']
    have hpow : (256 : Nat) ^ (n + 1) = 256 * 256 ^ n := Nat.pow_succ'
    rw [hpow, Nat.mod_mul]

/-- A number that fits is loaded as it was stored. -/
lemma load_store_of_lt {v : Nat} (h : v < 256 ^ n) : load (store m a n v) a n = v := by
  rw [load_store, Nat.mod_eq_of_lt h]

lemma load_lt (n : Nat) : ∀ (m : Mem) (a : Nat), load m a n < 256 ^ n := by
  induction n with
  | zero =>
    intro m a
    exact Nat.one_pos
  | succ n ih =>
    intro m a
    have hbyte := (m a).toNat_lt
    have hrest := ih m (a + 1)
    rw [load, Nat.pow_succ]
    omega

/-- The bytes `[x, x + n)` are the same in both memories. -/
def SameOn (m m' : Mem) (x n : Nat) : Prop := ∀ y, x ≤ y → y < x + n → m' y = m y

lemma SameOn.refl (m : Mem) (x n : Nat) : SameOn m m x n := fun _ _ _ => rfl

variable {x : Nat}

lemma SameOn.trans {m' m'' : Mem} (h : SameOn m m' x n)
    (h' : SameOn m' m'' x n) : SameOn m m'' x n :=
  fun y hlo hhi => (h' y hlo hhi).trans (h y hlo hhi)

lemma SameOn.load {m' : Mem} {k : Nat} (h : SameOn m m' x n) (hlo : x ≤ a) (hhi : a + k ≤ x + n) :
    ByteMem.load m' a k = ByteMem.load m a k :=
  load_congr k fun y _ _ => h y (by omega) (by omega)

/-! ## Blocks of bytes -/

/-- `n` bytes of `src` from `b` on are copied to `a`. -/
def copy (m : Mem) (a : Nat) (src : Mem) (b n : Nat) : Mem :=
  fun x => if a ≤ x ∧ x < a + n then src (b + (x - a)) else m x

/-- The `n` bytes from `a` on are set to `v`. -/
def fill (m : Mem) (a n : Nat) (v : UInt8) : Mem := fun x => if a ≤ x ∧ x < a + n then v else m x

lemma copy_of_inside {src : Mem} {i : Nat} (h : i < n) :
    copy m a src b n (a + i) = src (b + i) := by
  rw [copy, if_pos (by omega), Nat.add_sub_cancel_left]

lemma copy_of_outside {src : Mem} (h : x < a ∨ a + n ≤ x) : copy m a src b n x = m x := by
  rw [copy, if_neg (by omega)]

lemma fill_of_inside {i : Nat} {v : UInt8} (h : i < n) : fill m a n v (a + i) = v := by
  rw [fill, if_pos (by omega)]

lemma fill_of_outside {v : UInt8} (h : x < a ∨ a + n ≤ x) : fill m a n v x = m x := by
  rw [fill, if_neg (by omega)]

end ChCore.Lib.ByteMem
