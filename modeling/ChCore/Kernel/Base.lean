import Mathlib.Algebra.Order.Ring.Int
import ChCore.Lib.Faults

/-!
# Common ground of the kernel model

`BUG_ON` and `BUG` print a line and loop forever, so a function that reaches
one never returns. The model makes that explicit: every kernel function that
can halt, or that can follow a bad pointer, returns in `Exec`.
-/

namespace ChCore.Kernel

/-- Why a kernel function does not return to its caller. -/
inductive Fault
  /-- A `BUG_ON` or `BUG` was hit: the kernel loops forever. -/
  | bug
  /-- A null pointer was followed. -/
  | nullDeref
  /-- An array was indexed outside its bounds. -/
  | outOfBounds
  deriving DecidableEq, Repr

/-- Result of a kernel function that may halt. -/
abbrev Exec (α : Type) := Except Fault α

/-- Results can be compared, so that small runs can be checked. -/
instance decidableEqExcept {ε α : Type} [DecidableEq ε] [DecidableEq α] : DecidableEq (Except ε α)
  | .ok a, .ok b | .error a, .error b => decidable_of_iff (a = b) (by simp)
  | .ok _, .error _ | .error _, .ok _ => isFalse (by simp)

/-! ## Error codes -/

/-- `ENOENT`. -/
def enoent : Int := 2

/-- `EAGAIN`. -/
def eagain : Int := 11

/-- `ENOMEM`. -/
def enomem : Int := 12

/-- `EINVAL`. -/
def einval : Int := 22

/-- `ECAPBILITY`. -/
def ecapbility : Int := 200

/-! ## Sequencing -/

section

variable {α : Type}

export Lib.Faults (ok_bind error_bind bind_eq_ok)

@[simp] lemma pure_eq_ok (a : α) : (pure a : Exec α) = .ok a := rfl

/-- What comes behind a check that ends in an error. -/
lemma guard_eq_ok {ε : Type} {c : Prop} [Decidable c] {e : ε} {x : Except ε α} {a : α}
    (h : (if c then .error e else x) = .ok a) : ¬ c ∧ x = .ok a := by
  by_cases hc : c
  · rw [if_pos hc] at h
    cases h
  rw [if_neg hc] at h
  exact ⟨hc, h⟩

end

/-! ## Machine words -/

/-- Reduction to the value of an unsigned 64-bit variable. -/
def u64 (n : Nat) : Nat := n % 2 ^ 64

@[simp] lemma u64_of_lt {n : Nat} (h : n < 2 ^ 64) : u64 n = n := Nat.mod_eq_of_lt h

lemma u64_lt (n : Nat) : u64 n < 2 ^ 64 := Nat.mod_lt _ (by decide)

/-- `phys_to_virt` adds it. -/
def kbase : Nat := 0xffffff0000000000

end ChCore.Kernel
