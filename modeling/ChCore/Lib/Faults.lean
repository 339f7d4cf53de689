import Mathlib.Logic.Basic

/-!
# Faults of a sequence of fallible steps

A step returns a value or stops with a fault. `bind_eq_ok` and `bind_eq_error`
take a sequence of steps apart, and `Avoids` says of a step that it does not stop
with a fault of a bad kind.
-/

namespace ChCore.Lib.Faults

variable {ε α β : Type}

@[simp] lemma ok_bind (a : α) (f : α → Except ε β) : ((Except.ok a : Except ε α) >>= f) = f a := rfl

@[simp] lemma error_bind (e : ε) (f : α → Except ε β) :
    ((Except.error e : Except ε α) >>= f) = .error e := rfl

variable {x : Except ε α} {f : α → Except ε β}

lemma bind_eq_ok {b : β} : (x >>= f) = .ok b ↔ ∃ a, x = .ok a ∧ f a = .ok b := by
  cases x with
  | ok a | error e => simp

/-- A sequence stops in its first part or in its second. -/
lemma bind_eq_error {e : ε} :
    (x >>= f) = .error e ↔ x = .error e ∨ ∃ a, x = .ok a ∧ f a = .error e := by
  cases x with
  | ok a | error e' => simp

instance decidableExistsOk {p : α → Prop} [DecidablePred p] :
    ∀ x : Except ε α, Decidable (∃ a, x = .ok a ∧ p a)
  | .ok a => decidable_of_iff (p a) (by simp)
  | .error _ => isFalse (by simp)

instance decidableForallOk {p : α → Prop} [DecidablePred p] :
    ∀ x : Except ε α, Decidable (∀ a, x = .ok a → p a)
  | .ok a => decidable_of_iff (p a) (by simp)
  | .error _ => isTrue (by simp)

instance decidableEqError [DecidableEq ε] (e : ε) : ∀ x : Except ε α, Decidable (x = .error e)
  | .ok _ => isFalse nofun
  | .error e' => decidable_of_iff (e' = e) (by simp)

variable {bad : ε → Bool}

/-- The step does not stop with a bad fault. -/
def Avoids (bad : ε → Bool) (x : Except ε α) : Prop := ∀ e, x = .error e → bad e = false

lemma avoids_ok (a : α) : Avoids bad (.ok a : Except ε α) := nofun

lemma avoids_error {e : ε} : Avoids bad (.error e : Except ε α) ↔ bad e = false := by
  constructor
  · intro h
    exact h e rfl
  · rintro h _ ⟨⟩
    exact h

lemma avoids_bind : Avoids bad (x >>= f) ↔ Avoids bad x ∧ ∀ a, x = .ok a → Avoids bad (f a) := by
  constructor
  · intro h
    exact ⟨fun e he => h e (bind_eq_error.2 (.inl he)),
      fun a ha e he => h e (bind_eq_error.2 (.inr ⟨a, ha, he⟩))⟩
  · rintro ⟨hfirst, hsecond⟩ e he
    rcases bind_eq_error.1 he with he | ⟨a, ha, he⟩
    · exact hfirst e he
    · exact hsecond a ha e he

/-- A part that is safe whatever comes before it. -/
lemma Avoids.bind (hx : Avoids bad x) (hf : ∀ a, Avoids bad (f a)) : Avoids bad (x >>= f) :=
  avoids_bind.2 ⟨hx, fun a _ => hf a⟩

end ChCore.Lib.Faults
