import Mathlib.Algebra.Order.Ring.Int
import Mathlib.Data.List.Basic

/-!
# Runs of a fallible step function

A component is a state type, a type of requests, and a step function that
either produces the next state or stops with a fault. Two readings of
"for every run" are needed later and both are packaged here once:

* a run that *may* stop, where the property is claimed of every state that is
  reached (`run_preserves`), and
* a run all of whose requests are *admissible*, where it is also claimed that
  no request stops (`run_total`).
-/

namespace ChCore.Lib.Runs

variable {σ ρ ε : Type _}

/-- Serve the requests from left to right, stopping at the first fault. -/
def run (step : σ → ρ → Except ε σ) : σ → List ρ → Except ε σ
  | s, [] => .ok s
  | s, r :: rs =>
    match step s r with
    | .ok s' => run step s' rs
    | .error e => .error e

/-- Every request is allowed in the state in which it is served. -/
def Admissible (step : σ → ρ → Except ε σ) (allowed : σ → ρ → Prop) : σ → List ρ → Prop
  | _, [] => True
  | s, r :: rs =>
    allowed s r ∧ ∀ s', step s r = .ok s' → Admissible step allowed s' rs

/-- Concrete runs can be checked for admissibility. -/
instance Admissible.decidable (step : σ → ρ → Except ε σ)
    (allowed : σ → ρ → Prop) [∀ s r, Decidable (allowed s r)] :
    ∀ s rs, Decidable (Admissible step allowed s rs)
  | _, [] => isTrue trivial
  | s, r :: rs =>
    match h : step s r with
    | .ok s' =>
      have := Admissible.decidable step allowed s' rs
      decidable_of_iff (allowed s r ∧ Admissible step allowed s' rs) (by simp [Admissible, h])
    | .error _ =>
      decidable_of_iff (allowed s r) (by simp [Admissible, h])

/-- What a concrete run ends with, from facts that its evaluation decides. -/
lemma exists_ok_imp {x : Except ε σ} {p q : σ → Prop} (hrun : ∃ a, x = .ok a ∧ p a)
    (h : ∀ a, x = .ok a → p a → q a) : ∃ a, x = .ok a ∧ q a := by
  obtain ⟨a, hx, ha⟩ := hrun
  exact ⟨a, hx, h a hx ha⟩

/-- A concrete run that does not stop has a last state. -/
lemma exists_ok {x : Except ε σ} {q : σ → Prop} (hrun : x.isOk = true)
    (h : ∀ a, x = .ok a → q a) : ∃ a, x = .ok a ∧ q a := by
  cases x with
  | ok a => exact ⟨a, rfl, h a rfl⟩
  | error e => simp [Except.isOk, Except.toBool] at hrun

@[simp] lemma run_nil (step : σ → ρ → Except ε σ) (s : σ) : run step s [] = .ok s := rfl

variable {step : σ → ρ → Except ε σ} {s : σ}

lemma run_cons_ok {s' : σ} {r : ρ} (rs : List ρ) (h : step s r = .ok s') :
    run step s (r :: rs) = run step s' rs := by
  simp only [run, h]

variable {rs : List ρ}

/-- A run that succeeds on `r :: rs` succeeds on `r` first. -/
lemma run_cons_inv {t : σ} {r : ρ} (h : run step s (r :: rs) = .ok t) :
    ∃ s', step s r = .ok s' ∧ run step s' rs = .ok t := by
  cases hstep : step s r with
  | ok s' =>
    refine ⟨s', rfl, ?_⟩
    simpa only [run, hstep] using h
  | error e => simp only [run, hstep, reduceCtorEq] at h

lemma run_append {s' : σ} (h : run step s rs = .ok s') (rs' : List ρ) :
    run step s (rs ++ rs') = run step s' rs' := by
  induction rs generalizing s with
  | nil =>
    cases h
    rfl
  | cons r rs ih =>
    obtain ⟨s1, hstep, hrest⟩ := run_cons_inv h
    rw [List.cons_append, run_cons_ok _ hstep]
    exact ih hrest

variable {Inv : σ → Prop}

variable {allowed : σ → ρ → Prop}

lemma admissible_of_forall (h : ∀ s r, allowed s r) : ∀ s, Admissible step allowed s rs := by
  induction rs with
  | nil => exact fun _ => trivial
  | cons r rs ih => exact fun s => ⟨h s r, fun s' _ => ih s'⟩

/-- A condition on each request by itself joins one that depends on the state. -/
lemma Admissible.with_requests {P : ρ → Prop} :
    ∀ {s : σ}, (∀ r ∈ rs, P r) → Admissible step allowed s rs →
    Admissible step (fun s r => P r ∧ allowed s r) s rs := by
  induction rs with
  | nil =>
    intro s _ _
    trivial
  | cons r rs ih =>
    intro s hall hadm
    refine ⟨⟨hall r List.mem_cons_self, hadm.1⟩, fun s' hstep => ?_⟩
    exact ih (fun r' hr' => hall r' (List.mem_cons_of_mem r hr')) (hadm.2 s' hstep)

/-- What allowed steps preserve, every state of an admissible run has. -/
lemma run_preserves_of_admissible
    (hstep : ∀ s r s', Inv s → allowed s r → step s r = .ok s' → Inv s') (rs : List ρ) :
    ∀ s t, Inv s → Admissible step allowed s rs → run step s rs = .ok t → Inv t := by
  induction rs with
  | nil =>
    intro s t hs _ h
    simp only [run_nil, Except.ok.injEq] at h
    exact h ▸ hs
  | cons r rs ih =>
    intro s t hs hadm h
    obtain ⟨s', hr, hrest⟩ := run_cons_inv h
    exact ih s' t (hstep s r s' hs hadm.1 hr) (hadm.2 s' hr) hrest

/-- The same when what is allowed does not depend on the state. -/
lemma run_preserves_of_forall {allowed : ρ → Prop}
    (hstep : ∀ s r s', Inv s → allowed r → step s r = .ok s' → Inv s')
    (rs : List ρ) (s t : σ) (hs : Inv s) (hall : ∀ r ∈ rs, allowed r)
    (h : run step s rs = .ok t) : Inv t := by
  have hadm : Admissible step (fun _ _ => True) s rs := admissible_of_forall (fun _ _ => trivial) s
  exact run_preserves_of_admissible (fun s r s' hs hr => hstep s r s' hs hr.1) rs s t hs
    (hadm.with_requests hall) h

/-- The same when every step preserves. -/
lemma run_preserves (hstep : ∀ s r s', Inv s → step s r = .ok s' → Inv s') (rs : List ρ)
    (s t : σ) (hs : Inv s) (h : run step s rs = .ok t) : Inv t :=
  run_preserves_of_forall (fun s r s' hs (_ : True) => hstep s r s' hs) rs s t hs
    (fun _ _ => trivial) h

/-- If every allowed step succeeds and preserves the invariant, then every
admissible run succeeds and ends in the invariant. -/
lemma run_total (hstep : ∀ s r, Inv s → allowed s r → ∃ s', step s r = .ok s' ∧ Inv s')
    (rs : List ρ) :
    ∀ s, Inv s → Admissible step allowed s rs → ∃ t, run step s rs = .ok t ∧ Inv t := by
  induction rs with
  | nil =>
    intro s hs _
    exact ⟨s, rfl, hs⟩
  | cons r rs ih =>
    intro s hs hadm
    obtain ⟨s', hr, hs'⟩ := hstep s r hs hadm.1
    obtain ⟨t, ht, hInv⟩ := ih s' hs' (hadm.2 s' hr)
    exact ⟨t, by rw [run_cons_ok rs hr, ht], hInv⟩

/-- If every step that the abstract machine allows can be followed, then so can
every run of it. -/
lemma run_simulates {α : Type _} {abstractStep : α → ρ → Except ε α}
    {allowed : α → ρ → Prop} {R : σ → α → Prop} (hstep : ∀ s a r, R s a → allowed a r →
    ∃ s' a', step s r = .ok s' ∧ abstractStep a r = .ok a' ∧ R s' a') (rs : List ρ) :
    ∀ s a, R s a → Admissible abstractStep allowed a rs →
    ∃ t b, run step s rs = .ok t ∧ run abstractStep a rs = .ok b ∧ R t b := by
  induction rs with
  | nil =>
    intro s a hR _
    exact ⟨s, a, rfl, rfl, hR⟩
  | cons r rs ih =>
    intro s a hR hadm
    obtain ⟨s', a', hs, ha, hR'⟩ := hstep s a r hR hadm.1
    obtain ⟨t, b, ht, hb, hend⟩ := ih s' a' hR' (hadm.2 a' ha)
    exact ⟨t, b, by rw [run_cons_ok rs hs, ht], by rw [run_cons_ok rs ha, hb], hend⟩

end ChCore.Lib.Runs
