import Mathlib.Logic.Function.Basic

/-!
# Partial maps that change at one place

A heap or a table is a map from names to entries that may be missing. The
lemmas say what the entries are after one of them was written.
-/

namespace ChCore.Lib.Heaps

open Function

variable {ι α : Type} [DecidableEq ι] {f : ι → Option α} {a b : ι}

lemma update_eq_some {x : Option α} {y : α} (h : update f a x b = some y) :
    (b = a ∧ x = some y) ∨ (b ≠ a ∧ f b = some y) := by
  by_cases hb : b = a
  · subst hb
    rw [update_self] at h
    exact .inl ⟨rfl, h⟩
  · rw [update_of_ne hb] at h
    exact .inr ⟨hb, h⟩

lemma some_of_erase {y : α} (h : update f a none b = some y) : b ≠ a ∧ f b = some y := by
  rcases update_eq_some h with ⟨-, heq⟩ | hold
  · cases heq
  · exact hold

variable {x : α}

/-- What holds of the new entry and of the entries that stay. -/
lemma forall_update {P : ι → α → Prop} (hnew : P a x) (hold : ∀ b y, b ≠ a → f b = some y → P b y) :
    ∀ b y, update f a (some x) b = some y → P b y := by
  intro b y hb
  rcases update_eq_some hb with ⟨rfl, heq⟩ | ⟨hne, hb⟩
  · cases heq
    exact hnew
  · exact hold b y hne hb

lemma none_of_update (h : update f a (some x) b = none) : b ≠ a ∧ f b = none := by
  by_cases hb : b = a
  · rw [hb, update_self] at h
    cases h
  rw [update_of_ne hb] at h
  exact ⟨hb, h⟩

/-- A table of lists, one of which got a new head. -/
lemma mem_update_cons {f : ι → List α} {y : α} :
    y ∈ update f a (x :: f a) b ↔ (b = a ∧ y = x) ∨ y ∈ f b := by
  by_cases hb : b = a
  · subst hb
    simp
  · simp [hb]

section

variable {g : ι → Option α} {P : ι → Prop} (hg : ∀ b, P b → g b = if b = a then some x else f b)

include hg

/-- The entries of a table `g` that has a new one, at the places that count. -/
lemma bind_eq_some {y : α} (hb : P b) (h : g b = some y) :
    (b = a ∧ x = y) ∨ (b ≠ a ∧ f b = some y) := by
  rw [hg b hb] at h
  by_cases hba : b = a
  · rw [if_pos hba, Option.some.injEq] at h
    exact .inl ⟨hba, h⟩
  rw [if_neg hba] at h
  exact .inr ⟨hba, h⟩

/-- No entry is there twice, if the new one is not there at another place. -/
lemma bind_single (hnew : ∀ b, P b → f b = some x → b = a)
    (hsingle : ∀ b c y, P b → P c → f b = some y → f c = some y → b = c) :
    ∀ b c y, P b → P c → g b = some y → g c = some y → b = c := by
  intro b c y hb hc hby hcy
  rcases bind_eq_some hg hb hby with ⟨rfl, rfl⟩ | ⟨-, hby⟩
  · rcases bind_eq_some hg hc hcy with ⟨rfl, -⟩ | ⟨-, hcy⟩
    · rfl
    · exact (hnew c hc hcy).symm
  rcases bind_eq_some hg hc hcy with ⟨rfl, rfl⟩ | ⟨-, hcy⟩
  · exact hnew b hb hby
  · exact hsingle b c y hb hc hby hcy

end

end ChCore.Lib.Heaps
