import Mathlib.Data.List.Induction
import Mathlib.Data.Option.Basic

/-!
# Walks along named links

`child a c` is the node to which the link with the name `c` leads from `a`, and
`walk` follows a list of names. If every node has at most one link to it and
the root has none, there is one way to each node (`IsTree.walk_inj`), and a
change of one link between leaves changes the end of one walk only
(`IsTree.walk_relink`).
-/

namespace ChCore.Lib.Walks

variable {N A : Type}

/-- Follow the names from a node. -/
def walk (child : A → N → Option A) : A → List N → Option A
  | a, [] => some a
  | a, c :: p => (child a c).bind fun b => walk child b p

lemma walk_append (child : A → N → Option A) (a : A) (p q : List N) :
    walk child a (p ++ q) = (walk child a p).bind fun b => walk child b q := by
  induction p generalizing a with
  | nil => rfl
  | cons c p ih =>
    rw [List.cons_append, walk, walk]
    cases child a c with
    | none => rfl
    | some b => exact ih b

lemma walk_concat (child : A → N → Option A) (a : A) (p : List N) (c : N) :
    walk child a (p ++ [c]) = (walk child a p).bind fun b => child b c := by
  rw [walk_append]
  congr 1
  funext b
  rw [walk]
  cases child b c <;> rfl

variable {p : List N}

lemma walk_mono {child child' : A → N → Option A}
    (h : ∀ x y b, child x y = some b → child' x y = some b) {a b : A}
    (hwalk : walk child a p = some b) : walk child' a p = some b := by
  induction p generalizing a with
  | nil => exact hwalk
  | cons c p ih =>
    obtain ⟨x, hchild, hrest⟩ := Option.bind_eq_some_iff.1 hwalk
    rw [walk, h a c x hchild]
    exact ih hrest

/-- At most one link leads to a node, and none to the root. -/
structure IsTree (child : A → N → Option A) (root : A) : Prop where
  single : ∀ {d d' a : A} {c c' : N}, child d c = some a → child d' c' = some a → d = d' ∧ c = c'
  root : ∀ (d : A) (c : N), child d c ≠ some root

variable {child child' : A → N → Option A} {root : A}

/-- There is one way to each node. -/
lemma IsTree.walk_inj (h : IsTree child root) {q : List N} {a : A}
    (hp : walk child root p = some a) (hq : walk child root q = some a) : p = q := by
  -- by the last link of both walks
  induction p using List.reverseRecOn generalizing q a with
  | nil =>
    cases hp
    induction q using List.reverseRecOn with
    | nil => rfl
    | append_singleton q c _ =>
      rw [walk_concat] at hq
      obtain ⟨d, -, hlink⟩ := Option.bind_eq_some_iff.1 hq
      exact absurd hlink (h.root d c)
  | append_singleton p c ih =>
    rw [walk_concat] at hp
    obtain ⟨d, hwalk, hlink⟩ := Option.bind_eq_some_iff.1 hp
    induction q using List.reverseRecOn with
    | nil =>
      cases hq
      exact absurd hlink (h.root d c)
    | append_singleton q c' _ =>
      rw [walk_concat] at hq
      obtain ⟨d', hwalk', hlink'⟩ := Option.bind_eq_some_iff.1 hq
      obtain ⟨rfl, rfl⟩ := h.single hlink hlink'
      rw [ih hwalk hwalk']

/-- A node on the way from the root does not link to itself. -/
lemma IsTree.child_ne_self (h : IsTree child root) {d : A}
    (hp : walk child root p = some d) (c : N) : child d c ≠ some d := by
  intro hself
  have hlonger : walk child root (p ++ [c]) = some d := by
    rw [walk_concat, hp]
    exact hself
  have hlength := congrArg List.length (h.walk_inj hlonger hp)
  rw [List.length_append, List.length_singleton] at hlength
  omega

variable [DecidableEq N] [DecidableEq A]

/-- The link `c` from the end `d` of the walk `p` is changed, where neither what
it led to nor what it leads to has links of its own. -/
lemma IsTree.walk_relink (h : IsTree child root) {d : A} {c : N}
    {new : Option A} (hp : walk child root p = some d)
    (hchild : ∀ x y, child' x y = if x = d ∧ y = c then new else child x y)
    (hold : ∀ a, child d c = some a → ∀ y, child a y = none)
    (hnew : ∀ a, new = some a → ∀ y, child' a y = none) (q : List N) :
    walk child' root q = if q = p ++ [c] then new else walk child root q := by
  induction q using List.reverseRecOn with
  | nil => rw [if_neg (by simp), walk, walk]
  | append_singleton q y ih =>
    rw [walk_concat, ih]
    by_cases hq : q = p ++ [c]
    · have hlonger : q ++ [y] ≠ p ++ [c] := by
        intro heq
        have hlength := congrArg List.length heq
        rw [hq] at hlength
        simp at hlength
      rw [if_pos hq, if_neg hlonger, hq, walk_concat, walk_concat, hp]
      rw [show ((some d).bind fun b => child b c) = child d c from rfl]
      have hnone : new.bind (fun b => child' b y) = none := by
        cases hcase : new with
        | none => rfl
        | some a => exact hnew a hcase y
      rw [hnone]
      cases hcase : child d c with
      | none => rfl
      | some a => exact (hold a hcase y).symm
    rw [if_neg hq, walk_concat]
    cases hwalk : walk child root q with
    | none =>
      have hother : q ++ [y] ≠ p ++ [c] := by
        intro heq
        rw [(List.append_singleton_inj.1 heq).1, hp] at hwalk
        cases hwalk
      rw [if_neg hother]
      rfl
    | some x =>
      show child' x y = _
      rw [hchild]
      -- the walk ends with this link exactly if it is `p` and then `c`
      have hiff : (x = d ∧ y = c) ↔ q ++ [y] = p ++ [c] := by
        rw [List.append_singleton_inj]
        constructor
        · rintro ⟨rfl, rfl⟩
          exact ⟨h.walk_inj hwalk hp, rfl⟩
        · rintro ⟨rfl, rfl⟩
          rw [hp] at hwalk
          cases hwalk
          exact ⟨rfl, rfl⟩
      by_cases hlast : x = d ∧ y = c
      · rw [if_pos hlast, if_pos (hiff.1 hlast)]
      rw [if_neg hlast, if_neg (mt hiff.2 hlast)]
      rfl

end ChCore.Lib.Walks
