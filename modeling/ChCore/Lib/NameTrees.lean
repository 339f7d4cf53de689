import Mathlib.Data.List.Infix

/-!
# Trees of names

A tree of files and directories as the list of its paths, where a path is the
list of the names from the root. The root itself is a directory and not in the
list. `node` reads the tree, `add` and `remove` change one path, and `addDirs`
makes the directories that are missing on the way to a path.
-/

namespace ChCore.Lib.NameTrees

variable {N F : Type}

/-- A file with its data, or a directory. -/
inductive Node (F : Type)
  | file (data : F)
  | dir
  deriving DecidableEq, Repr

def Node.isFile : Node F → Bool
  | .file _ => true
  | .dir => false

/-- The paths of a tree. -/
abbrev Tree (N F : Type) := List (List N × Node F)

variable [DecidableEq N] {t : Tree N F} {p q : List N} {n : Node F}

/-- What is at a path. -/
def node (t : Tree N F) (p : List N) : Option (Node F) :=
  if p = [] then some .dir else (t.find? fun x => x.1 = p).map Prod.snd

def add (t : Tree N F) (p : List N) (n : Node F) : Tree N F := (p, n) :: t

def remove (t : Tree N F) (p : List N) : Tree N F := t.filter fun x => x.1 ≠ p

/-- There is something in the directory. -/
def hasChild (t : Tree N F) (p : List N) : Bool :=
  t.any fun x => decide (x.1 ≠ [] ∧ x.1.dropLast = p)

/-- The directories `p/c1`, `p/c1/c2` and so on, where they are missing. -/
def addDirs (t : Tree N F) (p : List N) : List N → Tree N F
  | [] => t
  | c :: cs =>
    addDirs (if (node t (p ++ [c])).isSome then t else add t (p ++ [c]) .dir) (p ++ [c]) cs

/-- No file is on the way to the path. -/
def Clear (t : Tree N F) (p : List N) : Prop :=
  ∀ i < p.length, (node t (p.take i)).any Node.isFile = false

instance : Decidable (Clear t p) := inferInstanceAs (Decidable (∀ i < _, _))

lemma node_add (hp : p ≠ []) : node (add t p n) q = if q = p then some n else node t q := by
  unfold node add
  by_cases hq : q = p
  · rw [if_pos hq, if_neg (hq ▸ hp), List.find?_cons_of_pos (by simp [hq]), Option.map_some]
  · rw [if_neg hq, List.find?_cons_of_neg (by simpa using Ne.symm hq)]

lemma node_remove (hp : p ≠ []) : node (remove t p) q = if q = p then none else node t q := by
  unfold node remove
  rw [List.find?_filter]
  by_cases hq : q = p
  · rw [if_pos hq, if_neg (hq ▸ hp), Option.map_eq_none_iff, List.find?_eq_none]
    rintro x -
    simp [hq]
  rw [if_neg hq]
  congr 3
  funext x
  by_cases hx : x.1 = q
  · simp [hx, hq]
  · simp [hx]

lemma hasChild_iff : hasChild t p = true ↔ ∃ c, node t (p ++ [c]) ≠ none := by
  unfold hasChild
  rw [List.any_eq_true]
  constructor
  · rintro ⟨x, hx, hlast⟩
    obtain ⟨hne, hdrop⟩ := of_decide_eq_true hlast
    refine ⟨x.1.getLast hne, ?_⟩
    rw [← hdrop, List.dropLast_append_getLast]
    unfold node
    rw [if_neg hne, Ne, Option.map_eq_none_iff, List.find?_eq_none]
    intro hall
    exact hall x hx (by simp)
  · rintro ⟨c, hnode⟩
    unfold node at hnode
    rw [if_neg (by simp), Ne, Option.map_eq_none_iff, List.find?_eq_none] at hnode
    simp only [not_forall] at hnode
    obtain ⟨x, hx, heq⟩ := hnode
    refine ⟨x, hx, ?_⟩
    simp only [decide_eq_true_eq, not_not] at heq
    rw [heq]
    simp

/-- A directory on the way to a path is not a file. -/
lemma Clear.not_file {r : List N} (h : Clear t (p ++ r)) (hr : r ≠ [])
    (data : F) : node t p ≠ some (.file data) := by
  intro hfile
  have hlt : p.length < (p ++ r).length := by
    rw [List.length_append]
    have := List.length_pos_of_ne_nil hr
    omega
  have hno := h p.length hlt
  rw [List.take_left, hfile] at hno
  cases hno

/-- A new directory is not in the way. -/
lemma Clear.addDir (h : Clear t q) (hp : p ≠ []) : Clear (add t p .dir) q := by
  intro i hi
  rw [node_add hp]
  split
  · rfl
  · exact h i hi

end ChCore.Lib.NameTrees
