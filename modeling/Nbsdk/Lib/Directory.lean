import Mathlib.Data.List.Basic
import Mathlib.Data.List.Induction

/-! Paths in directories, and lists of names as the places they lead to.
A directory is a root with named children and a way back up, which ends at the root. Every
walk from a place with a list of names ends at a place with a list of names, which is the only
one that fits in all directories.
-/

/-- Places with named children; the root is its own parent. -/
structure Directory (α : Type*) where
  Node : Type
  root : Node
  child : Node → α → Node
  parent : Node → Node
  parent_root : parent root = root
  parent_child : ∀ node name, parent (child node name) = node

namespace Directory

variable {α : Type*}

/-- One step of a path. -/
inductive PathStep (α : Type*)
  | stay
  | up
  | down (name : α)
  deriving DecidableEq, Repr

def step (d : Directory α) (node : d.Node) : PathStep α → d.Node
  | .stay => node
  | .up => d.parent node
  | .down name => d.child node name

def walk (d : Directory α) (node : d.Node) (steps : List (PathStep α)) : d.Node :=
  steps.foldl d.step node

/-- The place below the root with these names. -/
def place (d : Directory α) (names : List α) : d.Node := names.foldl d.child d.root

/-- The names of the place that a step leads to. -/
def resolveStep (names : List α) : PathStep α → List α
  | .stay => names
  | .up => names.dropLast
  | .down name => names ++ [name]

@[simp] theorem place_concat (d : Directory α) (names : List α) (name : α)
    : d.place (names ++ [name]) = d.child (d.place names) name := by
  simp [place]

/-- The parent of a place has all names but the last. -/
theorem parent_place (d : Directory α) (names : List α)
    : d.parent (d.place names) = d.place names.dropLast := by
  rcases List.eq_nil_or_concat' names with rfl | ⟨front, last, rfl⟩
  · exact d.parent_root
  · rw [place_concat, d.parent_child, List.dropLast_concat]

/-- A step from a place leads to the place that it resolves to. -/
theorem step_place (d : Directory α) (names : List α) (step : PathStep α)
    : d.step (d.place names) step = d.place (resolveStep names step) := by
  cases step with
  | stay => rfl
  | up => exact d.parent_place names
  | down name => exact (d.place_concat names name).symm

/-- A walk from a place leads to the place that its steps resolve to, by induction. -/
theorem walk_place (d : Directory α) (names : List α) (steps : List (PathStep α))
    : d.walk (d.place names) steps = d.place (steps.foldl resolveStep names) := by
  induction steps generalizing names with
  | nil => rfl
  | cons first rest ih =>
      rw [List.foldl_cons, ← ih, ← step_place]
      rfl

/-- The directory in which all places differ, `Node` being the lists of names. -/
def free (α : Type) : Directory α where
  Node := List α
  root := []
  child names name := names ++ [name]
  parent := List.dropLast
  parent_root := rfl
  parent_child _ _ := List.dropLast_concat

/-- In the free directory a place is its names, by induction from their end. -/
theorem place_free {α : Type} (names : List α) : (free α).place names = names := by
  induction names using List.reverseRecOn with
  | nil => rfl
  | append_singleton front last ih =>
      rw [place_concat, ih]
      rfl

/-- Names that lead to the same place in every directory are the same. -/
theorem place_injective {α : Type} {first second : List α}
    (same : ∀ d : Directory α, d.place first = d.place second)
    : first = second := by
  have there := same (free α)
  rwa [place_free, place_free] at there

end Directory
