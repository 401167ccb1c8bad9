import Mathlib.Data.List.DropRight

/-! Erasing runs at the front of a list, one kind of element after another.
What is erased consists of one run of each kind in turn. A run of an earlier kind behind one of
a later kind stays, and so does everything behind an element of no kind.
-/

namespace Runs

variable {α : Type*} [DecidableEq α]

/-- Erases the leading run of each kind in turn. -/
def strip (kinds s : List α) : List α := kinds.foldl (fun s kind => s.dropWhile (· = kind)) s

/-- One run of each kind in turn, some of them empty. -/
inductive InTurn : List α → List α → Prop
  | nil : InTurn [] []
  | cons (kind : α) (count : Nat) {kinds s : List α} (rest : InTurn kinds s)
    : InTurn (kind :: kinds) (List.replicate count kind ++ s)

omit [DecidableEq α] in
/-- Runs have only elements of their kinds. -/
theorem InTurn.mem {kinds s : List α} (h : InTurn kinds s) : ∀ a ∈ s, a ∈ kinds := by
  induction h with
  | nil => simp
  | cons kind count rest ih =>
      intro a member
      rcases List.mem_append.mp member with inRun | later
      · exact List.eq_of_mem_replicate inRun ▸ List.mem_cons_self
      · exact List.mem_cons_of_mem kind (ih a later)

/-- The leading elements of one kind are a run of it. -/
theorem takeWhile_eq_replicate (kind : α) (s : List α)
    : s.takeWhile (· = kind) = List.replicate (s.takeWhile (· = kind)).length kind := by
  refine List.eq_replicate_of_mem ?_
  intro a member
  simpa using List.mem_takeWhile_imp member

/-- What is erased is one run of each kind in turn, by induction over the kinds. -/
theorem exists_inTurn (kinds s : List α)
    : ∃ front, InTurn kinds front ∧ s = front ++ strip kinds s := by
  induction kinds generalizing s with
  | nil => exact ⟨[], .nil, rfl⟩
  | cons kind kinds ih =>
      obtain ⟨front, runs, split⟩ := ih (s.dropWhile (· = kind))
      refine ⟨s.takeWhile (· = kind) ++ front, ?_, ?_⟩
      · rw [takeWhile_eq_replicate]
        exact .cons kind _ runs
      · rw [strip, List.foldl_cons, ← strip, List.append_assoc, ← split,
          List.takeWhile_append_dropWhile]

theorem strip_suffix (kinds s : List α) : strip kinds s <:+ s := by
  obtain ⟨front, -, split⟩ := exists_inTurn kinds s
  exact ⟨front, split.symm⟩

theorem strip_nil (kinds : List α) : strip kinds [] = [] :=
  List.suffix_nil.mp (strip_suffix kinds [])

/-- Nothing is erased behind an element of no kind, by induction over the kinds. -/
theorem strip_append_cons {kinds : List α} {first : α} (visible : first ∉ kinds)
    (s rest : List α)
    : strip kinds (s ++ first :: rest) = strip kinds s ++ first :: rest := by
  induction kinds generalizing s with
  | nil => rfl
  | cons kind kinds ih =>
      rw [List.mem_cons, not_or] at visible
      have stays
          : (s ++ first :: rest).dropWhile (· = kind)
            = s.dropWhile (· = kind) ++ first :: rest := by
        rw [List.dropWhile_append]
        split
        case isTrue none =>
          rw [List.isEmpty_iff.mp none, List.dropWhile_cons_of_neg (by simpa using visible.1)]
          rfl
        case isFalse => rfl
      rw [strip, List.foldl_cons, ← strip, stays, ih visible.2, strip, strip, List.foldl_cons]

/-- A list that starts with an element of no kind is kept. -/
theorem strip_cons {kinds : List α} {first : α} (visible : first ∉ kinds) (rest : List α)
    : strip kinds (first :: rest) = first :: rest := by
  simpa [strip_nil] using strip_append_cons visible [] rest

/-- Nothing is erased behind what is left of a list, by induction over the kinds. -/
theorem strip_append {kinds s : List α} (visible : strip kinds s ≠ []) (rest : List α)
    : strip kinds (s ++ rest) = strip kinds s ++ rest := by
  induction kinds generalizing s with
  | nil => rfl
  | cons kind kinds ih =>
      have some : s.dropWhile (· = kind) ≠ [] := by
        intro none
        rw [strip, List.foldl_cons, none, ← strip] at visible
        exact visible (strip_nil kinds)
      rw [strip, List.foldl_cons, ← strip, List.dropWhile_append, if_neg (by simpa using some)]
      exact ih visible

/-- Behind the run of its kind nothing is left to erase but what a list starts with. -/
theorem dropWhile_replicate_append (kind : α) (count : Nat) (s : List α)
    : (List.replicate count kind ++ s).dropWhile (· = kind) = s.dropWhile (· = kind) := by
  induction count with
  | zero => rfl
  | succ count ih =>
      rw [List.replicate_succ, List.cons_append, List.dropWhile_cons_of_pos (by simp), ih]

/-- Runs of different kinds are erased in front of anything, and perhaps more is. The induction
is over the runs; where the later ones are empty, the current kind goes on behind them.
-/
theorem InTurn.strip_append_suffix {kinds front : List α} (h : InTurn kinds front)
    (different : kinds.Nodup) (s : List α)
    : strip kinds (front ++ s) <:+ s := by
  induction h generalizing s with
  | nil => exact List.suffix_rfl
  | @cons kind count kinds front rest ih =>
      obtain ⟨foreign, different⟩ := List.nodup_cons.mp different
      rw [strip, List.foldl_cons, ← strip, List.append_assoc, dropWhile_replicate_append]
      cases front with
      | nil => exact (strip_suffix _ _).trans (List.dropWhile_suffix _)
      | cons first others =>
          have other : first ≠ kind :=
            fun same => foreign (same ▸ rest.mem first List.mem_cons_self)
          rw [List.cons_append, List.dropWhile_cons_of_neg (by simpa using other)]
          exact ih different s

/-- Nothing is left exactly of runs in turn. -/
theorem strip_eq_nil_iff {kinds s : List α} (different : kinds.Nodup)
    : strip kinds s = [] ↔ InTurn kinds s := by
  constructor
  case mp =>
    intro erased
    obtain ⟨front, runs, split⟩ := exists_inTurn kinds s
    rw [split, erased, List.append_nil]
    exact runs
  case mpr =>
    intro runs
    simpa using runs.strip_append_suffix different []

/-- Only the runs are erased in front of an element of no kind. -/
theorem InTurn.strip_append {kinds front : List α} (h : InTurn kinds front)
    (different : kinds.Nodup) {first : α} (visible : first ∉ kinds) (s : List α)
    : strip kinds (front ++ first :: s) = first :: s := by
  rw [strip_append_cons visible, (strip_eq_nil_iff different).mpr h, List.nil_append]

end Runs
