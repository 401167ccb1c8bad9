import Mathlib.Data.List.MinMax
import Mathlib.Data.List.Rotate

/-! Lists that are read around, and the first maximum of a list. -/

namespace Cyclic

variable {α : Type*}

/-- Values at the indices modulo their number. -/
structure Signal (α : Type*) where
  values : List α
  inhabited : values ≠ []

namespace Signal

def length (s : Signal α) : Nat := s.values.length

theorem length_pos (s : Signal α) : 0 < s.length := List.length_pos_of_ne_nil s.inhabited

/-- The value at an index, which may be negative or behind the end. -/
def get (s : Signal α) (index : Int) : α :=
  s.values.get
    ⟨(index % s.length).toNat, by
      have positive := s.length_pos
      have nonneg := Int.emod_nonneg index (Int.natCast_ne_zero.mpr (Nat.ne_of_gt positive))
      have below := Int.emod_lt_of_pos index (Int.natCast_pos.mpr positive)
      have length : s.length = s.values.length := rfl
      omega⟩

/-- The value at an index is the one at its remainder. -/
theorem getElem?_emod (s : Signal α) (index : Int)
    : s.values[(index % s.length).toNat]? = some (s.get index) := by
  rw [get, List.get_eq_getElem, ← List.getElem?_eq_getElem]

/-- Indices that are the same modulo the length have one value. -/
theorem get_congr (s : Signal α) {index other : Int}
    (same : index % s.length = other % s.length)
    : s.get index = s.get other := by
  simp only [get, same]

/-- Once around is the same index. -/
theorem get_add_length (s : Signal α) (index : Int) : s.get (index + s.length) = s.get index :=
  s.get_congr (Int.add_emod_right ..)

/-- A rotated list starts at the index of the rotation. -/
theorem getElem?_rotate (s : Signal α) {shift position : Nat} (inside : position < s.length)
    : (s.values.rotate shift)[position]? = some (s.get (position + shift)) := by
  have index
      : ((position + shift : Int) % s.length).toNat = (position + shift) % s.values.length := by
    change ((position + shift : Int) % (s.values.length : Int)).toNat = _
    rw [← Int.natCast_add, ← Int.natCast_emod, Int.toNat_natCast]
  rw [List.getElem?_rotate inside, get, List.get_eq_getElem, ← List.getElem?_eq_getElem]
  simp only [index]

end Signal

section

variable [LinearOrder α]

/-- The position of the first element that none exceeds; 0 in an empty list. -/
def firstMax (s : List α) : Nat := s.findIdx (fun a => ∀ b ∈ s, b ≤ a)

/-- There is a first maximum: everything is at most it, and what comes before is less. -/
theorem firstMax_eq {s : List α} (inhabited : s ≠ [])
    : ∃ peak,
        s[firstMax s]? = some peak
        ∧ (∀ a ∈ s, a ≤ peak)
        ∧ ∀ position a, position < firstMax s → s[position]? = some a → a < peak := by
  have positive := List.length_pos_of_ne_nil inhabited
  have exceeded : ∃ a ∈ s, decide (∀ b ∈ s, b ≤ a) = true := by
    refine ⟨s.maximum_of_length_pos positive, List.maximum_of_length_pos_mem positive, ?_⟩
    rw [decide_eq_true_eq]
    exact fun b member => List.le_maximum_of_length_pos_of_mem member positive
  have within := List.findIdx_lt_length_of_exists exceeded
  have top : ∀ b ∈ s, b ≤ s[firstMax s] :=
    of_decide_eq_true (List.findIdx_getElem (w := within))
  refine ⟨_, List.getElem?_eq_getElem within, top, ?_⟩
  intro position a early found
  have lower := List.not_of_lt_findIdx early
  obtain ⟨inside, rfl⟩ := List.getElem?_eq_some_iff.mp found
  by_contra highest
  refine absurd (decide_eq_true ?_) (Bool.eq_false_iff.mp lower)
  exact fun b member => (top b member).trans (not_lt.mp highest)

end

end Cyclic
