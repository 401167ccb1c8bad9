import Mathlib.Data.List.Basic

/-! Replacing a range of the cells of an array, kept as a list. -/

namespace Cells

variable {α : Type*}

/-- Replaces the cells from `position` on by `data`. -/
def overwrite (cells : List α) (position : Nat) (data : List α) : List α :=
  cells.take position ++ data ++ cells.drop (position + data.length)

@[simp] theorem overwrite_nil (cells : List α) (position : Nat)
    : overwrite cells position [] = cells := by
  simp [overwrite]

/-- Overwriting inside the list keeps its length. -/
theorem length_overwrite {cells data : List α} {position : Nat}
    (fits : position + data.length ≤ cells.length)
    : (overwrite cells position data).length = cells.length := by
  simp only [overwrite, List.length_append, List.length_take, List.length_drop]
  omega

/-- Replacing from a cut on keeps what stands before it. -/
theorem overwrite_cut (front back data : List α)
    : overwrite (front ++ back) front.length data = front ++ data ++ back.drop data.length := by
  simp only [overwrite, List.take_left, List.append_cancel_left_eq]
  rw [← List.drop_drop, List.drop_left]

/-- Two adjacent replacements are one, by cutting before the first and before the second.
-/
theorem overwrite_overwrite (cells first second : List α) (position : Nat)
    (inside : position ≤ cells.length)
    : overwrite (overwrite cells position first) (position + first.length) second
      = overwrite cells position (first ++ second) := by
  have split := List.take_append_drop position cells
  have length : (cells.take position).length = position := by simp [inside]
  generalize cells.take position = front at split length
  generalize cells.drop position = back at split
  subst split length
  rw [overwrite_cut, overwrite_cut, ← List.length_append, overwrite_cut, List.drop_drop,
    List.length_append, List.append_assoc front]

/-- A replacement at the front is read back there. -/
theorem take_overwrite_front {cells data : List α} {count : Nat}
    (counted : data.length = count)
    : (overwrite cells 0 data).take count = data := by
  subst counted
  simp [overwrite]

/-- Data as long as the list replaces it. -/
theorem overwrite_all {cells data : List α} (same : data.length = cells.length)
    : overwrite cells 0 data = data := by
  simp [overwrite, same]

/-- A loop that stores the value of each round in the cell of that number; `none` at a value
or a cell that is not there.
-/
def fill (cells : List α) (value : Nat → Option α) : Nat → Option (List α)
  | 0 => some cells
  | count + 1 => do
      let cells ← fill cells value count
      let element ← value count
      if count < cells.length then some (cells.set count element) else none

/-- The loop replaces the first cells by its values, by induction over the rounds. -/
theorem fill_eq {cells values : List α} {value : Nat → Option α} {count : Nat}
    (counted : count = values.length) (fits : values.length ≤ cells.length)
    (known : ∀ i < values.length, value i = values[i]?)
    : fill cells value count = some (overwrite cells 0 values) := by
  have stored
      : ∀ rounds ≤ values.length,
          fill cells value rounds = some (values.take rounds ++ cells.drop rounds) := by
    intro rounds
    induction rounds with
    | zero => intro _; simp [fill]
    | succ rounds ih =>
        intro within
        have below : rounds < values.length := within
        have inside : rounds < cells.length := by omega
        have length : (values.take rounds).length = rounds := by
          rw [List.length_take]
          omega
        have room : rounds < (values.take rounds ++ cells.drop rounds).length := by
          rw [List.length_append, length, List.length_drop]
          omega
        have element : value rounds = some values[rounds] := by
          rw [known rounds below, List.getElem?_eq_getElem]
        simp only [fill, ih (by omega), element, Option.bind_eq_bind, Option.bind_some, if_pos room]
        rw [List.set_append_right _ _ (Nat.le_of_eq length), length, Nat.sub_self,
          List.drop_eq_getElem_cons inside, List.set_cons_zero, List.take_succ_eq_append_getElem,
          List.append_assoc, List.singleton_append]
  rw [counted, stored _ (Nat.le_refl _)]
  simp [overwrite]

/-- Without a value for one of its rounds the loop fails, by induction over the rounds. -/
theorem fill_eq_none {cells : List α} {value : Nat → Option α} {count i : Nat} (early : i < count)
    (missing : value i = none)
    : fill cells value count = none := by
  induction count with
  | zero => contradiction
  | succ count ih =>
      rcases Nat.lt_succ_iff_lt_or_eq.mp early with earlier | last
      · simp [fill, ih earlier]
      · subst last
        cases earlier : fill cells value i <;> simp [fill, earlier, missing]

end Cells
