import Mathlib.Data.List.Rotate
import Nbsdk.Lib.Cells

/-! Circular lists: a list of cells read and written from a position, wrapping at its end.
Everything is stated on the rotation that brings the position to the front, where a
wrapping access is an ordinary access to an initial part.
-/

namespace Ring

open Cells

variable {α : Type*}

/-- The `count` cells from `position` on, wrapping at the end. -/
def window (cells : List α) (position count : Nat) : List α :=
  (cells.rotate position).take count

/-- Replaces the cells from `position` on by `data`, wrapping at the end: the part that
fits before the end goes to `position`, the remainder to the front.
-/
def write (cells : List α) (position : Nat) (data : List α) : List α :=
  overwrite (overwrite cells position (data.take (cells.length - position))) 0
    (data.drop (cells.length - position))

@[simp] theorem write_nil (cells : List α) (position : Nat) : write cells position [] = cells := by
  simp [write]

/-- A wrapping write keeps the length, by its two pieces. -/
theorem length_write {cells data : List α} {position : Nat}
    (inside : position ≤ cells.length) (fits : data.length ≤ cells.length)
    : (write cells position data).length = cells.length := by
  have first : (overwrite cells position (data.take (cells.length - position))).length
      = cells.length :=
    length_overwrite (by rw [List.length_take]; omega)
  rw [write, length_overwrite (by rw [first, List.length_drop]; omega), first]

/-- A window no longer than the list has the requested length. -/
theorem length_window {cells : List α} {position count : Nat}
    (fits : count ≤ cells.length)
    : (window cells position count).length = count := by
  simp [window, fits]

@[simp] theorem window_zero (cells : List α) (position : Nat)
    : window cells position 0 = [] := by
  simp [window]

/-- The front of a window is a shorter window. -/
theorem take_window (cells : List α) (position count shorter : Nat)
    : (window cells position count).take shorter
      = window cells position (min shorter count) := by
  rw [window, window, List.take_take]

/-- A window is the part up to the end followed by the part from the front. -/
theorem window_eq_pieces {cells : List α} {position count : Nat}
    (inside : position ≤ cells.length) (fits : count ≤ cells.length)
    : window cells position count
      = (cells.drop position).take (min count (cells.length - position))
        ++ cells.take (count - min count (cells.length - position)) := by
  rw [window, List.rotate_eq_drop_append_take inside, List.take_append, List.length_drop,
    List.take_take]
  congr 1
  · rw [List.take_eq_take_iff, List.length_drop]
    omega
  · congr 1
    omega

/-- Seen from the write position, a wrapping write replaces the front: the cases are
whether the data reaches the end of the list.
-/
theorem write_rotate {cells data : List α} {position : Nat}
    (inside : position ≤ cells.length) (fits : data.length ≤ cells.length)
    : (write cells position data).rotate position
      = data ++ (cells.rotate position).drop data.length := by
  have split := List.take_append_drop position cells
  have lengths : (cells.take position).length = position := by simp [inside]
  generalize cells.take position = front at split lengths
  generalize cells.drop position = back at split
  subst split lengths
  rw [List.rotate_append_length_eq]
  simp only [List.length_append] at fits
  by_cases wraps : back.length < data.length
  · -- the data fills the back and continues at the front
    have full : (data.take back.length).length = back.length := by
      rw [List.length_take]
      omega
    have written : write (front ++ back) front.length data
        = (data.drop back.length ++ front.drop (data.length - back.length))
          ++ data.take back.length := by
      have : front.length + back.length - front.length = back.length := by omega
      simp only [write, overwrite, List.length_append, this, full, List.take_left,
        List.drop_eq_nil_of_le (show (front ++ back).length ≤ front.length + back.length by simp),
        List.append_nil, List.take_zero, List.nil_append, Nat.zero_add,
        List.length_drop]
      rw [List.drop_append_of_le_length (by omega), List.append_assoc]
    have position : front.length
        = (data.drop back.length ++ front.drop (data.length - back.length)).length := by
      simp only [List.length_append, List.length_drop]
      omega
    rw [written, position, List.rotate_append_length_eq, ← List.append_assoc,
      List.take_append_drop, List.drop_append, List.drop_eq_nil_of_le wraps.le,
      List.nil_append]
  · -- the data fits before the end
    have tail : data.length ≤ back.length := by omega
    have written : write (front ++ back) front.length data
        = front ++ (data ++ back.drop data.length) := by
      have : front.length + back.length - front.length = back.length := by omega
      simp only [write, List.length_append, this, List.take_of_length_le tail,
        List.drop_eq_nil_of_le tail, overwrite_nil]
      simp only [overwrite, List.take_left, List.drop_append, List.append_assoc]
      rw [List.drop_eq_nil_of_le (by omega), List.nil_append]
      congr 3
      omega
    rw [written, List.rotate_append_length_eq, List.append_assoc,
      List.drop_append_of_le_length tail]

/-- A write at a position that has been reduced keeps the length, also where there is no cell. -/
theorem length_write_mod {cells : List α} (data : List α) (position : Nat)
    (fits : data.length ≤ cells.length)
    : (write cells (position % cells.length) data).length = cells.length := by
  rcases Nat.eq_zero_or_pos cells.length with empty | positive
  · have none : data = [] := List.eq_nil_of_length_eq_zero (by omega)
    rw [none, write_nil]
  · exact length_write (Nat.mod_lt _ positive).le fits

/-- Seen from a position before it, a write replaces the cells behind those in between, by
rotating it back.
-/
theorem write_behind_rotate (cells data : List α) (start count : Nat)
    (room : count + data.length ≤ cells.length)
    : (write cells ((start + count) % cells.length) data).rotate start
      = (cells.rotate start).take count ++ data
        ++ (cells.rotate start).drop (count + data.length) := by
  rcases Nat.eq_zero_or_pos cells.length with empty | positive
  · have none : data = [] := List.eq_nil_of_length_eq_zero (by omega)
    have nil : cells = [] := List.eq_nil_of_length_eq_zero empty
    subst none nil
    simp [write, overwrite]
  have position : (start + count) % cells.length ≤ cells.length :=
    (Nat.mod_lt _ positive).le
  have stays := length_write position (show data.length ≤ cells.length by omega)
  have seen := write_rotate position (show data.length ≤ cells.length by omega)
  rw [List.rotate_mod] at seen
  generalize write cells ((start + count) % cells.length) data = after at stays seen
  rw [← stays, List.rotate_mod, ← List.rotate_rotate, ← List.rotate_rotate] at seen
  have length : (cells.rotate start).length = cells.length := List.length_rotate ..
  generalize cells.rotate start = turned at seen length
  have split := List.take_append_drop count turned
  have counted : (turned.take count).length = count := by
    rw [List.length_take]
    omega
  generalize turned.take count = old at split counted
  generalize turned.drop count = rest at split
  subst split counted
  simp only [List.length_append] at length
  rw [List.rotate_append_length_eq, List.drop_append_of_le_length (by omega),
    ← List.append_assoc, ← List.rotate_append_length_eq, List.rotate_eq_rotate] at seen
  rw [seen, ← List.drop_drop, List.drop_left, List.append_assoc]

/-- Writing behind a window extends the window by the data. -/
theorem window_write (cells data : List α) (start count : Nat)
    (room : count + data.length ≤ cells.length)
    : window (write cells ((start + count) % cells.length) data) start
          (count + data.length)
      = window cells start count ++ data := by
  have counted : ((cells.rotate start).take count ++ data).length = count + data.length := by
    rw [List.length_append, List.length_take, List.length_rotate]
    omega
  rw [window, write_behind_rotate cells data start count room, ← counted, List.take_left, window]

/-- A write behind a window, with or without a gap, leaves the window as it is. -/
theorem window_write_behind (cells data : List α) (start : Nat) {count behind : Nat}
    (apart : count ≤ behind) (room : behind + data.length ≤ cells.length)
    : window (write cells ((start + behind) % cells.length) data) start count
      = window cells start count := by
  have between : ((cells.rotate start).take behind).length = behind := by
    rw [List.length_take, List.length_rotate]
    omega
  rw [window, write_behind_rotate cells data start behind room, List.append_assoc,
    List.take_append_of_le_length (by omega), List.take_take, Nat.min_eq_left apart, window]

/-- Writing a second part behind the place of the first and then the first is one write, since
both turn the cells from the position on into the same list.
-/
theorem write_write {cells : List α} (first second : List α) {position : Nat}
    (inside : position ≤ cells.length) (fits : first.length + second.length ≤ cells.length)
    : write (write cells ((position + first.length) % cells.length) second) position first
      = write cells position (first ++ second) := by
  apply List.rotate_injective position
  have behind := write_behind_rotate cells second position first.length fits
  have length := length_write_mod second (position + first.length)
    (show second.length ≤ cells.length by omega)
  have skipped : ((cells.rotate position).take first.length).length = first.length := by
    rw [List.length_take, List.length_rotate]
    omega
  change List.rotate _ position = List.rotate _ position
  rw [write_rotate (by omega) (by omega), behind,
    write_rotate inside (by rw [List.length_append]; exact fits), List.length_append,
    List.append_assoc, List.append_assoc]
  nth_rewrite 1 [← skipped]
  rw [List.drop_left]

/-- Advancing the start of a window by part of it drops that part, by one more rotation. -/
theorem window_advance (cells : List α) (start : Nat) {count taken : Nat}
    (within : taken ≤ count) (fits : count ≤ cells.length)
    : window cells ((start + taken) % cells.length) (count - taken)
      = (window cells start count).drop taken := by
  have length : (cells.rotate start).length = cells.length := List.length_rotate ..
  simp only [window, List.rotate_mod, ← List.rotate_rotate]
  rw [List.rotate_eq_drop_append_take (by omega), List.take_append_of_le_length
    (by rw [List.length_drop]; omega), List.drop_take]

/-- The window over the front of a list is that front. -/
theorem window_front {cells : List α} {count : Nat}
    : window cells 0 count = cells.take count := by
  simp [window]

end Ring
