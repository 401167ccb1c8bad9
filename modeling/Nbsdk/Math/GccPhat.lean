import Mathlib.Algebra.Ring.Parity
import Nbsdk.Lib.Cyclic
import Nbsdk.Lib.Fallible

/-! The search for the lag in gcc_phat.cc.
The correlation is rotated by half its length, rounded up, so that the window around the middle
of the rotated list is one around lag 0 for an even length and one around lag 1 for an odd one.
-/

namespace Nbsdk.Math

open Cyclic (Signal firstMax)
open Fallible

variable {α : Type} [LinearOrder α]

/-- How `Execute` can fail. -/
inductive Halt
  | checkFailed (condition : String)
  | outOfBounds
  deriving DecidableEq, Repr

namespace GCCPhat

/-- `std::round(size / 2.0)`, which rounds halves up. -/
def half (size : Nat) : Nat := (size + 1) / 2

/-- The two copies, of the part from the middle on and of the part before it. -/
def shifted (crossCorrelation : List α) : List α :=
  crossCorrelation.drop (half crossCorrelation.length)
    ++ crossCorrelation.take (half crossCorrelation.length)

/-- The margin after the two corrections. -/
def newMargin (sampleCount half margin : Int) : Int :=
  let newMargin := if half - margin < 0 then half else margin
  if half + newMargin ≥ sampleCount then sampleCount - 1 - half else newMargin

/-- The elements that `std::max_element` reads. -/
def range (s : List α) (start len : Int) : Except Halt (List α) :=
  if 0 ≤ start ∧ 0 ≤ len ∧ start + len ≤ s.length then
    .ok ((s.drop start.toNat).take len.toNat)
  else .error .outOfBounds

/-- `Execute`, from the inverse transform's output on; `given` says that no pointer is null. -/
def execute (sampleCount : Int) (given : Bool) (count : Int) (crossCorrelation : List α)
    (margin : Int)
    : Except Halt Int :=
  if !given then .ok (-1)
  else if count ≠ sampleCount then .error (.checkFailed "count == sample_count_")
  else do
    let half : Int := half crossCorrelation.length
    let newMargin := newMargin sampleCount half margin
    let start := half - newMargin
    let len := 2 * newMargin + 1
    let elements ← range (shifted crossCorrelation) start len
    let maxIndex : Int := firstMax elements
    .ok (maxIndex - newMargin)

/-- The lag that `Execute` answers is within the margin it uses, and no lag within it has a
larger correlation.
-/
def ReturnsPeak (c : Signal α) (margin : Int) : Prop :=
  let m := newMargin c.length (half c.length) margin
  ∃ d, execute c.length true c.length c.values margin = .ok d
    ∧ (-m ≤ d ∧ d ≤ m)
    ∧ ∀ k, -m ≤ k → k ≤ m → c.get k ≤ c.get d

/-- At the first lag of the window the correlation is largest, and so it is one lag later in
the window that is moved by one lag.
-/
def PeaksFirst (c : Signal α) (m : Int) : Prop :=
  ∀ k, -m ≤ k → k ≤ m → c.get k ≤ c.get (-m) ∧ c.get (k + 1) ≤ c.get (-m + 1)

/-- At the last lag of the window the correlation is largest, and one lag later it is larger
than anywhere else in the window that is moved by one lag.
-/
def PeaksLast (c : Signal α) (m : Int) : Prop :=
  ∀ k, -m ≤ k → k ≤ m → c.get k ≤ c.get m ∧ (k < m → c.get (k + 1) < c.get (m + 1))

omit [LinearOrder α] in
theorem shifted_eq (values : List α) : shifted values = values.rotate (half values.length) :=
  (List.rotate_eq_drop_append_take (by rw [half]; omega)).symm

/-- The margin is cut off where the window reaches an end of the rotated list. -/
theorem newMargin_eq (size : Nat) (margin : Int)
    : newMargin size (half size) margin = min margin (size / 2 - 1) := by
  have first
      : (if (half size : Int) - margin < 0 then (half size : Int) else margin)
        = min margin (half size) := by
    split <;> omega
  have middle : half size = (size + 1) / 2 := rfl
  simp only [newMargin]
  rw [first]
  split <;> omega

omit [LinearOrder α] in
/-- The elements of the window are the correlations around lag 0 or 1. -/
theorem range_eq (c : Signal α) {m : Int} (nonneg : 0 ≤ m) (fits : m ≤ c.length / 2 - 1)
    : ∃ elements,
        range (shifted c.values) (half c.length - m) (2 * m + 1) = .ok elements
        ∧ elements.length = (2 * m + 1).toNat
        ∧ ∀ position : Nat,
            (position : Int) < 2 * m + 1
            → elements[position]? = some (c.get (position - m + c.length % 2)) := by
  have length : (shifted c.values).length = c.length := by
    rw [shifted_eq, List.length_rotate]
    rfl
  have inside
      : 0 ≤ (half c.length : Int) - m
        ∧ 0 ≤ 2 * m + 1
        ∧ half c.length - m + (2 * m + 1) ≤ (shifted c.values).length := by
    rw [length, half]
    omega
  rw [range, if_pos inside]
  refine ⟨_, rfl, ?_, ?_⟩
  · rw [List.length_take, List.length_drop]
    omega
  · intro position early
    have within : (half c.length - m).toNat + position < c.length := by omega
    -- Twice the half is the length, or one more.
    have index
        : (((half c.length - m : Int).toNat + position : Nat) : Int) + half c.length
          = position - m + c.length % 2 + c.length := by
      rw [half]
      omega
    rw [List.getElem?_take_of_lt (by omega), List.getElem?_drop, shifted_eq]
    change (c.values.rotate (half c.length))[_]? = _
    rw [c.getElem?_rotate within, index, c.get_add_length]

/-- The answer is the first maximum of the window, which is moved by one lag if the length is
odd.
-/
theorem execute_eq (c : Signal α) {margin : Int} (two : 2 ≤ c.length) (nonneg : 0 ≤ margin)
    : let m := newMargin c.length (half c.length) margin
      ∃ d,
        execute c.length true c.length c.values margin = .ok d
        ∧ (-m ≤ d ∧ d ≤ m)
        ∧ (∀ k, -m ≤ k → k ≤ m → c.get (k + c.length % 2) ≤ c.get (d + c.length % 2))
        ∧ ∀ k, -m ≤ k → k < d → c.get (k + c.length % 2) < c.get (d + c.length % 2) := by
  intro m
  have margins : m = min margin (c.length / 2 - 1) := newMargin_eq c.length margin
  have ranged : 0 ≤ m ∧ m ≤ c.length / 2 - 1 := by omega
  obtain ⟨elements, read, length, found⟩ := range_eq c ranged.1 ranged.2
  have inhabited : elements ≠ [] := List.ne_nil_of_length_pos (by omega)
  obtain ⟨peak, top, highest, earlier⟩ := Cyclic.firstMax_eq inhabited
  have within : firstMax elements < elements.length := (List.getElem?_eq_some_iff.mp top).1
  -- The element at a lag of the window.
  have at_lag
      : ∀ k, -m ≤ k → k ≤ m → elements[(k + m).toNat]? = some (c.get (k + c.length % 2)) := by
    intro k low high
    have position : ((k + m).toNat : Int) = k + m := by omega
    rw [found _ (by omega), position]
    congr 2
    omega
  have low : -m ≤ firstMax elements - m := by omega
  have high : firstMax elements - m ≤ m := by omega
  have answer : peak = c.get (firstMax elements - m + c.length % 2) := by
    have there := at_lag _ low high
    rw [Int.sub_add_cancel, Int.toNat_natCast, top] at there
    exact Option.some.inj there
  refine ⟨firstMax elements - m, ?_, ⟨low, high⟩, ?_, ?_⟩
  · simp only [execute]
    rw [if_neg (by simp), if_neg (by simp)]
    change range (shifted c.values) (half c.length - m) (2 * m + 1) >>= _ = _
    rw [read, ok_bind]
    rfl
  · intro k low high
    rw [← answer]
    exact highest _ (List.mem_of_getElem? (at_lag k low high))
  · intro k low before
    rw [← answer]
    exact earlier (k + m).toNat _ (by omega) (at_lag k low (by omega))

/-- For an even length the answer is the peak. For an odd length it is, exactly if the window
peaks at its first or at its last lag and the window moved by one lag does so as well.
-/
theorem execute_peak_iff (c : Signal α) {margin : Int} (two : 2 ≤ c.length)
    (nonneg : 0 ≤ margin)
    : ReturnsPeak c margin
      ↔ Even c.length
        ∨ PeaksFirst c (min margin (c.length / 2 - 1))
        ∨ PeaksLast c (min margin (c.length / 2 - 1)) := by
  obtain ⟨d, done, ⟨low, high⟩, highest, earlier⟩ := execute_eq c two nonneg
  rw [newMargin_eq c.length margin] at low high highest earlier
  simp only [ReturnsPeak, done, Except.ok.injEq, exists_eq_left', newMargin_eq c.length margin]
  rw [and_iff_right ⟨low, high⟩]
  generalize min margin (c.length / 2 - 1) = m at low high highest earlier
  rcases Nat.even_or_odd c.length with even | odd
  case inl =>
    have parity : (c.length : Int) % 2 = 0 := by
      have remainder := Nat.even_iff.mp even
      omega
    simp only [parity, Int.add_zero] at highest
    exact iff_of_true highest (Or.inl even)
  case inr =>
    have parity : (c.length : Int) % 2 = 1 := by
      have remainder := Nat.odd_iff.mp odd
      omega
    rw [parity] at highest earlier
    rw [or_iff_right (Nat.not_even_iff_odd.mpr odd)]
    constructor
    case mp =>
      intro peak
      by_cases first : d = -m
      case pos =>
        subst first
        exact Or.inl (fun k low high => ⟨peak k low high, highest k low high⟩)
      case neg =>
        by_cases last : d = m
        case pos =>
          subst last
          exact Or.inr (fun k low high => ⟨peak k low high, earlier k low⟩)
        case neg =>
          -- Inside the window the correlation would rise behind its peak.
          have rises := earlier (d - 1) (by omega) (by omega)
          rw [Int.sub_add_cancel] at rises
          exact absurd (peak (d + 1) (by omega) (by omega)) (not_le.mpr rises)
    case mpr =>
      rintro (first | last) k lower higher
      · have same : d = -m := by
          by_contra other
          have rises := earlier (-m) (by omega) (by omega)
          exact absurd (first d low high).2 (not_le.mpr rises)
        exact same ▸ (first k lower higher).1
      · have same : d = m := by
          by_contra other
          have rises := (last d low high).2 (by omega)
          exact absurd (highest m (by omega) (by omega)) (not_le.mpr rises)
        exact same ▸ (last k lower higher).1

theorem execute_peak_iff_even
    : ReturnsPeak ⟨[(3 : Int), 5, 1, 2], by simp⟩ 7 :=
  (execute_peak_iff _ (by decide) (by decide)).mpr (Or.inl (by decide))

/-- For five samples with their peak at lag 0 the answer is -1. -/
theorem peak_missed
    : ¬∀ (c : Signal Int) (margin : Int), 2 ≤ c.length → 0 ≤ margin → ReturnsPeak c margin := by
  intro peaks
  obtain ⟨d, done, -, highest⟩ := peaks ⟨[1, 0, 0, 0, 0], by simp⟩ 1 (by decide) (by decide)
  have answered : execute 5 true 5 [(1 : Int), 0, 0, 0, 0] 1 = .ok (-1) := by decide
  obtain rfl : (-1 : Int) = d := Except.ok.inj (answered.symm.trans done)
  exact absurd (highest 0 (by decide) (by decide)) (by decide)

end GCCPhat

end Nbsdk.Math
