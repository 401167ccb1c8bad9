import Mathlib.Algebra.Group.Nat.Defs

/-! Unsigned machine arithmetic on natural numbers, wrapping at a width in bits. -/

namespace Word

/-- The sum modulo `2 ^ width`. -/
def add (width a b : Nat) : Nat := (a + b) % 2 ^ width

/-- The difference modulo `2 ^ width`, for operands below it. -/
def sub (width a b : Nat) : Nat := (a + 2 ^ width - b) % 2 ^ width

/-- A sum below the modulus does not wrap. -/
theorem add_eq {width a b : Nat} (fits : a + b < 2 ^ width) : add width a b = a + b :=
  Nat.mod_eq_of_lt fits

/-- A difference that is not negative does not wrap. -/
theorem sub_eq {width a b : Nat} (fits : a < 2 ^ width) (le : b ≤ a)
    : sub width a b = a - b := by
  have shifted : a + 2 ^ width - b = a - b + 2 ^ width := by omega
  rw [sub, shifted, Nat.add_mod_right, Nat.mod_eq_of_lt (by omega)]

/-- Sums are below the modulus. -/
theorem add_lt (width a b : Nat) : add width a b < 2 ^ width :=
  Nat.mod_lt _ (Nat.two_pow_pos width)

end Word
