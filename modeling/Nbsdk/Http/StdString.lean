import Mathlib.Algebra.Group.Int.Defs
import Mathlib.Algebra.Group.Nat.Defs
import Nbsdk.Lib.Cut

/-! What the code uses of std::string and of the standard functions over it.
Positions are as the searches return them. A substring or an erasure that starts behind the
end of its string throws.
-/

namespace Nbsdk.Http

/-- A `std::string`; each character stands for one byte. -/
abbrev Text := List Char

/-- The exception that `substr` and `erase` throw. -/
inductive OutOfRange
  | outOfRange
  deriving DecidableEq, Repr

/-- A `size_t` position or count. `none` stands for `npos` and for any value past the end of
every string, such as a difference that wrapped.
-/
abbrev Size := Option Nat

/-- One more; `npos + 1` wraps to zero. -/
def plusOne : Size → Nat
  | none => 0
  | some position => position + 1

/-- The difference of two positions, which wraps when it is negative. -/
def minus (first second : Nat) : Size :=
  if second ≤ first then some (first - second) else none

/-- The first `count` characters, or all of them. -/
def truncate : Size → Text → Text
  | none, s => s
  | some count, s => s.take count

def substr (s : Text) (position : Nat) (count : Size) : Except OutOfRange Text :=
  if position ≤ s.length then .ok (truncate count (s.drop position))
  else .error .outOfRange

/-- Erases `count` characters from `position` on, or all of them. -/
def erase (s : Text) (position : Nat) (count : Size) : Except OutOfRange Text :=
  if position ≤ s.length then
    .ok (s.take position
      ++ match count with
        | none => []
        | some count => s.drop (position + count))
  else .error .outOfRange

def find (delimiter : Char) (s : Text) : Size := s.idxOf? delimiter

def findFirstNotOf (char : Char) (s : Text) : Size := s.findIdx? (· ≠ char)

def findLastNotOf (char : Char) (s : Text) : Size :=
  (s.reverse.findIdx? (· ≠ char)).map (fun fromEnd => s.length - 1 - fromEnd)

/-- The pieces around every match of a one-character regex; the iterator drops an empty
piece behind the last match.
-/
def tokens (separator : Char) (s : Text) : List Text :=
  let pieces := s.splitOn separator
  if 1 < pieces.length ∧ pieces.getLast? = some [] then pieces.dropLast else pieces

def isSpace (char : Char) : Bool :=
  char = ' ' ∨ char = '\t' ∨ char = '\n' ∨ char = '\x0b' ∨ char = '\x0c' ∨ char = '\r'

/-- The longest prefix of digits as a number; 0 if there is none. -/
def digits (s : Text) : Nat := Nat.ofDigitChars 10 (s.takeWhile Char.isDigit) 0

/-- The number at the start of a text: blanks are skipped, then an optional sign and the
digits count.
-/
def number (s : Text) : Int :=
  match s.dropWhile isSpace with
  | '-' :: rest => -(digits rest : Int)
  | '+' :: rest => digits rest
  | rest => digits rest

/-- `std::strtol`, which saturates at the ends of a 64-bit `long`. -/
def strtol (s : Text) : Int := max (-2 ^ 63) (min (2 ^ 63 - 1) (number s))

/-- `std::atoi`: the `long` is converted to an `int`. -/
def atoi (s : Text) : Int := (strtol s).bmod (2 ^ 32)

/-- An `int` written to a stream. -/
def decimal (n : Int) : Text :=
  if n < 0 then '-' :: Nat.toDigits 10 n.natAbs else Nat.toDigits 10 n.natAbs

/-- A property of the characters of a list, tested one after another. -/
theorem forall_mem_of_all {property : Char → Prop} [DecidablePred property]
    {chars : List Char} (tested : chars.all (property ·) = true)
    : ∀ char ∈ chars, property char := by
  simpa using tested

/-- A substring from the end of a first part on. -/
theorem substr_append (first rest : Text) (count : Size)
    : substr (first ++ rest) first.length count = .ok (truncate count rest) := by
  rw [substr, if_pos (by simp), List.drop_left]

/-- A substring behind a first part and a delimiter. -/
theorem substr_append_cons (first rest : Text) (delimiter : Char) (count : Size)
    : substr (first ++ delimiter :: rest) (first.length + 1) count
      = .ok (truncate count rest) := by
  have := substr_append (first ++ [delimiter]) rest count
  simpa using this

/-- A substring from the start. -/
theorem substr_zero (s : Text) (count : Size) : substr s 0 count = .ok (truncate count s) :=
  substr_append [] s count

@[simp] theorem truncate_append (first rest : Text)
    : truncate (some first.length) (first ++ rest) = first := by
  simp [truncate]

@[simp] theorem find_of_not_mem {delimiter : Char} {s : Text} (absent : delimiter ∉ s)
    : find delimiter s = none :=
  List.idxOf?_eq_none_iff.mpr absent

@[simp] theorem find_append_cons {delimiter : Char} {s : Text} (absent : delimiter ∉ s)
    (rest : Text)
    : find delimiter (s ++ delimiter :: rest) = some s.length :=
  Cut.idxOf?_append_cons absent rest

/-- Up to the position of a delimiter, or all without one, is the part before it. -/
theorem truncate_find (delimiter : Char) (s : Text)
    : truncate (find delimiter s) s = Cut.before delimiter s := by
  by_cases present : delimiter ∈ s
  · obtain ⟨first, rest, rfl, absent⟩ := List.eq_append_cons_of_mem present
    rw [find_append_cons absent, truncate_append, Cut.before_append_cons absent]
  · rw [find_of_not_mem present, Cut.before_of_not_mem present]
    rfl

/-- The first other character is found behind the leading ones, by induction. -/
theorem findFirstNotOf_eq (char : Char) (s : Text)
    : (findFirstNotOf char s = none ∧ s.dropWhile (· = char) = [])
      ∨ ∃ position,
          findFirstNotOf char s = some position
          ∧ position < s.length
          ∧ s.dropWhile (· = char) = s.drop position := by
  induction s with
  | nil => exact Or.inl ⟨rfl, rfl⟩
  | cons first s ih =>
      simp only [findFirstNotOf] at ih ⊢
      by_cases same : first = char
      · rw [List.findIdx?_cons, if_neg (by simpa using same),
          List.dropWhile_cons_of_pos (by simpa using same)]
        rcases ih with ⟨none, empty⟩ | ⟨position, found, inside, rest⟩
        · exact Or.inl ⟨by rw [none]; rfl, empty⟩
        · refine Or.inr ⟨position + 1, by rw [found]; rfl, ?_, rest⟩
          exact Nat.succ_lt_succ inside
      · rw [List.findIdx?_cons, if_pos (by simpa using same),
          List.dropWhile_cons_of_neg (by simpa using same)]
        exact Or.inr ⟨0, rfl, Nat.zero_lt_succ _, rfl⟩

/-- Erasing up to the first other character drops the leading ones. -/
theorem erase_front (char : Char) (s : Text)
    : erase s 0 (findFirstNotOf char s) = .ok (s.dropWhile (· = char)) := by
  rcases findFirstNotOf_eq char s with ⟨none, empty⟩ | ⟨position, found, _, rest⟩
  · simp [erase, none, empty]
  · simp [erase, found, rest]

/-- Erasing behind the last other character drops the trailing ones. -/
theorem erase_back (char : Char) (s : Text)
    : erase s (plusOne (findLastNotOf char s)) none = .ok (s.rdropWhile (· = char)) := by
  have mirrored := findFirstNotOf_eq char s.reverse
  simp only [findFirstNotOf] at mirrored
  simp only [findLastNotOf, List.rdropWhile]
  rcases mirrored with ⟨none, empty⟩ | ⟨fromEnd, found, inside, rest⟩
  · rw [none, empty]
    simp [plusOne, erase]
  · rw [List.length_reverse] at inside
    have position : s.length - 1 - fromEnd + 1 = s.length - fromEnd := by omega
    rw [found, rest, Option.map_some, plusOne, position, erase, if_pos (Nat.sub_le ..),
      List.append_nil, List.drop_reverse, List.reverse_reverse]

/-- The nonempty tokens are the nonempty pieces. -/
theorem tokens_filter (separator : Char) (s : Text)
    : (tokens separator s).filter (· ≠ []) = (s.splitOn separator).filter (· ≠ []) := by
  simp only [tokens]
  split
  case isTrue dropped =>
    have split := List.dropLast_append_getLast? [] dropped.2
    conv_rhs => rw [← split]
    simp
  case isFalse => rfl

/-- Digits in front of anything else are read as their number. -/
theorem digits_toDigits (n : Nat) {rest : Text}
    (ends : ∀ char, rest.head? = some char → char.isDigit = false)
    : digits (Nat.toDigits 10 n ++ rest) = n := by
  have all : ∀ char ∈ Nat.toDigits 10 n, char.isDigit = true :=
    fun char member => Nat.isDigit_of_mem_toDigits (by decide) (by decide) member
  have none : rest.takeWhile Char.isDigit = [] := by
    cases rest with
    | nil => rfl
    | cons first rest => rw [List.takeWhile_cons_of_neg (by simp [ends first rfl])]
  rw [digits, List.takeWhile_append_of_pos all, none, List.append_nil]
  exact Nat.ofDigitChars_ten_toDigits

/-- A digit is no blank and no sign. -/
theorem isSpace_of_isDigit {char : Char} (digit : char.isDigit = true)
    : isSpace char = false ∧ char ≠ '-' ∧ char ≠ '+' := by
  refine ⟨?_, ?_, ?_⟩
  · simp only [isSpace, decide_eq_false_iff_not, not_or]
    refine ⟨?_, ?_, ?_, ?_, ?_, ?_⟩ <;> rintro rfl <;> contradiction
  · intro same
    subst same
    contradiction
  · intro same
    subst same
    contradiction

/-- A text that starts with a digit is read as its digits. -/
theorem number_eq_digits {first : Char} {rest : Text} (digit : first.isDigit = true)
    : number (first :: rest) = digits (first :: rest) := by
  obtain ⟨visible, notMinus, notPlus⟩ := isSpace_of_isDigit digit
  rw [number, List.dropWhile_cons_of_neg (by simp [visible])]
  split
  · simp_all
  · simp_all
  · rfl

/-- The values of an `int`. -/
def IsInt (n : Int) : Prop := -2 ^ 31 ≤ n ∧ n < 2 ^ 31

theorem atoi_isInt (s : Text) : IsInt (atoi s) :=
  ⟨Int.le_bmod (by decide), Int.bmod_lt (by decide)⟩

/-- A number that is an `int` is read as it is. -/
theorem atoi_eq_number {s : Text} (fits : IsInt (number s)) : atoi s = number s := by
  obtain ⟨lower, upper⟩ := fits
  have unsaturated : strtol s = number s := by
    rw [strtol]
    omega
  rw [atoi, unsaturated]
  exact Int.bmod_eq_of_le (by omega) (by omega)

/-- A printed number is read back. -/
theorem number_decimal (n : Int) {rest : Text}
    (ends : ∀ char, rest.head? = some char → char.isDigit = false)
    : number (decimal n ++ rest) = n := by
  rw [decimal]
  split
  case isTrue negative =>
    rw [List.cons_append, number, List.dropWhile_cons_of_neg (by decide)]
    simp only [digits_toDigits _ ends]
    omega
  case isFalse natural =>
    cases printed : Nat.toDigits 10 n.natAbs with
    | nil => exact absurd printed Nat.toDigits_ne_nil
    | cons first others =>
        have digit : first.isDigit = true :=
          Nat.isDigit_of_mem_toDigits (by decide) (by decide)
            (printed ▸ List.mem_cons_self)
        rw [List.cons_append, number_eq_digits digit, ← List.cons_append, ← printed,
          digits_toDigits _ ends]
        omega

/-- A printed `int` is read back. -/
theorem atoi_decimal {n : Int} (fits : IsInt n) {rest : Text}
    (ends : ∀ char, rest.head? = some char → char.isDigit = false)
    : atoi (decimal n ++ rest) = n := by
  have read := number_decimal n ends
  rw [atoi_eq_number (by rwa [read]), read]

/-- A printed number ends in a digit. -/
theorem decimal_ends (n : Int)
    : ∃ front last, decimal n = front ++ [last] ∧ last.isDigit = true := by
  rcases List.eq_nil_or_concat (Nat.toDigits 10 n.natAbs) with empty | ⟨front, last, printed⟩
  · exact absurd empty Nat.toDigits_ne_nil
  · rw [List.concat_eq_append] at printed
    have inside : last ∈ Nat.toDigits 10 n.natAbs := by simp [printed]
    have digit : last.isDigit = true :=
      Nat.isDigit_of_mem_toDigits (by decide) (by decide) inside
    rw [decimal, printed]
    split
    · exact ⟨'-' :: front, last, rfl, digit⟩
    · exact ⟨front, last, rfl, digit⟩

/-- A printed number consists of digits, and perhaps a minus sign. -/
theorem not_mem_decimal {char : Char} (notMinus : char ≠ '-')
    (noDigit : char.isDigit = false) (n : Int)
    : char ∉ decimal n := by
  have absent : char ∉ Nat.toDigits 10 n.natAbs := by
    intro member
    have digit := Nat.isDigit_of_mem_toDigits (by decide) (by decide) member
    rw [noDigit] at digit
    contradiction
  rw [decimal]
  split
  · simp [notMinus, absent]
  · exact absent

end Nbsdk.Http
