import Mathlib.Data.List.DropRight

/-! Cutting lists at the first occurrence of a delimiter, and the positions of searches.
A search gives `none` where nothing is found. The two parts of a list around the first
delimiter are the terms in which a text with delimiters is read.
-/

universe u

namespace Cut

variable {α : Type u} [DecidableEq α]

/-- The part before the first delimiter; the whole list if there is none. -/
def before (delimiter : α) : List α → List α
  | [] => []
  | first :: rest => if first = delimiter then [] else first :: before delimiter rest

/-- The part after the first delimiter, if there is one. -/
def after? (delimiter : α) : List α → Option (List α)
  | [] => none
  | first :: rest => if first = delimiter then some rest else after? delimiter rest

variable {delimiter : α}

/-- Before a delimiter comes what has none, by induction over it. -/
@[simp] theorem before_append_cons {s : List α} (absent : delimiter ∉ s) (rest : List α)
    : before delimiter (s ++ delimiter :: rest) = s := by
  induction s with
  | nil => simp [before]
  | cons first s ih =>
      rw [List.mem_cons, not_or] at absent
      rw [List.cons_append, before, if_neg (Ne.symm absent.1), ih absent.2]

@[simp] theorem before_of_not_mem {s : List α} (absent : delimiter ∉ s)
    : before delimiter s = s := by
  induction s with
  | nil => rfl
  | cons first s ih =>
      rw [List.mem_cons, not_or] at absent
      rw [before, if_neg (Ne.symm absent.1), ih absent.2]

@[simp] theorem after?_append_cons {s : List α} (absent : delimiter ∉ s) (rest : List α)
    : after? delimiter (s ++ delimiter :: rest) = some rest := by
  induction s with
  | nil => simp [after?]
  | cons first s ih =>
      rw [List.mem_cons, not_or] at absent
      rw [List.cons_append, after?, if_neg (Ne.symm absent.1), ih absent.2]

@[simp] theorem after?_of_not_mem {s : List α} (absent : delimiter ∉ s)
    : after? delimiter s = none := by
  induction s with
  | nil => rfl
  | cons first s ih =>
      rw [List.mem_cons, not_or] at absent
      rw [after?, if_neg (Ne.symm absent.1), ih absent.2]

theorem not_mem_before (delimiter : α) (s : List α) : delimiter ∉ before delimiter s := by
  by_cases present : delimiter ∈ s
  · obtain ⟨first, rest, rfl, absent⟩ := List.eq_append_cons_of_mem present
    rwa [before_append_cons absent]
  · rwa [before_of_not_mem present]

/-- The first part is empty only if the list is or starts with the delimiter. -/
theorem before_eq_nil_iff {delimiter : α} {s : List α}
    : before delimiter s = [] ↔ s = [] ∨ s.head? = some delimiter := by
  cases s with
  | nil => simp [before]
  | cons first rest =>
      by_cases same : first = delimiter
      · simp [before, same]
      · simp [before, same]

/-- The first part is a prefix. -/
theorem before_isPrefix (delimiter : α) (s : List α) : before delimiter s <+: s := by
  by_cases present : delimiter ∈ s
  · obtain ⟨first, rest, rfl, absent⟩ := List.eq_append_cons_of_mem present
    rw [before_append_cons absent]
    exact List.prefix_append ..
  · have whole := before_of_not_mem present
    exact ⟨[], by rw [whole, List.append_nil]⟩

/-- The second part is a suffix. -/
theorem after?_suffix {s rest : List α} (found : after? delimiter s = some rest)
    : rest <:+ s := by
  by_cases present : delimiter ∈ s
  · obtain ⟨first, others, rfl, absent⟩ := List.eq_append_cons_of_mem present
    rw [after?_append_cons absent, Option.some.injEq] at found
    rw [← found, ← List.singleton_append, ← List.append_assoc]
    exact List.suffix_append ..
  · rw [after?_of_not_mem present] at found
    contradiction

/-- A list that has no delimiter only moves the cut of what follows. -/
theorem before_append {s : List α} (absent : delimiter ∉ s) (rest : List α)
    : before delimiter (s ++ rest) = s ++ before delimiter rest := by
  by_cases present : delimiter ∈ rest
  · obtain ⟨first, rest, rfl, absent'⟩ := List.eq_append_cons_of_mem present
    rw [← List.append_assoc, before_append_cons, before_append_cons absent']
    simp [absent, absent']
  · rw [before_of_not_mem present, before_of_not_mem]
    simp [absent, present]

/-- The cut of a list that has a delimiter does not move when the list goes on. -/
theorem before_append_of_mem {s : List α} (present : delimiter ∈ s) (rest : List α)
    : before delimiter (s ++ rest) = before delimiter s := by
  obtain ⟨first, others, rfl, absent⟩ := List.eq_append_cons_of_mem present
  rw [List.append_assoc, List.cons_append, before_append_cons absent,
    before_append_cons absent]

/-- The first part only grows when the list goes on, by whether it is closed already. -/
theorem before_isPrefix_append (delimiter : α) (s rest : List α)
    : before delimiter s <+: before delimiter (s ++ rest) := by
  by_cases present : delimiter ∈ s
  · exact ⟨[], by rw [before_append_of_mem present, List.append_nil]⟩
  · exact ⟨before delimiter rest, by rw [before_append present, before_of_not_mem present]⟩

theorem after?_append {s : List α} (absent : delimiter ∉ s) (rest : List α)
    : after? delimiter (s ++ rest) = after? delimiter rest := by
  by_cases present : delimiter ∈ rest
  · obtain ⟨first, rest, rfl, absent'⟩ := List.eq_append_cons_of_mem present
    rw [← List.append_assoc, after?_append_cons, after?_append_cons absent']
    simp [absent, absent']
  · rw [after?_of_not_mem present, after?_of_not_mem]
    simp [absent, present]

/-- A list is cut at its first delimiter in one way only. -/
theorem append_cons_inj {s other rest rest' : List α} (absent : delimiter ∉ s)
    (absent' : delimiter ∉ other) (same : s ++ delimiter :: rest = other ++ delimiter :: rest')
    : s = other ∧ rest = rest' := by
  have first := congrArg (before delimiter) same
  have second := congrArg (after? delimiter) same
  rw [before_append_cons absent, before_append_cons absent'] at first
  rw [after?_append_cons absent, after?_append_cons absent'] at second
  exact ⟨first, Option.some.inj second⟩

/-- The first delimiter is at the length of the part before it, by induction over it. -/
theorem idxOf?_append_cons {s : List α} (absent : delimiter ∉ s) (rest : List α)
    : (s ++ delimiter :: rest).idxOf? delimiter = some s.length := by
  induction s with
  | nil => simp [List.idxOf?_cons]
  | cons first s ih =>
      rw [List.mem_cons, not_or] at absent
      rw [List.cons_append, List.idxOf?_cons, beq_false_of_ne (Ne.symm absent.1),
        ih absent.2]
      rfl

-----------------------------------------------------------------------------------------
-- Joins and pieces
-----------------------------------------------------------------------------------------

omit [DecidableEq α] in
/-- Joins of nonempty lists compose with one separator, by induction over the first. -/
theorem intercalate_append {separator : List α} {first second : List (List α)}
    (some : first ≠ []) (some' : second ≠ [])
    : separator.intercalate (first ++ second)
      = separator.intercalate first ++ separator ++ separator.intercalate second := by
  induction first with
  | nil => contradiction
  | cons piece rest ih =>
      cases rest with
      | nil =>
          rw [List.singleton_append, List.intercalate_cons_of_ne_nil some',
            List.intercalate_singleton, List.append_assoc]
      | cons next others =>
          rw [List.cons_append, List.cons_append, List.intercalate_cons_cons,
            List.intercalate_cons_cons, ← List.cons_append, ih (by simp)]
          simp only [List.append_assoc]

omit [DecidableEq α] in
/-- A join ends in its last piece. -/
theorem intercalate_concat (separator : List α) (pieces : List (List α))
    : ∃ front, ∀ last, separator.intercalate (pieces ++ [last]) = front ++ last := by
  by_cases none : pieces = []
  · refine ⟨[], ?_⟩
    intro last
    simp [none]
  · refine ⟨separator.intercalate pieces ++ separator, ?_⟩
    intro last
    rw [intercalate_append none (by simp), List.intercalate_singleton]

omit [DecidableEq α] in
/-- The elements of a join are the separator's and the pieces', by induction over these. -/
theorem mem_intercalate {separator : List α} {pieces : List (List α)} {a : α}
    (member : a ∈ separator.intercalate pieces)
    : a ∈ separator ∨ ∃ piece ∈ pieces, a ∈ piece := by
  induction pieces with
  | nil => exact absurd member List.not_mem_nil
  | cons first rest ih =>
      by_cases none : rest = []
      · rw [none, List.intercalate_singleton] at member
        exact Or.inr ⟨first, List.mem_cons_self, member⟩
      · rw [List.intercalate_cons_of_ne_nil none] at member
        rcases List.mem_append.mp member with inFront | later
        · rcases List.mem_append.mp inFront with inside | between
          · exact Or.inr ⟨first, List.mem_cons_self, inside⟩
          · exact Or.inl between
        · rcases ih later with between | ⟨piece, within, inside⟩
          · exact Or.inl between
          · exact Or.inr ⟨piece, List.mem_cons_of_mem first within, inside⟩

omit [DecidableEq α] in
/-- The elements of a piece are in the join, by induction over the pieces. -/
theorem mem_intercalate_of_mem (separator : List α) {pieces : List (List α)}
    {piece : List α} (inside : piece ∈ pieces) {a : α} (within : a ∈ piece)
    : a ∈ separator.intercalate pieces := by
  induction pieces with
  | nil => exact absurd inside List.not_mem_nil
  | cons first rest ih =>
      by_cases none : rest = []
      · rw [none, List.mem_singleton] at inside
        rwa [none, List.intercalate_singleton, ← inside]
      · rw [List.intercalate_cons_of_ne_nil none]
        rcases List.mem_cons.mp inside with same | later
        · exact List.mem_append_left _ (List.mem_append_left _ (same ▸ within))
        · exact List.mem_append_right _ (ih later)

/-- A piece has only elements of its list and no delimiter, by induction over the list. -/
theorem of_mem_splitOn {s piece : List α} (member : piece ∈ s.splitOn delimiter)
    : delimiter ∉ piece ∧ ∀ a ∈ piece, a ∈ s := by
  induction s generalizing piece with
  | nil =>
      rw [List.splitOn_nil, List.mem_singleton] at member
      simp [member]
  | cons first rest ih =>
      rw [List.splitOn_cons_eq_if_modifyHead] at member
      split at member
      case isTrue =>
        rcases List.mem_cons.mp member with rfl | later
        · simp
        · obtain ⟨absent, inside⟩ := ih later
          exact ⟨absent, fun a within => List.mem_cons_of_mem first (inside a within)⟩
      case isFalse other =>
        rw [beq_iff_eq] at other
        cases pieces : rest.splitOn delimiter with
        | nil => exact absurd pieces (List.splitOn_ne_nil delimiter rest)
        | cons head tail =>
            rw [pieces, List.modifyHead_cons] at member
            rcases List.mem_cons.mp member with rfl | later
            · obtain ⟨absent, inside⟩ := ih (pieces ▸ List.mem_cons_self)
              constructor
              · simp [absent, Ne.symm other]
              · intro a within
                rcases List.mem_cons.mp within with rfl | within
                · exact List.mem_cons_self
                · exact List.mem_cons_of_mem first (inside a within)
            · obtain ⟨absent, inside⟩ := ih (pieces ▸ List.mem_cons_of_mem head later)
              exact ⟨absent, fun a within => List.mem_cons_of_mem first (inside a within)⟩

/-- What follows without a delimiter belongs to the last piece. -/
theorem splitOn_append {ending : List α} (absent : delimiter ∉ ending) (s : List α)
    : ∃ init last,
        s.splitOn delimiter = init ++ [last]
        ∧ (s ++ ending).splitOn delimiter = init ++ [last ++ ending] := by
  by_cases present : delimiter ∈ s.reverse
  · obtain ⟨last, init, split, noneLater⟩ := List.eq_append_cons_of_mem present
    have text : s = init.reverse ++ delimiter :: last.reverse := by
      rw [← List.reverse_reverse s, split]
      simp
    have single
        : ∀ ending : List α, delimiter ∉ ending →
            (last.reverse ++ ending).splitOn delimiter = [last.reverse ++ ending] :=
      fun ending absent => List.splitOn_eq_singleton (by simp [noneLater, absent])
    refine ⟨init.reverse.splitOn delimiter, last.reverse, ?_, ?_⟩
    · have whole := single [] List.not_mem_nil
      rw [List.append_nil] at whole
      rw [text, List.splitOn_append_cons_self, whole]
    · rw [text, List.append_assoc, List.cons_append, List.splitOn_append_cons_self,
        single ending absent]
  · rw [List.mem_reverse] at present
    exact ⟨[], s, List.splitOn_eq_singleton present,
      List.splitOn_eq_singleton (by simp [present, absent])⟩

/-- No delimiter stands at an end or beside another one. -/
structure Separated (delimiter : α) (s : List α) : Prop where
  leading : ¬[delimiter] <+: s
  trailing : ¬[delimiter] <:+ s
  doubled : ¬[delimiter, delimiter] <:+: s

/-- A list is separated if none of its pieces is empty. -/
theorem separated_of_splitOn {s : List α} (some : [] ∉ s.splitOn delimiter)
    : Separated delimiter s := by
  have leads : ∀ rest : List α, [] ∈ (delimiter :: rest).splitOn delimiter := by
    intro rest
    have cut := List.splitOn_append_cons_self_of_not_mem (List.not_mem_nil (a := delimiter)) rest
    rw [List.nil_append] at cut
    rw [cut]
    exact List.mem_cons_self
  constructor
  · rintro ⟨rest, rfl⟩
    exact some (leads rest)
  · rintro ⟨front, rfl⟩
    apply some
    rw [List.splitOn_append_cons_self, List.splitOn_nil]
    exact List.mem_append_right _ (List.mem_singleton_self [])
  · rintro ⟨front, rest, rfl⟩
    apply some
    rw [List.append_assoc, List.cons_append, List.splitOn_append_cons_self]
    exact List.mem_append_right _ (leads rest)

/-- Pieces that have something but no delimiter are joined to a separated list. -/
theorem separated_intercalate {pieces : List (List α)}
    (absent : ∀ piece ∈ pieces, delimiter ∉ piece) (some : [] ∉ pieces)
    : Separated delimiter ([delimiter].intercalate pieces) := by
  cases pieces with
  | nil => constructor <;> simp
  | cons first rest =>
      apply separated_of_splitOn
      rwa [List.splitOn_intercalate delimiter absent (List.cons_ne_nil first rest)]

end Cut
