import Mathlib.Data.List.Sort
import Mathlib.Order.Basic

/-! Finite maps and sets kept in the order of their keys, and maps from keys to sets.
A map is the list of its entries with strictly increasing keys, so two maps with the same
lookups are equal. A set is a map to the unit.
-/

universe u v

/-- A map that is iterated in the order of its keys. -/
structure SortedMap (κ : Type u) (ν : Type v) [LinearOrder κ] where
  entries : List (κ × ν)
  sorted : entries.Pairwise (fun first second => first.1 < second.1)
  deriving DecidableEq, Repr

/-- A set that is iterated in order. -/
abbrev SortedSet (α : Type u) [LinearOrder α] := SortedMap α Unit

namespace SortedMap

variable {κ : Type u} {ν : Type v} [LinearOrder κ]

def empty : SortedMap κ ν := ⟨[], List.Pairwise.nil⟩

def find? (m : SortedMap κ ν) (key : κ) : Option ν := m.entries.lookup key

/-- Puts `change (find? key)` at `key`, in its place. -/
def insertWith (key : κ) (change : Option ν → ν) : List (κ × ν) → List (κ × ν)
  | [] => [(key, change none)]
  | (other, value) :: rest =>
      if key < other then (key, change none) :: (other, value) :: rest
      else if key = other then (key, change (some value)) :: rest
      else (other, value) :: insertWith key change rest

/-- The keys after an insertion are the key and the keys before, by induction. -/
theorem mem_insertWith_keys {key : κ} {change : Option ν → ν} {entries : List (κ × ν)}
    {entry : κ × ν} (member : entry ∈ insertWith key change entries)
    : entry.1 = key ∨ entry ∈ entries := by
  induction entries with
  | nil =>
      rw [insertWith, List.mem_singleton] at member
      exact Or.inl (congrArg Prod.fst member)
  | cons first rest ih =>
      rw [insertWith] at member
      split at member
      · rcases List.mem_cons.mp member with rfl | later
        · exact Or.inl rfl
        · exact Or.inr later
      · split at member
        · rcases List.mem_cons.mp member with rfl | later
          · exact Or.inl rfl
          · exact Or.inr (List.mem_cons_of_mem first later)
        · rcases List.mem_cons.mp member with rfl | later
          · exact Or.inr List.mem_cons_self
          · exact (ih later).imp_right (List.mem_cons_of_mem first)

/-- An insertion keeps the keys strictly increasing, by induction over the entries. -/
theorem insertWith_sorted {key : κ} {change : Option ν → ν} {entries : List (κ × ν)}
    (sorted : entries.Pairwise (fun first second => first.1 < second.1))
    : (insertWith key change entries).Pairwise (fun first second => first.1 < second.1) := by
  induction entries with
  | nil => exact List.pairwise_singleton _ _
  | cons first rest ih =>
      obtain ⟨below, tail⟩ := List.pairwise_cons.mp sorted
      rw [insertWith]
      split
      case isTrue before =>
        refine List.pairwise_cons.mpr ⟨?_, sorted⟩
        intro entry member
        rcases List.mem_cons.mp member with rfl | later
        · exact before
        · exact before.trans (below entry later)
      case isFalse notBefore =>
        split
        case isTrue same => exact List.pairwise_cons.mpr ⟨same ▸ below, tail⟩
        case isFalse other =>
          refine List.pairwise_cons.mpr ⟨?_, ih tail⟩
          intro entry member
          rcases mem_insertWith_keys member with inserted | later
          · rw [inserted]
            exact lt_of_le_of_ne (not_lt.mp notBefore) (Ne.symm other)
          · exact below entry later

/-- Replaces what is stored at `key`, or stores a first value there. -/
def alter (m : SortedMap κ ν) (key : κ) (change : Option ν → ν) : SortedMap κ ν where
  entries := insertWith key change m.entries
  sorted := insertWith_sorted m.sorted

/-- A key below all others is not found, by the order of the keys. -/
theorem lookup_eq_none {key : κ} {entries : List (κ × ν)}
    (below : ∀ entry ∈ entries, key < entry.1)
    : entries.lookup key = none := by
  rw [List.lookup_eq_none_iff]
  intro entry member
  simpa using ne_of_lt (below entry member)

/-- What is found at a key is its entry, by induction over the entries. -/
theorem lookup_eq_some {entries : List (κ × ν)}
    (sorted : entries.Pairwise (fun first second => first.1 < second.1)) {key : κ} {value : ν}
    : entries.lookup key = some value ↔ (key, value) ∈ entries := by
  induction entries with
  | nil => simp
  | cons first rest ih =>
      obtain ⟨below, tail⟩ := List.pairwise_cons.mp sorted
      obtain ⟨other, stored⟩ := first
      by_cases same : key = other
      · subst same
        have unique : ∀ v, (key, v) ∉ rest :=
          fun v later => lt_irrefl key (below (key, v) later)
        simp [unique, eq_comm]
      · rw [List.lookup_cons, beq_false_of_ne same]
        simp [ih tail, same]

theorem find?_eq_some {m : SortedMap κ ν} {key : κ} {value : ν}
    : m.find? key = some value ↔ (key, value) ∈ m.entries :=
  lookup_eq_some m.sorted

/-- Maps with the same lookups are equal, since the keys are in order. -/
theorem ext_find? {m other : SortedMap κ ν} (same : ∀ key, m.find? key = other.find? key)
    : m = other := by
  have entries : m.entries = other.entries := by
    have : Std.Irrefl (fun first second : κ × ν => first.1 < second.1) :=
      ⟨fun entry => lt_irrefl entry.1⟩
    have : IsTrans (κ × ν) (fun first second => first.1 < second.1) :=
      ⟨fun _ _ _ earlier later => lt_trans earlier later⟩
    apply m.sorted.eq_of_mem_iff other.sorted
    intro held
    rcases held with ⟨key, value⟩
    rw [← find?_eq_some, ← find?_eq_some, same key]
  cases m
  cases other
  simpa using entries

/-- A change is found at its key, by induction over the entries. -/
@[simp] theorem find?_alter_self (m : SortedMap κ ν) (key : κ) (change : Option ν → ν)
    : (m.alter key change).find? key = some (change (m.find? key)) := by
  obtain ⟨entries, sorted⟩ := m
  simp only [find?, alter]
  induction entries with
  | nil => simp [insertWith]
  | cons first rest ih =>
      obtain ⟨below, tail⟩ := List.pairwise_cons.mp sorted
      rw [insertWith]
      split
      case isTrue before =>
        have absent : (first :: rest).lookup key = none := by
          apply lookup_eq_none
          intro entry member
          rcases List.mem_cons.mp member with rfl | later
          · exact before
          · exact before.trans (below entry later)
        rw [absent, List.lookup_cons_self]
      case isFalse notBefore =>
        split
        case isTrue same =>
          obtain ⟨other, stored⟩ := first
          obtain rfl : key = other := same
          simp
        case isFalse other =>
          rw [List.lookup_cons, List.lookup_cons, beq_false_of_ne other]
          exact ih tail

/-- A change shows nowhere else, by induction over the entries. -/
theorem find?_alter_of_ne {m : SortedMap κ ν} {key other : κ} {change : Option ν → ν}
    (apart : other ≠ key)
    : (m.alter key change).find? other = m.find? other := by
  obtain ⟨entries, sorted⟩ := m
  simp only [find?, alter]
  induction entries with
  | nil => simp [insertWith, apart]
  | cons first rest ih =>
      obtain ⟨stored, value⟩ := first
      rw [insertWith]
      split
      · rw [List.lookup_cons, beq_false_of_ne apart]
      · split
        case isTrue same =>
          obtain rfl : key = stored := same
          rw [List.lookup_cons, List.lookup_cons, beq_false_of_ne apart]
        case isFalse =>
          rw [List.lookup_cons, List.lookup_cons, ih (List.pairwise_cons.mp sorted).2]

/-- Stores a value at `key` if nothing is stored there. -/
def emplace (m : SortedMap κ ν) (key : κ) (value : ν) : SortedMap κ ν :=
  m.alter key (fun stored => stored.getD value)

/-- An emplacement keeps what is found at its key. -/
@[simp] theorem find?_emplace_self (m : SortedMap κ ν) (key : κ) (value : ν)
    : (m.emplace key value).find? key = some ((m.find? key).getD value) :=
  find?_alter_self ..

/-- An emplacement shows nowhere else. -/
theorem find?_emplace_of_ne {m : SortedMap κ ν} {key other : κ} {value : ν}
    (apart : other ≠ key)
    : (m.emplace key value).find? other = m.find? other :=
  find?_alter_of_ne apart

/-- Removes what is stored at `key`. -/
def erase (m : SortedMap κ ν) (key : κ) : SortedMap κ ν where
  entries := m.entries.filter (fun entry => entry.1 ≠ key)
  sorted := m.sorted.filter _

/-- What is found after a removal was found before, at another key. -/
theorem find?_erase_eq_some {m : SortedMap κ ν} {key other : κ} {value : ν}
    : (m.erase key).find? other = some value ↔ m.find? other = some value ∧ other ≠ key := by
  rw [find?_eq_some, find?_eq_some, erase, List.mem_filter, decide_eq_true_eq]

@[simp] theorem find?_erase_self (m : SortedMap κ ν) (key : κ)
    : (m.erase key).find? key = none := by
  rw [Option.eq_none_iff_forall_ne_some]
  intro value found
  exact (find?_erase_eq_some.mp found).2 rfl

/-- A removal shows nowhere else. -/
theorem find?_erase_of_ne {m : SortedMap κ ν} {key other : κ} (apart : other ≠ key)
    : (m.erase key).find? other = m.find? other := by
  apply Option.ext
  intro value
  rw [find?_erase_eq_some]
  exact and_iff_left apart

end SortedMap

namespace SortedSet

variable {α : Type u} [LinearOrder α]

def elements (s : SortedSet α) : List α := s.entries.map Prod.fst

def insert (s : SortedSet α) (element : α) : SortedSet α := s.alter element (fun _ => ())

theorem mem_elements {s : SortedSet α} {element : α}
    : element ∈ elements s ↔ s.find? element = some () := by
  rw [SortedMap.find?_eq_some, elements, List.mem_map]
  constructor
  · intro held
    rcases held with ⟨entry, member, rfl⟩
    exact member
  · intro member
    exact ⟨_, member, rfl⟩

@[simp] theorem mem_insert {s : SortedSet α} {element other : α}
    : other ∈ elements (insert s element) ↔ other = element ∨ other ∈ elements s := by
  rw [mem_elements, mem_elements]
  by_cases same : other = element
  · subst same
    simp [insert]
  · rw [insert, SortedMap.find?_alter_of_ne same]
    simp [same]

/-- Removes an element. -/
def erase (s : SortedSet α) (element : α) : SortedSet α := SortedMap.erase s element

@[simp] theorem mem_erase {s : SortedSet α} {element other : α}
    : other ∈ elements (erase s element) ↔ other ∈ elements s ∧ other ≠ element := by
  rw [mem_elements, mem_elements, erase, SortedMap.find?_erase_eq_some]

/-- Sets with the same elements are equal. -/
theorem ext_elements {s other : SortedSet α}
    (same : ∀ element, element ∈ elements s ↔ element ∈ elements other)
    : s = other := by
  apply SortedMap.ext_find?
  intro element
  have unit : ∀ found : Option Unit, found = if found = some () then some () else none := by
    intro found
    cases found <;> rfl
  rw [unit (s.find? element), unit (other.find? element)]
  simp only [← mem_elements, same element]

/-- The elements are in strict order. -/
theorem elements_sorted (s : SortedSet α) : (elements s).Pairwise (· < ·) :=
  List.pairwise_map.mpr s.sorted

end SortedSet

-----------------------------------------------------------------------------------------
-- Maps to sets
-----------------------------------------------------------------------------------------

namespace SortedMap

variable {κ : Type u} {α : Type v} [LinearOrder κ] [LinearOrder α]

/-- The pairs of a key and an element of its set, in order. -/
def pairs (m : SortedMap κ (SortedSet α)) : List (κ × α) :=
  m.entries.flatMap (fun entry => (SortedSet.elements entry.2).map (fun a => (entry.1, a)))

/-- No key is stored with an empty set. -/
def Inhabited (m : SortedMap κ (SortedSet α)) : Prop :=
  ∀ entry ∈ m.entries, SortedSet.elements entry.2 ≠ []

/-- Adds the element to the key's set, in a new set if the key has none. -/
def addPair (m : SortedMap κ (SortedSet α)) (pair : κ × α) : SortedMap κ (SortedSet α) :=
  m.alter pair.1 (fun stored => SortedSet.insert (stored.getD empty) pair.2)

/-- Removes the element from the key's set, and the key if its set is then empty. -/
def removePair (m : SortedMap κ (SortedSet α)) (pair : κ × α) : SortedMap κ (SortedSet α) :=
  match m.find? pair.1 with
  | none => m
  | some stored =>
      let rest := SortedSet.erase stored pair.2
      if SortedSet.elements rest = [] then m.erase pair.1 else m.alter pair.1 (fun _ => rest)

theorem mem_pairs {m : SortedMap κ (SortedSet α)} {key : κ} {element : α}
    : (key, element) ∈ m.pairs
      ↔ ∃ stored, m.find? key = some stored ∧ element ∈ SortedSet.elements stored := by
  simp only [pairs, List.mem_flatMap, List.mem_map, Prod.mk.injEq, find?_eq_some]
  constructor
  · intro held
    rcases held with ⟨⟨key', stored⟩, member, element', inside, rfl, rfl⟩
    exact ⟨stored, member, inside⟩
  · intro held
    rcases held with ⟨stored, member, inside⟩
    exact ⟨(key, stored), member, element, inside, rfl, rfl⟩

/-- Adding a pair adds exactly this pair, by whether the key is its key. -/
theorem mem_pairs_addPair {m : SortedMap κ (SortedSet α)} {pair other : κ × α}
    : other ∈ (m.addPair pair).pairs ↔ other = pair ∨ other ∈ m.pairs := by
  obtain ⟨key, element⟩ := pair
  obtain ⟨otherKey, otherElement⟩ := other
  rw [mem_pairs, mem_pairs]
  by_cases same : otherKey = key
  · subst same
    cases stored : m.find? otherKey with
    | none =>
        simp only [addPair, find?_alter_self, stored, Option.getD_none, Option.some.injEq,
          exists_eq_left', SortedSet.mem_insert, Prod.mk.injEq, true_and]
        simp [SortedSet.elements, empty]
    | some values =>
        simp only [addPair, find?_alter_self, stored, Option.getD_some, Option.some.injEq,
          exists_eq_left', SortedSet.mem_insert, Prod.mk.injEq, true_and]
  · simp [addPair, find?_alter_of_ne same, same]

/-- Removing a key removes exactly its pairs. -/
theorem mem_pairs_erase {m : SortedMap κ (SortedSet α)} {key : κ} {other : κ × α}
    : other ∈ (m.erase key).pairs ↔ other ∈ m.pairs ∧ other.1 ≠ key := by
  obtain ⟨otherKey, otherElement⟩ := other
  simp only [mem_pairs, find?_erase_eq_some]
  constructor
  · intro held
    rcases held with ⟨stored, ⟨found, apart⟩, inside⟩
    exact ⟨⟨stored, found, inside⟩, apart⟩
  · intro held
    rcases held with ⟨⟨stored, found, inside⟩, apart⟩
    exact ⟨stored, ⟨found, apart⟩, inside⟩

/-- Removing a pair removes exactly this pair, by what is stored at its key. -/
theorem mem_pairs_removePair {m : SortedMap κ (SortedSet α)} {pair other : κ × α}
    : other ∈ (m.removePair pair).pairs ↔ other ∈ m.pairs ∧ other ≠ pair := by
  obtain ⟨key, element⟩ := pair
  obtain ⟨otherKey, otherElement⟩ := other
  simp only [removePair]
  cases stored : m.find? key with
  | none =>
      refine (and_iff_left_of_imp ?_).symm
      intro member same
      obtain ⟨rfl, rfl⟩ := Prod.mk.inj same
      obtain ⟨values, found, _⟩ := mem_pairs.mp member
      rw [stored] at found
      contradiction
  | some values =>
      simp only
      by_cases same : otherKey = key
      · subst same
        simp only [mem_pairs, stored, Option.some.injEq, exists_eq_left', ne_eq, Prod.mk.injEq,
          true_and]
        rw [← SortedSet.mem_erase]
        split
        case isTrue none => simp [none]
        case isFalse => simp
      · have kept : (otherKey, otherElement) ≠ (key, element) :=
          fun equal => same (Prod.mk.inj equal).1
        simp only [mem_pairs, and_iff_left kept]
        split
        · rw [find?_erase_of_ne same]
        · rw [find?_alter_of_ne same]

theorem empty_inhabited : (empty : SortedMap κ (SortedSet α)).Inhabited := by
  intro entry member
  exact absurd member List.not_mem_nil

/-- Adding a pair leaves no set empty. -/
theorem Inhabited.addPair {m : SortedMap κ (SortedSet α)} (h : m.Inhabited) (pair : κ × α)
    : (m.addPair pair).Inhabited := by
  rintro ⟨key, values⟩ member
  rw [← find?_eq_some] at member
  by_cases same : key = pair.1
  · subst same
    rw [SortedMap.addPair, find?_alter_self, Option.some.injEq] at member
    rw [← member]
    exact List.ne_nil_of_mem (SortedSet.mem_insert.mpr (Or.inl rfl))
  · rw [SortedMap.addPair, find?_alter_of_ne same, find?_eq_some] at member
    exact h _ member

/-- Removing a key leaves no set empty. -/
theorem Inhabited.erase {m : SortedMap κ (SortedSet α)} (h : m.Inhabited) (key : κ)
    : (m.erase key).Inhabited := by
  intro entry member
  exact h entry (List.mem_of_mem_filter member)

/-- Removing a pair leaves no set empty, since an empty one is removed with its key. -/
theorem Inhabited.removePair {m : SortedMap κ (SortedSet α)} (h : m.Inhabited) (pair : κ × α)
    : (m.removePair pair).Inhabited := by
  simp only [SortedMap.removePair]
  cases stored : m.find? pair.1 with
  | none => exact h
  | some values =>
      simp only
      split
      case isTrue => exact h.erase pair.1
      case isFalse some =>
        rintro ⟨key, values⟩ member
        rw [← find?_eq_some] at member
        by_cases same : key = pair.1
        · subst same
          rw [find?_alter_self, Option.some.injEq] at member
          exact member ▸ some
        · rw [find?_alter_of_ne same, find?_eq_some] at member
          exact h _ member

/-- A set that a map stores is found in every map with the same pairs. -/
theorem Inhabited.find?_eq {m other : SortedMap κ (SortedSet α)} (h : m.Inhabited)
    (same : ∀ pair, pair ∈ m.pairs ↔ pair ∈ other.pairs) {key : κ} {stored : SortedSet α}
    (found : m.find? key = some stored)
    : other.find? key = some stored := by
  obtain ⟨element, inside⟩ :=
    List.exists_mem_of_ne_nil _ (h (key, stored) (find?_eq_some.mp found))
  obtain ⟨values, found', _⟩ :=
    mem_pairs.mp ((same (key, element)).mp (mem_pairs.mpr ⟨stored, found, inside⟩))
  rw [found', Option.some.injEq]
  apply SortedSet.ext_elements
  intro other
  have both := same (key, other)
  rw [mem_pairs, mem_pairs, found, found'] at both
  simpa using both.symm

/-- A map with an entry has a pair. -/
theorem Inhabited.pairs_ne_nil {m : SortedMap κ (SortedSet α)} (h : m.Inhabited)
    (some : m.entries ≠ [])
    : m.pairs ≠ [] := by
  obtain ⟨entry, inside⟩ := List.exists_mem_of_ne_nil _ some
  obtain ⟨element, within⟩ := List.exists_mem_of_ne_nil _ (h entry inside)
  apply List.ne_nil_of_mem (a := (entry.1, element))
  exact mem_pairs.mpr ⟨entry.2, find?_eq_some.mpr inside, within⟩

/-- Maps to sets without empty sets are equal if they have the same pairs. -/
theorem ext_pairs {m other : SortedMap κ (SortedSet α)} (h : m.Inhabited)
    (h' : other.Inhabited) (same : ∀ pair, pair ∈ m.pairs ↔ pair ∈ other.pairs)
    : m = other := by
  apply ext_find?
  intro key
  cases found : m.find? key with
  | some stored => exact (h.find?_eq same found).symm
  | none =>
      cases found' : other.find? key with
      | none => rfl
      | some stored =>
          have back := h'.find?_eq (fun pair => (same pair).symm) found'
          rw [found] at back
          contradiction

/-- Adding pairs to a map adds exactly these pairs, by induction over them. -/
theorem mem_pairs_foldl {m : SortedMap κ (SortedSet α)} {added : List (κ × α)} {pair : κ × α}
    : pair ∈ (added.foldl addPair m).pairs ↔ pair ∈ m.pairs ∨ pair ∈ added := by
  induction added generalizing m with
  | nil => simp
  | cons first rest ih =>
      rw [List.foldl_cons, ih, mem_pairs_addPair, List.mem_cons]
      constructor
      · intro either
        rcases either with (rfl | before) | later
        · exact Or.inr (Or.inl rfl)
        · exact Or.inl before
        · exact Or.inr (Or.inr later)
      · intro either
        rcases either with before | rfl | later
        · exact Or.inl (Or.inr before)
        · exact Or.inl (Or.inl rfl)
        · exact Or.inr later

theorem Inhabited.foldl {m : SortedMap κ (SortedSet α)} (h : m.Inhabited)
    (added : List (κ × α))
    : (added.foldl SortedMap.addPair m).Inhabited := by
  induction added generalizing m with
  | nil => exact h
  | cons first rest ih => exact ih (h.addPair first)

/-- The map of these pairs, grouped by key. -/
def ofPairs (added : List (κ × α)) : SortedMap κ (SortedSet α) := added.foldl addPair empty

@[simp] theorem mem_pairs_ofPairs {added : List (κ × α)} {pair : κ × α}
    : pair ∈ (ofPairs added).pairs ↔ pair ∈ added := by
  rw [ofPairs, mem_pairs_foldl]
  simp [pairs, empty]

theorem ofPairs_inhabited (added : List (κ × α)) : (ofPairs added).Inhabited :=
  empty_inhabited.foldl added

/-- A map is the map of any list of its pairs. -/
theorem ofPairs_eq {m : SortedMap κ (SortedSet α)} (h : m.Inhabited) {added : List (κ × α)}
    (same : ∀ pair, pair ∈ added ↔ pair ∈ m.pairs)
    : ofPairs added = m :=
  ext_pairs (ofPairs_inhabited added) h
    (fun pair => mem_pairs_ofPairs.trans (same pair))

/-- Lists of pairs make the same map exactly if they have the same pairs. -/
theorem ofPairs_eq_iff {added other : List (κ × α)}
    : ofPairs added = ofPairs other ↔ ∀ pair, pair ∈ added ↔ pair ∈ other := by
  constructor
  · intro same pair
    rw [← mem_pairs_ofPairs, same, mem_pairs_ofPairs]
  · intro same
    apply ofPairs_eq (ofPairs_inhabited other)
    exact fun pair => (same pair).trans mem_pairs_ofPairs.symm

/-- Pairs make a map without entries only if there are none. -/
theorem ofPairs_entries_eq_nil {added : List (κ × α)}
    : (ofPairs added).entries = [] ↔ added = [] := by
  constructor
  · intro none
    rw [List.eq_nil_iff_forall_not_mem]
    intro pair member
    rw [← mem_pairs_ofPairs, pairs, none] at member
    contradiction
  · intro same
    subst same
    rfl

/-- The pairs are all different, since the keys and each set's elements are. -/
theorem pairs_nodup (m : SortedMap κ (SortedSet α)) : m.pairs.Nodup := by
  rw [pairs, List.nodup_flatMap]
  constructor
  · intro entry _
    refine List.Nodup.map ?_ ((SortedSet.elements_sorted entry.2).imp ne_of_lt)
    intro first second same
    exact (Prod.mk.inj same).2
  · apply m.sorted.imp
    intro first second below pair inFirst inSecond
    obtain ⟨_, _, rfl⟩ := List.mem_map.mp inFirst
    obtain ⟨_, _, same⟩ := List.mem_map.mp inSecond
    exact ne_of_lt below (Prod.mk.inj same).1.symm

/-- With another last pair the pairs make another map, since no pair comes twice. -/
theorem ofPairs_concat_iff {m : SortedMap κ (SortedSet α)} (h : m.Inhabited)
    {init : List (κ × α)} {last other : κ × α} (split : m.pairs = init ++ [last])
    : ofPairs (init ++ [other]) = m ↔ other = last := by
  constructor
  · intro same
    have member : last ∈ init ++ [other] := by
      rw [← mem_pairs_ofPairs, same, split]
      simp
    have once := pairs_nodup m
    rw [split, List.nodup_append] at once
    rcases List.mem_append.mp member with before | ends
    · exact absurd rfl (once.2.2 last before last (by simp))
    · exact (List.mem_singleton.mp ends).symm
  · intro same
    subst same
    rw [← split]
    exact ofPairs_eq h (fun _ => Iff.rfl)

end SortedMap
