import Nbsdk.Http.Slices

/-! What the printer writes, and what the parser reads of each printed part.
The query's counters place one separator between two pairs, so its text is a join. Joined
segments and pairs are read back piece by piece.
-/

namespace Nbsdk.Http

open Cut (before after?)

/-- The text of one name and value. -/
def printPair (pair : Text × Text) : Text := pair.1 ++ '=' :: pair.2

/-- The values of a name are joined, by induction; the index reaches the size at the last. -/
theorem printValues_eq {param : Text} {size index : Nat} {values : List Text}
    (counted : index + values.length = size)
    : Builder.printValues param size index values
      = ['&'].intercalate (values.map (fun value => printPair (param, value))) := by
  induction values generalizing index with
  | nil => rfl
  | cons value rest ih =>
      rw [Builder.printValues, ih (by rw [← counted, List.length_cons]; omega)]
      cases rest with
      | nil =>
          rw [if_neg (by rw [← counted]; simp)]
          simp [printPair]
      | cons next others =>
          rw [if_pos (by rw [← counted, List.length_cons, List.length_cons]; omega)]
          simp only [List.map_cons, List.intercalate_cons_cons, printPair]

/-- The pairs of all names are joined, by induction over the names; where every name has a
value, the index reaches the size at the last name.
-/
theorem printParameters_eq {size index : Nat} {entries : List (Text × SortedSet Text)}
    (valued : ∀ entry ∈ entries, SortedSet.elements entry.2 ≠ [])
    (counted : index + entries.length = size)
    : Builder.printParameters size index entries
      = ['&'].intercalate
          ((entries.flatMap (fun entry =>
            (SortedSet.elements entry.2).map (fun value => (entry.1, value)))).map
              printPair) := by
  induction entries generalizing index with
  | nil => rfl
  | cons entry rest ih =>
      obtain ⟨param, values⟩ := entry
      obtain ⟨someValue, others⟩ := List.forall_mem_cons.mp valued
      simp only [Builder.printParameters]
      rw [if_neg someValue, printValues_eq (Nat.zero_add _),
        ih others (by rw [← counted, List.length_cons]; omega), List.flatMap_cons,
        List.map_append, List.map_map]
      cases rest with
      | nil =>
          rw [if_neg (by rw [← counted]; simp)]
          simp [Function.comp_def]
      | cons next more =>
          obtain ⟨nextValue, _⟩ := List.forall_mem_cons.mp others
          rw [if_pos (by rw [← counted, List.length_cons, List.length_cons]; omega),
            Cut.intercalate_append (by simpa using someValue) (by simp [nextValue])]
          rfl

/-- The query is the join of its pairs, in which no name is without a value. -/
theorem printQuery_eq {b : Builder} (valued : b.encodedQueryNamesAndValues.Inhabited)
    : b.printQuery
      = ['&'].intercalate (b.encodedQueryNamesAndValues.pairs.map printPair) :=
  printParameters_eq valued (Nat.zero_add _)

/-- A pair whose text has no ampersand, with a name and no equals sign in it. -/
structure PlainPair (pair : Text × Text) : Prop where
  named : pair.1 ≠ []
  name : '&' ∉ pair.1 ∧ '=' ∉ pair.1
  value : '&' ∉ pair.2

/-- Another value without an ampersand leaves a pair plain. -/
theorem PlainPair.withValue {pair : Text × Text} (plain : PlainPair pair) {value : Text}
    (absent : '&' ∉ value)
    : PlainPair (pair.1, value) :=
  ⟨plain.named, plain.name, absent⟩

/-- The text of a plain pair has no ampersand. -/
theorem PlainPair.not_mem_printPair {pair : Text × Text} (plain : PlainPair pair)
    : '&' ∉ printPair pair := by
  simp [printPair, plain.name.1, plain.value]

/-- The parameters of a query are plain. -/
theorem parameters_plain {query : Text} {pair : Text × Text}
    (member : pair ∈ parameters query)
    : PlainPair pair ∧ ∀ char, char ∈ pair.1 ∨ char ∈ pair.2 → char ∈ query := by
  obtain ⟨read, named⟩ := List.mem_filter.mp member
  obtain ⟨piece, inside, rfl⟩ := List.mem_map.mp read
  obtain ⟨absent, included⟩ := Cut.of_mem_splitOn inside
  have name : before '=' piece ⊆ piece := (Cut.before_isPrefix '=' piece).subset
  have value : (after? '=' piece).getD [] ⊆ piece := by
    cases found : after? '=' piece with
    | none => simp
    | some rest => exact (Cut.after?_suffix found).subset
  refine ⟨⟨by simpa using named, ?_, ?_⟩, ?_⟩
  · exact ⟨fun within => absent (name within), Cut.not_mem_before '=' piece⟩
  · exact fun within => absent (value within)
  · rintro char (within | within)
    · exact included char (name within)
    · exact included char (value within)

/-- A printed pair is read back. -/
theorem PlainPair.parameter_eq {pair : Text × Text} (plain : PlainPair pair)
    : parameter (printPair pair) = pair := by
  rw [parameter, printPair, Cut.before_append_cons plain.name.2,
    Cut.after?_append_cons plain.name.2]
  rfl

/-- Joined pairs are read back in their order. -/
theorem parameters_join {pairs : List (Text × Text)} (some : pairs ≠ [])
    (plain : ∀ pair ∈ pairs, PlainPair pair)
    : parameters (['&'].intercalate (pairs.map printPair)) = pairs := by
  have pieces : ∀ piece ∈ pairs.map printPair, '&' ∉ piece := by
    intro piece member
    obtain ⟨pair, inside, rfl⟩ := List.mem_map.mp member
    exact (plain pair inside).not_mem_printPair
  have read : pairs.map (parameter ∘ printPair) = pairs := by
    conv_rhs => rw [← List.map_id pairs]
    exact List.map_congr_left (fun pair inside => (plain pair inside).parameter_eq)
  rw [parameters, List.splitOn_intercalate '&' pieces (by simpa using some), List.map_map,
    read]
  exact List.filter_eq_self.mpr (fun pair inside => by simpa using (plain pair inside).named)

/-- A map whose pairs are plain is read back from its text. -/
theorem ofPairs_parameters {m : QueryMap} (valued : m.Inhabited) (some : m.entries ≠ [])
    (plain : ∀ pair ∈ m.pairs, PlainPair pair)
    : SortedMap.ofPairs (parameters (['&'].intercalate (m.pairs.map printPair))) = m := by
  rw [parameters_join (valued.pairs_ne_nil some) plain]
  exact SortedMap.ofPairs_eq valued (fun _ => Iff.rfl)

/-- A segment that is pushed as it is. -/
structure NormalSegment (segment : Text) : Prop where
  nonempty : segment ≠ []
  notDot : segment ≠ ['.']
  notDots : segment ≠ ['.', '.']

/-- A piece is pushed at the end if it is normal, and nothing else is added. -/
theorem mem_push {segments : List Text} {piece segment : Text}
    (member : segment ∈ Builder.push segments piece)
    : segment ∈ segments ∨ segment = piece ∧ NormalSegment piece := by
  rw [Builder.push] at member
  split at member
  case isTrue => exact Or.inl member
  case isFalse nonempty =>
    split at member
    case isTrue => exact Or.inl member
    case isFalse notDot =>
      split at member
      case isTrue => exact Or.inl (List.dropLast_subset segments member)
      case isFalse notDots =>
        rcases List.mem_append.mp member with before | added
        · exact Or.inl before
        · exact Or.inr ⟨List.mem_singleton.mp added, nonempty, notDot, notDots⟩

/-- Pieces that are pushed one after another add normal ones among them, by induction over
these.
-/
theorem mem_foldl_push {segments pieces : List Text} {segment : Text}
    (member : segment ∈ pieces.foldl Builder.push segments)
    : segment ∈ segments ∨ segment ∈ pieces ∧ NormalSegment segment := by
  induction pieces generalizing segments with
  | nil => exact Or.inl member
  | cons first rest ih =>
      rcases ih member with pushed | ⟨later, normal⟩
      · rcases mem_push pushed with before | ⟨rfl, normal⟩
        · exact Or.inl before
        · exact Or.inr ⟨List.mem_cons_self, normal⟩
      · exact Or.inr ⟨List.mem_cons_of_mem first later, normal⟩

/-- Resolved segments are normal and among the pieces. -/
theorem mem_resolve {pieces : List Text} {segment : Text} (member : segment ∈ resolve pieces)
    : segment ∈ pieces ∧ NormalSegment segment := by
  rcases mem_foldl_push member with before | found
  · exact absurd before List.not_mem_nil
  · exact found

/-- Normal segments are pushed one after another, by induction over them. -/
theorem foldl_push {segments added : List Text}
    (normal : ∀ segment ∈ added, NormalSegment segment)
    : added.foldl Builder.push segments = segments ++ added := by
  induction added generalizing segments with
  | nil => rw [List.foldl_nil, List.append_nil]
  | cons first rest ih =>
      obtain ⟨head, tail⟩ := List.forall_mem_cons.mp normal
      rw [List.foldl_cons, ih tail, Builder.push, if_neg head.nonempty, if_neg head.notDot,
        if_neg head.notDots, List.append_assoc, List.singleton_append]

theorem resolve_normal {segments : List Text}
    (normal : ∀ segment ∈ segments, NormalSegment segment)
    : resolve segments = segments :=
  foldl_push normal

/-- The printed path is a slash and the join of the segments. -/
theorem flatMap_segments {segments : List Text} (some : segments ≠ [])
    : segments.flatMap (fun segment => '/' :: segment)
      = '/' :: ['/'].intercalate segments := by
  induction segments with
  | nil => contradiction
  | cons first rest ih =>
      rw [List.flatMap_cons]
      cases rest with
      | nil => simp
      | cons next others =>
          rw [ih (by simp), List.intercalate_cons_cons, List.append_assoc]
          rfl

/-- Joined segments without slashes are read back. -/
theorem resolve_join {segments : List Text} (some : segments ≠ [])
    (normal : ∀ segment ∈ segments, NormalSegment segment)
    (slashless : ∀ segment ∈ segments, '/' ∉ segment)
    : resolve ((['/'].intercalate segments).splitOn '/') = segments := by
  rw [List.splitOn_intercalate '/' slashless some, resolve_normal normal]

end Nbsdk.Http
