import Mathlib.Data.Set.Insert
import Nbsdk.Http.PrintedUrl

/-! The query as a set of names with values.
The calls that add and remove parameters are set operations. A builder stores the set in one
way only and prints it in one way only.
-/

namespace Nbsdk.Http

/-- A call that changes the query: `AddEncodedQueryParameter`, and the overloads of
`RemoveEncodedQueryParameter` with a value and without.
-/
inductive QueryCall
  | add (name value : Text)
  | removeValue (name value : Text)
  | remove (name : Text)
  deriving DecidableEq, Repr

namespace Builder

def queryCall (b : Builder) : QueryCall → Builder
  | .add name value => b.addEncodedQueryParameter name value
  | .removeValue name value => b.removeEncodedQueryParameter name value
  | .remove name => b.removeEncodedQueryParameters name

def queryCalls (b : Builder) (calls : List QueryCall) : Builder := calls.foldl queryCall b

end Builder

namespace QueryCall

/-- No name has a character that ends it in a query, and no value one that ends it. -/
def Valid : QueryCall → Prop
  | .add name value | .removeValue name value =>
      ('&' ∉ name ∧ '=' ∉ name ∧ '#' ∉ name) ∧ '&' ∉ value ∧ '#' ∉ value
  | .remove name => '&' ∉ name ∧ '=' ∉ name ∧ '#' ∉ name

instance : DecidablePred Valid := by
  intro call
  cases call <;> exact inferInstanceAs (Decidable (_ ∧ _))

/-- What a call means for a set of pairs: an empty name means nothing. -/
def meaning (pairs : Set (Text × Text)) : QueryCall → Set (Text × Text)
  | .add name value => if name = [] then pairs else insert (name, value) pairs
  | .removeValue name value =>
      if name = [] then pairs else {pair ∈ pairs | pair ≠ (name, value)}
  | .remove name => if name = [] then pairs else {pair ∈ pairs | pair.1 ≠ name}

/-- The set of pairs that the calls leave. -/
def leaves (calls : List QueryCall) : Set (Text × Text) := calls.foldl meaning ∅

end QueryCall

/-- The builder stores exactly these pairs, each under a name that has one. -/
structure Builder.Stores (b : Builder) (pairs : Set (Text × Text)) : Prop where
  valued : b.encodedQueryNamesAndValues.Inhabited
  pairs : ∀ pair, pair ∈ b.encodedQueryNamesAndValues.pairs ↔ pair ∈ pairs

namespace Builder

variable {b : Builder} {pairs : Set (Text × Text)}

/-- A call does to the stored pairs what it means, by its kind. -/
theorem Stores.queryCall (h : b.Stores pairs) (call : QueryCall)
    : (b.queryCall call).Stores (QueryCall.meaning pairs call) := by
  cases call with
  | add name value =>
      simp only [Builder.queryCall, addEncodedQueryParameter, QueryCall.meaning]
      split
      case isTrue => exact h
      case isFalse =>
        refine ⟨h.valued.addPair _, fun pair => ?_⟩
        rw [SortedMap.mem_pairs_addPair, h.pairs]
        rfl
  | removeValue name value =>
      simp only [Builder.queryCall, removeEncodedQueryParameter, QueryCall.meaning]
      split
      case isTrue => exact h
      case isFalse =>
        refine ⟨h.valued.removePair _, fun pair => ?_⟩
        rw [SortedMap.mem_pairs_removePair, h.pairs]
        rfl
  | remove name =>
      simp only [Builder.queryCall, removeEncodedQueryParameters, QueryCall.meaning]
      split
      case isTrue => exact h
      case isFalse =>
        refine ⟨h.valued.erase _, fun pair => ?_⟩
        rw [SortedMap.mem_pairs_erase, h.pairs]
        rfl

/-- The calls do what they mean one after another, by induction over them. -/
theorem Stores.queryCalls (h : b.Stores pairs) (calls : List QueryCall)
    : (b.queryCalls calls).Stores (calls.foldl QueryCall.meaning pairs) := by
  induction calls generalizing b pairs with
  | nil => exact h
  | cons call rest ih => exact ih (h.queryCall call)

theorem stores_fresh (fresh : b.encodedQueryNamesAndValues = .empty) : b.Stores ∅ := by
  refine ⟨fresh ▸ SortedMap.empty_inhabited, fun pair => ?_⟩
  rw [fresh]
  exact iff_of_false List.not_mem_nil id

/-- Builders store the same pairs only in the same way. -/
theorem Stores.map_eq_iff {other : Builder} {pairs' : Set (Text × Text)} (h : b.Stores pairs)
    (h' : other.Stores pairs')
    : b.encodedQueryNamesAndValues = other.encodedQueryNamesAndValues ↔ pairs = pairs' := by
  constructor
  · intro same
    ext pair
    rw [← h.pairs, ← h'.pairs, same]
  · intro same
    refine SortedMap.ext_pairs h.valued h'.valued (fun pair => ?_)
    rw [h.pairs, h'.pairs, same]

/-- The query is printed exactly if there is a pair, as the join of the pairs. -/
theorem Stores.queryPart_eq (h : b.Stores pairs)
    : b.queryPart
      = if b.encodedQueryNamesAndValues.pairs = [] then none
        else some (['&'].intercalate (b.encodedQueryNamesAndValues.pairs.map printPair)) := by
  have none_iff
      : b.encodedQueryNamesAndValues.entries = [] ↔ b.encodedQueryNamesAndValues.pairs = [] := by
    constructor
    · intro none
      rw [SortedMap.pairs, none]
      rfl
    · intro none
      by_contra some
      exact h.valued.pairs_ne_nil some none
  rw [queryPart, printQuery_eq h.valued]
  simp only [none_iff]

/-- The printed query tells the pairs if these are plain. -/
theorem Stores.queryPart_inj {other : Builder} {pairs' : Set (Text × Text)}
    (h : b.Stores pairs) (h' : other.Stores pairs') (plain : ∀ pair ∈ pairs, PlainPair pair)
    (plain' : ∀ pair ∈ pairs', PlainPair pair) (same : b.queryPart = other.queryPart)
    : b.encodedQueryNamesAndValues.pairs = other.encodedQueryNamesAndValues.pairs := by
  have read
      : ∀ {b : Builder} {pairs : Set (Text × Text)}, b.Stores pairs →
          (∀ pair ∈ pairs, PlainPair pair) →
            b.encodedQueryNamesAndValues.pairs = (b.queryPart.map parameters).getD [] := by
    intro b pairs h plain
    rw [h.queryPart_eq]
    split
    case isTrue none => simp [none]
    case isFalse some =>
      rw [Option.map_some, Option.getD_some]
      exact (parameters_join some (fun pair inside => plain pair ((h.pairs pair).mp inside))).symm
  rw [read h plain, read h' plain', same]

end Builder

/-- A valid call keeps pairs plain, by its kind. -/
theorem QueryCall.meaning_plain {pairs : Set (Text × Text)}
    (plain : ∀ pair ∈ pairs, PlainPair pair) {call : QueryCall} (valid : call.Valid)
    : ∀ pair ∈ meaning pairs call, PlainPair pair := by
  cases call with
  | add name value =>
      simp only [meaning]
      split
      case isTrue => exact plain
      case isFalse named =>
        rintro pair (rfl | before)
        · exact ⟨named, ⟨valid.1.1, valid.1.2.1⟩, valid.2.1⟩
        · exact plain pair before
  | removeValue name value =>
      simp only [meaning]
      split
      · exact plain
      · exact fun pair kept => plain pair kept.1
  | remove name =>
      simp only [meaning]
      split
      · exact plain
      · exact fun pair kept => plain pair kept.1

/-- Valid calls leave plain pairs, by induction over the calls. -/
theorem QueryCall.leaves_plain {calls : List QueryCall} (valid : ∀ call ∈ calls, call.Valid)
    : ∀ pair ∈ leaves calls, PlainPair pair := by
  have kept
      : ∀ pairs : Set (Text × Text), (∀ pair ∈ pairs, PlainPair pair) →
          ∀ pair ∈ calls.foldl meaning pairs, PlainPair pair := by
    induction calls with
    | nil => exact fun _ plain => plain
    | cons call rest ih =>
        obtain ⟨first, others⟩ := List.forall_mem_cons.mp valid
        intro pairs plain
        exact ih others _ (meaning_plain plain first)
  exact kept ∅ (fun pair none => absurd none (Set.notMem_empty pair))

namespace Builder

/-- The text of a builder that stores these pairs: no query without pairs, and otherwise each
pair once between single separators.
-/
structure PrintsSet (b : Builder) (pairs : Set (Text × Text)) : Prop where
  valued : b.encodedQueryNamesAndValues.Inhabited
  printed
    : ∃ listed : List (Text × Text),
        listed.Nodup
        ∧ (∀ pair, pair ∈ listed ↔ pair ∈ pairs)
        ∧ b.toString
          = b.frontText
            ++ (if listed = [] then [] else '?' :: ['&'].intercalate (listed.map printPair))
            ++ marked '#' b.fragmentPart
        ∧ Cut.Separated '&' (['&'].intercalate (listed.map printPair))

/-- A builder that stores plain pairs prints them. -/
theorem Stores.printsSet {b : Builder} {pairs : Set (Text × Text)} (h : b.Stores pairs)
    (plain : ∀ pair ∈ pairs, PlainPair pair)
    : b.PrintsSet pairs := by
  refine ⟨h.valued, b.encodedQueryNamesAndValues.pairs, SortedMap.pairs_nodup _, h.pairs, ?_, ?_⟩
  · rw [toString_eq_front, h.queryPart_eq, marked_ite]
  · apply Cut.separated_intercalate
    · intro piece member
      obtain ⟨pair, inside, rfl⟩ := List.mem_map.mp member
      exact (plain pair ((h.pairs pair).mp inside)).not_mem_printPair
    · simp [printPair]

/-- A builder without its query. -/
def unqueried (b : Builder) : Builder := { b with encodedQueryNamesAndValues := .empty }

/-- The calls change nothing but the query, by induction over them. -/
theorem unqueried_queryCalls (b : Builder) (calls : List QueryCall)
    : (b.queryCalls calls).unqueried = b.unqueried := by
  induction calls generalizing b with
  | nil => rfl
  | cons call rest ih =>
      apply (ih (b.queryCall call)).trans
      cases call with
      | add name value =>
          simp only [queryCall, addEncodedQueryParameter]
          split <;> rfl
      | removeValue name value =>
          simp only [queryCall, removeEncodedQueryParameter]
          split <;> rfl
      | remove name =>
          simp only [queryCall, removeEncodedQueryParameters]
          split <;> rfl

/-- Builders that differ only in the query print the same text exactly if they print the same
query.
-/
theorem toString_eq_iff {b other : Builder} (same : b.unqueried = other.unqueried)
    : b.toString = other.toString ↔ b.queryPart = other.queryPart := by
  have front : b.frontText = other.frontText :=
    (congrArg frontText same : b.unqueried.frontText = other.unqueried.frontText)
  have fragment : b.fragmentPart = other.fragmentPart :=
    (congrArg fragmentPart same : b.unqueried.fragmentPart = other.unqueried.fragmentPart)
  rw [toString_eq_front, toString_eq_front, front, fragment, List.append_cancel_right_eq,
    List.append_cancel_left_eq]
  cases b.queryPart <;> cases other.queryPart <;> simp [marked]

/-- The texts that calls leave on one builder without a query are the same exactly if the
calls leave the same set of pairs, and the text shows this set in one way only.
-/
theorem printed_query_canonical {b : Builder} (fresh : b.encodedQueryNamesAndValues = .empty)
    {first second : List QueryCall} (valid : ∀ call ∈ first, call.Valid)
    (valid' : ∀ call ∈ second, call.Valid)
    : ((b.queryCalls first).toString = (b.queryCalls second).toString
        ↔ QueryCall.leaves first = QueryCall.leaves second)
      ∧ (b.queryCalls first).PrintsSet (QueryCall.leaves first) := by
  have h : (b.queryCalls first).Stores (QueryCall.leaves first) :=
    (stores_fresh fresh).queryCalls first
  have h' : (b.queryCalls second).Stores (QueryCall.leaves second) :=
    (stores_fresh fresh).queryCalls second
  have plain := QueryCall.leaves_plain valid
  have plain' := QueryCall.leaves_plain valid'
  refine ⟨?_, h.printsSet plain⟩
  have same := (unqueried_queryCalls b first).trans (unqueried_queryCalls b second).symm
  rw [toString_eq_iff same]
  constructor
  · intro same
    ext pair
    rw [← h.pairs pair, ← h'.pairs pair, h.queryPart_inj h' plain plain' same]
  · intro same
    rw [queryPart, queryPart, printQuery, printQuery, (h.map_eq_iff h').mpr same]

/-- A builder with a host and no query. -/
def plainBase : Builder := { cleared with scheme := http, host := ['h'], port := 80 }

/-- A value is added and removed again. -/
def withRemoval : List QueryCall :=
  [.add ['n'] ['2'], .add ['m'] [], .add ['n'] ['1'], .removeValue ['n'] ['2']]

/-- The values that remain, in another order and one of them twice. -/
def withoutRemoval : List QueryCall := [.add ['n'] ['1'], .add ['m'] [], .add ['n'] ['1']]

theorem printed_query_canonical_removal
    : QueryCall.leaves withRemoval = QueryCall.leaves withoutRemoval
      ∧ (plainBase.queryCalls withRemoval).PrintsSet (QueryCall.leaves withRemoval) := by
  have fresh : plainBase.encodedQueryNamesAndValues = .empty := rfl
  have valid : ∀ call ∈ withRemoval, call.Valid := by decide
  have valid' : ∀ call ∈ withoutRemoval, call.Valid := by decide
  obtain ⟨same, prints⟩ := printed_query_canonical fresh valid valid'
  exact ⟨same.mp (by decide +kernel), prints⟩

end Builder

end Nbsdk.Http
