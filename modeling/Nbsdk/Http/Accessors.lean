import Nbsdk.Http.PrintedUrl

/-! The class HttpUrl of http_url.cc, whose accessors read the stored parts or scan the text.
The path and the query are searched in the printed text once more. What the scans find is
compared with the stored parts, over every text that the parser accepts.
-/

namespace Nbsdk.Http

open Cut (before after?)

/-- An unsigned size as an `int`. -/
def toInt (size : Nat) : Int := (size : Int).bmod (2 ^ 32)

/-- The first delimiter from a position on. -/
def findFrom (delimiter : Char) (s : Text) (position : Nat) : Size :=
  (find delimiter (s.drop position)).map (fun offset => position + offset)

/-- `HttpUrl`. -/
structure HttpUrl where
  url : Text
  scheme : Text
  port : Int
  host : Text
  fragment : Text
  pathSegments : List Text
  queryNamesAndValues : QueryMap
  deriving DecidableEq, Repr

namespace HttpUrl

/-- `Init`: what the constructor from a builder leaves. -/
def init (builder : Builder) : HttpUrl where
  scheme := builder.scheme
  host := builder.host
  port := builder.port
  pathSegments := builder.encodedPathSegments
  queryNamesAndValues := builder.encodedQueryNamesAndValues
  fragment := builder.encodedFragment
  url := builder.toString

/-- The constructor from a text, which does not look at the parser's verdict. -/
def ofText (url : Text) : Except OutOfRange HttpUrl := do
  let (_, builder) ← Builder.cleared.parse url
  .ok (init builder)

def isHttps (u : HttpUrl) : Bool := u.scheme = https

/-- `PathSize`. -/
def pathSize (u : HttpUrl) : Int := toInt u.pathSegments.length - 1

/-- `EncodedPath`. -/
def encodedPath (u : HttpUrl) : Except OutOfRange Text :=
  let pathEnd :=
    match find '?' u.url with
    | some queryStart => queryStart
    | none =>
        match find '#' u.url with
        | some fragmentStart => fragmentStart
        | none => u.url.length
  match findFrom '/' u.url (u.scheme.length + 3) with
  -- a substring from npos on starts behind the end
  | none => .error .outOfRange
  | some pathStart => substr u.url pathStart (minus pathEnd pathStart)

/-- `EncodedQuery`. -/
def encodedQuery (u : HttpUrl) : Except OutOfRange Text :=
  match find '?' u.url with
  | none => .ok []
  | some queryStart =>
      match find '#' u.url with
      | some queryEnd => substr u.url (queryStart + 1) (minus queryEnd (queryStart + 1))
      | none => substr u.url (queryStart + 1) none

/-- `QuerySize`. -/
def querySize (u : HttpUrl) : Int := toInt u.queryNamesAndValues.entries.length

/-- `QueryParameter`, which returns no names. -/
def queryParameter (_ : HttpUrl) : SortedSet Text := .empty

/-- `EncodedFragment`. -/
def encodedFragment (u : HttpUrl) : Text := u.fragment

end HttpUrl

def Builder.build (b : Builder) : HttpUrl := .init b

-----------------------------------------------------------------------------------------
-- What the scans find
-----------------------------------------------------------------------------------------

/-- A natural number is not raised by wrapping around zero. -/
theorem bmod_natCast_le (size modulus : Nat) : (size : Int).bmod modulus ≤ size := by
  have below : ((size % modulus : Nat) : Int) ≤ size := Int.ofNat_le.mpr (Nat.mod_le ..)
  rw [Int.bmod_def, ← Int.natCast_emod]
  split
  · exact below
  · exact Int.le_trans (Int.sub_le_self _ (Int.natCast_nonneg _)) below

/-- An `int` of a size is at most the size. -/
theorem toInt_le (size : Nat) : toInt size ≤ size := bmod_natCast_le ..

/-- The first delimiter behind a first part is found behind it. -/
theorem findFrom_append (delimiter : Char) (first rest : Text)
    : findFrom delimiter (first ++ rest) first.length
      = (find delimiter rest).map (fun offset => first.length + offset) := by
  rw [findFrom, List.drop_left]

namespace HttpUrl

/-- The accessor's cut is the parser's cut of host and path, from another start. -/
theorem substr_pathEnd {first rest : Text} (long : 3 ≤ first.length)
    : substr (first ++ rest) first.length
        (minus
          (match find '?' (first ++ rest) with
            | some queryStart => queryStart
            | none =>
                match find '#' (first ++ rest) with
                | some fragmentStart => fragmentStart
                | none => (first ++ rest).length)
          first.length)
      = .ok (hostPathSlice first rest) := by
  have skipped : first.length = (first.drop 3).length + 3 := by
    rw [List.length_drop]
    omega
  have cut := @hostPath_eq (first.drop 3) first rest skipped
  rw [Builder.hostPath, ← skipped] at cut
  exact cut

/-- The text that `ToString` prints for the segments. -/
def pathText (u : HttpUrl) : Text := u.pathSegments.flatMap (fun segment => '/' :: segment)

/-- The text that `ToString` prints between the question mark and the fragment. -/
def queryText (u : HttpUrl) : Text :=
  Builder.printParameters u.queryNamesAndValues.entries.length 0
    u.queryNamesAndValues.entries

/-- The accessors give what is stored. -/
structure Agrees (u : HttpUrl) : Prop where
  path
    : u.encodedPath = .ok u.pathText
      ∨ u.pathSegments = [] ∧ u.encodedPath = .ok ['/']
  query : u.encodedQuery = .ok u.queryText
  fragment : u.encodedFragment = u.fragment
  size : u.pathSize = u.pathSegments.length

/-- The path's size is counted one too low. -/
theorem pathSize_lt (u : HttpUrl) : u.pathSize < u.pathSegments.length := by
  have bounded := toInt_le u.pathSegments.length
  rw [pathSize]
  omega

section

variable {b : Builder} (h : b.Wellformed)

include h

/-- The path is cut from the first slash behind the scheme, and there has to be one. -/
theorem encodedPath_init
    : (init b).encodedPath
      = match after? '/' b.restText with
        | none => .error .outOfRange
        | some tail => .ok (hostPathSlice (before '/' b.restText) ('/' :: tail)) := by
  have known : KnownScheme b.scheme := by
    rw [KnownScheme, h.lower]
    exact h.scheme
  have front : (b.scheme ++ [':', '/', '/']).length = b.scheme.length + 3 := by simp
  have marks
      : '?' ∉ b.scheme ++ [':', '/', '/'] ∧ '#' ∉ b.scheme ++ [':', '/', '/'] :=
    ⟨known.not_mem_front (by decide) (by decide), known.not_mem_front (by decide) (by decide)⟩
  simp only [encodedPath, init]
  rw [h.toString_eq, urlText, ← front, findFrom_append]
  by_cases slashed : '/' ∈ b.restText
  · obtain ⟨first, tail, split, absent⟩ := List.eq_append_cons_of_mem slashed
    have cut := @substr_pathEnd (b.scheme ++ [':', '/', '/'] ++ first) ('/' :: tail)
      (by simp only [List.length_append, List.length_cons, List.length_nil]; omega)
    rw [split, find_append_cons absent, Cut.after?_append_cons absent,
      Cut.before_append_cons absent, Option.map_some, ← List.append_assoc]
    simp only [← List.length_append]
    rw [cut, hostPathSlice_append marks]
  · rw [find_of_not_mem slashed, Cut.after?_of_not_mem slashed]
    rfl

/-- The query is cut as the parser cuts it. -/
theorem encodedQuery_init : (init b).encodedQuery = .ok (querySlice b.restText) := by
  have known : KnownScheme b.scheme := by
    rw [KnownScheme, h.lower]
    exact h.scheme
  have read := queryText_eq b.toString
  rw [h.toString_eq, querySlice_urlText known, ← h.toString_eq] at read
  rw [← read]
  simp only [encodedQuery, init, Builder.queryText]
  cases find '?' b.toString with
  | none => rfl
  | some queryStart => cases find '#' b.toString <;> rfl

/-- The printed query has a character that separates nothing only if a pair has it. -/
theorem not_mem_printQuery {char : Char} (other : char ≠ '&' ∧ char ≠ '=')
    : char ∉ b.printQuery
      ↔ ∀ pair ∈ b.encodedQueryNamesAndValues.pairs, char ∉ pair.1 ∧ char ∉ pair.2 := by
  rw [printQuery_eq h.valued]
  constructor
  · intro absent pair member
    rw [← not_or]
    intro inside
    apply absent
    apply Cut.mem_intercalate_of_mem ['&'] (List.mem_map.mpr ⟨pair, member, rfl⟩)
    simpa [printPair, other.2] using inside
  · intro absent member
    rcases Cut.mem_intercalate member with separator | ⟨piece, inside, within⟩
    · exact other.1 (List.mem_singleton.mp separator)
    · obtain ⟨pair, among, rfl⟩ := List.mem_map.mp inside
      simp [printPair, absent pair among, other.2] at within

/-- There is a slash behind the scheme unless no part has one. -/
theorem slashless_restText
    : '/' ∉ b.restText
      ↔ b.encodedPathSegments = []
        ∧ '/' ∉ b.host
        ∧ (∀ pair ∈ b.encodedQueryNamesAndValues.pairs, '/' ∉ pair.1 ∧ '/' ∉ pair.2)
        ∧ '/' ∉ b.encodedFragment := by
  have port : '/' ∉ decimal b.printedPort := not_mem_decimal (by decide) (by decide) _
  have path : '/' ∉ b.pathText ↔ b.encodedPathSegments = [] := by
    rw [Builder.pathText]
    cases b.encodedPathSegments <;> simp
  have query
      : '/' ∉ marked '?' b.queryPart
        ↔ ∀ pair ∈ b.encodedQueryNamesAndValues.pairs, '/' ∉ pair.1 ∧ '/' ∉ pair.2 := by
    rw [← not_mem_printQuery h (by decide), Builder.queryPart]
    split
    case isTrue none => simp [marked, Builder.printQuery, none, Builder.printParameters]
    case isFalse => simp [marked]
  have fragment : '/' ∉ marked '#' b.fragmentPart ↔ '/' ∉ b.encodedFragment := by
    rw [Builder.fragmentPart]
    split
    case isTrue none => simp [marked, none]
    case isFalse => simp [marked]
  rw [Builder.restText, Builder.authorityText, ← path, ← query, ← fragment]
  simp only [List.mem_append, List.mem_cons, not_or, port, not_false_eq_true, true_and]
  constructor
  · intro held
    rcases held with ⟨⟨⟨host, _, path⟩, query⟩, fragment⟩
    exact ⟨path, host, query, fragment⟩
  · intro held
    rcases held with ⟨path, host, query, fragment⟩
    exact ⟨⟨⟨host, by decide, path⟩, query⟩, fragment⟩

/-- The path accessor throws exactly where no part has a slash. -/
theorem encodedPath_throws_iff
    : (init b).encodedPath = .error .outOfRange
      ↔ b.encodedPathSegments = []
        ∧ '/' ∉ b.host
        ∧ (∀ pair ∈ b.encodedQueryNamesAndValues.pairs, '/' ∉ pair.1 ∧ '/' ∉ pair.2)
        ∧ '/' ∉ b.encodedFragment := by
  rw [← slashless_restText h, encodedPath_init h]
  by_cases slashed : '/' ∈ b.restText
  · obtain ⟨first, tail, split, absent⟩ := List.eq_append_cons_of_mem slashed
    rw [split, Cut.after?_append_cons absent]
    simp
  · rw [Cut.after?_of_not_mem slashed]
    simpa using slashed

end

/-- No stored part has a mark that ends an earlier one. -/
structure Unmarked (u : HttpUrl) : Prop where
  host : ∀ char ∈ ['/', '?', '#'], char ∉ u.host
  segments : ∀ segment ∈ u.pathSegments, '?' ∉ segment ∧ '#' ∉ segment
  pairs : ∀ pair ∈ u.queryNamesAndValues.pairs, '#' ∉ pair.1 ∧ '#' ∉ pair.2

section

variable {b : Builder} (h : b.Wellformed) (unmarked : (init b).Unmarked)

include h unmarked

/-- Where no part has a mark, the scans are those of path, query and fragment alone. -/
theorem scans_unmarked (pathed : b.encodedPathSegments ≠ [])
    : (init b).encodedPath
        = .ok
          (hostPathSlice []
            (b.pathText ++ marked '?' b.queryPart ++ marked '#' b.fragmentPart))
      ∧ (init b).encodedQuery
        = .ok
          (querySlice (b.pathText ++ marked '?' b.queryPart ++ marked '#' b.fragmentPart)) := by
  have absent
      : ∀ char ∈ ['/', '?', '#'], char ∉ b.host ++ ':' :: decimal b.printedPort := by
    intro char member
    have foreign : ∀ char ∈ ['/', '?', '#'],
        char ≠ ':' ∧ char ≠ '-' ∧ char.isDigit = false :=
      forall_mem_of_all (by decide)
    obtain ⟨noColon, noMinus, noDigit⟩ := foreign char member
    have host : char ∉ b.host := unmarked.host char member
    simp [host, noColon, not_mem_decimal noMinus noDigit b.printedPort]
  have plain := And.intro (absent '?' (by decide)) (absent '#' (by decide))
  have text
      : b.restText
        = b.host ++ ':' :: decimal b.printedPort
          ++ (b.pathText ++ marked '?' b.queryPart ++ marked '#' b.fragmentPart) := by
    simp [Builder.restText, Builder.authorityText]
  rw [encodedPath_init h, encodedQuery_init h, text, querySlice_append plain]
  refine ⟨?_, rfl⟩
  rw [Builder.pathText, flatMap_segments pathed, List.cons_append, List.cons_append,
    Cut.after?_append_cons (absent '/' (by decide)),
    Cut.before_append_cons (absent '/' (by decide))]
  have cut := @hostPathSlice_append _ plain []
  rw [List.append_nil] at cut
  exact congrArg Except.ok (cut _)

/-- Where there is a segment and no part has a mark, path and query are given as they are
stored exactly if no question mark of the fragment can be taken for the query's.
-/
theorem scans_agree_iff (pathed : b.encodedPathSegments ≠ [])
    : (init b).encodedPath = .ok (init b).pathText
        ∧ (init b).encodedQuery = .ok (init b).queryText
      ↔ b.encodedQueryNamesAndValues.entries ≠ [] ∨ '?' ∉ b.encodedFragment := by
  obtain ⟨path, query⟩ := scans_unmarked h unmarked pathed
  have plain : '?' ∉ b.pathText ∧ '#' ∉ b.pathText :=
    ⟨(Builder.not_mem_pathText (by decide)).mpr
        (fun segment inside => (unmarked.segments segment inside).1),
      (Builder.not_mem_pathText (by decide)).mpr
        (fun segment inside => (unmarked.segments segment inside).2)⟩
  have printed : (init b).pathText = b.pathText ∧ (init b).queryText = b.printQuery :=
    ⟨rfl, rfl⟩
  rw [path, query, printed.1, printed.2, Except.ok.injEq, Except.ok.injEq,
    Builder.queryPart]
  by_cases noQuery : b.encodedQueryNamesAndValues.entries = []
  · have unprinted : b.printQuery = [] := by
      rw [Builder.printQuery, noQuery]
      rfl
    simp only [noQuery, if_true, ne_eq, not_true_eq_false, false_or, unprinted]
    by_cases mark : '?' ∈ b.encodedFragment
    · obtain ⟨front, rest, split, first⟩ := List.eq_append_cons_of_mem mark
      have parts := @slices_marked_fragment _ front rest plain first
      have fragment : b.encodedFragment ≠ [] := List.ne_nil_of_mem mark
      rw [← split] at parts
      rw [Builder.fragmentPart, if_neg fragment, marked, List.append_nil, parts.1]
      simp [mark]
    · have markless : ∀ fragment, b.fragmentPart = some fragment → '?' ∉ fragment := by
        intro fragment found
        rw [Builder.fragmentPart] at found
        split at found
        · contradiction
        · exact Option.some.inj found ▸ mark
      have parts := @slices_parts b.pathText none b.fragmentPart plain (by simp)
        (fun _ => markless)
      exact iff_of_true ⟨parts.1, parts.2.1⟩ mark
  · have hashless : '#' ∉ b.printQuery :=
      (not_mem_printQuery h (by decide)).mpr unmarked.pairs
    have parts := @slices_parts b.pathText (some b.printQuery) b.fragmentPart plain
      (by simpa using hashless) (by simp)
    rw [if_neg noQuery]
    exact iff_of_true ⟨parts.1, parts.2.1⟩ (Or.inl noQuery)

end

/-- The accessors never give what is stored, since the path's size is one too low. Apart from
it, the path accessor throws exactly where no part has a slash; and where there is a segment
and no part has a mark, path and query are as they are stored exactly if there is a query or
the fragment has no question mark.
-/
theorem accessors_never_agree {url : Text} {parsed : Builder}
    (accepted : Builder.cleared.parse url = .ok (true, parsed))
    : ∃ u,
        ofText url = .ok u
        ∧ ¬u.Agrees
        ∧ (u.encodedPath = .error .outOfRange
          ↔ u.pathSegments = []
            ∧ '/' ∉ u.host
            ∧ (∀ pair ∈ u.queryNamesAndValues.pairs, '/' ∉ pair.1 ∧ '/' ∉ pair.2)
            ∧ '/' ∉ u.fragment)
        ∧ (u.Unmarked
          → u.pathSegments ≠ []
          → (u.encodedPath = .ok u.pathText ∧ u.encodedQuery = .ok u.queryText
              ↔ u.queryNamesAndValues.entries ≠ [] ∨ '?' ∉ u.fragment)) := by
  have h := Builder.wellformed_of_parse accepted
  refine ⟨init parsed, ?_, ?_, encodedPath_throws_iff h, scans_agree_iff h⟩
  · rw [ofText, accepted]
    rfl
  · intro agrees
    have low := pathSize_lt (init parsed)
    rw [agrees.size] at low
    exact Int.lt_irrefl _ low

/-- A text with every part, whose path and query are given as they are stored. -/
def scanned : Text := "http://h/a/b?n=1#f?".toList

theorem accessors_never_agree_scanned
    : ∃ u, ofText scanned = .ok u
        ∧ ¬u.Agrees
        ∧ u.encodedPath = .ok u.pathText
        ∧ u.encodedQuery = .ok u.queryText := by
  have accepted
      : Builder.cleared.parse scanned = .ok (true, (Slices.of scanned).builder) := by
    decide +kernel
  obtain ⟨u, made, disagrees, _, agree⟩ := accessors_never_agree accepted
  obtain rfl : init (Slices.of scanned).builder = u := by
    rw [ofText, accepted] at made
    exact Except.ok.inj made
  have unmarked : (init (Slices.of scanned).builder).Unmarked :=
    ⟨forall_mem_of_all (by decide +kernel), by decide +kernel, by decide +kernel⟩
  exact ⟨_, made, disagrees, (agree unmarked (by decide +kernel)).mpr (Or.inl (by decide +kernel))⟩

/-- The root path is stored without segments, and then the path accessor throws. -/
theorem root_accessors_disagree
    : ¬∀ (url : Text) (parsed : Builder) (u : HttpUrl),
        Builder.cleared.parse url = .ok (true, parsed) → ofText url = .ok u → u.Agrees := by
  intro claim
  have accepted
      : Builder.cleared.parse "http://h/".toList
        = .ok (true, (Slices.of "http://h/".toList).builder) := by
    decide +kernel
  have throws
      : (init (Slices.of "http://h/".toList).builder).encodedPath = .error .outOfRange := by
    decide +kernel
  have agrees := claim "http://h/".toList _ (init (Slices.of "http://h/".toList).builder)
    accepted (by rw [ofText, accepted]; rfl)
  rcases agrees.path with path | ⟨_, path⟩
  · rw [throws] at path
    contradiction
  · rw [throws] at path
    contradiction

end HttpUrl

end Nbsdk.Http
