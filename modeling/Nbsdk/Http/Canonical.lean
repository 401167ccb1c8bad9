import Nbsdk.Http.RoundTrip

/-! Which accepted texts have a canonical text that is read back.
The parser lets texts through whose parts it reads elsewhere once they are printed. What
these texts have in common is said of the slices that the parser cuts out of them.
-/

namespace Nbsdk.Http

open Cut (before after?)

namespace Slices

def segments (s : Slices) : List Text := resolve (s.path.splitOn '/')

/-- The segments as they are printed. -/
def pathText (s : Slices) : Text := s.segments.flatMap (fun segment => '/' :: segment)

/-- The segments that are read of a host and a port in front of a path. -/
def reread (s : Slices) (path : Text) : List Text :=
  resolve
    ((pathSlice (s.host ++ ':' :: (decimal (portNumber s.scheme s.portText) ++ path))).splitOn
      '/')

/-- The slices of a text whose canonical text is read back. The port is not -1, which stands
for no port. No part has a mark that starts a later one, and a fragment with a question mark
comes with a query or hides none. The last part does not end in a blank. There is a segment,
and the host has no slash; only where the end of the path is trimmed or runs on into the
fragment the segments may come out the same by accident.
-/
structure Stable (s : Slices) : Prop where
  port : s.portText = [] ∨ atoi s.portText ≠ -1
  host : '?' ∉ s.host ∧ '#' ∉ s.host
  marks : ∀ segment ∈ s.segments, '?' ∉ segment ∧ '#' ∉ segment
  pairs : ∀ pair ∈ parameters s.query, '#' ∉ pair.1 ∧ '#' ∉ pair.2
  fragment : trimmedEnd s.fragment = s.fragment
  lastValue
    : s.fragment = [] →
        ∀ pair, (SortedMap.ofPairs (parameters s.query)).pairs.getLast? = some pair →
          trimmedEnd pair.2 = pair.2
  noQuery
    : parameters s.query = [] → parameters ((after? '?' s.fragment).getD []) = []
  path
    : parameters s.query ≠ [] ∨ s.fragment ≠ [] ∧ '?' ∉ s.fragment
        ∨ s.fragment = [] ∧ trimmedEnd s.pathText = s.pathText →
        s.segments ≠ [] ∧ '/' ∉ s.host
  trimmedPath
    : parameters s.query = [] → s.fragment = [] → trimmedEnd s.pathText ≠ s.pathText →
        s.reread (trimmedEnd s.pathText) = s.segments
  joinedPath
    : parameters s.query = [] → '?' ∈ s.fragment →
        s.reread (s.pathText ++ '#' :: before '?' s.fragment) = s.segments

/-- A port text is the port -1 only if it says so, since no scheme has that port. -/
theorem portNumber_iff {s : Slices} (known : s.scheme = http ∨ s.scheme = https)
    : portNumber s.scheme s.portText ≠ -1 ↔ s.portText = [] ∨ atoi s.portText ≠ -1 := by
  rw [portNumber]
  split
  case isTrue empty => simp [empty, (Builder.defaultPort_known known).2]
  case isFalse some => simp [some]

/-- The path that the parser meets is the printed one, unless it is trimmed or runs on. -/
theorem shownPath_builder {s : Slices}
    : s.builder.shownPath
      = if parameters s.query ≠ [] then s.pathText
        else if s.fragment = [] then trimmedEnd s.pathText
        else if '?' ∈ s.fragment then s.pathText ++ '#' :: before '?' s.fragment
        else s.pathText := by
  have query : s.builder.encodedQueryNamesAndValues.entries ≠ [] ↔ parameters s.query ≠ [] :=
    not_congr SortedMap.ofPairs_entries_eq_nil
  rw [Builder.shownPath]
  simp only [query]
  rfl

/-- The three cases of the path, by what is printed behind it. -/
theorem path_iff {s : Slices} (port : portNumber s.scheme s.portText ≠ -1)
    : (if s.builder.shownPath = s.builder.pathText then
          s.builder.encodedPathSegments ≠ [] ∧ '/' ∉ s.builder.host
        else
          resolve ((pathSlice (s.builder.authorityText s.builder.shownPath)).splitOn '/')
          = s.builder.encodedPathSegments)
      ↔ (parameters s.query ≠ [] ∨ s.fragment ≠ [] ∧ '?' ∉ s.fragment
            ∨ s.fragment = [] ∧ trimmedEnd s.pathText = s.pathText →
            s.segments ≠ [] ∧ '/' ∉ s.host)
        ∧ (parameters s.query = [] → s.fragment = [] → trimmedEnd s.pathText ≠ s.pathText →
            s.reread (trimmedEnd s.pathText) = s.segments)
        ∧ (parameters s.query = [] → '?' ∈ s.fragment →
            s.reread (s.pathText ++ '#' :: before '?' s.fragment) = s.segments) := by
  have printed
      : ∀ path : Text,
          resolve ((pathSlice (s.builder.authorityText path)).splitOn '/') = s.reread path := by
    intro path
    have same : s.builder.printedPort = portNumber s.scheme s.portText := if_neg port
    rw [Builder.authorityText, same]
    rfl
  rw [shownPath_builder, printed]
  change (if _ = s.pathText then s.segments ≠ [] ∧ '/' ∉ s.host else _ = s.segments) ↔ _
  by_cases noQuery : parameters s.query = []
  · by_cases noFragment : s.fragment = []
    · by_cases untrimmed : trimmedEnd s.pathText = s.pathText
      · simp [noQuery, noFragment, untrimmed]
      · simp [noQuery, noFragment, untrimmed]
    · by_cases mark : '?' ∈ s.fragment
      · simp [noQuery, noFragment, mark]
      · simp [noQuery, noFragment, mark]
  · simp [noQuery]

/-- What the slices describe is stable exactly if the slices are. -/
theorem stable_builder_iff {s : Slices} (known : s.scheme = http ∨ s.scheme = https)
    : s.builder.Stable ↔ s.Stable := by
  have query : s.builder.encodedQueryNamesAndValues.entries = [] ↔ parameters s.query = [] :=
    SortedMap.ofPairs_entries_eq_nil
  constructor
  · intro h
    obtain ⟨path, trimmedPath, joinedPath⟩ := (path_iff h.port).mp h.path
    constructor
    case port => exact (portNumber_iff known).mp h.port
    case host => exact h.host
    case marks => exact h.segments
    case pairs => exact fun pair member => h.pairs pair (SortedMap.mem_pairs_ofPairs.mpr member)
    case fragment => exact h.fragment
    case lastValue => exact h.lastValue
    case noQuery => exact fun none => h.noQuery (query.mpr none)
    case path => exact path
    case trimmedPath => exact trimmedPath
    case joinedPath => exact joinedPath
  · intro h
    have port := (portNumber_iff known).mpr h.port
    constructor
    case port => exact port
    case host => exact h.host
    case segments => exact h.marks
    case pairs => exact fun pair member => h.pairs pair (SortedMap.mem_pairs_ofPairs.mp member)
    case fragment => exact h.fragment
    case lastValue => exact h.lastValue
    case noQuery => exact fun none => h.noQuery (query.mp none)
    case path => exact (path_iff port).mpr ⟨h.path, h.trimmedPath, h.joinedPath⟩

end Slices

/-- The slices of a text with a known scheme are read back from what they print exactly if
they are stable.
-/
theorem reread_iff {url : Text} (known : schemeSlice url = http ∨ schemeSlice url = https)
    (again : Builder)
    : again.parse (Slices.of url).builder.toString = .ok (true, (Slices.of url).builder)
      ↔ (Slices.of url).Stable := by
  rw [(Builder.wellformed_slices known).parse_toString_iff_stable again,
    Slices.stable_builder_iff known]

/-- The canonical text of an accepted text is read back as the same builder exactly if the
slices of the trimmed text are stable.
-/
theorem canonical_idempotent_iff {b parsed : Builder} {url : Text}
    (accepted : b.parse url = .ok (true, parsed)) (again : Builder)
    : again.parse parsed.toString = .ok (true, parsed) ↔ (Slices.of (trimmed url)).Stable := by
  obtain ⟨valid, rfl⟩ := parse_eq_true_iff.mp accepted
  exact reread_iff valid.scheme again

/-- A text with every part, with delimiters where they do no harm. -/
def harmless : Text :=
  "https://h:0443/a/./b:1?n=2&n==1&#f?".toList

theorem canonical_idempotent_harmless
    : Builder.cleared.parse (Slices.of harmless).builder.toString
      = .ok (true, (Slices.of harmless).builder) := by
  have accepted : Builder.cleared.parse harmless = .ok (true, (Slices.of harmless).builder) := by
    decide +kernel
  apply (canonical_idempotent_iff accepted .cleared).mpr
  have untrimmed : trimmed harmless = harmless := by decide +kernel
  rw [untrimmed]
  constructor
  all_goals decide +kernel

/-- The root path of a host prints as the host alone, whose text is then a segment too. -/
theorem root_not_idempotent
    : ∃ parsed again,
        Builder.cleared.parse "http://h/".toList = .ok (true, parsed)
        ∧ parsed.toString = "http://h:80".toList
        ∧ Builder.cleared.parse parsed.toString = .ok (true, again)
        ∧ parsed.encodedPathSegments = []
        ∧ again.encodedPathSegments = ["h:80".toList]
        ∧ ¬Builder.cleared.parse parsed.toString = .ok (true, parsed) := by
  refine ⟨(Slices.of "http://h/".toList).builder, (Slices.of "http://h:80".toList).builder,
    ?_⟩
  decide +kernel

end Nbsdk.Http
