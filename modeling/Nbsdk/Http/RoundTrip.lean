import Nbsdk.Http.PrintedUrl

/-! Which printed builders are read back.
A well-formed builder is read back exactly if no part of it runs into the next one, nothing
of it is trimmed, and its port is printed. The path needs a segment and a host without a
slash, because without a slash behind the host the parser takes the host for a segment.
-/

namespace Nbsdk.Http

open Cut (before after?)

namespace Builder

/-- A text with a colon is pushed as a segment. -/
theorem normalSegment_of_colon {segment : Text} (colon : ':' ∈ segment)
    : NormalSegment segment := by
  constructor
  · intro same
    subst same
    contradiction
  · intro same
    subst same
    contradiction
  · intro same
    subst same
    contradiction

section

variable {b : Builder} (h : b.Wellformed)

include h

/-- The printed segments are the last pieces of any text that they end. -/
theorem Wellformed.splitOn_pathText (front : Text)
    : (front ++ b.pathText).splitOn '/' = front.splitOn '/' ++ b.encodedPathSegments := by
  by_cases none : b.encodedPathSegments = []
  · simp [pathText, none]
  · rw [pathText, flatMap_segments none, List.splitOn_append_cons_self,
      List.splitOn_intercalate '/' (fun segment inside => (h.segments segment inside).2) none]

/-- The printed path is read back exactly if there is a segment and the host has no slash;
otherwise a text that ends in the port becomes a segment in front of it.
-/
theorem Wellformed.resolve_pathText_iff
    : resolve ((pathSlice (b.authorityText b.pathText)).splitOn '/') = b.encodedPathSegments
      ↔ b.encodedPathSegments ≠ [] ∧ '/' ∉ b.host := by
  have normal := fun segment inside => (h.segments segment inside).1
  have slashless : '/' ∉ ':' :: decimal b.printedPort := by
    rw [List.mem_cons, not_or]
    exact ⟨by decide, not_mem_decimal (by decide) (by decide) b.printedPort⟩
  have runsOn : ∀ front : Text,
      resolve ((front ++ (':' :: decimal b.printedPort) ++ b.pathText).splitOn '/')
      ≠ b.encodedPathSegments := by
    intro front read
    obtain ⟨init, last, -, pieces⟩ := Cut.splitOn_append slashless front
    have ends : NormalSegment (last ++ ':' :: decimal b.printedPort) :=
      normalSegment_of_colon (by simp)
    have longer := congrArg List.length read
    rw [h.splitOn_pathText, pieces, resolve, List.foldl_append, foldl_push normal,
      List.foldl_append, foldl_push (by simpa using ends)] at longer
    simp only [List.length_append, List.length_cons] at longer
    omega
  have text : ∀ front : Text,
      front ++ ':' :: (decimal b.printedPort ++ b.pathText)
      = front ++ (':' :: decimal b.printedPort) ++ b.pathText := by
    simp
  by_cases slashed : '/' ∈ b.host
  · obtain ⟨first, front, split, absent⟩ := List.eq_append_cons_of_mem slashed
    rw [authorityText, split, List.append_assoc, List.cons_append, pathSlice,
      Cut.after?_append_cons absent, Option.getD_some, text]
    simpa using runsOn front
  · by_cases none : b.encodedPathSegments = []
    · have noSlash : '/' ∉ b.host ++ (':' :: decimal b.printedPort) ++ b.pathText := by
        simp only [List.mem_append, slashed, slashless, pathText, none, List.flatMap_nil]
        simp
      rw [authorityText, text, pathSlice, Cut.after?_of_not_mem noSlash, Option.getD_none]
      simpa [none] using runsOn b.host
    · have noSlash : '/' ∉ b.host ++ ':' :: decimal b.printedPort := by
        simp only [List.mem_append, slashed, slashless]
        simp
      rw [authorityText, text, pathText, flatMap_segments none, pathSlice,
        Cut.after?_append_cons noSlash, Option.getD_some,
        resolve_join none normal (fun segment inside => (h.segments segment inside).2)]
      simp [none, slashed]

/-- A query that is trimmed is the query whose last value is trimmed. -/
theorem Wellformed.trimmedEnd_printQuery {init : List (Text × Text)} {last : Text × Text}
    (pairs : b.encodedQueryNamesAndValues.pairs = init ++ [last])
    : trimmedEnd b.printQuery
      = ['&'].intercalate ((init ++ [(last.1, trimmedEnd last.2)]).map printPair) := by
  obtain ⟨front, ends⟩ := Cut.intercalate_concat ['&'] (init.map printPair)
  have behind := @trimmedEnd_behind '=' (by decide) (front ++ last.1) last.2
  rw [printQuery_eq h.valued, pairs, List.map_append, List.map_append, List.map_singleton,
    List.map_singleton, ends, ends]
  simpa [printPair] using behind

/-- The shown query is read back exactly if its last value is not trimmed, and without a
query if the fragment has no parameters behind its first question mark.
-/
theorem Wellformed.ofPairs_shownQuery_iff
    : SortedMap.ofPairs (parameters b.shownQuery) = b.encodedQueryNamesAndValues
      ↔ (b.encodedFragment = [] →
          ∀ pair, b.encodedQueryNamesAndValues.pairs.getLast? = some pair →
            trimmedEnd pair.2 = pair.2)
        ∧ (b.encodedQueryNamesAndValues.entries = [] →
            parameters ((after? '?' b.encodedFragment).getD []) = []) := by
  rw [shownQuery]
  by_cases noQuery : b.encodedQueryNamesAndValues.entries = []
  · have noPair : b.encodedQueryNamesAndValues.pairs = [] := by simp [SortedMap.pairs, noQuery]
    simp only [noQuery, noPair, if_true, List.getLast?_nil, reduceCtorEq, false_implies,
      implies_true, true_and, forall_const]
    constructor
    · intro read
      rw [← SortedMap.ofPairs_entries_eq_nil, read, noQuery]
    · intro unnamed
      rw [unnamed]
      exact SortedMap.ofPairs_eq h.valued (by simp [noPair])
  · have some := h.valued.pairs_ne_nil noQuery
    simp only [noQuery, if_false, false_implies, and_true]
    by_cases noFragment : b.encodedFragment = []
    · obtain ⟨init, last, split⟩ := (List.eq_nil_or_concat _).resolve_left some
      rw [List.concat_eq_append] at split
      have plain := h.pairs last (by simp [split])
      have absent : '&' ∉ trimmedEnd last.2 :=
        fun inside => plain.value ((trimmedEnd_isPrefix last.2).subset inside)
      have shorter : ∀ pair ∈ init ++ [(last.1, trimmedEnd last.2)], PlainPair pair := by
        intro pair member
        rcases List.mem_append.mp member with before | ends
        · exact h.pairs pair (split ▸ List.mem_append_left _ before)
        · rw [List.mem_singleton.mp ends]
          exact plain.withValue absent
      simp only [noFragment, if_true, forall_const]
      rw [h.trimmedEnd_printQuery split, parameters_join (by simp) shorter,
        SortedMap.ofPairs_concat_iff h.valued split, split, List.getLast?_concat]
      simp only [Option.some.injEq, forall_eq']
      rw [Prod.ext_iff]
      simp only [true_and]
    · simp only [noFragment, if_false, false_implies, iff_true]
      rw [printQuery_eq h.valued]
      exact ofPairs_parameters h.valued noQuery h.pairs

/-- A query without a hash in a name or value is printed without one. -/
theorem Wellformed.hashless_printQuery
    (hashless
      : ∀ pair ∈ b.encodedQueryNamesAndValues.pairs, '#' ∉ pair.1 ∧ '#' ∉ pair.2)
    : '#' ∉ b.printQuery := by
  rw [printQuery_eq h.valued]
  intro member
  rcases Cut.mem_intercalate member with separator | ⟨piece, inside, within⟩
  · contradiction
  · obtain ⟨pair, among, rfl⟩ := List.mem_map.mp inside
    simp [printPair, hashless pair among] at within

end

-----------------------------------------------------------------------------------------
-- What is necessary
-----------------------------------------------------------------------------------------

/-- The builder is what the parser leaves of these parts. -/
structure ReadsAs (b : Builder) (hostPath query fragment : Text) : Prop where
  host : b.host = hostSlice hostPath
  port : b.port = portNumber b.scheme (portSlice hostPath)
  segments : b.encodedPathSegments = resolve ((pathSlice hostPath).splitOn '/')
  query : b.encodedQueryNamesAndValues = .ofPairs (parameters query)
  fragment : b.encodedFragment = fragment

theorem readsAs_iff {b : Builder} {rest : Text}
    : b.ReadsAs (hostPathSlice [] rest) (querySlice rest) (fragmentSlice rest)
      ↔ b = (restSlices b.scheme rest).builder := by
  constructor
  · intro held
    rcases held with ⟨host, port, segments, query, fragment⟩
    cases b
    simp only at host port segments query fragment
    rw [host, port, segments, query, fragment]
    rfl
  · intro same
    exact ⟨congrArg Builder.host same, congrArg Builder.port same,
      congrArg Builder.encodedPathSegments same,
      congrArg Builder.encodedQueryNamesAndValues same,
      congrArg Builder.encodedFragment same⟩

/-- A mark that is not in the text of host and path is neither in the host nor in a segment
that is read of it.
-/
theorem ReadsAs.absent {b : Builder} {hostPath query fragment : Text}
    (h : b.ReadsAs hostPath query fragment) {mark : Char} (absent : mark ∉ hostPath)
    : mark ∉ b.host ∧ ∀ segment ∈ b.encodedPathSegments, mark ∉ segment := by
  constructor
  · intro member
    rw [h.host, hostSlice] at member
    apply absent
    split at member
    · exact (Cut.before_isPrefix ':' hostPath).subset member
    · exact (Cut.before_isPrefix '/' hostPath).subset member
  · intro segment inside member
    rw [h.segments] at inside
    have within := (Cut.of_mem_splitOn (mem_resolve inside).1).2 mark member
    apply absent
    rw [pathSlice] at within
    cases found : after? '/' hostPath with
    | none =>
        rw [found] at within
        exact within
    | some path =>
        rw [found] at within
        exact (Cut.after?_suffix found).subset within

/-- A mark that is not in the text of the query is in no name or value that is read of it. -/
theorem ReadsAs.absent_pair {b : Builder} {hostPath query fragment : Text}
    (h : b.ReadsAs hostPath query fragment) {mark : Char} (absent : mark ∉ query)
    {pair : Text × Text} (member : pair ∈ b.encodedQueryNamesAndValues.pairs)
    : mark ∉ pair.1 ∧ mark ∉ pair.2 := by
  rw [h.query, SortedMap.mem_pairs_ofPairs] at member
  have within := (parameters_plain member).2 mark
  exact ⟨fun inside => absent (within (Or.inl inside)),
    fun inside => absent (within (Or.inr inside))⟩

/-- A mark is in the printed host and path if it is in the host or in a segment. -/
theorem plain_iff {b : Builder} {mark : Char} (foreign : mark ∈ ['?', '#'])
    : mark ∉ b.authorityText b.pathText
      ↔ mark ∉ b.host ∧ ∀ segment ∈ b.encodedPathSegments, mark ∉ segment := by
  rw [not_mem_authorityText foreign, not_mem_pathText foreign]

/-- Host and path are read up to the first question mark, and without one up to the first
hash.
-/
theorem hostPathSlice_ends (rest : Text)
    : '?' ∉ hostPathSlice [] rest ∧ ('?' ∉ rest → '#' ∉ hostPathSlice [] rest) := by
  rw [hostPathSlice, if_neg List.not_mem_nil]
  by_cases mark : '?' ∈ rest
  · rw [if_pos mark]
    exact ⟨Cut.not_mem_before '?' rest, fun unmarked => absurd mark unmarked⟩
  · rw [if_neg mark, if_neg List.not_mem_nil]
    refine ⟨?_, fun _ => Cut.not_mem_before '#' rest⟩
    exact fun member => mark ((Cut.before_isPrefix '#' rest).subset member)

section

variable {b : Builder}
  (h
    : b.ReadsAs (hostPathSlice [] (trimmedEnd b.restText))
        (querySlice (trimmedEnd b.restText)) (fragmentSlice (trimmedEnd b.restText)))

include h

/-- A printed text that is read back has no mark in host and path. A hash there would start
the fragment: with a printed fragment behind it that has one hash too many, and without one
the path that is read ends there.
-/
theorem ReadsAs.plain
    : '?' ∉ b.authorityText b.pathText ∧ '#' ∉ b.authorityText b.pathText := by
  have mark := (plain_iff (by decide)).mpr (h.absent (hostPathSlice_ends _).1)
  refine ⟨mark, ?_⟩
  intro hash
  obtain ⟨front, rest, split, absent⟩ := List.eq_append_cons_of_mem hash
  have text : b.restText
      = front ++ ['#'] ++ (rest ++ marked '?' b.queryPart ++ marked '#' b.fragmentPart) := by
    simp [restText, split]
  have trimmed := @trimmedEnd_behind '#' (by decide) front
    (rest ++ marked '?' b.queryPart ++ marked '#' b.fragmentPart)
  rw [← text] at trimmed
  have fragment := h.fragment
  rw [trimmed, fragmentSlice, List.append_assoc, List.singleton_append,
    Cut.after?_append_cons absent, Option.getD_some] at fragment
  by_cases noFragment : b.encodedFragment = []
  · have unmarked : '?' ∉ trimmedEnd b.restText := by
      rw [trimmed, ← fragment, noFragment]
      rw [split] at mark
      simp only [List.mem_append, List.mem_cons, not_or] at mark
      simp [mark.1]
    exact (plain_iff (by decide)).mpr (h.absent ((hostPathSlice_ends _).2 unmarked)) hash
  · have counted := congrArg (List.count '#') fragment
    rw [count_trimmedEnd (by decide), fragmentPart, if_neg noFragment, List.count_append,
      marked, List.count_cons_self] at counted
    omega

/-- No printed name or value that is read back has a hash, since the query ends at it. -/
theorem ReadsAs.hashless
    : ∀ pair ∈ b.encodedQueryNamesAndValues.pairs, '#' ∉ pair.1 ∧ '#' ∉ pair.2 := by
  intro pair member
  apply h.absent_pair ?_ member
  have some : b.encodedQueryNamesAndValues.entries ≠ [] := by
    intro none
    simp [SortedMap.pairs, none] at member
  have text : b.restText
      = b.authorityText b.pathText ++ ['?'] ++ (b.printQuery ++ marked '#' b.fragmentPart) := by
    simp [restText, queryPart, some, marked]
  rw [text, trimmedEnd_behind (by decide), querySlice, List.append_assoc,
    List.singleton_append, Cut.after?_append_cons h.plain.1,
    Cut.before_append_cons h.plain.1]
  simp only [h.plain.2, if_false]
  exact Cut.not_mem_before '#' _

/-- A printed fragment that is read back is not trimmed. -/
theorem ReadsAs.untrimmed (wf : b.Wellformed)
    : trimmedEnd b.encodedFragment = b.encodedFragment := by
  by_cases noFragment : b.encodedFragment = []
  · rw [noFragment]
    rfl
  · have hash : '#' ∉ b.authorityText b.pathText ++ marked '?' b.queryPart := by
      have query := wf.hashless_printQuery h.hashless
      rw [queryPart]
      split
      · simpa [marked] using h.plain.2
      · simp [marked, h.plain.2, query]
    have fragment := h.fragment
    rw [restText, fragmentPart, if_neg noFragment, trimmedEnd_marked (by decide), marked,
      fragmentSlice, Cut.after?_append_cons hash, Option.getD_some] at fragment
    exact fragment.symm

end

-----------------------------------------------------------------------------------------
-- Which builders are read back
-----------------------------------------------------------------------------------------

/-- A shown path starts with a slash or with a hash, so it does not go on with a digit. -/
theorem shownPath_head {b : Builder} {char : Char} (first : b.shownPath.head? = some char)
    : char.isDigit = false := by
  have slash : ∀ rest : Text, (b.pathText ++ '#' :: rest).head? = some char →
      char.isDigit = false := by
    intro rest first
    rw [pathText] at first
    cases segments : b.encodedPathSegments with
    | nil =>
        rw [segments] at first
        cases first
        rfl
    | cons segment others =>
        rw [segments] at first
        cases first
        rfl
  have printed : b.pathText.head? = some char → char.isDigit = false :=
    fun first => slash [] (head?_of_isPrefix (List.prefix_append ..) first)
  rw [shownPath] at first
  split at first
  · exact printed first
  · split at first
    · exact printed (head?_of_isPrefix (trimmedEnd_isPrefix b.pathText) first)
    · split at first
      · exact slash _ first
      · exact printed first

/-- The printed parts do not run into each other, nothing is trimmed, and the port is
printed. The path may also be kept by accident where it is trimmed or runs on into the
fragment.
-/
structure Stable (b : Builder) : Prop where
  port : b.port ≠ -1
  host : '?' ∉ b.host ∧ '#' ∉ b.host
  segments : ∀ segment ∈ b.encodedPathSegments, '?' ∉ segment ∧ '#' ∉ segment
  pairs : ∀ pair ∈ b.encodedQueryNamesAndValues.pairs, '#' ∉ pair.1 ∧ '#' ∉ pair.2
  fragment : trimmedEnd b.encodedFragment = b.encodedFragment
  lastValue
    : b.encodedFragment = [] →
        ∀ pair, b.encodedQueryNamesAndValues.pairs.getLast? = some pair →
          trimmedEnd pair.2 = pair.2
  noQuery
    : b.encodedQueryNamesAndValues.entries = [] →
        parameters ((after? '?' b.encodedFragment).getD []) = []
  path
    : if b.shownPath = b.pathText then b.encodedPathSegments ≠ [] ∧ '/' ∉ b.host
      else
        resolve ((pathSlice (b.authorityText b.shownPath)).splitOn '/')
        = b.encodedPathSegments

/-- A printed builder that is read back is stable. -/
theorem ReadsAs.stable {b : Builder} (h : b.Wellformed)
    (read
      : b.ReadsAs (hostPathSlice [] (trimmedEnd b.restText))
          (querySlice (trimmedEnd b.restText)) (fragmentSlice (trimmedEnd b.restText)))
    : b.Stable := by
  have plain := read.plain
  have pairs := read.hashless
  have untrimmed := read.untrimmed h
  obtain ⟨hostPath, query, fragment⟩ :=
    slices_restText plain (h.hashless_printQuery pairs) untrimmed
  rw [hostPath, query, fragment] at read
  have mark := (plain_iff (by decide)).mp plain.1
  have hash := (plain_iff (by decide)).mp plain.2
  obtain ⟨lastValue, noQuery⟩ := h.ofPairs_shownQuery_iff.mp read.query.symm
  constructor
  case port =>
    have port := read.port
    rwa [h.portNumber_authority (fun _ => shownPath_head), h.printedPort_iff] at port
  case host => exact ⟨mark.1, hash.1⟩
  case segments => exact fun segment inside => ⟨mark.2 segment inside, hash.2 segment inside⟩
  case pairs => exact pairs
  case fragment => exact untrimmed
  case lastValue => exact lastValue
  case noQuery => exact noQuery
  case path =>
    split
    case isTrue same =>
      rw [← h.resolve_pathText_iff, ← same]
      exact read.segments.symm
    case isFalse => exact read.segments.symm

/-- A stable builder is what the parser reads of the shown parts. -/
theorem Stable.readsAs {b : Builder} (stable : b.Stable) (h : b.Wellformed)
    : b.ReadsAs (b.authorityText b.shownPath) b.shownQuery b.encodedFragment := by
  constructor
  case host => exact (h.hostSlice_authority _).symm
  case port =>
    rw [h.portNumber_authority (fun _ => shownPath_head)]
    exact h.printedPort_iff.mpr stable.port
  case segments =>
    have path := stable.path
    split at path
    case isTrue same =>
      rw [same]
      exact (h.resolve_pathText_iff.mpr path).symm
    case isFalse => exact path.symm
  case query => exact (h.ofPairs_shownQuery_iff.mpr ⟨stable.lastValue, stable.noQuery⟩).symm
  case fragment => rfl

/-- A stable builder prints no mark with its host and path. -/
theorem Stable.plain {b : Builder} (stable : b.Stable)
    : '?' ∉ b.authorityText b.pathText ∧ '#' ∉ b.authorityText b.pathText := by
  constructor
  · apply (plain_iff (by decide)).mpr
    exact ⟨stable.host.1, fun segment inside => (stable.segments segment inside).1⟩
  · apply (plain_iff (by decide)).mpr
    exact ⟨stable.host.2, fun segment inside => (stable.segments segment inside).2⟩

/-- A well-formed builder is read back from its text exactly if it is stable. -/
theorem Wellformed.parse_toString_iff_stable {b : Builder} (h : b.Wellformed) (b0 : Builder)
    : b0.parse b.toString = .ok (true, b) ↔ b.Stable := by
  rw [h.parse_toString_iff, ← readsAs_iff]
  constructor
  · intro held
    exact held.2.stable h
  · intro stable
    obtain ⟨hostPath, query, fragment⟩ :=
      slices_restText stable.plain (h.hashless_printQuery stable.pairs) stable.fragment
    rw [hostPath, query, fragment]
    exact ⟨by simp [authorityText], stable.readsAs h⟩

-----------------------------------------------------------------------------------------
-- Printing and parsing
-----------------------------------------------------------------------------------------

/-- A builder with a host and a path whose components have no blank and none of the
delimiters that end them.
-/
structure Printable (b : Builder) : Prop where
  scheme : b.scheme = http ∨ b.scheme = https
  host : b.host ≠ [] ∧ ∀ char ∈ [':', '/', '?', '#'], char ∉ b.host
  port : 1 ≤ b.port ∧ b.port ≤ 65535
  path : b.encodedPathSegments ≠ []
  segments
    : ∀ segment ∈ b.encodedPathSegments,
        NormalSegment segment ∧ ∀ char ∈ ['/', '?', '#'], char ∉ segment
  names
    : ∀ entry ∈ b.encodedQueryNamesAndValues.entries,
        entry.1 ≠ [] ∧ ∀ char ∈ ['&', '=', '#'], char ∉ entry.1
  values
    : ∀ entry ∈ b.encodedQueryNamesAndValues.entries,
        SortedSet.elements entry.2 ≠ []
        ∧ ∀ value ∈ SortedSet.elements entry.2, ∀ char ∈ ['&', '#'], char ∉ value
  fragment : b.encodedQueryNamesAndValues.entries = [] → '?' ∉ b.encodedFragment
  blankless
    : ∀ char ∈ blanks,
        char ∉ b.host
        ∧ (∀ segment ∈ b.encodedPathSegments, char ∉ segment)
        ∧ (∀ entry ∈ b.encodedQueryNamesAndValues.entries,
            char ∉ entry.1 ∧ ∀ value ∈ SortedSet.elements entry.2, char ∉ value)
        ∧ char ∉ b.encodedFragment

/-- A pair of a name and a value comes from the name's entry. -/
theorem exists_entry {b : Builder} {pair : Text × Text}
    (member : pair ∈ b.encodedQueryNamesAndValues.pairs)
    : ∃ entry ∈ b.encodedQueryNamesAndValues.entries,
        entry.1 = pair.1 ∧ pair.2 ∈ SortedSet.elements entry.2 := by
  obtain ⟨stored, found, inside⟩ := SortedMap.mem_pairs.mp member
  exact ⟨(pair.1, stored), SortedMap.find?_eq_some.mp found, rfl, inside⟩

theorem Printable.wellformed {b : Builder} (h : b.Printable) : b.Wellformed where
  scheme := h.scheme
  host := h.host.2 ':' (by decide)
  port := by
    have port := h.port
    constructor <;> omega
  segments := by
    intro segment inside
    obtain ⟨normal, delimiters⟩ := h.segments segment inside
    exact ⟨normal, delimiters '/' (by decide)⟩
  valued := fun entry member => (h.values entry member).1
  pairs := by
    intro pair member
    obtain ⟨entry, among, name, value⟩ := exists_entry member
    obtain ⟨named, delimiters⟩ := h.names entry among
    rw [name] at named delimiters
    refine ⟨named, ⟨delimiters '&' (by decide), delimiters '=' (by decide)⟩, ?_⟩
    exact (h.values entry among).2 pair.2 value '&' (by decide)

theorem Printable.stable {b : Builder} (h : b.Printable) : b.Stable where
  port := by
    have port := h.port
    omega
  host := ⟨h.host.2 '?' (by decide), h.host.2 '#' (by decide)⟩
  segments := by
    intro segment inside
    have delimiters := (h.segments segment inside).2
    exact ⟨delimiters '?' (by decide), delimiters '#' (by decide)⟩
  pairs := by
    intro pair member
    obtain ⟨entry, among, name, value⟩ := exists_entry member
    have delimiters := (h.names entry among).2
    rw [name] at delimiters
    exact ⟨delimiters '#' (by decide),
      (h.values entry among).2 pair.2 value '#' (by decide)⟩
  fragment := trimmedEnd_of_blankless (fun char blank => (h.blankless char blank).2.2.2)
  lastValue := by
    intro _ pair ends
    obtain ⟨entry, among, _, value⟩ := exists_entry (List.mem_of_getLast? ends)
    apply trimmedEnd_of_blankless
    intro char blank
    exact ((h.blankless char blank).2.2.1 entry among).2 pair.2 value
  noQuery := by
    intro none
    rw [Cut.after?_of_not_mem (h.fragment none)]
    rfl
  path := by
    have shown : b.shownPath = b.pathText := by
      rw [shownPath]
      split
      case isTrue => rfl
      case isFalse none =>
        rw [not_not] at none
        rw [if_neg (h.fragment none)]
        split
        case isTrue =>
          apply trimmedEnd_of_blankless
          intro char blank inside
          obtain ⟨segment, among, within⟩ := List.mem_flatMap.mp inside
          rcases List.mem_cons.mp within with rfl | within
          · exact absurd blank (by decide)
          · exact (h.blankless char blank).2.1 segment among within
        case isFalse => rfl
    rw [if_pos shown]
    exact ⟨h.path, h.host.2 '/' (by decide)⟩

/-- Parsing undoes printing: any builder that parses the text of a printable builder is left
as that builder.
-/
theorem parse_toString {b : Builder} (h : b.Printable) (b0 : Builder)
    : b0.parse b.toString = .ok (true, b) :=
  (h.wellformed.parse_toString_iff_stable b0).mpr h.stable

/-- A builder with two values of one name, which have the delimiters that a value may have. -/
def sample : Builder where
  scheme := http
  host := ['h']
  port := 8080
  encodedPathSegments := [['a'], ['b', ':']]
  encodedQueryNamesAndValues := .ofPairs [(['n'], []), (['n'], ['=', '?'])]
  encodedFragment := ['f', '#']

theorem parse_toString_sample : cleared.parse sample.toString = .ok (true, sample) := by
  have elements : ∀ entry ∈ sample.encodedQueryNamesAndValues.entries,
      entry.1 = ['n'] ∧ SortedSet.elements entry.2 = [[], ['=', '?']] := by
    decide
  apply parse_toString
  constructor
  case scheme => decide
  case host => simp [sample]
  case port => decide
  case path => decide
  case segments =>
    simp only [sample, List.forall_mem_cons]
    refine ⟨⟨?_, by simp⟩, ⟨?_, by simp⟩, by simp⟩
    · constructor <;> decide
    · constructor <;> decide
  case names =>
    intro entry among
    simp [elements entry among]
  case values =>
    intro entry among
    simp [elements entry among]
  case fragment => decide
  case blankless => exact forall_mem_of_all (by decide)

end Builder

end Nbsdk.Http
