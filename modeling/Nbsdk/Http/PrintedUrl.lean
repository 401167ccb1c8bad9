import Nbsdk.Http.Printing
import Nbsdk.Http.UrlText

/-! What the parser reads of a printed builder.
The printed text is trimmed at its end, and a fragment's question mark counts as the
query's if there is no query. Apart from that the parser finds host, port, path, query and
fragment where the printer put them.
-/

namespace Nbsdk.Http

open Cut (before after?)

namespace Builder

/-- The printed segments. -/
def pathText (b : Builder) : Text :=
  b.encodedPathSegments.flatMap (fun segment => '/' :: segment)

/-- The printed host and port in front of a path. -/
def authorityText (b : Builder) (path : Text) : Text :=
  b.host ++ ':' :: (decimal b.printedPort ++ path)

def queryPart (b : Builder) : Option Text :=
  if b.encodedQueryNamesAndValues.entries = [] then none else some b.printQuery

def fragmentPart (b : Builder) : Option Text :=
  if b.encodedFragment = [] then none else some b.encodedFragment

/-- The printed text behind the scheme. -/
def restText (b : Builder) : Text :=
  b.authorityText b.pathText ++ marked '?' b.queryPart ++ marked '#' b.fragmentPart

/-- The host as it is printed. -/
def shownHost (host : Text) : Text := if ':' ∈ host then '[' :: host ++ [']'] else host

/-- The printed text up to the query. -/
def frontText (b : Builder) : Text :=
  b.scheme ++ [':', '/', '/'] ++ shownHost b.host ++ ':' :: decimal b.printedPort ++ b.pathText

/-- Query and fragment are printed behind their marks if they are there. -/
theorem toString_eq_front (b : Builder)
    : b.toString = b.frontText ++ marked '?' b.queryPart ++ marked '#' b.fragmentPart := by
  rw [queryPart, fragmentPart, marked_ite, marked_ite]
  rfl

/-- What holds of every builder that the parser leaves: the scheme is known, and no part has
a character at which the parser ends it.
-/
structure Wellformed (b : Builder) : Prop where
  scheme : b.scheme = http ∨ b.scheme = https
  host : ':' ∉ b.host
  port : IsInt b.port
  segments : ∀ segment ∈ b.encodedPathSegments, NormalSegment segment ∧ '/' ∉ segment
  valued : b.encodedQueryNamesAndValues.Inhabited
  pairs : ∀ pair ∈ b.encodedQueryNamesAndValues.pairs, PlainPair pair

/-- The host before a colon or a slash has no colon. -/
theorem not_mem_hostSlice (hostPath : Text) : ':' ∉ hostSlice hostPath := by
  rw [hostSlice]
  split
  case isTrue => exact Cut.not_mem_before ':' hostPath
  case isFalse absent =>
    exact fun member => absent ((Cut.before_isPrefix '/' hostPath).subset member)

/-- A known scheme has a port, which is not the -1 that stands for none. -/
theorem defaultPort_known {scheme : Text} (known : scheme = http ∨ scheme = https)
    : IsInt (defaultPort scheme) ∧ defaultPort scheme ≠ -1 := by
  rcases known with plain | secure
  · subst plain
    exact ⟨⟨by decide, by decide⟩, by decide⟩
  · subst secure
    exact ⟨⟨by decide, by decide⟩, by decide⟩

theorem portNumber_isInt {scheme : Text} (known : scheme = http ∨ scheme = https)
    (portText : Text)
    : IsInt (portNumber scheme portText) := by
  rw [portNumber]
  split
  · exact (defaultPort_known known).1
  · exact atoi_isInt portText

/-- What slices with a known scheme and no colon in the host describe is well formed. -/
theorem wellformed_builder {s : Slices} (scheme : s.scheme = http ∨ s.scheme = https)
    (host : ':' ∉ s.host)
    : s.builder.Wellformed where
  scheme := scheme
  host := host
  port := portNumber_isInt scheme s.portText
  segments := by
    intro segment member
    obtain ⟨inside, normal⟩ := mem_resolve member
    exact ⟨normal, (Cut.of_mem_splitOn inside).1⟩
  valued := SortedMap.ofPairs_inhabited _
  pairs := by
    intro pair member
    exact (parameters_plain (SortedMap.mem_pairs_ofPairs.mp member)).1

/-- What the slices of a text with a known scheme describe is well formed. -/
theorem wellformed_slices {url : Text}
    (known : schemeSlice url = http ∨ schemeSlice url = https)
    : (Slices.of url).builder.Wellformed :=
  wellformed_builder known (not_mem_hostSlice _)

/-- Every builder that the parser leaves with success is well formed. -/
theorem wellformed_of_parse {b parsed : Builder} {url : Text}
    (accepted : b.parse url = .ok (true, parsed))
    : parsed.Wellformed := by
  obtain ⟨valid, described⟩ := parse_eq_true_iff.mp accepted
  rw [described]
  exact wellformed_slices valid.scheme

/-- The first character of a prefix is that of the whole. -/
theorem head?_of_isPrefix {first whole : Text} (shorter : first <+: whole) {char : Char}
    (head : first.head? = some char)
    : whole.head? = some char := by
  rw [← List.singleton_prefix_iff_head?_eq_some] at head ⊢
  exact head.trans shorter

section

variable {b : Builder} (h : b.Wellformed)

include h

/-- A host without a colon is printed without brackets. -/
theorem Wellformed.toString_eq : b.toString = urlText b.scheme b.restText := by
  rw [toString_eq_front, frontText, shownHost, if_neg h.host, urlText, restText, authorityText]
  simp

/-- The scheme is printed in lower case. -/
theorem Wellformed.lower : b.scheme.map Char.toLower = b.scheme := by
  rcases h.scheme with plain | secure
  · rw [plain]
    decide
  · rw [secure]
    decide

/-- The printed text is read as the slices of its trimmed rest. -/
theorem Wellformed.parse_toString_iff {b0 parsed : Builder}
    : b0.parse b.toString = .ok (true, parsed)
      ↔ hostPathSlice [] (trimmedEnd b.restText) ≠ []
        ∧ parsed = (restSlices b.scheme (trimmedEnd b.restText)).builder := by
  have known : KnownScheme b.scheme := by
    rw [KnownScheme, h.lower]
    exact h.scheme
  have long : 7 < (urlText b.scheme b.restText).length := by
    have scheme := known.length
    simp only [urlText, restText, authorityText, List.length_append, List.length_cons]
    omega
  rw [h.toString_eq, parse_urlText_iff known long, h.lower]

/-- The host is read in front of the colon, whatever follows. -/
theorem Wellformed.hostSlice_authority (path : Text)
    : hostSlice (b.authorityText path) = b.host := by
  rw [authorityText, hostSlice, if_pos (by simp), Cut.before_append_cons h.host]

theorem Wellformed.printedPort_isInt : IsInt b.printedPort := by
  rw [printedPort]
  split
  · exact (defaultPort_known h.scheme).1
  · exact h.port

/-- The port is printed as it is exactly if it is not -1. -/
theorem Wellformed.printedPort_iff : b.port = b.printedPort ↔ b.port ≠ -1 := by
  rw [printedPort]
  split
  case isTrue unset => simp [unset, (defaultPort_known h.scheme).2.symm]
  case isFalse set => simp [set]

/-- The printed port is read if no digit follows, by whether a slash of the host lets the
port text run on.
-/
theorem Wellformed.portNumber_authority {path : Text}
    (ends : ∀ char, path.head? = some char → char.isDigit = false)
    : portNumber b.scheme (portSlice (b.authorityText path)) = b.printedPort := by
  have read
      : ∀ rest : Text, (∀ char, rest.head? = some char → char.isDigit = false) →
          portNumber b.scheme (decimal b.printedPort ++ rest) = b.printedPort := by
    intro rest ends
    obtain ⟨front, last, printed, _⟩ := decimal_ends b.printedPort
    rw [portNumber, if_neg (by simp [printed]), atoi_decimal h.printedPort_isInt ends]
  rw [authorityText, portSlice, Cut.after?_append_cons h.host,
    Cut.before_append_cons h.host]
  simp only
  split
  case isTrue => exact read path ends
  case isFalse =>
    rw [Cut.before_append (not_mem_decimal (by decide) (by decide) b.printedPort)]
    apply read
    intro char first
    exact ends char (head?_of_isPrefix (Cut.before_isPrefix '/' path) first)

end

theorem authorityText_append (b : Builder) (path rest : Text)
    : b.authorityText (path ++ rest) = b.authorityText path ++ rest := by
  simp [authorityText]

/-- A character that is not printed with host and port comes from the host or the path. -/
theorem not_mem_authorityText {b : Builder} {path : Text} {mark : Char}
    (foreign : mark ∈ ['?', '#'])
    : mark ∉ b.authorityText path ↔ mark ∉ b.host ∧ mark ∉ path := by
  have absent : mark ∉ decimal b.printedPort := by
    apply not_mem_decimal
    · intro same
      subst same
      contradiction
    · have noDigit : ∀ mark ∈ ['?', '#'], mark.isDigit = false :=
        forall_mem_of_all (by decide)
      exact noDigit mark foreign
  have colon : mark ≠ ':' := by
    intro same
    subst same
    contradiction
  simp [authorityText, absent, colon]

theorem not_mem_pathText {b : Builder} {mark : Char} (foreign : mark ∈ ['?', '#'])
    : mark ∉ b.pathText ↔ ∀ segment ∈ b.encodedPathSegments, mark ∉ segment := by
  have slash : mark ≠ '/' := by
    intro same
    subst same
    contradiction
  simp [pathText, slash]

/-- The printed text is not trimmed up to the port. -/
theorem trimmedEnd_authorityText (b : Builder) (path : Text)
    : trimmedEnd (b.authorityText path) = b.authorityText (trimmedEnd path) := by
  obtain ⟨front, last, printed, digit⟩ := decimal_ends b.printedPort
  have visible : last ∉ blanks := by
    intro blank
    have noDigit : ∀ char ∈ blanks, char.isDigit = false := forall_mem_of_all (by decide)
    rw [noDigit last blank] at digit
    contradiction
  have behind := trimmedEnd_behind visible (b.host ++ ':' :: front) path
  simpa [authorityText, printed] using behind

/-- The path as the parser meets it: trimmed if nothing follows it, and with the fragment up
to a question mark that is taken for the query's.
-/
def shownPath (b : Builder) : Text :=
  if b.encodedQueryNamesAndValues.entries ≠ [] then b.pathText
  else if b.encodedFragment = [] then trimmedEnd b.pathText
  else if '?' ∈ b.encodedFragment then b.pathText ++ '#' :: before '?' b.encodedFragment
  else b.pathText

/-- The query as the parser meets it: trimmed if nothing follows it, and the end of the
fragment if there is no query.
-/
def shownQuery (b : Builder) : Text :=
  if b.encodedQueryNamesAndValues.entries = [] then (after? '?' b.encodedFragment).getD []
  else if b.encodedFragment = [] then trimmedEnd b.printQuery
  else b.printQuery

/-- The printed text is read as the shown path and query if no part has a mark that ends it
and the fragment is not trimmed, by which parts are there.
-/
theorem slices_restText {b : Builder}
    (plain : '?' ∉ b.authorityText b.pathText ∧ '#' ∉ b.authorityText b.pathText)
    (hashless : '#' ∉ b.printQuery)
    (untrimmed : trimmedEnd b.encodedFragment = b.encodedFragment)
    : hostPathSlice [] (trimmedEnd b.restText) = b.authorityText b.shownPath
      ∧ querySlice (trimmedEnd b.restText) = b.shownQuery
      ∧ fragmentSlice (trimmedEnd b.restText) = b.encodedFragment := by
  rw [restText, queryPart, fragmentPart, shownPath, shownQuery]
  by_cases noQuery : b.encodedQueryNamesAndValues.entries = []
  · simp only [noQuery, if_true, ne_eq, not_true_eq_false, if_false]
    by_cases noFragment : b.encodedFragment = []
    · have shorter := trimmedEnd_isPrefix (b.authorityText b.pathText)
      have parts := @slices_parts (trimmedEnd (b.authorityText b.pathText)) none none
        ⟨fun inside => plain.1 (shorter.subset inside),
          fun inside => plain.2 (shorter.subset inside)⟩
        (by simp) (by simp)
      simpa [noFragment, marked, after?, trimmedEnd_authorityText] using parts
    · simp only [noFragment, if_false]
      rw [trimmedEnd_marked (by decide), untrimmed]
      by_cases mark : '?' ∈ b.encodedFragment
      · obtain ⟨front, rest, split, first⟩ := List.eq_append_cons_of_mem mark
        have parts := @slices_marked_fragment _ front rest plain first
        rw [if_pos mark, split, Cut.before_append_cons first, Cut.after?_append_cons first,
          authorityText_append]
        simpa [marked] using parts
      · have parts := @slices_parts _ none (some b.encodedFragment) plain (by simp)
          (by simpa using mark)
        rw [if_neg mark, Cut.after?_of_not_mem mark]
        exact parts
  · simp only [noQuery, if_false, ne_eq, not_false_eq_true, if_true]
    by_cases noFragment : b.encodedFragment = []
    · have shorter := trimmedEnd_isPrefix b.printQuery
      have parts := @slices_parts _ (some (trimmedEnd b.printQuery)) none plain
        (by simpa using fun inside => hashless (shorter.subset inside)) (by simp)
      simp only [noFragment, if_true]
      rw [marked, List.append_nil] at parts ⊢
      rw [trimmedEnd_marked (by decide)]
      simpa only [Option.getD_some, Option.getD_none] using parts
    · have parts := @slices_parts _ (some b.printQuery) (some b.encodedFragment) plain
        (by simpa using hashless) (by simp)
      simp only [noFragment, if_false]
      rw [trimmedEnd_marked (by decide), untrimmed]
      exact parts

end Builder

end Nbsdk.Http
