import Nbsdk.Http.UrlText

/-! Which part of a text decides which component of the builder.
Two texts that differ in one part only are parsed, and what is left of the other parts is
compared. The parser searches behind a part for the mark that ends it, so a later part can
take its place.
-/

namespace Nbsdk.Http

open Cut (before after?)

-----------------------------------------------------------------------------------------
-- Accepted texts that go on
-----------------------------------------------------------------------------------------

/-- A text after the erasures in front. -/
def trimmedFront (url : Text) : Text :=
  blanks.foldl (fun s blank => s.dropWhile (· = blank)) url

/-- The erasures in front leave the end of the text. -/
theorem trimmedFront_suffix (url : Text) : trimmedFront url <:+ url :=
  Runs.strip_suffix blanks url

/-- What follows a visible text is not touched by the erasures in front of it. -/
theorem trimmedFront_append {url : Text} (visible : trimmedFront url ≠ []) (rest : Text)
    : trimmedFront (url ++ rest) = trimmedFront url ++ rest :=
  Runs.strip_append visible rest

/-- A text as the parser cuts it, before its end is trimmed: behind the scheme a colon and
two more characters are skipped, whatever these are, and host and path come from the rest.
-/
structure CutBehindScheme (url scheme skip rest : Text) : Prop where
  known : KnownScheme scheme
  skipped : skip.length = 2
  front : trimmedFront url = scheme ++ ':' :: skip ++ rest
  hostPath : hostPathSlice (':' :: skip) rest ≠ []
  long : 7 < url.length

section

variable {scheme skip : Text} (known : KnownScheme scheme) (skipped : skip.length = 2)
  (rest : Text)

include known

theorem schemeSlice_skip
    : schemeSlice (scheme ++ ':' :: skip ++ rest) = scheme.map Char.toLower := by
  rw [schemeSlice, List.append_assoc, List.cons_append,
    Cut.before_append_cons known.colonless]

include skipped

theorem hostPathOf_skip
    : hostPathOf (scheme ++ ':' :: skip ++ rest) = hostPathSlice (':' :: skip) rest := by
  have front : (scheme ++ ':' :: skip).length = scheme.length + 3 := by simp [skipped]
  rw [hostPathOf, schemeSlice_skip known, List.length_map, ← front, List.take_left,
    List.drop_left]
  exact hostPathSlice_append
    ⟨known.not_mem (by decide), known.not_mem (by decide)⟩ (':' :: skip) rest

end

/-- Host and path only grow when the text goes on. -/
theorem hostPathSlice_isPrefix (skip rest more : Text)
    : hostPathSlice skip rest <+: hostPathSlice skip (rest ++ more) := by
  rw [hostPathSlice, hostPathSlice]
  by_cases early : '?' ∈ skip
  · rw [if_pos early, if_pos early]
    exact List.prefix_append ..
  · rw [if_neg early, if_neg early]
    by_cases mark : '?' ∈ rest
    · rw [if_pos mark, if_pos (List.mem_append_left _ mark)]
      exact Cut.before_isPrefix_append '?' rest more
    · have shorter : (if '#' ∈ skip then rest else before '#' rest) <+: rest := by
        split
        · exact List.prefix_rfl
        · exact Cut.before_isPrefix '#' rest
      rw [if_neg mark]
      by_cases mark' : '?' ∈ rest ++ more
      · rw [if_pos mark', Cut.before_append mark]
        exact shorter.trans (List.prefix_append ..)
      · rw [if_neg mark']
        split
        · exact List.prefix_append ..
        · exact Cut.before_isPrefix_append '#' rest more

/-- A text with a known scheme and three more characters has a colon and two others there. -/
theorem exists_skip {text : Text} (known : schemeSlice text = http ∨ schemeSlice text = https)
    (long : (schemeSlice text).length + 3 ≤ text.length)
    : ∃ scheme skip rest,
        text = scheme ++ ':' :: skip ++ rest ∧ KnownScheme scheme ∧ skip.length = 2 := by
  have colon : ':' ∈ text := by
    by_contra absent
    rw [schemeSlice, Cut.before_of_not_mem absent, List.length_map] at long
    omega
  obtain ⟨scheme, tail, rfl, absent⟩ := List.eq_append_cons_of_mem colon
  rw [schemeSlice, Cut.before_append_cons absent] at known long
  rw [List.length_map, List.length_append, List.length_cons] at long
  refine ⟨scheme, tail.take 2, tail.drop 2, ?_, known, ?_⟩
  · rw [List.append_assoc, List.cons_append, List.take_append_drop]
  · rw [List.length_take]
    omega

/-- Behind a question mark in its place nothing belongs to host and path. -/
theorem hostPathSlice_of_mark {skip rest : Text} (skipMark : '?' ∉ skip) (restMark : '?' ∈ rest)
    (ending : Text)
    : hostPathSlice skip (rest ++ ending) = before '?' rest := by
  rw [hostPathSlice, if_neg skipMark, if_pos (List.mem_append_left _ restMark),
    Cut.before_append_of_mem restMark]

/-- Every accepted text is cut so. -/
theorem Accepted.exists_cut {url : Text} (h : Accepted url)
    : ∃ scheme skip rest, CutBehindScheme url scheme skip rest := by
  obtain ⟨cut, whole, _⟩ := trimmedEnd_append_blanks (trimmedFront url)
  change trimmedFront url = trimmed url ++ cut at whole
  obtain ⟨scheme, skip, rest, text, known, skipped⟩ := exists_skip h.scheme h.skipped
  refine ⟨scheme, skip, rest ++ cut, known, skipped, ?_, ?_, h.long⟩
  · rw [whole, text, List.append_assoc]
  · intro none
    have shorter := hostPathSlice_isPrefix (':' :: skip) rest cut
    rw [none, List.prefix_nil, ← hostPathOf_skip known skipped, ← text] at shorter
    exact h.hostPath shorter

/-- A text that goes on with a visible character is accepted too, and read in its place. -/
theorem CutBehindScheme.parse_append {url scheme skip rest : Text}
    (h : CutBehindScheme url scheme skip rest) {mark : Char} (visible : mark ∉ blanks)
    (ending : Text) (b : Builder)
    : b.parse (url ++ mark :: ending)
      = .ok
        (true,
          (Slices.of
            (scheme ++ ':' :: skip ++ (rest ++ mark :: trimmedEnd ending))).builder) := by
  have some : trimmedFront url ≠ [] := by simp [h.front]
  have behind := trimmedEnd_behind visible (trimmedFront url) ending
  have text
      : trimmed (url ++ mark :: ending)
        = scheme ++ ':' :: skip ++ (rest ++ mark :: trimmedEnd ending) := by
    have front := trimmedFront_append some (mark :: ending)
    calc
      trimmed (url ++ mark :: ending)
        = trimmedEnd (trimmedFront (url ++ mark :: ending)) := rfl
      _ = trimmedEnd (trimmedFront url ++ [mark] ++ ending) := by rw [front]; simp
      _ = scheme ++ ':' :: skip ++ (rest ++ mark :: trimmedEnd ending) := by
          rw [behind, h.front]
          simp
  have accepted : Accepted (url ++ mark :: ending) := by
    constructor
    case long =>
      have long := h.long
      rw [List.length_append]
      omega
    case scheme =>
      rw [text, schemeSlice_skip h.known]
      exact h.known
    case skipped =>
      rw [text, schemeSlice_skip h.known]
      simp [h.skipped]
    case hostPath =>
      rw [text, hostPathOf_skip h.known h.skipped]
      intro none
      have shorter := hostPathSlice_isPrefix (':' :: skip) rest (mark :: trimmedEnd ending)
      rw [none, List.prefix_nil] at shorter
      exact h.hostPath shorter
  rw [accepted.parse_eq, text]

-----------------------------------------------------------------------------------------
-- The fragment
-----------------------------------------------------------------------------------------

/-- The verdict and the builder without its fragment. -/
def unfragmented (outcome : Except OutOfRange (Bool × Builder))
    : Except OutOfRange (Bool × Builder) :=
  outcome.map (fun (verdict, b) => (verdict, { b with encodedFragment := [] }))

/-- What is read of these parts, without a fragment. -/
def readParts (scheme hostPath query : Text) : Builder :=
  Slices.builder
    { scheme := scheme
      host := hostSlice hostPath
      portText := portSlice hostPath
      path := pathSlice hostPath
      query := query
      fragment := [] }

/-- The text's first question mark is behind the scheme and the three characters that are
skipped with it.
-/
def QueryBehind (url : Text) : Prop :=
  let start := (schemeSlice (trimmedFront url)).length + 3
  '?' ∉ (trimmedFront url).take start ∧ '?' ∈ (trimmedFront url).drop start

instance (url : Text) : Decidable (QueryBehind url) :=
  inferInstanceAs (Decidable (_ ∧ _))

section

variable {url scheme skip rest : Text} (h : CutBehindScheme url scheme skip rest)

include h

/-- What is read of a text with a fragment. -/
theorem CutBehindScheme.parse_hash (fragment : Text) (b : Builder)
    : unfragmented (b.parse (url ++ '#' :: fragment))
      = .ok
        (true,
          readParts (scheme.map Char.toLower)
            (hostPathSlice (':' :: skip) (rest ++ '#' :: trimmedEnd fragment))
            (querySlice (':' :: skip ++ (rest ++ '#' :: trimmedEnd fragment)))) := by
  have query
      := @querySlice_append scheme
        ⟨h.known.not_mem (by decide), h.known.not_mem (by decide)⟩
        (':' :: skip ++ (rest ++ '#' :: trimmedEnd fragment))
  rw [h.parse_append (by decide), unfragmented, Except.map, Slices.of,
    schemeSlice_skip h.known, hostPathOf_skip h.known h.skipped, ← query,
    List.append_assoc]
  rfl

/-- A text without a hash has none behind its scheme. -/
theorem CutBehindScheme.not_mem {char : Char} (absent : char ∉ url)
    : char ∉ ':' :: skip ∧ char ∉ rest := by
  have front : char ∉ scheme ++ ':' :: skip ++ rest :=
    fun member => absent ((trimmedFront_suffix url).subset (h.front ▸ member))
  rw [List.mem_append, List.mem_append, not_or, not_or] at front
  exact ⟨front.1.2, front.2⟩

theorem CutBehindScheme.queryBehind_iff
    : QueryBehind url ↔ '?' ∉ ':' :: skip ∧ '?' ∈ rest := by
  have front : (scheme ++ ':' :: skip).length = scheme.length + 3 := by simp [h.skipped]
  have none : '?' ∉ scheme := h.known.not_mem (by decide)
  simp only [QueryBehind]
  rw [h.front, schemeSlice_skip h.known, List.length_map, ← front, List.take_left,
    List.drop_left, List.mem_append, not_or]
  simp only [none, not_false_eq_true, true_and]

/-- With the query's question mark in its place, host and path end there and the query ends
at the fragment's hash, whatever follows.
-/
theorem CutBehindScheme.same_of_queryBehind (noFragment : '#' ∉ url)
    (behind : QueryBehind url) (first second : Text) (b : Builder)
    : unfragmented (b.parse (url ++ '#' :: first))
      = unfragmented (b.parse (url ++ '#' :: second)) := by
  obtain ⟨skipMark, restMark⟩ := h.queryBehind_iff.mp behind
  obtain ⟨skipHash, restHash⟩ := h.not_mem noFragment
  obtain ⟨front, query, split, absent⟩ := List.eq_append_cons_of_mem restMark
  have hostPath := hostPathSlice_of_mark skipMark restMark
  have queries
      : ∀ ending, querySlice (':' :: skip ++ (rest ++ '#' :: ending)) = query := by
    intro ending
    rw [split, List.mem_append, List.mem_cons, not_or, not_or] at restHash
    have mark : '?' ∉ ':' :: skip ++ front := by
      rw [List.mem_append, not_or]
      exact ⟨skipMark, absent⟩
    have text
        : ':' :: skip ++ (rest ++ '#' :: ending)
          = (':' :: skip ++ front) ++ '?' :: (query ++ '#' :: ending) := by
      simp [split]
    rw [text, querySlice, Cut.after?_append_cons mark, Cut.before_append_cons mark]
    simp only [List.mem_append, skipHash, restHash.1, or_self, if_false]
    exact Cut.before_append_cons restHash.2.2 ending
  rw [h.parse_hash, h.parse_hash, hostPath, hostPath, queries, queries]

/-- A text without a question mark is read alike with fragments that have none either. -/
theorem CutBehindScheme.same_of_markless (noFragment : '#' ∉ url) (noQuery : '?' ∉ url)
    {first second : Text} (firstMark : '?' ∉ first) (secondMark : '?' ∉ second)
    (b : Builder)
    : unfragmented (b.parse (url ++ '#' :: first))
      = unfragmented (b.parse (url ++ '#' :: second)) := by
  obtain ⟨skipMark, restMark⟩ := h.not_mem noQuery
  obtain ⟨skipHash, restHash⟩ := h.not_mem noFragment
  have read
      : ∀ fragment, '?' ∉ fragment →
          unfragmented (b.parse (url ++ '#' :: fragment))
          = .ok (true, readParts (scheme.map Char.toLower) rest []) := by
    intro fragment mark
    have trimmedMark : '?' ∉ trimmedEnd fragment :=
      fun inside => mark ((trimmedEnd_isPrefix fragment).subset inside)
    have tail : '?' ∉ rest ++ '#' :: trimmedEnd fragment := by simp [restMark, trimmedMark]
    have whole : '?' ∉ ':' :: skip ++ (rest ++ '#' :: trimmedEnd fragment) := by
      rw [List.mem_append, not_or]
      exact ⟨skipMark, tail⟩
    rw [h.parse_hash, hostPathSlice, if_neg skipMark, if_neg tail, if_neg skipHash,
      Cut.before_append_cons restHash, querySlice, Cut.after?_of_not_mem whole]
  rw [read first firstMark, read second secondMark]

/-- If one of the skipped characters is a question mark, the fragment is read with the path,
so its last segment ends in the hash or in what follows it.
-/
theorem CutBehindScheme.differ_of_skipped (early : '?' ∈ ':' :: skip) (b : Builder)
    : unfragmented (b.parse (url ++ '#' :: []))
      ≠ unfragmented (b.parse (url ++ '#' :: ['x'])) := by
  have untrimmed : trimmedEnd ['x'] = ['x'] := by decide
  have hostPath : ∀ ending, hostPathSlice (':' :: skip) (rest ++ ending) = rest ++ ending := by
    intro ending
    rw [hostPathSlice, if_pos early]
  have ends
      : ∀ ending : Text, '#' ∈ ending → '/' ∉ ending → ∃ segments last,
          resolve ((pathSlice (rest ++ ending)).splitOn '/') = segments ++ [last ++ ending] := by
    intro ending hash slashless
    rw [pathSlice_append slashless]
    obtain ⟨init, last, -, resolved⟩ :=
      resolve_append slashless ⟨'#', hash, by decide⟩ (pathSlice rest)
    exact ⟨resolve init, last, resolved⟩
  intro same
  rw [h.parse_hash, h.parse_hash, hostPath, hostPath, untrimmed] at same
  have built := (Prod.mk.inj (Except.ok.inj same)).2
  have segments
      : resolve ((pathSlice (rest ++ ['#'])).splitOn '/')
        = resolve ((pathSlice (rest ++ ['#', 'x'])).splitOn '/') :=
    congrArg Builder.encodedPathSegments built
  obtain ⟨others, last, hashLast⟩ := ends ['#'] (by decide) (by decide)
  obtain ⟨others', last', letterLast⟩ := ends ['#', 'x'] (by decide) (by decide)
  rw [hashLast, letterLast] at segments
  have texts := List.append_inj_right' segments rfl
  have letters := congrArg List.getLast? (List.cons.inj texts).1
  simp at letters

/-- If there is no question mark behind the skipped characters, the fragment's question mark
starts a query.
-/
theorem CutBehindScheme.differ_of_markless (skipMark : '?' ∉ ':' :: skip)
    (restMark : '?' ∉ rest) (b : Builder)
    : unfragmented (b.parse (url ++ '#' :: []))
      ≠ unfragmented (b.parse (url ++ '#' :: ['?', 'x'])) := by
  have untrimmed : trimmedEnd ['?', 'x'] = ['?', 'x'] := by decide
  have mark : '?' ∉ ':' :: skip ++ rest := by
    rw [List.mem_append, not_or]
    exact ⟨skipMark, restMark⟩
  have unqueried : querySlice (':' :: skip ++ (rest ++ ['#'])) = [] := by
    rw [querySlice, ← List.append_assoc, Cut.after?_append mark]
    rfl
  have queried : querySlice (':' :: skip ++ (rest ++ '#' :: ['?', 'x'])) = ['x'] := by
    have text
        : ':' :: skip ++ (rest ++ '#' :: ['?', 'x'])
          = (':' :: skip ++ rest ++ ['#']) ++ '?' :: ['x'] := by
      simp
    have mark : '?' ∉ ':' :: skip ++ rest ++ ['#'] := by
      rw [List.mem_append, not_or]
      exact ⟨mark, by decide⟩
    rw [text, querySlice, Cut.after?_append_cons mark, Cut.before_append_cons mark]
    simp
  intro same
  rw [h.parse_hash, h.parse_hash, untrimmed, queried] at same
  have built := (Prod.mk.inj (Except.ok.inj same)).2
  have queries
      : SortedMap.ofPairs (parameters (querySlice (':' :: skip ++ (rest ++ ['#']))))
        = SortedMap.ofPairs (parameters ['x']) :=
    congrArg Builder.encodedQueryNamesAndValues built
  rw [unqueried] at queries
  revert queries
  decide

end

/-- The fragment influences no other component exactly if the first question mark is in its
place behind the scheme and what is skipped with it; without any question mark, fragments
with none are read alike too.
-/
theorem fragment_isolated_iff {url : Text} {b parsed : Builder}
    (accepted : b.parse url = .ok (true, parsed)) (noFragment : '#' ∉ url)
    : ((∀ first second,
          unfragmented (b.parse (url ++ '#' :: first))
          = unfragmented (b.parse (url ++ '#' :: second)))
        ↔ QueryBehind url)
      ∧ ('?' ∉ url
        → ∀ first second, '?' ∉ first → '?' ∉ second →
            unfragmented (b.parse (url ++ '#' :: first))
            = unfragmented (b.parse (url ++ '#' :: second))) := by
  obtain ⟨scheme, skip, rest, h⟩ := (parse_eq_true_iff.mp accepted).1.exists_cut
  constructor
  · constructor
    · intro isolated
      rw [h.queryBehind_iff]
      have skipMark : '?' ∉ ':' :: skip :=
        fun early => h.differ_of_skipped early b (isolated _ _)
      refine ⟨skipMark, ?_⟩
      by_contra restMark
      exact h.differ_of_markless skipMark restMark b (isolated _ _)
    · exact fun behind first second => h.same_of_queryBehind noFragment behind first second b
  · intro noQuery first second firstMark secondMark
    exact h.same_of_markless noFragment noQuery firstMark secondMark b

/-- A text with a query in its place. -/
theorem fragment_isolated_iff_query
    : unfragmented (Builder.cleared.parse ("http://h/a?n=1".toList ++ ['#']))
      = unfragmented (Builder.cleared.parse ("http://h/a?n=1".toList ++ "#?n=2".toList)) := by
  have accepted
      : Builder.cleared.parse "http://h/a?n=1".toList
        = .ok (true, (Slices.of "http://h/a?n=1".toList).builder) := by
    decide +kernel
  exact (fragment_isolated_iff accepted (by decide)).1.mpr (by decide +kernel) [] "?n=2".toList

/-- A question mark in the fragment ends the path and starts a query. -/
theorem fragment_read_as_query
    : ¬∀ (url first second : Text) (b parsed : Builder),
        b.parse url = .ok (true, parsed)
        → '#' ∉ url
        → unfragmented (b.parse (url ++ '#' :: first))
          = unfragmented (b.parse (url ++ '#' :: second)) := by
  intro claim
  have accepted
      : Builder.cleared.parse "http://h/a".toList
        = .ok (true, (Slices.of "http://h/a".toList).builder) := by
    decide +kernel
  have same := claim "http://h/a".toList [] "?n=1".toList .cleared _ accepted (by decide)
  revert same
  decide +kernel

-----------------------------------------------------------------------------------------
-- The path
-----------------------------------------------------------------------------------------

/-- No delimiter that ends host and path, and no blank that is trimmed. -/
def Unbroken (s : Text) : Prop := ∀ char ∈ '?' :: '#' :: blanks, char ∉ s

/-- The builders go to the same place. -/
def SameTarget (first second : Builder) : Prop :=
  first.scheme = second.scheme ∧ first.host = second.host ∧ first.port = second.port

/-- What is read of a text without query and fragment. -/
theorem parse_unbroken {scheme authority path : Text} (known : KnownScheme scheme)
    (slash : ∃ rest, path = '/' :: rest) (unbroken : Unbroken (authority ++ path))
    (b : Builder)
    : ∃ parsed,
        b.parse (urlText scheme (authority ++ path)) = .ok (true, parsed)
        ∧ parsed.scheme = scheme.map Char.toLower
        ∧ parsed.host = hostSlice (authority ++ path)
        ∧ parsed.port
          = portNumber (scheme.map Char.toLower) (portSlice (authority ++ path)) := by
  obtain ⟨rest, starts⟩ := slash
  have long : 7 < (urlText scheme (authority ++ path)).length := by
    have length := known.length
    simp only [urlText, starts, List.length_append, List.length_cons]
    omega
  have untrimmed : trimmedEnd (authority ++ path) = authority ++ path := by
    apply trimmedEnd_of_blankless
    intro char blank
    exact unbroken char (List.mem_cons_of_mem _ (List.mem_cons_of_mem _ blank))
  have hostPath : hostPathSlice [] (authority ++ path) = authority ++ path := by
    rw [hostPathSlice, if_neg List.not_mem_nil, if_neg (unbroken '?' (by decide)),
      if_neg List.not_mem_nil, Cut.before_of_not_mem (unbroken '#' (by decide))]
  refine ⟨_, (parse_urlText_iff known long).mpr ⟨?_, rfl⟩, rfl, ?_, ?_⟩
  · rw [untrimmed, hostPath, starts]
    simp
  · rw [untrimmed]
    simp only [Slices.builder, restSlices, hostPath]
  · rw [untrimmed]
    simp only [Slices.builder, restSlices, hostPath]

/-- A colon in the authority ends the host, and the first slash behind it the port. -/
theorem target_of_colon {authority : Text} (colon : ':' ∈ authority)
    (slashless : '/' ∉ authority) (rest : Text)
    : hostSlice (authority ++ '/' :: rest) = before ':' authority
      ∧ portSlice (authority ++ '/' :: rest) = (after? ':' authority).getD [] := by
  obtain ⟨host, port, rfl, absent⟩ := List.eq_append_cons_of_mem colon
  simp only [List.mem_append, List.mem_cons, not_or] at slashless
  rw [hostSlice, if_pos (List.mem_append_left _ colon), portSlice, List.append_assoc,
    List.cons_append, Cut.before_append_cons absent, Cut.before_append_cons absent,
    Cut.after?_append_cons absent, Cut.after?_append_cons absent]
  refine ⟨rfl, ?_⟩
  simp only [slashless.1, if_false]
  exact Cut.before_append_cons slashless.2.2 rest

/-- Without a colon in the authority the first colon of the path ends the host, and what is
behind it is the port.
-/
theorem target_of_path {authority front : Text} (colonless : ':' ∉ authority)
    (absent : ':' ∉ front) (slash : '/' ∈ front) (behind : Text)
    : hostSlice (authority ++ (front ++ ':' :: behind)) = authority ++ front
      ∧ portSlice (authority ++ (front ++ ':' :: behind)) = behind := by
  have host : ':' ∉ authority ++ front := by simp [colonless, absent]
  rw [← List.append_assoc, hostSlice, if_pos (by simp), portSlice,
    Cut.before_append_cons host, Cut.after?_append_cons host]
  exact ⟨rfl, if_pos (List.mem_append_right _ slash)⟩

/-- Without any colon the first slash ends the host. -/
theorem target_of_colonless {authority rest : Text} (slashless : '/' ∉ authority)
    (colonless : ':' ∉ authority ++ '/' :: rest)
    : hostSlice (authority ++ '/' :: rest) = authority
      ∧ portSlice (authority ++ '/' :: rest) = [] := by
  rw [hostSlice, if_neg colonless, portSlice, Cut.after?_of_not_mem colonless,
    Cut.before_append_cons slashless]
  exact ⟨rfl, rfl⟩

/-- A path with a colon has a slash in front of it. -/
theorem exists_colon {path : Text} (slash : ∃ rest, path = '/' :: rest) (colon : ':' ∈ path)
    : ∃ front behind, path = front ++ ':' :: behind ∧ ':' ∉ front ∧ '/' ∈ front := by
  obtain ⟨rest, rfl⟩ := slash
  obtain ⟨front, behind, split, absent⟩ := List.eq_append_cons_of_mem colon
  cases front with
  | nil =>
      have first := (List.cons.inj split).1
      contradiction
  | cons first others =>
      have first := (List.cons.inj split).1
      exact ⟨_, behind, split, absent, first ▸ List.mem_cons_self⟩

/-- A colon in one path alone makes that path a part of the host. -/
theorem host_apart {authority first second : Text} (colonless : ':' ∉ authority)
    (slashless : '/' ∉ authority) (slash : ∃ rest, first = '/' :: rest)
    (slash' : ∃ rest, second = '/' :: rest) (colon : ':' ∈ first) (other : ':' ∉ second)
    : hostSlice (authority ++ first) ≠ hostSlice (authority ++ second) := by
  obtain ⟨front, behind, split, absent, inside⟩ := exists_colon slash colon
  obtain ⟨rest, starts⟩ := slash'
  have none : ':' ∉ authority ++ '/' :: rest := by
    rw [← starts, List.mem_append, not_or]
    exact ⟨colonless, other⟩
  rw [split, starts, (target_of_path colonless absent inside behind).1,
    (target_of_colonless slashless none).1]
  intro same
  rw [List.append_right_eq_self] at same
  rw [same] at inside
  contradiction

/-- Two paths are cut at their first colons in the same way exactly if they agree up to these
and behind them.
-/
theorem cut_alike_iff {front front' behind behind' : Text} (absent : ':' ∉ front)
    (absent' : ':' ∉ front') (alike : Text → Text → Prop)
    : (∃ shared text text',
        ':' ∉ shared
        ∧ front ++ ':' :: behind = shared ++ ':' :: text
        ∧ front' ++ ':' :: behind' = shared ++ ':' :: text'
        ∧ alike text text')
      ↔ front = front' ∧ alike behind behind' := by
  constructor
  · intro cut
    rcases cut with ⟨shared, text, text', free, split, split', same⟩
    obtain ⟨rfl, rfl⟩ := Cut.append_cons_inj absent free split
    obtain ⟨rfl, rfl⟩ := Cut.append_cons_inj absent' free split'
    exact ⟨rfl, same⟩
  · intro held
    rcases held with ⟨rfl, same⟩
    exact ⟨front, behind, behind', absent, rfl, rfl, same⟩

section

variable {scheme authority first second : Text} (slashless : '/' ∉ authority)
    (slashes : (∃ rest, first = '/' :: rest) ∧ ∃ rest, second = '/' :: rest)

include slashless slashes

/-- Without a colon in the authority, the paths' own colons end host and port; the cases are
which of the paths have one.
-/
theorem targets_iff_of_colonless (colonless : ':' ∉ authority)
    : (hostSlice (authority ++ first) = hostSlice (authority ++ second)
        ∧ portNumber scheme (portSlice (authority ++ first))
          = portNumber scheme (portSlice (authority ++ second)))
      ↔ (':' ∉ first ∧ ':' ∉ second)
        ∨ ∃ front behind behind',
            ':' ∉ front
            ∧ first = front ++ ':' :: behind
            ∧ second = front ++ ':' :: behind'
            ∧ portNumber scheme behind = portNumber scheme behind' := by
  by_cases colon : ':' ∈ first
  · by_cases colon' : ':' ∈ second
    · obtain ⟨front, behind, rfl, absent, inside⟩ := exists_colon slashes.1 colon
      obtain ⟨front', behind', rfl, absent', inside'⟩ := exists_colon slashes.2 colon'
      have target := target_of_path colonless absent inside behind
      have target' := target_of_path colonless absent' inside' behind'
      have cut := @cut_alike_iff front front' behind behind' absent absent'
        (fun text text' => portNumber scheme text = portNumber scheme text')
      rw [target.1, target'.1, target.2, target'.2, cut, List.append_right_inj]
      simp [colon]
    · have apart := host_apart colonless slashless slashes.1 slashes.2 colon colon'
      apply iff_of_false (fun held => apart held.1)
      rintro (⟨none, _⟩ | ⟨_, _, _, _, _, split', _⟩)
      · exact none colon
      · exact colon' (by simp [split'])
  · by_cases colon' : ':' ∈ second
    · have apart := host_apart colonless slashless slashes.2 slashes.1 colon' colon
      apply iff_of_false (fun held => apart held.1.symm)
      rintro (⟨_, none⟩ | ⟨_, _, _, _, split, _, _⟩)
      · exact none colon'
      · exact colon (by simp [split])
    · obtain ⟨⟨rest, rfl⟩, rest', rfl⟩ := slashes
      have target := target_of_colonless slashless
        (List.not_mem_append colonless colon)
      have target' := target_of_colonless slashless
        (List.not_mem_append colonless colon')
      rw [target.1, target'.1, target.2, target'.2]
      exact iff_of_true ⟨rfl, rfl⟩ (Or.inl ⟨colon, colon'⟩)

/-- Where two paths behind one authority lead to the same host and port. -/
theorem targets_iff
    : (hostSlice (authority ++ first) = hostSlice (authority ++ second)
        ∧ portNumber scheme (portSlice (authority ++ first))
          = portNumber scheme (portSlice (authority ++ second)))
      ↔ ':' ∈ authority
        ∨ (':' ∉ first ∧ ':' ∉ second)
        ∨ ∃ front behind behind',
            ':' ∉ front
            ∧ first = front ++ ':' :: behind
            ∧ second = front ++ ':' :: behind'
            ∧ portNumber scheme behind = portNumber scheme behind' := by
  by_cases colon : ':' ∈ authority
  · obtain ⟨⟨rest, rfl⟩, rest', rfl⟩ := slashes
    have target := target_of_colon colon slashless
    rw [(target rest).1, (target rest').1, (target rest).2, (target rest').2]
    exact iff_of_true ⟨rfl, rfl⟩ (Or.inl colon)
  · rw [targets_iff_of_colonless slashless slashes colon]
    exact (or_iff_right colon).symm

end

/-- Both texts are accepted. They lead to the same place exactly if the authority has a
colon, or neither path has one, or the paths agree up to their first colons and what is
behind these denotes the same port.
-/
theorem path_isolated_iff {scheme authority first second : Text} (known : KnownScheme scheme)
    (slashless : '/' ∉ authority) (unbroken : Unbroken authority)
    (slashes : (∃ rest, first = '/' :: rest) ∧ ∃ rest, second = '/' :: rest)
    (paths : Unbroken first ∧ Unbroken second) (b : Builder)
    : ∃ parsed parsed',
        b.parse (urlText scheme (authority ++ first)) = .ok (true, parsed)
        ∧ b.parse (urlText scheme (authority ++ second)) = .ok (true, parsed')
        ∧ (SameTarget parsed parsed'
          ↔ ':' ∈ authority
            ∨ (':' ∉ first ∧ ':' ∉ second)
            ∨ ∃ front behind behind',
                ':' ∉ front
                ∧ first = front ++ ':' :: behind
                ∧ second = front ++ ':' :: behind'
                ∧ portNumber (scheme.map Char.toLower) behind
                  = portNumber (scheme.map Char.toLower) behind') := by
  have whole : ∀ path, Unbroken path → Unbroken (authority ++ path) := by
    intro path plain char delimiter
    rw [List.mem_append, not_or]
    exact ⟨unbroken char delimiter, plain char delimiter⟩
  obtain ⟨parsed, accepted, scheme1, host1, port1⟩ :=
    parse_unbroken known slashes.1 (whole first paths.1) b
  obtain ⟨parsed', accepted', scheme2, host2, port2⟩ :=
    parse_unbroken known slashes.2 (whole second paths.2) b
  refine ⟨parsed, parsed', accepted, accepted', ?_⟩
  rw [← targets_iff slashless slashes, SameTarget, scheme1, scheme2, host1, host2, port1, port2]
  simp

/-- A port is given, so a colon in the path does no harm. -/
theorem path_isolated_iff_port
    : ∃ parsed parsed',
        Builder.cleared.parse "Http://h:81/a".toList = .ok (true, parsed)
        ∧ Builder.cleared.parse "Http://h:81/b:99".toList = .ok (true, parsed')
        ∧ SameTarget parsed parsed' := by
  obtain ⟨parsed, parsed', accepted, accepted', same⟩ :=
    @path_isolated_iff "Http".toList "h:81".toList "/a".toList "/b:99".toList
      (Or.inl (by decide)) (by decide) (forall_mem_of_all (by decide))
      ⟨⟨_, rfl⟩, ⟨_, rfl⟩⟩
      ⟨forall_mem_of_all (by decide), forall_mem_of_all (by decide)⟩ .cleared
  exact ⟨parsed, parsed', accepted, accepted', same.mpr (Or.inl (by decide))⟩

/-- The first segment becomes a part of the host, and the text behind its colon the port. -/
theorem path_read_as_port
    : ¬∀ (scheme authority first second : Text) (b parsed parsed' : Builder),
        KnownScheme scheme
        → '/' ∉ authority
        → Unbroken authority
        → (':' ∈ authority → before ':' authority ≠ [])
        → ((∃ rest, first = '/' :: rest) ∧ ∃ rest, second = '/' :: rest)
        → Unbroken first ∧ Unbroken second
        → b.parse (urlText scheme (authority ++ first)) = .ok (true, parsed)
        → b.parse (urlText scheme (authority ++ second)) = .ok (true, parsed')
        → SameTarget parsed parsed' := by
  intro claim
  have plain
      : Builder.cleared.parse "http://h/a".toList
        = .ok (true, (Slices.of "http://h/a".toList).builder) := by
    decide +kernel
  have colon
      : Builder.cleared.parse "http://h/a:81".toList
        = .ok (true, (Slices.of "http://h/a:81".toList).builder) := by
    decide +kernel
  have same := claim http ['h'] "/a".toList "/a:81".toList .cleared _ _ (Or.inl (by decide))
    (by decide) (forall_mem_of_all (by decide)) (by decide) ⟨⟨_, rfl⟩, ⟨_, rfl⟩⟩
    ⟨forall_mem_of_all (by decide), forall_mem_of_all (by decide)⟩ plain colon
  have host := same.2.1
  revert host
  decide +kernel

end Nbsdk.Http
