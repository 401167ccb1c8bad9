import Nbsdk.Http.HttpUrl

/-! Where the parser cuts a text, without positions.
The slices of a text are the parts before and after the first delimiters. The parser does
not throw where the scheme and three more characters are there, and then leaves the builder
that the slices describe.
-/

namespace Nbsdk.Http

open Cut (before after?)

/-- The blanks that are trimmed, in the order of the erasures. -/
def blanks : List Char := [' ', '\t', '\n', '\x0c', '\r']

/-- A text after the erasures at its end. -/
def trimmedEnd (url : Text) : Text :=
  blanks.foldl (fun s blank => s.rdropWhile (· = blank)) url

/-- A text after the erasures on both sides. -/
def trimmed (url : Text) : Text :=
  trimmedEnd (blanks.foldl (fun s blank => s.dropWhile (· = blank)) url)

/-- The part with host, port and path behind the first characters. A question mark among
these moves its end out of reach, and so does a hash there if there is no question mark.
-/
def hostPathSlice (first rest : Text) : Text :=
  if '?' ∈ first then rest
  else if '?' ∈ rest then before '?' rest
  else if '#' ∈ first then rest
  else before '#' rest

/-- The host ends at the colon if there is one, also behind a slash. -/
def hostSlice (hostPath : Text) : Text :=
  if ':' ∈ hostPath then before ':' hostPath else before '/' hostPath

/-- The port ends at the first slash, or nowhere if that is part of the host. -/
def portSlice (hostPath : Text) : Text :=
  match after? ':' hostPath with
  | none => []
  | some rest => if '/' ∈ before ':' hostPath then rest else before '/' rest

/-- The path; without a slash it is the whole text. -/
def pathSlice (hostPath : Text) : Text := (after? '/' hostPath).getD hostPath

/-- The query ends at the first hash, or nowhere if that comes before the query. -/
def querySlice (url : Text) : Text :=
  match after? '?' url with
  | none => []
  | some rest => if '#' ∈ before '?' url then rest else before '#' rest

def fragmentSlice (url : Text) : Text := (after? '#' url).getD []

/-- Reads the pieces of a path one after another, with their dots resolved. -/
def resolve (pieces : List Text) : List Text := pieces.foldl Builder.push []

/-- A parameter's name and value around the first equals sign. -/
def parameter (piece : Text) : Text × Text := (before '=' piece, (after? '=' piece).getD [])

/-- The parameters of a query that have a name. -/
def parameters (query : Text) : List (Text × Text) :=
  ((query.splitOn '&').map parameter).filter (fun pair => pair.1 ≠ [])

/-- The port that a port text denotes; without a text the scheme's own. -/
def portNumber (scheme portText : Text) : Int :=
  if portText = [] then defaultPort scheme else atoi portText

/-- The texts that are cut out of a text. -/
structure Slices where
  scheme : Text
  host : Text
  portText : Text
  path : Text
  query : Text
  fragment : Text
  deriving DecidableEq, Repr

/-- The scheme of a text, in lower case. -/
def schemeSlice (url : Text) : Text := (before ':' url).map Char.toLower

/-- The host and path of a text, three characters behind its scheme. -/
def hostPathOf (url : Text) : Text :=
  hostPathSlice (url.take ((schemeSlice url).length + 3))
    (url.drop ((schemeSlice url).length + 3))

def Slices.of (url : Text) : Slices where
  scheme := schemeSlice url
  host := hostSlice (hostPathOf url)
  portText := portSlice (hostPathOf url)
  path := pathSlice (hostPathOf url)
  query := querySlice url
  fragment := fragmentSlice url

/-- What the slices describe. -/
def Slices.builder (s : Slices) : Builder where
  scheme := s.scheme
  host := s.host
  port := portNumber s.scheme s.portText
  encodedPathSegments := resolve (s.path.splitOn '/')
  encodedQueryNamesAndValues := .ofPairs (parameters s.query)
  encodedFragment := s.fragment

/-- The erasures do not throw. -/
theorem trim_eq (url : Text) : Builder.trim url = .ok (trimmed url) := by
  simp only [Builder.trim, erase_front, erase_back, Fallible.ok_bind, trimmed, trimmedEnd,
    blanks, List.foldl_cons, List.foldl_nil]

/-- A delimiter in the first part is found there. -/
theorem find_append_of_mem {delimiter : Char} {first : Text} (present : delimiter ∈ first)
    (rest : Text)
    : ∃ position, find delimiter (first ++ rest) = some position
        ∧ position < first.length := by
  obtain ⟨front, others, rfl, absent⟩ := List.eq_append_cons_of_mem present
  refine ⟨front.length, ?_, by simp⟩
  rw [List.append_assoc, List.cons_append, find_append_cons absent]

/-- A delimiter that is not in the first part is found behind it. -/
theorem find_append_of_not_mem {delimiter : Char} {first : Text}
    (absent : delimiter ∉ first) (rest : Text)
    : find delimiter (first ++ rest)
      = (find delimiter rest).map (fun position => first.length + position) := by
  by_cases present : delimiter ∈ rest
  · obtain ⟨front, others, rfl, absent'⟩ := List.eq_append_cons_of_mem present
    rw [find_append_cons absent', ← List.append_assoc, find_append_cons]
    · simp
    · simp [absent, absent']
  · rw [find_of_not_mem present, find_of_not_mem]
    · rfl
    · simp [absent, present]

/-- A count up to a position in the first part wraps, so it cuts nothing off. -/
theorem minus_of_lt {position start : Nat} (early : position < start)
    : minus position start = none := by
  rw [minus, if_neg (Nat.not_le.mpr early)]

@[simp] theorem minus_add (position start : Nat)
    : minus (start + position) start = some position := by
  rw [minus, if_pos (Nat.le_add_right ..), Nat.add_sub_cancel_left]

/-- The part with host and path is the slice, by where the delimiters are. -/
theorem hostPath_eq {scheme first rest : Text} (skipped : first.length = scheme.length + 3)
    : Builder.hostPath scheme (first ++ rest) = .ok (hostPathSlice first rest) := by
  rw [Builder.hostPath, ← skipped]
  simp only [substr_append, Except.ok.injEq, hostPathSlice]
  by_cases marked : '?' ∈ first
  · obtain ⟨position, found, early⟩ := find_append_of_mem marked rest
    rw [if_pos marked, found]
    simp only [minus_of_lt early]
    rfl
  · rw [if_neg marked, find_append_of_not_mem marked]
    by_cases marked' : '?' ∈ rest
    · rw [if_pos marked', ← truncate_find]
      obtain ⟨front, others, rfl, absent⟩ := List.eq_append_cons_of_mem marked'
      simp [find_append_cons absent]
    · rw [if_neg marked', find_of_not_mem marked', Option.map_none]
      by_cases hashed : '#' ∈ first
      · obtain ⟨position, found, early⟩ := find_append_of_mem hashed rest
        rw [if_pos hashed, found]
        simp only [minus_of_lt early]
        rfl
      · rw [if_neg hashed, find_append_of_not_mem hashed, ← truncate_find]
        by_cases hashed' : '#' ∈ rest
        · obtain ⟨front, others, rfl, absent⟩ := List.eq_append_cons_of_mem hashed'
          simp [find_append_cons absent]
        · simp [find_of_not_mem hashed', truncate]

/-- The substring between a delimiter and the first stop is the part before the stop; if
the stop comes before the delimiter, the count wraps and nothing is cut off.
-/
theorem substr_between {delimiter stop : Char} (apart : stop ≠ delimiter) (front rest : Text)
    : (match find stop (front ++ delimiter :: rest) with
        | none => substr (front ++ delimiter :: rest) (front.length + 1) none
        | some position =>
            substr (front ++ delimiter :: rest) (front.length + 1)
              (minus position (front.length + 1)))
      = .ok (if stop ∈ front then rest else before stop rest) := by
  by_cases early : stop ∈ front
  · obtain ⟨position, found, inside⟩ := find_append_of_mem early (delimiter :: rest)
    rw [if_pos early, found]
    simp only [minus_of_lt (Nat.lt_succ_of_lt inside), substr_append_cons]
    rfl
  · have split : front ++ delimiter :: rest = (front ++ [delimiter]) ++ rest := by simp
    have absent : stop ∉ front ++ [delimiter] := by simp [early, apart]
    have length : (front ++ [delimiter]).length = front.length + 1 := by simp
    rw [if_neg early, ← truncate_find, split, find_append_of_not_mem absent, length]
    cases find stop rest with
    | none => simpa using substr_append (front ++ [delimiter]) rest none
    | some position =>
        simp only [Option.map_some, minus_add]
        simpa using substr_append (front ++ [delimiter]) rest (some position)

/-- The port text is the slice. -/
theorem portText_eq {host rest : Text} (absent : ':' ∉ host)
    : Builder.portText (host ++ ':' :: rest) host.length
      = .ok (portSlice (host ++ ':' :: rest)) := by
  rw [portSlice, Cut.after?_append_cons absent, Cut.before_append_cons absent]
  exact substr_between (by decide) host rest

/-- Host and port are as the slices say, by whether there is a colon. -/
theorem parseHost_eq (b : Builder) (hostPath : Text)
    : b.parseHost hostPath
      = .ok
        { b with
          host := hostSlice hostPath
          port := portNumber b.scheme (portSlice hostPath) } := by
  rw [Builder.parseHost, hostSlice]
  by_cases colon : ':' ∈ hostPath
  · obtain ⟨host, rest, rfl, absent⟩ := List.eq_append_cons_of_mem colon
    rw [if_pos colon, find_append_cons absent, Cut.before_append_cons absent]
    simp only [substr_zero, truncate_append, Fallible.ok_bind, portText_eq absent]
    simp [portNumber]
  · rw [if_neg colon, find_of_not_mem colon, portSlice, Cut.after?_of_not_mem colon,
      ← truncate_find]
    cases find '/' hostPath with
    | none => rfl
    | some position => simp only [substr_zero, Fallible.ok_bind]; rfl

/-- The path's nonempty tokens are pushed as its pieces, since empty pieces are skipped. -/
theorem foldl_tokens (segments : List Text) (path : Text)
    : (tokens '/' path).foldl
        (fun segments token => if token ≠ [] then Builder.push segments token else segments)
        segments
      = (path.splitOn '/').foldl Builder.push segments := by
  have skips
      : (fun segments token => if token ≠ [] then Builder.push segments token else segments)
        = Builder.push := by
    funext segments token
    by_cases empty : token = []
    · simp [empty, Builder.push]
    · rw [if_pos empty]
  have filtered
      : ∀ pieces : List Text,
          (pieces.filter (· ≠ [])).foldl Builder.push segments
          = pieces.foldl Builder.push segments := by
    intro pieces
    rw [List.foldl_filter]
    conv_rhs => rw [← skips]
    simp
  rw [skips, ← filtered, tokens_filter, filtered]

/-- The path is as the slice says. -/
theorem parsePath_eq {b : Builder} (fresh : b.encodedPathSegments = []) (hostPath : Text)
    : b.parsePath hostPath
      = .ok
        { b with encodedPathSegments := resolve ((pathSlice hostPath).splitOn '/') } := by
  have sliced
      : substr hostPath (plusOne (find '/' hostPath)) none = .ok (pathSlice hostPath) := by
    by_cases slashed : '/' ∈ hostPath
    · obtain ⟨front, rest, rfl, absent⟩ := List.eq_append_cons_of_mem slashed
      rw [find_append_cons absent, pathSlice, Cut.after?_append_cons absent]
      exact substr_append_cons front rest '/' none
    · rw [find_of_not_mem slashed, pathSlice, Cut.after?_of_not_mem slashed]
      exact substr_zero hostPath none
  rw [Builder.parsePath, sliced, Fallible.ok_bind, Except.ok.injEq]
  split
  case isTrue some =>
    rw [Builder.addEncodedPathSegments, if_neg some, foldl_tokens, fresh]
    rfl
  case isFalse none =>
    rw [not_not] at none
    rw [none]
    cases b
    simpa [resolve, Builder.push] using fresh

/-- The query text is the slice. -/
theorem queryText_eq (url : Text) : Builder.queryText url = .ok (querySlice url) := by
  rw [Builder.queryText, querySlice]
  by_cases marked : '?' ∈ url
  · obtain ⟨front, rest, rfl, absent⟩ := List.eq_append_cons_of_mem marked
    rw [find_append_cons absent, Cut.after?_append_cons absent,
      Cut.before_append_cons absent]
    exact substr_between (by decide) front rest
  · rw [find_of_not_mem marked, Cut.after?_of_not_mem marked]

/-- A piece of the query adds its parameter if that has a name. -/
theorem parseParameter_eq (b : Builder) (piece : Text)
    : b.parseParameter piece
      = .ok (b.addEncodedQueryParameter (parameter piece).1 (parameter piece).2) := by
  rw [Builder.parseParameter]
  split
  case isTrue empty =>
    rw [empty]
    rfl
  case isFalse =>
    by_cases equals : '=' ∈ piece
    · obtain ⟨name, value, rfl, absent⟩ := List.eq_append_cons_of_mem equals
      rw [find_append_cons absent]
      simp only [substr_zero, truncate_append, substr_append_cons, Fallible.ok_bind, parameter,
        Cut.before_append_cons absent, Cut.after?_append_cons absent]
      rfl
    · rw [find_of_not_mem equals, parameter, Cut.before_of_not_mem equals,
        Cut.after?_of_not_mem equals]
      rfl

/-- The pieces add their parameters with names, by induction over the pieces. -/
theorem foldlM_parseParameter (b : Builder) (pieces : List Text)
    : pieces.foldlM Builder.parseParameter b
      = .ok
        { b with
          encodedQueryNamesAndValues :=
            ((pieces.map parameter).filter (fun pair => pair.1 ≠ [])).foldl
              SortedMap.addPair b.encodedQueryNamesAndValues } := by
  induction pieces generalizing b with
  | nil => rfl
  | cons piece rest ih =>
      rw [List.foldlM_cons, parseParameter_eq, Fallible.ok_bind, ih,
        Builder.addEncodedQueryParameter]
      split
      case isTrue unnamed => simp [unnamed]
      case isFalse named => simp [named]

/-- The named parameters of the tokens are those of the pieces, since an empty piece has an
empty name.
-/
theorem named_tokens (query : Text)
    : ((tokens '&' query).map parameter).filter (fun pair => pair.1 ≠ [])
      = parameters query := by
  have filtered
      : ∀ pieces : List Text,
          ((pieces.filter (· ≠ [])).map parameter).filter (fun pair => pair.1 ≠ [])
          = (pieces.map parameter).filter (fun pair => pair.1 ≠ []) := by
    intro pieces
    induction pieces with
    | nil => rfl
    | cons piece rest ih =>
        by_cases empty : piece = []
        · subst empty
          simpa [parameter, Cut.before] using ih
        · rw [List.filter_cons_of_pos (by simpa using empty), List.map_cons, List.map_cons,
            List.filter_cons, List.filter_cons, ih]
  rw [parameters, ← filtered, tokens_filter, filtered]

/-- The query is as the slice says. -/
theorem parseQuery_eq {b : Builder} (fresh : b.encodedQueryNamesAndValues = .empty)
    (url : Text)
    : b.parseQuery url
      = .ok
        { b with
          encodedQueryNamesAndValues := .ofPairs (parameters (querySlice url)) } := by
  rw [Builder.parseQuery, queryText_eq, Fallible.ok_bind]
  split
  case isTrue empty =>
    rw [empty]
    cases b
    simpa [parameters, parameter, Cut.before, SortedMap.ofPairs] using fresh
  case isFalse =>
    rw [foldlM_parseParameter, fresh, named_tokens]
    rfl

/-- The fragment is as the slice says. -/
theorem parseFragment_eq {b : Builder} (fresh : b.encodedFragment = []) (url : Text)
    : b.parseFragment url = .ok { b with encodedFragment := fragmentSlice url } := by
  rw [Builder.parseFragment, fragmentSlice]
  by_cases hashed : '#' ∈ url
  · obtain ⟨front, rest, rfl, absent⟩ := List.eq_append_cons_of_mem hashed
    rw [find_append_cons absent, Cut.after?_append_cons absent]
    simp only [substr_append_cons, Fallible.ok_bind, Builder.addEncodedFragment, truncate,
      Option.getD_some]
    split
    case isTrue empty => rw [empty, ← fresh]
    case isFalse => rfl
  · rw [find_of_not_mem hashed, Cut.after?_of_not_mem hashed, Option.getD_none, ← fresh]

/-- Behind the scheme the parser throws where three characters are missing, rejects a text
without host and path, and otherwise leaves what the slices describe.
-/
theorem parseComponents_eq (url : Text)
    : Builder.parseComponents { Builder.cleared with scheme := schemeSlice url } url
      = if url.length < (schemeSlice url).length + 3 then .error .outOfRange
        else if hostPathOf url = [] then
          .ok (false, { Builder.cleared with scheme := schemeSlice url })
        else .ok (true, (Slices.of url).builder) := by
  have split := List.take_append_drop ((schemeSlice url).length + 3) url
  rw [Builder.parseComponents]
  split
  case isTrue short =>
    rw [Builder.hostPath, substr, if_neg (by simpa using short)]
    rfl
  case isFalse long =>
    have skipped
        : (url.take ((schemeSlice url).length + 3)).length = (schemeSlice url).length + 3 := by
      rw [List.length_take]
      omega
    have sliced
        : Builder.hostPath (schemeSlice url)
            (url.take ((schemeSlice url).length + 3)
              ++ url.drop ((schemeSlice url).length + 3))
          = .ok (hostPathOf url) :=
      hostPath_eq skipped
    rw [split] at sliced
    simp only [sliced, Fallible.ok_bind]
    by_cases empty : hostPathOf url = []
    · rw [if_pos empty, if_pos empty]
    · rw [if_neg empty, if_neg empty, parseHost_eq, Fallible.ok_bind, parsePath_eq rfl,
        Fallible.ok_bind, parseQuery_eq rfl, Fallible.ok_bind, parseFragment_eq rfl,
        Fallible.ok_bind]
      rfl

/-- The parser in terms of slices. -/
theorem parse_eq (b : Builder) (url : Text)
    : b.parse url
      = if url.length ≤ 7 then .ok (false, b)
        else if schemeSlice (trimmed url) = http ∨ schemeSlice (trimmed url) = https then
          if (trimmed url).length < (schemeSlice (trimmed url)).length + 3 then
            .error .outOfRange
          else if hostPathOf (trimmed url) = [] then
            .ok (false, { Builder.cleared with scheme := schemeSlice (trimmed url) })
          else .ok (true, (Slices.of (trimmed url)).builder)
        else .ok (false, .cleared) := by
  rw [Builder.parse]
  by_cases short : url.length ≤ 7
  · rw [if_pos (Or.inr short), if_pos short]
  · have nonempty : url ≠ [] := by
      intro same
      subst same
      exact short (Nat.zero_le 7)
    rw [if_neg (by simp [nonempty, short]), if_neg short, trim_eq, Fallible.ok_bind,
      substr_zero, Fallible.ok_bind, truncate_find]
    change (if schemeSlice (trimmed url) = http ∨ schemeSlice (trimmed url) = https then _
      else _) = _
    by_cases known : schemeSlice (trimmed url) = http ∨ schemeSlice (trimmed url) = https
    · rw [if_pos known, if_pos known]
      exact parseComponents_eq (trimmed url)
    · rw [if_neg known, if_neg known]

/-- A text that the parser accepts: it is long enough, its scheme is known, three characters
follow the scheme, and behind them comes a host or a path.
-/
structure Accepted (url : Text) : Prop where
  long : 7 < url.length
  scheme : schemeSlice (trimmed url) = http ∨ schemeSlice (trimmed url) = https
  skipped : (schemeSlice (trimmed url)).length + 3 ≤ (trimmed url).length
  hostPath : hostPathOf (trimmed url) ≠ []

/-- An accepted text leaves the builder that its slices describe. -/
theorem Accepted.parse_eq {url : Text} (h : Accepted url) (b : Builder)
    : b.parse url = .ok (true, (Slices.of (trimmed url)).builder) := by
  rw [Http.parse_eq, if_neg (Nat.not_le.mpr h.long), if_pos h.scheme,
    if_neg (Nat.not_lt.mpr h.skipped), if_neg h.hostPath]

/-- The ways in which the parser ends: it does not look at a short text, it finds no known
scheme, it throws where nothing follows the scheme, it finds no host and path, or it accepts.
-/
theorem parse_ends (b : Builder) (url : Text)
    : url.length ≤ 7 ∧ b.parse url = .ok (false, b)
      ∨ ¬(schemeSlice (trimmed url) = http ∨ schemeSlice (trimmed url) = https)
        ∧ 7 < url.length
        ∧ b.parse url = .ok (false, .cleared)
      ∨ (schemeSlice (trimmed url) = http ∨ schemeSlice (trimmed url) = https)
        ∧ 7 < url.length
        ∧ (trimmed url).length < (schemeSlice (trimmed url)).length + 3
        ∧ b.parse url = .error .outOfRange
      ∨ (schemeSlice (trimmed url) = http ∨ schemeSlice (trimmed url) = https)
        ∧ 7 < url.length
        ∧ (schemeSlice (trimmed url)).length + 3 ≤ (trimmed url).length
        ∧ hostPathOf (trimmed url) = []
        ∧ b.parse url
          = .ok (false, { Builder.cleared with scheme := schemeSlice (trimmed url) })
      ∨ Accepted url ∧ b.parse url = .ok (true, (Slices.of (trimmed url)).builder) := by
  by_cases short : url.length ≤ 7
  case pos => exact Or.inl ⟨short, by rw [parse_eq, if_pos short]⟩
  case neg =>
    have long := Nat.not_le.mp short
    by_cases known : schemeSlice (trimmed url) = http ∨ schemeSlice (trimmed url) = https
    case neg =>
      exact Or.inr (Or.inl ⟨known, long, by rw [parse_eq, if_neg short, if_neg known]⟩)
    case pos =>
      by_cases cut : (trimmed url).length < (schemeSlice (trimmed url)).length + 3
      case pos =>
        refine Or.inr (Or.inr (Or.inl ⟨known, long, cut, ?_⟩))
        rw [parse_eq, if_neg short, if_pos known, if_pos cut]
      case neg =>
        have skipped := Nat.not_lt.mp cut
        by_cases none : hostPathOf (trimmed url) = []
        case pos =>
          refine Or.inr (Or.inr (Or.inr (Or.inl ⟨known, long, skipped, none, ?_⟩)))
          rw [parse_eq, if_neg short, if_pos known, if_neg cut, if_pos none]
        case neg =>
          have accepted : Accepted url := ⟨long, known, skipped, none⟩
          exact Or.inr (Or.inr (Or.inr (Or.inr ⟨accepted, accepted.parse_eq b⟩)))

/-- The parser returns true exactly on accepted texts. -/
theorem parse_eq_true_iff {b parsed : Builder} {url : Text}
    : b.parse url = .ok (true, parsed)
      ↔ Accepted url ∧ parsed = (Slices.of (trimmed url)).builder := by
  constructor
  · intro accepted
    rcases parse_ends b url with
      ⟨_, ends⟩ | ⟨_, _, ends⟩ | ⟨_, _, _, ends⟩ | ⟨_, _, _, _, ends⟩ | ⟨held, ends⟩
    case inr.inr.inr.inr =>
      obtain ⟨-, same⟩ := Prod.mk.inj (Except.ok.inj (accepted.symm.trans ends))
      exact ⟨held, same⟩
    all_goals
      rw [ends] at accepted
      simp at accepted
  · intro held
    rcases held with ⟨accepted, rfl⟩
    exact accepted.parse_eq b

end Nbsdk.Http
