import Nbsdk.Lib.Runs
import Nbsdk.Http.Slices

/-! Texts of the form scheme://rest, in terms of the rest.
The scheme and its three characters hold no delimiter, so every later search is one in the
rest.
-/

namespace Nbsdk.Http

open Cut (before after?)
open Runs (strip)

/-- A text with this scheme. -/
def urlText (scheme rest : Text) : Text := scheme ++ [':', '/', '/'] ++ rest

/-- The slices of such a text, with the scheme in lower case. -/
def restSlices (scheme rest : Text) : Slices where
  scheme := scheme
  host := hostSlice (hostPathSlice [] rest)
  portText := portSlice (hostPathSlice [] rest)
  path := pathSlice (hostPathSlice [] rest)
  query := querySlice rest
  fragment := fragmentSlice rest

/-- Marks in front do not show where there are none. -/
theorem hostPathSlice_append {front : Text} (plain : '?' ∉ front ∧ '#' ∉ front)
    (first rest : Text)
    : hostPathSlice (front ++ first) rest = hostPathSlice first rest := by
  simp [hostPathSlice, plain]

theorem querySlice_append {front : Text} (plain : '?' ∉ front ∧ '#' ∉ front) (rest : Text)
    : querySlice (front ++ rest) = querySlice rest := by
  rw [querySlice, Cut.after?_append plain.1, Cut.before_append plain.1, querySlice]
  simp only [List.mem_append, plain.2, false_or]

/-- The spelling of a scheme that the parser knows. -/
def KnownScheme (scheme : Text) : Prop :=
  scheme.map Char.toLower = http ∨ scheme.map Char.toLower = https

/-- A character that is in no known scheme, by its lower case. -/
theorem KnownScheme.not_mem {scheme : Text} (known : KnownScheme scheme) {char : Char}
    (foreign : char.toLower ∉ http ++ https)
    : char ∉ scheme := by
  intro member
  have lower : char.toLower ∈ scheme.map Char.toLower := List.mem_map.mpr ⟨char, member, rfl⟩
  rw [List.mem_append, not_or] at foreign
  rcases known with plain | secure
  · exact foreign.1 (plain ▸ lower)
  · exact foreign.2 (secure ▸ lower)

/-- A delimiter that is not a colon or a slash is not in front of the rest. -/
theorem KnownScheme.not_mem_front {scheme : Text} (known : KnownScheme scheme) {char : Char}
    (foreign : char.toLower ∉ http ++ https) (other : char ∉ [':', '/', '/'])
    : char ∉ scheme ++ [':', '/', '/'] := by
  rw [List.mem_append, not_or]
  exact ⟨known.not_mem foreign, other⟩

theorem KnownScheme.length {scheme : Text} (known : KnownScheme scheme)
    : 4 ≤ scheme.length := by
  rw [← List.length_map Char.toLower]
  rcases known with plain | secure
  · rw [plain]
    decide
  · rw [secure]
    decide

/-- No blank is part of a known scheme. -/
theorem KnownScheme.visible {scheme : Text} (known : KnownScheme scheme) {char : Char}
    (member : char ∈ scheme)
    : char ∉ blanks := by
  have foreign : ∀ char ∈ blanks, char.toLower ∉ http ++ https :=
    forall_mem_of_all (by decide)
  exact fun blank => known.not_mem (foreign char blank) member

theorem KnownScheme.colonless {scheme : Text} (known : KnownScheme scheme) : ':' ∉ scheme :=
  known.not_mem (by decide)

theorem KnownScheme.exists_cons {scheme : Text} (known : KnownScheme scheme)
    : ∃ first others, scheme = first :: others := by
  cases scheme with
  | nil => exact absurd known.length (by decide)
  | cons first others => exact ⟨first, others, rfl⟩

section

variable {scheme : Text} (known : KnownScheme scheme) (rest : Text)

include known

theorem schemeSlice_urlText
    : schemeSlice (urlText scheme rest) = scheme.map Char.toLower := by
  have text : urlText scheme rest = scheme ++ ':' :: ('/' :: '/' :: rest) := by
    simp [urlText]
  rw [schemeSlice, text, Cut.before_append_cons known.colonless]

/-- The part with host and path is that of the rest alone. -/
theorem hostPathOf_urlText : hostPathOf (urlText scheme rest) = hostPathSlice [] rest := by
  have front : (scheme ++ [':', '/', '/']).length = scheme.length + 3 := by simp
  rw [hostPathOf, schemeSlice_urlText known, List.length_map, urlText, ← front,
    List.take_left, List.drop_left, hostPathSlice,
    if_neg (known.not_mem_front (by decide) (by decide)),
    if_neg (known.not_mem_front (by decide) (by decide))]
  simp [hostPathSlice]

theorem querySlice_urlText : querySlice (urlText scheme rest) = querySlice rest :=
  querySlice_append
    ⟨known.not_mem_front (by decide) (by decide), known.not_mem_front (by decide) (by decide)⟩
    rest

theorem fragmentSlice_urlText
    : fragmentSlice (urlText scheme rest) = fragmentSlice rest := by
  rw [fragmentSlice, urlText, Cut.after?_append (known.not_mem_front (by decide) (by decide)),
    fragmentSlice]

/-- The slices of a text with a known scheme are cut from the rest. -/
theorem slices_urlText
    : Slices.of (urlText scheme rest) = restSlices (scheme.map Char.toLower) rest := by
  rw [Slices.of, schemeSlice_urlText known, hostPathOf_urlText known,
    querySlice_urlText known, fragmentSlice_urlText known, restSlices]

end

-----------------------------------------------------------------------------------------
-- Texts that go on
-----------------------------------------------------------------------------------------

/-- A path goes on to the end of the text. -/
theorem pathSlice_append {ending : Text} (slashless : '/' ∉ ending) (hostPath : Text)
    : pathSlice (hostPath ++ ending) = pathSlice hostPath ++ ending := by
  by_cases slashed : '/' ∈ hostPath
  · obtain ⟨front, path, rfl, absent⟩ := List.eq_append_cons_of_mem slashed
    rw [pathSlice, pathSlice, List.append_assoc, List.cons_append,
      Cut.after?_append_cons absent, Cut.after?_append_cons absent]
    rfl
  · rw [pathSlice, pathSlice, Cut.after?_of_not_mem slashed,
      Cut.after?_of_not_mem (List.not_mem_append slashed slashless)]
    rfl

/-- A path that goes on with more than dots has a last segment that ends so. -/
theorem resolve_append {ending : Text} (slashless : '/' ∉ ending)
    (undotted : ∃ char ∈ ending, char ≠ '.') (path : Text)
    : ∃ init last,
        path.splitOn '/' = init ++ [last]
        ∧ resolve ((path ++ ending).splitOn '/') = resolve init ++ [last ++ ending] := by
  obtain ⟨init, last, pieces, longer⟩ := Cut.splitOn_append slashless path
  obtain ⟨char, inside, other⟩ := undotted
  have differs : ∀ segment : Text, char ∉ segment → last ++ ending ≠ segment := by
    intro segment absent same
    exact absent (same ▸ List.mem_append_right _ inside)
  refine ⟨init, last, pieces, ?_⟩
  rw [longer, resolve, List.foldl_append, List.foldl_cons, List.foldl_nil, Builder.push,
    if_neg (differs [] List.not_mem_nil), if_neg (differs ['.'] (by simpa using other)),
    if_neg (differs ['.', '.'] (by simpa using other))]
  rfl

/-- The erasures at the end are those in front of the reversed text. -/
theorem trimmedEnd_eq_strip (s : Text) : trimmedEnd s = (strip blanks s.reverse).reverse := by
  have mirrored
      : ∀ (kinds : List Char) (s : Text),
          kinds.foldl (fun s kind => s.rdropWhile (· = kind)) s
          = (strip kinds s.reverse).reverse := by
    intro kinds
    induction kinds with
    | nil => exact fun s => s.reverse_reverse.symm
    | cons kind kinds ih =>
        intro s
        rw [List.foldl_cons, ih, List.rdropWhile, List.reverse_reverse, strip, strip,
          List.foldl_cons]
  exact mirrored blanks s

/-- The end of a text is trimmed behind a character that is no blank. -/
theorem trimmedEnd_behind {last : Char} (visible : last ∉ blanks) (front rest : Text)
    : trimmedEnd (front ++ [last] ++ rest) = front ++ [last] ++ trimmedEnd rest := by
  have mirrored : (front ++ [last] ++ rest).reverse = rest.reverse ++ last :: front.reverse := by
    simp
  rw [trimmedEnd_eq_strip, mirrored, Runs.strip_append_cons visible, trimmedEnd_eq_strip]
  simp

/-- A text that does not end in a blank is not shortened at the end. -/
theorem trimmedEnd_eq_self {s : Text}
    (ends : ∀ char, s.getLast? = some char → char ∉ blanks)
    : trimmedEnd s = s := by
  rcases List.eq_nil_or_concat s with rfl | ⟨front, last, rfl⟩
  · rfl
  · have behind := trimmedEnd_behind (ends last (by simp)) front []
    rw [List.append_nil] at behind
    rw [List.concat_eq_append, behind]
    exact List.append_nil _

/-- What is trimmed at the end is a suffix of blanks. -/
theorem trimmedEnd_append_blanks (s : Text)
    : ∃ cut, s = trimmedEnd s ++ cut ∧ ∀ char ∈ cut, char ∈ blanks := by
  obtain ⟨cut, runs, split⟩ := Runs.exists_inTurn blanks s.reverse
  refine ⟨cut.reverse, ?_, ?_⟩
  · rw [trimmedEnd_eq_strip, ← List.reverse_append, ← split, List.reverse_reverse]
  · intro char member
    exact runs.mem char (List.mem_reverse.mp member)

/-- A trimmed text is a prefix. -/
theorem trimmedEnd_isPrefix (s : Text) : trimmedEnd s <+: s := by
  obtain ⟨cut, split, _⟩ := trimmedEnd_append_blanks s
  exact ⟨cut, split.symm⟩

/-- Trimming keeps every other character. -/
theorem count_trimmedEnd {char : Char} (visible : char ∉ blanks) (s : Text)
    : (trimmedEnd s).count char = s.count char := by
  obtain ⟨cut, split, among⟩ := trimmedEnd_append_blanks s
  have none : cut.count char = 0 :=
    List.count_eq_zero.mpr (fun inside => visible (among char inside))
  conv_rhs => rw [split]
  rw [List.count_append, none, Nat.add_zero]

/-- A text without blanks is not trimmed. -/
theorem trimmedEnd_of_blankless {s : Text} (blankless : ∀ char ∈ blanks, char ∉ s)
    : trimmedEnd s = s := by
  apply trimmedEnd_eq_self
  intro char ends blank
  exact blankless char blank (List.mem_of_getLast? ends)

/-- A text with a known scheme is trimmed at the end of its rest. -/
theorem trimmed_urlText {scheme : Text} (known : KnownScheme scheme) (rest : Text)
    : trimmed (urlText scheme rest) = urlText scheme (trimmedEnd rest) := by
  obtain ⟨first, others, rfl⟩ := known.exists_cons
  have text : urlText (first :: others) rest
      = first :: (others ++ [':', '/']) ++ ['/'] ++ rest := by
    simp [urlText]
  change trimmedEnd (strip blanks (urlText (first :: others) rest)) = _
  rw [text, List.cons_append, List.cons_append,
    Runs.strip_cons (known.visible List.mem_cons_self), ← List.cons_append, ← List.cons_append,
    trimmedEnd_behind (by decide)]
  simp [urlText]

/-- A text with a known scheme is accepted if a host or a path is left of its trimmed
rest.
-/
theorem accepted_urlText {scheme rest : Text} (known : KnownScheme scheme)
    (long : 7 < (urlText scheme rest).length)
    : Accepted (urlText scheme rest) ↔ hostPathSlice [] (trimmedEnd rest) ≠ [] := by
  have hostPath
      : hostPathOf (trimmed (urlText scheme rest)) = hostPathSlice [] (trimmedEnd rest) := by
    rw [trimmed_urlText known, hostPathOf_urlText known]
  constructor
  · intro accepted
    rw [← hostPath]
    exact accepted.hostPath
  · intro some
    refine ⟨long, ?_, ?_, hostPath ▸ some⟩
    · rw [trimmed_urlText known, schemeSlice_urlText known]
      exact known
    · rw [trimmed_urlText known, schemeSlice_urlText known]
      simp only [urlText, List.length_append, List.length_map, List.length_cons,
        List.length_nil]
      omega

/-- The parser leaves what the slices of the trimmed rest describe, and nothing else. -/
theorem parse_urlText_iff {scheme rest : Text} (known : KnownScheme scheme)
    (long : 7 < (urlText scheme rest).length) {b parsed : Builder}
    : b.parse (urlText scheme rest) = .ok (true, parsed)
      ↔ hostPathSlice [] (trimmedEnd rest) ≠ []
        ∧ parsed = (restSlices (scheme.map Char.toLower) (trimmedEnd rest)).builder := by
  rw [parse_eq_true_iff, accepted_urlText known long, trimmed_urlText known,
    slices_urlText known]

/-- A part behind its mark, if it is there. -/
def marked (mark : Char) : Option Text → Text
  | none => []
  | some part => mark :: part

/-- A part that is left out has no mark. -/
theorem marked_ite (mark : Char) (absent : Prop) [Decidable absent] (part : Text)
    : marked mark (if absent then none else some part)
      = if absent then [] else mark :: part := by
  split <;> rfl

/-- The text is trimmed in its last part. -/
theorem trimmedEnd_marked {mark : Char} (visible : mark ∉ blanks) (front part : Text)
    : trimmedEnd (front ++ marked mark (some part))
      = front ++ marked mark (some (trimmedEnd part)) := by
  have behind := trimmedEnd_behind visible front part
  simpa [marked] using behind

/-- Where host and path have no mark and the query no hash, and where no question mark of
the fragment can be taken for the query's, the slices are the parts.
-/
theorem slices_parts {authority : Text} {query? fragment? : Option Text}
    (plain : '?' ∉ authority ∧ '#' ∉ authority)
    (hashless : ∀ query, query? = some query → '#' ∉ query)
    (markless : query? = none → ∀ fragment, fragment? = some fragment → '?' ∉ fragment)
    : hostPathSlice [] (authority ++ marked '?' query? ++ marked '#' fragment?) = authority
      ∧ querySlice (authority ++ marked '?' query? ++ marked '#' fragment?)
        = query?.getD []
      ∧ fragmentSlice (authority ++ marked '?' query? ++ marked '#' fragment?)
        = fragment?.getD [] := by
  cases query? with
  | some query =>
      have hash : '#' ∉ authority ++ '?' :: query := by
        simp [plain.2, hashless query rfl]
      have text : authority ++ '?' :: query ++ marked '#' fragment?
          = authority ++ '?' :: (query ++ marked '#' fragment?) := by
        simp
      refine ⟨?_, ?_, ?_⟩
      · rw [hostPathSlice, if_neg List.not_mem_nil, marked, text, if_pos (by simp),
          Cut.before_append_cons plain.1]
      · rw [marked, text, querySlice, Cut.after?_append_cons plain.1,
          Cut.before_append_cons plain.1]
        simp only [if_neg plain.2]
        rw [Cut.before_append (hashless query rfl)]
        cases fragment? <;> simp [marked, before]
      · rw [fragmentSlice, marked, Cut.after?_append hash]
        cases fragment? <;> simp [marked, after?]
  | none =>
      have mark : '?' ∉ authority ++ marked '#' fragment? := by
        cases fragment? with
        | none => simpa [marked] using plain.1
        | some fragment => simp [marked, plain.1, markless rfl fragment rfl]
      refine ⟨?_, ?_, ?_⟩
      · rw [hostPathSlice, if_neg List.not_mem_nil, marked, List.append_nil, if_neg mark,
          if_neg List.not_mem_nil, Cut.before_append plain.2]
        cases fragment? <;> simp [marked, before]
      · rw [marked, List.append_nil, querySlice, Cut.after?_of_not_mem mark]
        rfl
      · rw [marked, List.append_nil, fragmentSlice, Cut.after?_append plain.2]
        cases fragment? <;> simp [marked, after?]

/-- Without a query, the fragment's question mark ends host and path, and what follows it is
read as the query.
-/
theorem slices_marked_fragment {authority front rest : Text}
    (plain : '?' ∉ authority ∧ '#' ∉ authority) (first : '?' ∉ front)
    : hostPathSlice [] (authority ++ marked '#' (some (front ++ '?' :: rest)))
        = authority ++ '#' :: front
      ∧ querySlice (authority ++ marked '#' (some (front ++ '?' :: rest))) = rest
      ∧ fragmentSlice (authority ++ marked '#' (some (front ++ '?' :: rest)))
        = front ++ '?' :: rest := by
  have text : authority ++ marked '#' (some (front ++ '?' :: rest))
      = (authority ++ '#' :: front) ++ '?' :: rest := by
    simp [marked]
  have mark : '?' ∉ authority ++ '#' :: front := by simp [plain.1, first]
  refine ⟨?_, ?_, ?_⟩
  · rw [text, hostPathSlice, if_neg List.not_mem_nil, if_pos (by simp),
      Cut.before_append_cons mark]
  · rw [text, querySlice, Cut.after?_append_cons mark, Cut.before_append_cons mark]
    simp
  · rw [marked, fragmentSlice, Cut.after?_append_cons plain.2]
    rfl

end Nbsdk.Http
