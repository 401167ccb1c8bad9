import Nbsdk.Http.Printing
import Nbsdk.Http.UrlText

/-! What the parser extracts from texts without a fragment.
Such a text is scheme, host, and perhaps port, path and query. The parser finds all of them,
except that it takes host and port for a segment where no path follows.
-/

namespace Nbsdk.Http

open Cut (before after?)

/-- The parts of a text without a fragment, as they are written. -/
structure Parts where
  scheme : Text
  host : Text
  port : Option Text
  path : Text
  query : Option Text

namespace Parts

def authority (p : Parts) : Text := p.host ++ marked ':' p.port ++ p.path

def text (p : Parts) : Text := urlText p.scheme (p.authority ++ marked '?' p.query)

/-- A scheme in any letter case, a host, a port from 1 to 65535 and a path that starts with a
slash, without the delimiters that end them and without blanks.
-/
structure Valid (p : Parts) : Prop where
  scheme : KnownScheme p.scheme
  host : p.host ≠ [] ∧ ∀ char ∈ [':', '/', '?'], char ∉ p.host
  port
    : ∀ digits, p.port = some digits →
        (∀ char ∈ digits, char.isDigit = true)
        ∧ 1 ≤ Nat.ofDigitChars 10 digits 0
        ∧ Nat.ofDigitChars 10 digits 0 ≤ 65535
  path : p.path = [] ∨ ∃ rest, p.path = '/' :: rest
  pathChars : ∀ char ∈ ['?', ':'], char ∉ p.path
  hashless : '#' ∉ p.authority ++ marked '?' p.query
  blankless : ∀ char ∈ blanks, char ∉ p.authority ++ marked '?' p.query

/-- The pieces that are left when a dot keeps and two dots drop what is before them. -/
def resolveDots (pieces : List Text) : List Text :=
  pieces.foldl
    (fun kept piece =>
      if piece = ['.'] then kept
      else if piece = ['.', '.'] then kept.dropLast
      else kept ++ [piece])
    []

/-- The builder has the components that the parts denote. -/
structure Describes (p : Parts) (b : Builder) : Prop where
  scheme : b.scheme = p.scheme.map Char.toLower
  host : b.host.map Char.toLower = p.host.map Char.toLower
  port
    : b.port
      = match p.port with
        | none => defaultPort (p.scheme.map Char.toLower)
        | some digits => (Nat.ofDigitChars 10 digits 0 : Int)
  segments
    : b.encodedPathSegments = resolveDots ((p.path.splitOn '/').filter (· ≠ []))
  query : b.encodedQueryNamesAndValues = .ofPairs (parameters (p.query.getD []))

/-- Empty pieces are skipped and the others resolved, by induction over the pieces. -/
theorem resolve_eq (pieces : List Text)
    : resolve pieces = resolveDots (pieces.filter (· ≠ [])) := by
  have pushed
      : ∀ kept : List Text,
          pieces.foldl Builder.push kept
          = (pieces.filter (· ≠ [])).foldl
              (fun kept piece =>
                if piece = ['.'] then kept
                else if piece = ['.', '.'] then kept.dropLast
                else kept ++ [piece])
              kept := by
    induction pieces with
    | nil => exact fun _ => rfl
    | cons piece rest ih =>
        intro kept
        rw [List.foldl_cons, ih]
        by_cases empty : piece = []
        · simp [empty, Builder.push]
        · rw [List.filter_cons_of_pos (by simpa using empty), List.foldl_cons,
            Builder.push, if_neg empty]
          rfl
  exact pushed []

section

variable {p : Parts} (h : p.Valid)

include h

/-- A text of digits is read as their number. -/
theorem Valid.portNumber_eq {digits : Text} (port : p.port = some digits)
    : portNumber (p.scheme.map Char.toLower) digits = (Nat.ofDigitChars 10 digits 0 : Int) := by
  obtain ⟨all, lower, upper⟩ := h.port digits port
  cases digits with
  | nil => simp [Nat.ofDigitChars] at lower
  | cons first rest =>
      have read : Http.digits (first :: rest) = Nat.ofDigitChars 10 (first :: rest) 0 := by
        rw [Http.digits, List.takeWhile_eq_self_iff.mpr all]
      have number : number (first :: rest) = (Nat.ofDigitChars 10 (first :: rest) 0 : Int) := by
        rw [number_eq_digits (all first List.mem_cons_self), read]
      rw [portNumber, if_neg (List.cons_ne_nil first rest), atoi_eq_number, number]
      rw [number]
      constructor <;> omega

/-- A delimiter is not in the port. -/
theorem Valid.not_mem_port {digits : Text} (port : p.port = some digits) {char : Char}
    (noDigit : char.isDigit = false)
    : char ∉ digits := by
  intro member
  have digit := (h.port digits port).1 char member
  rw [noDigit] at digit
  contradiction

/-- A slash is only in the path. -/
theorem Valid.slashless : '/' ∉ p.host ++ marked ':' p.port := by
  have host := h.host.2 '/' (by decide)
  cases port : p.port with
  | none => simpa [marked] using host
  | some digits =>
      have absent : '/' ∉ digits := h.not_mem_port port rfl
      simp [marked, host, absent]

/-- The host is read up to the port or the path. -/
theorem Valid.hostSlice_eq : hostSlice p.authority = p.host := by
  rw [hostSlice, authority]
  cases port : p.port with
  | none =>
      have colon : ':' ∉ p.host ++ marked ':' none ++ p.path := by
        simp [marked, h.host.2 ':' (by decide), h.pathChars ':' (by decide)]
      have slash : '/' ∉ p.host := h.host.2 '/' (by decide)
      rw [if_neg colon, marked, List.append_nil]
      rcases h.path with none | ⟨rest, path⟩
      · rw [none, List.append_nil, Cut.before_of_not_mem slash]
      · rw [path, Cut.before_append_cons slash]
  | some digits =>
      rw [marked, if_pos (by simp), List.append_assoc, List.cons_append,
        Cut.before_append_cons (h.host.2 ':' (by decide))]

/-- The port is read up to the path. -/
theorem Valid.portSlice_eq : portSlice p.authority = p.port.getD [] := by
  rw [portSlice, authority]
  have colon := h.host.2 ':' (by decide)
  have slash := h.slashless
  cases port : p.port with
  | none =>
      have absent : ':' ∉ p.host ++ marked ':' none ++ p.path := by
        simp [marked, colon, h.pathChars ':' (by decide)]
      rw [Cut.after?_of_not_mem absent]
      rfl
  | some digits =>
      rw [port, marked] at slash
      simp only [List.mem_append, List.mem_cons, not_or] at slash
      rw [marked, List.append_assoc, List.cons_append, Cut.after?_append_cons colon,
        Cut.before_append_cons colon]
      simp only [slash.1, if_false, Option.getD_some]
      rcases h.path with none | ⟨rest, path⟩
      · rw [none, List.append_nil, Cut.before_of_not_mem slash.2.2]
      · rw [path, Cut.before_append_cons slash.2.2]

/-- The parser accepts the text and leaves what the slices of these parts describe. -/
theorem Valid.parse_text_iff {b parsed : Builder}
    : b.parse p.text = .ok (true, parsed)
      ↔ parsed
        = Slices.builder
            { scheme := p.scheme.map Char.toLower
              host := p.host
              portText := p.port.getD []
              path := pathSlice p.authority
              query := p.query.getD []
              fragment := [] } := by
  have mark : '?' ∉ p.authority := by
    have host := h.host.2 '?' (by decide)
    have path := h.pathChars '?' (by decide)
    cases port : p.port with
    | none => simp [authority, port, marked, host, path]
    | some digits =>
        have absent : '?' ∉ digits := h.not_mem_port port rfl
        simp [authority, port, marked, host, path, absent]
  have hash := h.hashless
  rw [List.mem_append, not_or] at hash
  have parts := @slices_parts p.authority p.query none ⟨mark, hash.1⟩
    (by
      intro query some
      rw [some] at hash
      simpa [marked] using hash.2)
    (by simp)
  have long : 7 < p.text.length := by
    have scheme := h.scheme.length
    have host := List.length_pos_of_ne_nil h.host.1
    simp only [text, urlText, authority, List.length_append, List.length_cons,
      List.length_nil]
    omega
  have some : p.authority ≠ [] := by simp [authority, h.host.1]
  rw [marked, List.append_nil] at parts
  rw [text, parse_urlText_iff h.scheme long, trimmedEnd_of_blankless h.blankless, parts.1,
    restSlices, parts.1, parts.2.1, parts.2.2, h.hostSlice_eq, h.portSlice_eq]
  simp [some]

/-- Without a path the parser resolves the host and port, which leaves no segment only for
dots.
-/
theorem Valid.resolve_authority_iff (pathless : p.path = [])
    : resolve (p.authority.splitOn '/') = []
      ↔ p.port = none ∧ (p.host = ['.'] ∨ p.host = ['.', '.']) := by
  have slash : '/' ∉ p.authority := by simpa [authority, pathless] using h.slashless
  rw [List.splitOn_eq_singleton slash, resolve, List.foldl_cons, List.foldl_nil, Builder.push]
  cases port : p.port with
  | none =>
      have text : p.authority = p.host := by simp [authority, port, pathless, marked]
      rw [text, if_neg h.host.1]
      by_cases dot : p.host = ['.']
      · simp [dot]
      · by_cases dots : p.host = ['.', '.']
        · simp [dots, Builder.pop]
        · simp [dot, dots]
  | some digits =>
      have colon : ':' ∈ p.authority := by simp [authority, port, marked]
      have other : ∀ segment : Text, ':' ∉ segment → p.authority ≠ segment := by
        rintro segment absent rfl
        exact absent colon
      simp [other [] (by simp), other ['.'] (by decide), other ['.', '.'] (by decide)]

/-- The segments are those of the path exactly if there is one, or if there is none and the
host consists of dots.
-/
theorem Valid.segments_iff
    : resolve ((pathSlice p.authority).splitOn '/')
        = resolveDots ((p.path.splitOn '/').filter (· ≠ []))
      ↔ p.path ≠ [] ∨ p.port = none ∧ (p.host = ['.'] ∨ p.host = ['.', '.']) := by
  rcases h.path with none | ⟨rest, path⟩
  · have slash : '/' ∉ p.authority := by simpa [authority, none] using h.slashless
    have nothing : resolveDots ((p.path.splitOn '/').filter (· ≠ [])) = [] := by
      rw [none]
      rfl
    rw [nothing, pathSlice, Cut.after?_of_not_mem slash, Option.getD_none,
      h.resolve_authority_iff none]
    simp [none]
  · have pieces : (p.path.splitOn '/').filter (· ≠ []) = (rest.splitOn '/').filter (· ≠ []) := by
      have split := @List.splitOn_append_cons_self Char _ _ '/' [] rest
      rw [List.nil_append] at split
      rw [path, split]
      rfl
    rw [pieces, resolve_eq, authority, path, pathSlice, Cut.after?_append_cons h.slashless]
    simp

/-- The parser extracts the components of the parts exactly if there is a path, or if there
is none and the host consists of dots, which are no segment.
-/
theorem Valid.extracted_iff (b : Builder)
    : (∃ parsed, b.parse p.text = .ok (true, parsed) ∧ p.Describes parsed)
      ↔ p.path ≠ [] ∨ p.port = none ∧ (p.host = ['.'] ∨ p.host = ['.', '.']) := by
  rw [← h.segments_iff]
  constructor
  · intro held
    rcases held with ⟨parsed, accepted, described⟩
    rw [h.parse_text_iff] at accepted
    have segments := described.segments
    rw [accepted] at segments
    exact segments
  · intro segments
    refine ⟨_, h.parse_text_iff.mpr rfl, ?_⟩
    constructor
    case scheme => rfl
    case host => rfl
    case port =>
      cases port : p.port with
      | none => simp [Slices.builder, portNumber]
      | some digits => simpa [Slices.builder, port] using h.portNumber_eq port
    case segments => exact segments
    case query => rfl

end

/-- A text with every part, one more slash than needed and dots in the path. -/
def sample : Parts where
  scheme := ['H', 't', 'T', 'p']
  host := ['h']
  port := some ['0', '8', '1']
  path := ['/', 'a', '/', '/', '.', '.', '/', 'b']
  query := some ['n', '=', '1', '&', '=', '&', 'n', '&', 'm', '=', '/', '?', ':']

theorem extracted_sample
    : ∃ parsed, Builder.cleared.parse sample.text = .ok (true, parsed)
        ∧ sample.Describes parsed := by
  have valid : sample.Valid := by
    constructor
    case scheme => exact Or.inl (by decide)
    case host => exact ⟨by decide, forall_mem_of_all (by decide)⟩
    case port =>
      rintro digits ⟨⟩
      exact ⟨forall_mem_of_all (by decide), by decide, by decide⟩
    case path => exact Or.inr ⟨_, rfl⟩
    case pathChars => exact forall_mem_of_all (by decide)
    case hashless => decide
    case blankless => exact forall_mem_of_all (by decide)
  exact (valid.extracted_iff .cleared).mpr (Or.inl (by decide))

/-- The host alone is taken for a segment too. -/
def hostOnly : Parts where
  scheme := http
  host := ['h']
  port := none
  path := []
  query := none

theorem hostOnly_not_extracted
    : hostOnly.Valid
      ∧ (∃ parsed, Builder.cleared.parse hostOnly.text = .ok (true, parsed)
          ∧ parsed.encodedPathSegments = [['h']])
      ∧ ¬∃ parsed, Builder.cleared.parse hostOnly.text = .ok (true, parsed)
          ∧ hostOnly.Describes parsed := by
  have left
      : Builder.cleared.parse hostOnly.text
        = .ok (true, (Slices.of hostOnly.text).builder) := by
    decide +kernel
  have segments : (Slices.of hostOnly.text).builder.encodedPathSegments = [['h']] := by
    decide +kernel
  refine ⟨?_, ⟨_, left, segments⟩, ?_⟩
  · constructor
    case scheme => exact Or.inl (by decide)
    case host => exact ⟨by decide, forall_mem_of_all (by decide)⟩
    case port => exact fun digits port => nomatch port
    case path => exact Or.inl rfl
    case pathChars => exact forall_mem_of_all (by decide)
    case hashless => decide
    case blankless => exact forall_mem_of_all (by decide)
  · intro held
    rcases held with ⟨parsed, accepted, described⟩
    rw [left] at accepted
    cases accepted
    have none := described.segments
    rw [segments] at none
    contradiction

end Parts

end Nbsdk.Http
