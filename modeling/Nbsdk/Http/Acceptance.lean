import Nbsdk.Http.Accessors
import Nbsdk.Http.Rejection

/-! Which texts the parser accepts, and on which it throws.
Of what stands in front of the host the parser only looks at the scheme's name. The colon and
the two characters behind it are skipped, whatever they are and whether they are there or not.
-/

namespace Nbsdk.Http

open Cut (before after?)
open Runs (strip InTurn)

-----------------------------------------------------------------------------------------
-- Texts that are accepted
-----------------------------------------------------------------------------------------

/-- A text without the blanks around it. -/
def stripped (url : Text) : Text := (url.dropWhile (· ∈ blanks)).rdropWhile (· ∈ blanks)

/-- The characters that end a host. -/
def hostEnds : List Char := [':', '/', '?', '#']

/-- The text of an http URL: a known scheme in any letter case with its separator, and a host
that has characters.
-/
def IsHttpText (text : Text) : Prop :=
  ∃ scheme rest,
    text = urlText scheme rest ∧ KnownScheme scheme ∧ rest.takeWhile (· ∉ hostEnds) ≠ []

/-- A text that is read as a URL and is none of http: behind a known scheme and a colon come two
characters and then something that is taken for host or path, but the two are not slashes, or
a mark that ends a host comes behind them, or nothing but blanks. As for a text without host
and path, the ends of the text are erased as the parser does it.
-/
def Misread (url : Text) : Prop :=
  7 < url.length
  ∧ ∃ scheme skip rest,
      trimmed url = scheme ++ ':' :: skip ++ rest
      ∧ KnownScheme scheme
      ∧ skip.length = 2
      ∧ ¬NoHostPath skip rest
      ∧ (skip ≠ ['/', '/']
        ∨ (∃ char ∈ hostEnds, rest.head? = some char)
        ∨ ∀ char ∈ rest, char ∈ blanks)

/-- Characters are dropped behind one that stays, by what the reversed text starts with. -/
theorem rdropWhile_behind {dropped : Char → Bool} {last : Char} (stays : dropped last = false)
    (front rest : Text)
    : (front ++ [last] ++ rest).rdropWhile dropped
      = front ++ [last] ++ rest.rdropWhile dropped := by
  rw [List.rdropWhile, List.rdropWhile, List.reverse_append, List.dropWhile_append]
  split
  case isTrue none =>
    rw [List.isEmpty_iff] at none
    rw [none, List.reverse_append, List.reverse_singleton, List.singleton_append,
      List.dropWhile_cons_of_neg (by simp [stays])]
    simp
  case isFalse => simp

/-- Blanks around a text are no part of it, up to the end behind its first colon. -/
theorem stripped_eq {front scheme rest : Text} (blank : ∀ char ∈ front, char ∈ blanks)
    (known : KnownScheme scheme)
    : stripped (front ++ scheme ++ ':' :: rest)
      = scheme ++ ':' :: rest.rdropWhile (· ∈ blanks) := by
  obtain ⟨first, others, rfl⟩ := known.exists_cons
  have visible := known.visible List.mem_cons_self
  have behind
      : (first :: others ++ [':'] ++ rest).rdropWhile (· ∈ blanks)
        = first :: others ++ [':'] ++ rest.rdropWhile (· ∈ blanks) :=
    rdropWhile_behind (by decide) (first :: others) rest
  rw [stripped, List.append_assoc, List.dropWhile_append_of_pos (by simpa using blank),
    List.cons_append, List.dropWhile_cons_of_neg (by simpa using visible)]
  simpa using behind

/-- What the erasures leave of a text with a known scheme, without the blanks that they leave
at its end, is the text without the blanks around it.
-/
theorem stripped_of_trimmed {url scheme tail : Text} (text : trimmed url = scheme ++ ':' :: tail)
    (known : KnownScheme scheme)
    : stripped url = scheme ++ ':' :: tail.rdropWhile (· ∈ blanks) := by
  obtain ⟨front, runs, split⟩ := Runs.exists_inTurn blanks url
  obtain ⟨cut, whole, blank⟩ := trimmedEnd_append_blanks (strip blanks url)
  change strip blanks url = trimmed url ++ cut at whole
  have parts : url = front ++ scheme ++ ':' :: (tail ++ cut) := by
    rw [split, whole, text]
    simp
  have erased : (tail ++ cut).rdropWhile (· ∈ blanks) = tail.rdropWhile (· ∈ blanks) := by
    rw [List.rdropWhile, List.rdropWhile, List.reverse_append,
      List.dropWhile_append_of_pos (by simpa using blank)]
  rw [parts, stripped_eq runs.mem known, erased]

/-- Of what follows the colon of a text with a known scheme, two slashes and a first character
of a host make it the text of an http URL.
-/
theorem isHttpText_iff {scheme tail : Text} (known : KnownScheme scheme)
    : IsHttpText (scheme ++ ':' :: tail)
      ↔ ∃ first others, tail = '/' :: '/' :: first :: others ∧ first ∉ hostEnds := by
  constructor
  case mp =>
    rintro ⟨other, host, text, known', some⟩
    have same : scheme ++ ':' :: tail = other ++ ':' :: ('/' :: '/' :: host) := by
      simpa [urlText] using text
    obtain ⟨rfl, rfl⟩ := Cut.append_cons_inj known.colonless known'.colonless same
    cases host with
    | nil => exact absurd rfl some
    | cons first others =>
        refine ⟨first, others, rfl, ?_⟩
        intro ends
        rw [List.takeWhile_cons_of_neg (by simpa using ends)] at some
        exact some rfl
  case mpr =>
    rintro ⟨first, others, rfl, inHost⟩
    refine ⟨scheme, first :: others, by simp [urlText], known, ?_⟩
    rw [List.takeWhile_cons_of_pos (by simpa using inHost)]
    exact List.cons_ne_nil first _

/-- Without the blanks at its end the text behind the colon starts so exactly if two slashes
come first, no mark that ends a host comes next, and not all of the rest is blank.
-/
theorem rdropWhile_starts_iff {skip rest : Text} (skipped : skip.length = 2)
    : (∃ first others,
        (skip ++ rest).rdropWhile (· ∈ blanks) = '/' :: '/' :: first :: others
        ∧ first ∉ hostEnds)
      ↔ ¬(skip ≠ ['/', '/']
        ∨ (∃ char ∈ hostEnds, rest.head? = some char)
        ∨ ∀ char ∈ rest, char ∈ blanks) := by
  by_cases slashes : skip = ['/', '/']
  case neg =>
    refine iff_of_false ?_ (by simp [slashes])
    rintro ⟨first, others, starts, -⟩
    obtain ⟨more, whole⟩ : '/' :: '/' :: first :: others <+: skip ++ rest :=
      starts ▸ List.rdropWhile_prefix _ _
    have split : ['/', '/'] ++ (first :: others ++ more) = skip ++ rest := by simpa using whole
    exact slashes (List.append_inj_left split skipped.symm).symm
  case pos =>
    have slashed
        : (skip ++ rest).rdropWhile (· ∈ blanks)
          = '/' :: '/' :: rest.rdropWhile (· ∈ blanks) := by
      rw [slashes]
      exact rdropWhile_behind (by decide) ['/'] rest
    have front := List.rdropWhile_prefix (· ∈ blanks) rest
    have blank : rest.rdropWhile (· ∈ blanks) = [] ↔ ∀ char ∈ rest, char ∈ blanks := by
      rw [List.rdropWhile_eq_nil_iff]
      simp
    rw [slashed]
    cases left : rest.rdropWhile (· ∈ blanks) with
    | nil => exact iff_of_false (by simp) (not_not_intro (Or.inr (Or.inr (blank.mp left))))
    | cons first others =>
        obtain ⟨more, whole⟩ := front
        have head : rest.head? = some first := by
          rw [← whole, left]
          rfl
        have visible : ¬∀ char ∈ rest, char ∈ blanks := by
          rw [← blank, left]
          exact List.cons_ne_nil first others
        simp [slashes, head, visible]

/-- An accepted text has a known scheme with its colon, two more characters, and something
behind them that is taken for host or path.
-/
theorem accepted_iff {url : Text}
    : Accepted url
      ↔ 7 < url.length
        ∧ ∃ scheme skip rest,
            trimmed url = scheme ++ ':' :: skip ++ rest
            ∧ KnownScheme scheme
            ∧ skip.length = 2
            ∧ ¬NoHostPath skip rest := by
  have colon : '?' ∉ [':'] ∧ '#' ∉ [':'] := by decide
  have hostPath
      : ∀ {scheme skip rest : Text}, KnownScheme scheme → skip.length = 2 →
          (hostPathOf (scheme ++ ':' :: skip ++ rest) ≠ [] ↔ ¬NoHostPath skip rest) := by
    intro scheme skip rest known skipped
    rw [hostPathOf_skip known skipped, ← hostPathSlice_eq_nil_iff]
    exact not_congr (Eq.congr_left (hostPathSlice_append colon skip rest))
  constructor
  case mp =>
    rintro ⟨long, known, skips, some⟩
    obtain ⟨scheme, skip, rest, text, known', skipped⟩ := exists_skip known skips
    exact ⟨long, scheme, skip, rest, text, known', skipped,
      (hostPath known' skipped).mp (text ▸ some)⟩
  case mpr =>
    rintro ⟨long, scheme, skip, rest, text, known, skipped, some⟩
    refine ⟨long, ?_, ?_, ?_⟩
    · rwa [text, schemeSlice_skip known]
    · rw [text, schemeSlice_skip known]
      simp [skipped]
    · rw [text]
      exact (hostPath known skipped).mpr some

/-- The parser accepts a text as an http URL only if it is one, exactly where the text is not
misread.
-/
theorem accepts_http_iff (b : Builder) (url : Text)
    : (∀ parsed, b.parse url = .ok (true, parsed) → IsHttpText (stripped url)) ↔ ¬Misread url := by
  have sound
      : (∀ parsed, b.parse url = .ok (true, parsed) → IsHttpText (stripped url))
        ↔ (Accepted url → IsHttpText (stripped url)) := by
    simp only [parse_eq_true_iff]
    exact ⟨fun all accepted => all _ ⟨accepted, rfl⟩, fun all parsed held => all held.1⟩
  have shape
      : ∀ {scheme skip rest : Text},
          trimmed url = scheme ++ ':' :: skip ++ rest → KnownScheme scheme → skip.length = 2 →
            (IsHttpText (stripped url)
              ↔ ¬(skip ≠ ['/', '/']
                ∨ (∃ char ∈ hostEnds, rest.head? = some char)
                ∨ ∀ char ∈ rest, char ∈ blanks)) := by
    intro scheme skip rest text known skipped
    have tail : trimmed url = scheme ++ ':' :: (skip ++ rest) := by simp [text]
    rw [stripped_of_trimmed tail known, isHttpText_iff known, rdropWhile_starts_iff skipped]
  rw [sound, accepted_iff]
  constructor
  case mp =>
    rintro all ⟨long, scheme, skip, rest, text, known, skipped, some, wrong⟩
    exact (shape text known skipped).mp
      (all ⟨long, scheme, skip, rest, text, known, skipped, some⟩) wrong
  case mpr =>
    rintro right ⟨long, scheme, skip, rest, text, known, skipped, some⟩
    refine (shape text known skipped).mpr (fun wrong => right ?_)
    exact ⟨long, scheme, skip, rest, text, known, skipped, some, wrong⟩

/-- The characters behind the colon need not be slashes. -/
theorem accepts_slashless
    : ¬∀ (b : Builder) (url : Text) (parsed : Builder),
        b.parse url = .ok (true, parsed) → IsHttpText (stripped url) := by
  intro sound
  have accepted
      : Builder.cleared.parse "http:abcdef".toList
        = .ok (true, (Slices.of (trimmed "http:abcdef".toList)).builder) :=
    parse_eq_true_iff.mpr ⟨⟨by decide, by decide, by decide, by decide⟩, rfl⟩
  obtain ⟨scheme, rest, text, known, -⟩ := sound _ _ _ accepted
  have whole : stripped "http:abcdef".toList = http ++ ':' :: "abcdef".toList := by decide
  have same : http ++ ':' :: "abcdef".toList = scheme ++ ':' :: '/' :: '/' :: rest := by
    rw [← whole, text]
    simp [urlText]
  have slashes := (Cut.append_cons_inj (by decide) known.colonless same).2
  exact absurd (List.cons.inj slashes).1 (by decide)

-----------------------------------------------------------------------------------------
-- Texts on which the parser throws
-----------------------------------------------------------------------------------------

/-- Nothing behind the scheme, or a colon and at most one more character. -/
def ShortTail (tail : Text) : Prop :=
  tail = [] ∨ ∃ skipped, tail = ':' :: skipped ∧ skipped.length ≤ 1

/-- A text that breaks off behind its scheme, between runs of blanks. The kinds of blanks come
in the order of the erasures, outermost first.
-/
def BreaksOff (url : Text) : Prop :=
  ∃ front scheme tail back,
    url = front ++ scheme ++ tail ++ back
    ∧ InTurn blanks front
    ∧ KnownScheme scheme
    ∧ ShortTail tail
    ∧ InTurn blanks back.reverse

theorem ShortTail.of_prefix {tail other : Text} (h : ShortTail tail) (starts : other <+: tail)
    : ShortTail other := by
  rcases h with rfl | ⟨skipped, rfl, short⟩
  · exact Or.inl (List.prefix_nil.mp starts)
  · cases other with
    | nil => exact Or.inl rfl
    | cons first rest =>
        obtain ⟨rfl, behind⟩ := List.cons_prefix_cons.mp starts
        exact Or.inr ⟨rest, rfl, Nat.le_trans behind.length_le short⟩

/-- A scheme that breaks off is what the parser finds before it cuts host and path. -/
theorem known_short_iff {text : Text}
    : KnownScheme (before ':' text) ∧ text.length < (before ':' text).length + 3
      ↔ ∃ scheme tail, text = scheme ++ tail ∧ KnownScheme scheme ∧ ShortTail tail := by
  constructor
  case mp =>
    rintro ⟨known, short⟩
    by_cases colon : ':' ∈ text
    case pos =>
      obtain ⟨scheme, rest, rfl, absent⟩ := List.eq_append_cons_of_mem colon
      rw [Cut.before_append_cons absent] at known short
      rw [List.length_append, List.length_cons] at short
      exact ⟨scheme, ':' :: rest, rfl, known, Or.inr ⟨rest, rfl, by omega⟩⟩
    case neg =>
      rw [Cut.before_of_not_mem colon] at known
      exact ⟨text, [], by simp, known, Or.inl rfl⟩
  case mpr =>
    rintro ⟨scheme, tail, rfl, known, rfl | ⟨skipped, rfl, short⟩⟩
    · rw [List.append_nil, Cut.before_of_not_mem known.colonless]
      exact ⟨known, by omega⟩
    · rw [Cut.before_append_cons known.colonless, List.length_append, List.length_cons]
      exact ⟨known, by omega⟩

/-- A text breaks off if its trimmed text does: at the front the runs are erased exactly, and
at the end perhaps also the character behind the colon.
-/
theorem breaksOff_iff {url : Text}
    : BreaksOff url
      ↔ ∃ scheme tail, trimmed url = scheme ++ tail ∧ KnownScheme scheme ∧ ShortTail tail := by
  have distinct : blanks.Nodup := by decide
  constructor
  case mp =>
    rintro ⟨front, scheme, tail, back, rfl, frontRuns, known, short, backRuns⟩
    have erased
        : strip blanks (front ++ (scheme ++ (tail ++ back))) = scheme ++ (tail ++ back) := by
      obtain ⟨first, others, rfl⟩ := known.exists_cons
      exact frontRuns.strip_append distinct (known.visible List.mem_cons_self) _
    obtain ⟨others, last, rfl⟩ : ∃ others last, scheme = others ++ [last] := by
      obtain ⟨first, others, rfl⟩ := known.exists_cons
      exact ⟨_, _, (List.dropLast_append_getLast (List.cons_ne_nil first others)).symm⟩
    have visible : last ∉ blanks := known.visible (by simp)
    have cut := trimmedEnd_behind visible others (tail ++ back)
    have text : trimmed (front ++ (others ++ [last]) ++ tail ++ back)
        = others ++ [last] ++ trimmedEnd (tail ++ back) := by
      change trimmedEnd (strip blanks _) = _
      rw [List.append_assoc, List.append_assoc, erased, cut]
    refine ⟨_, _, text, known, short.of_prefix ?_⟩
    rw [trimmedEnd_eq_strip, List.reverse_append, ← List.reverse_suffix, List.reverse_reverse]
    exact backRuns.strip_append_suffix distinct tail.reverse
  case mpr =>
    rintro ⟨scheme, tail, text, known, short⟩
    obtain ⟨front, frontRuns, split⟩ := Runs.exists_inTurn blanks url
    obtain ⟨back, backRuns, whole⟩ := Runs.exists_inTurn blanks (strip blanks url).reverse
    change trimmedEnd (strip blanks url) = _ at text
    rw [trimmedEnd_eq_strip, List.reverse_eq_iff] at text
    refine ⟨front, scheme, tail, back.reverse, ?_, frontRuns, known, short, ?_⟩
    · conv_lhs => rw [split, ← (strip blanks url).reverse_reverse, whole, text]
      simp
    · rwa [List.reverse_reverse]

/-- The parser throws exactly on longer texts that break off. -/
theorem parse_eq_error_iff {b : Builder} {url : Text}
    : b.parse url = .error .outOfRange ↔ 7 < url.length ∧ BreaksOff url := by
  rw [breaksOff_iff, ← known_short_iff]
  have lengths : (schemeSlice (trimmed url)).length = (before ':' (trimmed url)).length := by
    rw [schemeSlice, List.length_map]
  rcases parse_ends b url with
    ⟨short, ends⟩ | ⟨unknown, _, ends⟩ | ⟨known, long, cut, ends⟩ | ⟨_, _, skipped, _, ends⟩
    | ⟨accepted, ends⟩
  · exact iff_of_false (by simp [ends]) (fun held => Nat.not_lt.mpr short held.1)
  · exact iff_of_false (by simp [ends]) (fun held => unknown held.2.1)
  · rw [lengths] at cut
    exact iff_of_true ends ⟨long, known, cut⟩
  · rw [lengths] at skipped
    exact iff_of_false (by simp [ends]) (fun held => Nat.not_lt.mpr skipped held.2.2)
  · have skipped := accepted.skipped
    rw [lengths] at skipped
    exact iff_of_false (by simp [ends]) (fun held => Nat.not_lt.mpr skipped held.2.2)

/-- Parsing returns, and so does the constructor, exactly where the text is short or does not
break off behind its scheme.
-/
theorem parse_returns_iff (b : Builder) (url : Text)
    : ((∃ result, b.parse url = .ok result) ↔ ¬(7 < url.length ∧ BreaksOff url))
      ∧ ((∃ u, HttpUrl.ofText url = .ok u) ↔ ¬(7 < url.length ∧ BreaksOff url)) := by
  have returns
      : ∀ b : Builder,
          (∃ result, b.parse url = .ok result) ↔ ¬(7 < url.length ∧ BreaksOff url) := by
    intro b
    rw [← parse_eq_error_iff (b := b)]
    cases b.parse url with
    | error failure => cases failure; simp
    | ok result => simp
  refine ⟨returns b, ?_⟩
  rw [← returns .cleared, HttpUrl.ofText]
  cases Builder.cleared.parse url with
  | error failure => simp [bind, Except.bind]
  | ok result => simp [bind, Except.bind]

/-- Blanks make a scheme long enough for the check, and are gone when it is cut. -/
theorem parse_throws
    : ¬∀ (b : Builder) (url : Text),
        (∃ result, b.parse url = .ok result) ∧ ∃ u, HttpUrl.ofText url = .ok u := by
  intro returns
  obtain ⟨result, returned⟩ := (returns .cleared "http:   ".toList).1
  have threw : Builder.cleared.parse "http:   ".toList = .error .outOfRange := by decide
  rw [threw] at returned
  contradiction

end Nbsdk.Http
