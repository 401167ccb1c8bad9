import Nbsdk.Http.Influence

/-! Blanks around a text.
Each kind of blank is erased once on each side, in a fixed order, so blanks that come in another
order are left. In front of the text they are taken for a part of the scheme, and behind it for
a part of whatever comes last.
-/

namespace Nbsdk.Http

open Cut (before after?)
open Runs (strip InTurn)

/-- No blank is at an end of the text. -/
structure Bare (text : Text) : Prop where
  starts : ∀ char, text.head? = some char → char ∉ blanks
  ends : ∀ char, text.getLast? = some char → char ∉ blanks

/-- The ends of a text, looked at without a quantifier. -/
theorem bare_of_ends {text : Text} (starts : text.head?.all (· ∉ blanks) = true)
    (ends : text.getLast?.all (· ∉ blanks) = true)
    : Bare text where
  starts := by simpa [Option.all_eq_true] using starts
  ends := by simpa [Option.all_eq_true] using ends

/-- Blanks behind a query add nothing to its parameters: behind its last ampersand is an equals
sign, and so no name, or else what the last piece stands for with and without the blanks is also
among the earlier pieces; an empty piece stands for nothing.
-/
def AbsorbsBlanks (query left : Text) : Prop :=
  ∃ init last,
    query.splitOn '&' = init ++ [last]
    ∧ (last.head? = some '='
      ∨ parameter (last ++ left) ∈ init.map parameter
        ∧ (last = [] ∨ parameter last ∈ init.map parameter))

/-- The blanks around the text do not change what is read of it: those in front are erased, and
those behind it too, or what is left of them comes behind its query and adds nothing there.
-/
def PaddingUnread (text front back : Text) : Prop :=
  InTurn blanks front
  ∧ (InTurn blanks back.reverse
    ∨ '#' ∉ text ∧ QueryBehind text ∧ AbsorbsBlanks (querySlice text) (trimmedEnd back))

-----------------------------------------------------------------------------------------
-- What is erased
-----------------------------------------------------------------------------------------

theorem blanks_nodup : blanks.Nodup := by decide

/-- Nothing is left behind a text of blanks that come in turn from the end. -/
theorem trimmedEnd_eq_nil_iff {back : Text}
    : trimmedEnd back = [] ↔ InTurn blanks back.reverse := by
  rw [trimmedEnd_eq_strip, List.reverse_eq_nil_iff, Runs.strip_eq_nil_iff blanks_nodup]

/-- Nothing is erased in front of such a text. -/
theorem Bare.trimmedFront_eq {text : Text} (bare : Bare text) (nonempty : text ≠ [])
    : trimmedFront text = text := by
  obtain ⟨first, rest, rfl⟩ := List.exists_cons_of_ne_nil nonempty
  exact Runs.strip_cons (bare.starts first rfl) rest

/-- Blanks are erased on both sides of a text without any at its ends. -/
theorem Bare.trimmed_eq {text : Text} (bare : Bare text) (nonempty : text ≠ []) (front back : Text)
    : trimmed (front ++ text ++ back) = strip blanks front ++ text ++ trimmedEnd back := by
  obtain ⟨init, last, rfl⟩ : ∃ init last, text = init ++ [last] :=
    ⟨_, _, (List.dropLast_append_getLast nonempty).symm⟩
  have behind := trimmedEnd_behind (bare.ends last (by simp)) (strip blanks front ++ init) back
  have erased
      : strip blanks (front ++ (init ++ [last]) ++ back)
        = strip blanks front ++ init ++ [last] ++ back := by
    cases whole : init ++ [last] with
    | nil => exact absurd whole nonempty
    | cons first rest =>
        have visible := bare.starts first (by rw [whole]; rfl)
        rw [List.append_assoc, List.cons_append, Runs.strip_append_cons visible,
          List.append_assoc (strip blanks front), whole]
        simp
  change trimmedEnd (strip blanks _) = _
  rw [erased, behind]
  simp

-----------------------------------------------------------------------------------------
-- What is left behind a query
-----------------------------------------------------------------------------------------

theorem mem_parameters {pair : Text × Text} {query : Text}
    : pair ∈ parameters query ↔ pair ∈ (query.splitOn '&').map parameter ∧ pair.1 ≠ [] := by
  rw [parameters, List.mem_filter, decide_eq_true_eq]

/-- A parameter without a name comes of an empty piece or of a value. -/
theorem parameter_unnamed_iff {piece : Text}
    : (parameter piece).1 = [] ↔ piece = [] ∨ piece.head? = some '=' :=
  Cut.before_eq_nil_iff

/-- A longer piece is another parameter: its value is longer, or without one its name. -/
theorem parameter_append_ne {left : Text} (plain : '=' ∉ left) (remains : left ≠ []) (piece : Text)
    : parameter (piece ++ left) ≠ parameter piece := by
  by_cases equals : '=' ∈ piece
  case pos =>
    obtain ⟨name, value, rfl, absent⟩ := List.eq_append_cons_of_mem equals
    rw [parameter, parameter, List.append_assoc, List.cons_append,
      Cut.after?_append_cons absent, Cut.after?_append_cons absent]
    intro same
    exact remains (List.append_right_eq_self.mp (Prod.mk.inj same).2)
  case neg =>
    rw [parameter, parameter, Cut.before_of_not_mem equals,
      Cut.before_of_not_mem (List.not_mem_append equals plain)]
    intro same
    exact remains (List.append_right_eq_self.mp (Prod.mk.inj same).1)

/-- Another member in the place of one makes no difference to those that are kept exactly if each
of the two is dropped or among the others.
-/
theorem replaced_iff {α : Type} {keep : α → Prop} {others : List α} {first second : α}
    (apart : first ≠ second)
    : (∀ a, (a ∈ others ∨ a = first) ∧ keep a ↔ (a ∈ others ∨ a = second) ∧ keep a)
      ↔ (keep first → first ∈ others) ∧ (keep second → second ∈ others) := by
  constructor
  case mp =>
    intro same
    constructor
    · intro kept
      exact ((same first).mp ⟨Or.inr rfl, kept⟩).1.resolve_right apart
    · intro kept
      exact ((same second).mpr ⟨Or.inr rfl, kept⟩).1.resolve_right apart.symm
  case mpr =>
    intro held a
    obtain ⟨firstAgain, secondAgain⟩ := held
    refine and_congr_left (fun kept => ?_)
    constructor
    · rintro (other | rfl)
      · exact Or.inl other
      · exact Or.inl (firstAgain kept)
    · rintro (other | rfl)
      · exact Or.inl other
      · exact Or.inl (secondAgain kept)

/-- A query has one last piece, and this decides whether it absorbs the blanks. -/
theorem absorbsBlanks_of_pieces {query left last : Text} {init : List Text}
    (pieces : query.splitOn '&' = init ++ [last])
    : AbsorbsBlanks query left
      ↔ last.head? = some '='
        ∨ parameter (last ++ left) ∈ init.map parameter
          ∧ (last = [] ∨ parameter last ∈ init.map parameter) := by
  constructor
  case mp =>
    rintro ⟨init', last', pieces', held⟩
    obtain ⟨rfl, same⟩ := List.append_inj' (pieces.symm.trans pieces') rfl
    obtain rfl := List.singleton_inj.mp same
    exact held
  case mpr => exact fun held => ⟨init, last, pieces, held⟩

/-- The parameters are the same with the blanks exactly if the query absorbs these: only the last
piece is another one, and either has a name unless it starts with an equals sign or is empty.
-/
theorem absorbsBlanks_iff {query left : Text} (plain : '&' ∉ left ∧ '=' ∉ left)
    (remains : left ≠ [])
    : SortedMap.ofPairs (parameters (query ++ left)) = SortedMap.ofPairs (parameters query)
      ↔ AbsorbsBlanks query left := by
  obtain ⟨init, last, pieces, longer⟩ := Cut.splitOn_append plain.1 query
  have named : (parameter last).1 ≠ [] ↔ last ≠ [] ∧ last.head? ≠ some '=' := by
    rw [Ne, parameter_unnamed_iff, not_or]
  have named' : (parameter (last ++ left)).1 ≠ [] ↔ last.head? ≠ some '=' := by
    rw [Ne, parameter_unnamed_iff, not_or]
    cases last with
    | nil =>
        have other : left.head? ≠ some '=' := fun first => plain.2 (List.mem_of_head? first)
        simp [remains, other]
    | cons first rest => simp
  have kept
      := @replaced_iff _ (fun pair => pair.1 ≠ []) (init.map parameter) _ _
        (parameter_append_ne plain.2 remains last)
  rw [absorbsBlanks_of_pieces pieces, SortedMap.ofPairs_eq_iff]
  simp only [mem_parameters, pieces, longer, List.map_append, List.map_singleton,
    List.mem_append, List.mem_singleton]
  rw [kept, named, named']
  by_cases value : last.head? = some '='
  case pos => simp [value]
  case neg =>
    rw [or_iff_right value]
    simp only [value, ne_eq, not_false_eq_true, true_implies, and_true, or_iff_not_imp_left]

-----------------------------------------------------------------------------------------
-- What is left behind a text
-----------------------------------------------------------------------------------------

/-- Pushing a segment does not append another one. -/
theorem push_ne_concat (segments : List Text) {segment other : Text} (apart : other ≠ segment)
    : Builder.push segments segment ≠ segments ++ [other] := by
  intro same
  have length := congrArg List.length same
  rw [Builder.push] at same length
  split at same
  case isTrue empty => simp [empty] at length
  case isFalse =>
    split at same
    case isTrue dot => simp [dot] at length
    case isFalse =>
      split at same
      case isTrue dots =>
        simp [dots, Builder.pop] at length
      case isFalse => exact apart (List.singleton_inj.mp (List.append_inj' same rfl).2).symm

/-- A path with blanks left behind it has another last segment. -/
theorem resolve_left_ne {left : Text} (blank : ∀ char ∈ left, char ∈ blanks)
    (remains : left ≠ []) (path : Text)
    : resolve ((path ++ left).splitOn '/') ≠ resolve (path.splitOn '/') := by
  obtain ⟨char, rest, rfl⟩ := List.exists_cons_of_ne_nil remains
  have undotted : char ≠ '.' := by
    rintro rfl
    exact absurd (blank '.' List.mem_cons_self) (by decide)
  have slashless : '/' ∉ char :: rest := fun inside => absurd (blank '/' inside) (by decide)
  obtain ⟨init, last, pieces, longer⟩ :=
    resolve_append slashless ⟨char, List.mem_cons_self, undotted⟩ path
  have pushed : resolve (init ++ [last]) = Builder.push (resolve init) last := by
    rw [resolve, List.foldl_append]
    rfl
  rw [pieces, longer, pushed]
  have apart : last ++ char :: rest ≠ last :=
    fun same => remains (List.append_right_eq_self.mp same)
  exact (push_ne_concat (resolve init) apart).symm

/-- A fragment goes on to the end of the text. -/
theorem fragmentSlice_append {text : Text} (hash : '#' ∈ text) (left : Text)
    : fragmentSlice (text ++ left) = fragmentSlice text ++ left := by
  obtain ⟨front, fragment, rfl, absent⟩ := List.eq_append_cons_of_mem hash
  rw [fragmentSlice, fragmentSlice, List.append_assoc, List.cons_append,
    Cut.after?_append_cons absent, Cut.after?_append_cons absent]
  rfl

/-- Without a fragment, so does a query. -/
theorem querySlice_append_left {text : Text} (mark : '?' ∈ text) (hashless : '#' ∉ text)
    {left : Text} (plain : '#' ∉ left)
    : querySlice (text ++ left) = querySlice text ++ left := by
  obtain ⟨front, query, rfl, absent⟩ := List.eq_append_cons_of_mem mark
  simp only [List.mem_append, List.mem_cons, not_or] at hashless
  rw [querySlice, querySlice, List.append_assoc, List.cons_append,
    Cut.after?_append_cons absent, Cut.after?_append_cons absent,
    Cut.before_append_cons absent, Cut.before_append_cons absent]
  simp only [if_neg hashless.1]
  rw [Cut.before_of_not_mem hashless.2.2,
    Cut.before_of_not_mem (List.not_mem_append hashless.2.2 plain)]

/-- Without such a mark and without a fragment, host and path go on to the end of the text. -/
theorem hostPathSlice_append_left {skip rest left : Text} (plain : '?' ∉ left ∧ '#' ∉ left)
    (hashless : '#' ∉ skip ∧ '#' ∉ rest) (markless : '?' ∉ skip → '?' ∉ rest)
    : hostPathSlice skip (rest ++ left) = hostPathSlice skip rest ++ left := by
  rw [hostPathSlice, hostPathSlice]
  by_cases early : '?' ∈ skip
  case pos => rw [if_pos early, if_pos early]
  case neg =>
    have absent := markless early
    rw [if_neg early, if_neg early, if_neg absent,
      if_neg (List.not_mem_append absent plain.1), if_neg hashless.1, if_neg hashless.1,
      Cut.before_of_not_mem hashless.2,
      Cut.before_of_not_mem (List.not_mem_append hashless.2 plain.2)]

section

variable {text scheme skip rest left : Text} (h : CutBehindScheme text scheme skip rest)
  (whole : text = scheme ++ ':' :: skip ++ rest) (blank : ∀ char ∈ left, char ∈ blanks)

include h whole

/-- The scheme of a text is the same with blanks behind it. -/
theorem CutBehindScheme.schemeSlice_append (left : Text)
    : schemeSlice (text ++ left) = schemeSlice text := by
  rw [whole, List.append_assoc, schemeSlice_skip h.known, schemeSlice_skip h.known]

theorem CutBehindScheme.hostPathOf_append (left : Text)
    : hostPathOf (text ++ left) = hostPathSlice (':' :: skip) (rest ++ left) := by
  rw [whole, List.append_assoc, hostPathOf_skip h.known h.skipped]

/-- Blanks behind an accepted text are accepted with it. -/
theorem CutBehindScheme.accepted_append {padded : Text} (longer : text.length ≤ padded.length)
    (trimmed_eq : trimmed padded = text ++ left)
    : Accepted padded := by
  constructor
  case long => exact Nat.lt_of_lt_of_le h.long longer
  case scheme =>
    rw [trimmed_eq, h.schemeSlice_append whole, whole, schemeSlice_skip h.known]
    exact h.known
  case skipped =>
    rw [trimmed_eq, h.schemeSlice_append whole, whole, schemeSlice_skip h.known]
    simp only [List.length_append, List.length_cons, List.length_map, h.skipped]
    omega
  case hostPath =>
    rw [trimmed_eq, h.hostPathOf_append whole]
    intro none
    have shorter := hostPathSlice_isPrefix (':' :: skip) rest left
    rw [none, List.prefix_nil] at shorter
    exact h.hostPath shorter

include blank

/-- Blanks left behind a query in its place only go on with the query. -/
theorem CutBehindScheme.slices_append (hashless : '#' ∉ text) (behind : QueryBehind text)
    : Slices.of (text ++ left)
      = { Slices.of text with query := querySlice text ++ left } := by
  obtain ⟨skipMark, restMark⟩ := h.queryBehind_iff.mp behind
  have hash : '#' ∉ left := fun inside => absurd (blank '#' inside) (by decide)
  have mark : '?' ∈ text := by
    rw [whole]
    exact List.mem_append_right _ restMark
  have hostPath : hostPathOf (text ++ left) = hostPathOf text := by
    have unpadded := h.hostPathOf_append whole []
    rw [List.append_nil, hostPathSlice_of_mark skipMark restMark] at unpadded
    rw [h.hostPathOf_append whole, hostPathSlice_of_mark skipMark restMark, unpadded]
  have fragment : fragmentSlice (text ++ left) = fragmentSlice text := by
    rw [fragmentSlice, fragmentSlice, Cut.after?_of_not_mem hashless,
      Cut.after?_of_not_mem (List.not_mem_append hashless hash)]
  rw [Slices.of, h.schemeSlice_append whole, hostPath, fragment,
    querySlice_append_left mark hashless hash]
  rfl

/-- Blanks left anywhere else are read with the fragment or with the path. -/
theorem CutBehindScheme.builder_append_ne (remains : left ≠ [])
    (elsewhere : '#' ∈ text ∨ ¬QueryBehind text)
    : (Slices.of (text ++ left)).builder ≠ (Slices.of text).builder := by
  intro same
  by_cases hash : '#' ∈ text
  case pos =>
    have fragments : fragmentSlice (text ++ left) = fragmentSlice text :=
      congrArg Builder.encodedFragment same
    rw [fragmentSlice_append hash] at fragments
    exact remains (List.append_right_eq_self.mp fragments)
  case neg =>
    have notBehind := elsewhere.resolve_left hash
    rw [h.queryBehind_iff, not_and] at notBehind
    have absent : '?' ∉ left ∧ '#' ∉ left :=
      ⟨fun inside => absurd (blank '?' inside) (by decide),
        fun inside => absurd (blank '#' inside) (by decide)⟩
    have slashless : '/' ∉ left := fun inside => absurd (blank '/' inside) (by decide)
    have hashless : '#' ∉ ':' :: skip ∧ '#' ∉ rest := by
      rw [whole, List.mem_append, List.mem_append, not_or, not_or] at hash
      exact ⟨hash.1.2, hash.2⟩
    have unpadded := h.hostPathOf_append whole []
    rw [List.append_nil, List.append_nil] at unpadded
    have hostPath : hostPathOf (text ++ left) = hostPathOf text ++ left := by
      rw [h.hostPathOf_append whole, unpadded,
        hostPathSlice_append_left absent hashless notBehind]
    have segments
        : resolve ((pathSlice (hostPathOf (text ++ left))).splitOn '/')
          = resolve ((pathSlice (hostPathOf text)).splitOn '/') :=
      congrArg Builder.encodedPathSegments same
    rw [hostPath, pathSlice_append slashless] at segments
    exact resolve_left_ne blank remains _ segments

/-- Blanks left behind a text are not read exactly if its query absorbs them. -/
theorem CutBehindScheme.builder_append_iff (remains : left ≠ [])
    : (Slices.of (text ++ left)).builder = (Slices.of text).builder
      ↔ '#' ∉ text ∧ QueryBehind text ∧ AbsorbsBlanks (querySlice text) left := by
  by_cases inQuery : '#' ∉ text ∧ QueryBehind text
  case neg =>
    rw [not_and_or, not_not] at inQuery
    apply iff_of_false (h.builder_append_ne whole blank remains inQuery)
    rintro ⟨hashless, behind, -⟩
    rcases inQuery with hash | notBehind
    · exact hashless hash
    · exact notBehind behind
  case pos =>
    obtain ⟨hashless, behind⟩ := inQuery
    have plain : '&' ∉ left ∧ '=' ∉ left :=
      ⟨fun inside => absurd (blank '&' inside) (by decide),
        fun inside => absurd (blank '=' inside) (by decide)⟩
    rw [← absorbsBlanks_iff plain remains, and_iff_right hashless, and_iff_right behind,
      h.slices_append whole blank hashless behind]
    constructor
    case mp => exact fun same => congrArg Builder.encodedQueryNamesAndValues same
    case mpr =>
      intro same
      rw [Slices.builder, Slices.builder, same]
      rfl

end

-----------------------------------------------------------------------------------------
-- Padded texts
-----------------------------------------------------------------------------------------

/-- A blank in front is taken for a part of the scheme, and no scheme has one. -/
theorem not_accepted_of_blank {url : Text} {char : Char} {rest : Text} (blank : char ∈ blanks)
    (starts : trimmed url = char :: rest)
    : ¬Accepted url := by
  intro accepted
  have known : KnownScheme (before ':' (char :: rest)) := starts ▸ accepted.scheme
  have other : char ≠ ':' := by
    rintro rfl
    exact absurd blank (by decide)
  have inside : char ∈ before ':' (char :: rest) := by simp [before, other]
  exact known.visible inside blank

/-- A text is read alike with blanks around it exactly if these are not read: in front they come
in the order of the erasures, and so they do from the end, or what is left is absorbed.
-/
theorem parse_padded_iff {b other parsed : Builder} {text front back : Text}
    (accepted : b.parse text = .ok (true, parsed)) (bare : Bare text)
    (frontBlank : ∀ char ∈ front, char ∈ blanks) (backBlank : ∀ char ∈ back, char ∈ blanks)
    : other.parse (front ++ text ++ back) = .ok (true, parsed)
      ↔ PaddingUnread text front back := by
  obtain ⟨isAccepted, rfl⟩ := parse_eq_true_iff.mp accepted
  have nonempty : text ≠ [] := by
    rintro rfl
    exact absurd isAccepted.long (by decide)
  have untrimmed : trimmed text = text := by
    have unpadded := bare.trimmed_eq nonempty [] []
    rwa [Runs.strip_nil, List.nil_append, List.append_nil, show trimmedEnd [] = [] from rfl,
      List.append_nil] at unpadded
  have padded := bare.trimmed_eq nonempty front back
  rw [parse_eq_true_iff, PaddingUnread, ← Runs.strip_eq_nil_iff blanks_nodup, untrimmed]
  cases erased : strip blanks front with
  | cons char rest =>
      have blank : char ∈ blanks :=
        frontBlank char ((Runs.strip_suffix blanks front).subset (erased ▸ List.mem_cons_self))
      rw [erased] at padded
      refine iff_of_false (fun held => not_accepted_of_blank blank padded held.1) ?_
      exact fun held => List.cons_ne_nil char rest held.1
  | nil =>
      rw [erased, List.nil_append] at padded
      obtain ⟨scheme, skip, rest, h⟩ := isAccepted.exists_cut
      have whole : text = scheme ++ ':' :: skip ++ rest :=
        (bare.trimmedFront_eq nonempty).symm.trans h.front
      have longer : text.length ≤ (front ++ text ++ back).length := by
        rw [List.length_append, List.length_append]
        omega
      have blank : ∀ char ∈ trimmedEnd back, char ∈ blanks :=
        fun char inside => backBlank char ((trimmedEnd_isPrefix back).subset inside)
      rw [and_iff_right (h.accepted_append whole longer padded), and_iff_right rfl, padded,
        ← trimmedEnd_eq_nil_iff]
      by_cases none : trimmedEnd back = []
      case pos =>
        rw [none, List.append_nil]
        exact iff_of_true rfl (Or.inl rfl)
      case neg =>
        rw [or_iff_right none, eq_comm]
        exact h.builder_append_iff whole blank none

/-- Spaces and a tab around a text, and one more blank that its query absorbs. -/
theorem parse_padded_iff_absorbed
    : ∃ parsed,
        Builder.cleared.parse "http://h/?a=1&=2".toList = .ok (true, parsed)
        ∧ Builder.cleared.parse
            ("  \t".toList ++ "http://h/?a=1&=2".toList ++ " \t".toList)
          = .ok (true, parsed) := by
  have accepted
      : Builder.cleared.parse "http://h/?a=1&=2".toList
        = .ok (true, (Slices.of "http://h/?a=1&=2".toList).builder) := by
    decide +kernel
  have bare : Bare "http://h/?a=1&=2".toList := bare_of_ends (by decide) (by decide)
  refine ⟨_, accepted, (parse_padded_iff accepted bare ?_ ?_).mpr ⟨?_, Or.inr ⟨?_, ?_, ?_⟩⟩⟩
  · exact forall_mem_of_all (by decide)
  · exact forall_mem_of_all (by decide)
  · exact (Runs.strip_eq_nil_iff blanks_nodup).mp (by decide)
  · decide
  · decide
  · exact ⟨["a=1".toList], "=2".toList, by decide, Or.inl (by decide)⟩

/-- A space behind a tab stays in front, and with it the scheme is unknown. -/
theorem padding_read
    : ¬∀ (b other parsed : Builder) (text front back : Text),
        b.parse text = .ok (true, parsed)
        → Bare text
        → (∀ char ∈ front, char ∈ blanks)
        → (∀ char ∈ back, char ∈ blanks)
        → other.parse (front ++ text ++ back) = .ok (true, parsed) := by
  intro claim
  have accepted
      : Builder.cleared.parse "http://h/".toList
        = .ok (true, (Slices.of "http://h/".toList).builder) := by
    decide +kernel
  have padded := claim .cleared .cleared _ "http://h/".toList "\t ".toList [] accepted
    (bare_of_ends (by decide) (by decide)) (forall_mem_of_all (by decide)) (by simp)
  have rejected
      : Builder.cleared.parse ("\t ".toList ++ "http://h/".toList ++ [])
        = .ok (false, .cleared) := by
    decide +kernel
  have verdicts := (Prod.mk.inj (Except.ok.inj (padded.symm.trans rejected))).1
  contradiction

end Nbsdk.Http
