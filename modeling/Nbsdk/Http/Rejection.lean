import Nbsdk.Http.Influence

/-! What a rejected text leaves behind.
The builder is not touched before the length has been checked, and is cleared then. The scheme
is stored as soon as it is known, before there turns out to be no host.
-/

namespace Nbsdk.Http

/-- Behind what is skipped the text ends, or the mark comes at once that ends host and path. -/
def NoHostPath (skip rest : Text) : Prop :=
  rest = []
  ∨ '?' ∉ skip
    ∧ (rest.head? = some '?' ∨ '?' ∉ rest ∧ '#' ∉ skip ∧ rest.head? = some '#')

/-- A text long enough to be looked at that has this scheme, but neither host nor path. Of the
scheme's separator only the colon is looked at.
-/
def Hostless (url scheme : Text) : Prop :=
  7 < url.length
  ∧ ∃ spelled skip rest,
      trimmed url = spelled ++ ':' :: skip ++ rest
      ∧ KnownScheme spelled
      ∧ spelled.map Char.toLower = scheme
      ∧ skip.length = 2
      ∧ NoHostPath skip rest

/-- The part with host and path is empty in these cases only. -/
theorem hostPathSlice_eq_nil_iff {skip rest : Text}
    : hostPathSlice skip rest = [] ↔ NoHostPath skip rest := by
  rw [hostPathSlice, NoHostPath]
  by_cases early : '?' ∈ skip
  case pos => simp [early]
  case neg =>
    rw [if_neg early, and_iff_right early]
    by_cases mark : '?' ∈ rest
    case pos =>
      rw [if_pos mark, Cut.before_eq_nil_iff]
      simp [mark]
    case neg =>
      have other : rest.head? ≠ some '?' := fun first => mark (List.mem_of_head? first)
      rw [if_neg mark]
      by_cases hash : '#' ∈ skip
      case pos => simp [hash, other]
      case neg =>
        rw [if_neg hash, Cut.before_eq_nil_iff]
        simp [hash, other, mark]

/-- Such a text is one whose scheme is found and whose part with host and path is empty. -/
theorem hostless_iff {url scheme : Text}
    : Hostless url scheme
      ↔ 7 < url.length
        ∧ schemeSlice (trimmed url) = scheme
        ∧ (scheme = http ∨ scheme = https)
        ∧ scheme.length + 3 ≤ (trimmed url).length
        ∧ hostPathOf (trimmed url) = [] := by
  have colon : '?' ∉ [':'] ∧ '#' ∉ [':'] := by decide
  rw [Hostless]
  refine and_congr_right (fun _ => ?_)
  constructor
  case mp =>
    rintro ⟨spelled, skip, rest, text, known, rfl, skipped, none⟩
    rw [text, schemeSlice_skip known, hostPathOf_skip known skipped]
    refine ⟨rfl, known, ?_, ?_⟩
    · simp [skipped]
    · rw [← hostPathSlice_eq_nil_iff] at none
      exact (hostPathSlice_append colon skip rest).trans none
  case mpr =>
    rintro ⟨rfl, known, long, none⟩
    obtain ⟨spelled, skip, rest, text, known', skipped⟩ := exists_skip known long
    rw [text, hostPathOf_skip known' skipped] at none
    refine ⟨spelled, skip, rest, text, known', ?_, skipped, ?_⟩
    · rw [text, schemeSlice_skip known']
    · rw [← hostPathSlice_eq_nil_iff]
      exact (hostPathSlice_append colon skip rest).symm.trans none

/-- Only one scheme can be found in a text. -/
theorem Hostless.scheme_eq {url scheme other : Text} (h : Hostless url scheme)
    (h' : Hostless url other)
    : scheme = other :=
  (hostless_iff.mp h).2.1.symm.trans (hostless_iff.mp h').2.1

/-- A rejected text leaves the builder as it is or clears it, or it lacks host and path and
leaves its scheme.
-/
theorem rejected_cases {b after : Builder} {url : Text}
    (rejected : b.parse url = .ok (false, after))
    : (after = b ∨ after = .cleared) ∧ (∀ scheme, ¬Hostless url scheme)
      ∨ ∃ scheme, Hostless url scheme ∧ after = { Builder.cleared with scheme := scheme } := by
  rcases parse_ends b url with
    ⟨short, ends⟩ | ⟨unknown, long, ends⟩ | ⟨known, long, cut, ends⟩
    | ⟨known, long, skipped, none, ends⟩ | ⟨accepted, ends⟩
  · obtain ⟨-, rfl⟩ := Prod.mk.inj (Except.ok.inj (rejected.symm.trans ends))
    exact Or.inl ⟨Or.inl rfl, fun scheme held => Nat.not_lt.mpr short held.1⟩
  · obtain ⟨-, rfl⟩ := Prod.mk.inj (Except.ok.inj (rejected.symm.trans ends))
    refine Or.inl ⟨Or.inr rfl, ?_⟩
    intro scheme held
    obtain ⟨-, found, known, -⟩ := hostless_iff.mp held
    exact unknown (found ▸ known)
  · rw [ends] at rejected
    contradiction
  · obtain ⟨-, rfl⟩ := Prod.mk.inj (Except.ok.inj (rejected.symm.trans ends))
    exact Or.inr ⟨_, hostless_iff.mpr ⟨long, rfl, known, skipped, none⟩, rfl⟩
  · obtain ⟨verdict, -⟩ := Prod.mk.inj (Except.ok.inj (rejected.symm.trans ends))
    contradiction

/-- A rejected text leaves nothing behind exactly if it does not just lack host and path. Such a
text leaves its scheme, and the builder is as before only if it had the same scheme alone.
-/
theorem rejected_parse_iff {b after : Builder} {url : Text}
    (rejected : b.parse url = .ok (false, after))
    : after = b ∨ after = .cleared
      ↔ ∀ scheme, Hostless url scheme → b = { Builder.cleared with scheme := scheme } := by
  rcases rejected_cases rejected with ⟨clean, other⟩ | ⟨scheme, hostless, rfl⟩
  · exact iff_of_true clean (fun scheme held => absurd held (other scheme))
  · have stored : { Builder.cleared with scheme := scheme } ≠ .cleared := by
      intro same
      obtain ⟨-, -, known, -⟩ := hostless_iff.mp hostless
      have none : scheme = [] := congrArg Builder.scheme same
      subst none
      revert known
      decide
    rw [or_iff_left stored]
    constructor
    case mp =>
      rintro rfl other held
      rw [hostless.scheme_eq held]
    case mpr => exact fun before => (before scheme hostless).symm

/-- A text with another scheme clears the builder. -/
theorem rejected_parse_iff_unknown
    : ∃ after,
        { Builder.cleared with port := 81 }.parse "ftp://host/".toList = .ok (false, after)
        ∧ (after = { Builder.cleared with port := 81 } ∨ after = .cleared) := by
  have rejected
      : { Builder.cleared with port := 81 }.parse "ftp://host/".toList
        = .ok (false, .cleared) := by
    decide +kernel
  refine ⟨_, rejected, (rejected_parse_iff rejected).mpr ?_⟩
  intro scheme held
  obtain ⟨-, found, known, -⟩ := hostless_iff.mp held
  have unknown
      : ¬(schemeSlice (trimmed "ftp://host/".toList) = http
        ∨ schemeSlice (trimmed "ftp://host/".toList) = https) := by
    decide +kernel
  exact absurd (found ▸ known) unknown

/-- The scheme of a text without a host is left in the builder. -/
theorem rejected_scheme_left
    : ¬∀ (b after : Builder) (url : Text),
        b.parse url = .ok (false, after) → after = b ∨ after = .cleared := by
  intro claim
  have rejected
      : Builder.cleared.parse "http://?q".toList
        = .ok (false, { Builder.cleared with scheme := http }) := by
    decide +kernel
  have left := claim _ _ _ rejected
  revert left
  decide +kernel

end Nbsdk.Http
