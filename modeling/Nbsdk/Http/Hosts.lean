import Nbsdk.Http.Acceptance

/-! The two ways of setting a host.
The setter writes the lower-case characters behind the end of the cleared text, and the parser
keeps the letter case that it finds.
-/

namespace Nbsdk.Http

/-- A host without the characters that end one. -/
structure PlainHost (host : Text) : Prop where
  nonempty : host ≠ []
  absent : ∀ char ∈ hostEnds, char ∉ host

/-- The text of a URL with this host. -/
def hostUrl (scheme host : Text) : Text := urlText scheme (host ++ ['/'])

/-- Both ways leave the host in lower case, and spellings that differ in letter case only have
the same host and the same text.
-/
structure HostCanonical (b : Builder) (scheme host : Text) : Prop where
  set : (b.setHost host).host = host.map Char.toLower
  parsed
    : ∃ parsed,
        b.parse (hostUrl scheme host) = .ok (true, parsed)
        ∧ parsed.host = host.map Char.toLower
  alike
    : ∀ other u v,
        PlainHost other
        → other.map Char.toLower = host.map Char.toLower
        → HttpUrl.ofText (hostUrl scheme host) = .ok u
        → HttpUrl.ofText (hostUrl scheme other) = .ok v
        → u.host = v.host ∧ u.url = v.url

/-- The setter leaves no host, since the cleared text keeps its length. -/
theorem Builder.host_setHost (b : Builder) {host : Text} (nonempty : host ≠ [])
    : (b.setHost host).host = [] := by
  rw [Builder.setHost, if_neg nonempty]

namespace PlainHost

variable {scheme host : Text} (plain : PlainHost host) (known : KnownScheme scheme)

include plain

/-- A slash behind the host is where host and path are cut. -/
theorem slices : hostPathSlice [] (trimmedEnd (host ++ ['/'])) = host ++ ['/'] := by
  have mark : '?' ∉ host ++ ['/'] := by simp [plain.absent '?' (by decide)]
  have hash : '#' ∉ host ++ ['/'] := by simp [plain.absent '#' (by decide)]
  have kept : trimmedEnd (host ++ ['/']) = host ++ ['/'] := by
    refine trimmedEnd_eq_self ?_
    intro char ends
    rw [List.getLast?_concat, Option.some.injEq] at ends
    subst ends
    decide
  rw [kept, hostPathSlice, if_neg List.not_mem_nil, if_neg mark, if_neg List.not_mem_nil,
    Cut.before_of_not_mem hash]

theorem hostSlice_eq : hostSlice (host ++ ['/']) = host := by
  have colon : ':' ∉ host ++ ['/'] := by simp [plain.absent ':' (by decide)]
  rw [hostSlice, if_neg colon, Cut.before_append_cons (plain.absent '/' (by decide))]

include known

/-- The parser keeps the host as it is spelled. -/
theorem exists_parse
    : ∃ parsed : Builder,
        (∀ b : Builder, b.parse (hostUrl scheme host) = .ok (true, parsed))
        ∧ parsed.scheme = scheme.map Char.toLower
        ∧ parsed.host = host := by
  have long : 7 < (hostUrl scheme host).length := by
    have four := known.length
    have one := List.length_pos_of_ne_nil plain.nonempty
    simp only [hostUrl, urlText, List.length_append, List.length_cons, List.length_nil]
    omega
  refine ⟨(restSlices (scheme.map Char.toLower) (trimmedEnd (host ++ ['/']))).builder,
    ?_, rfl, ?_⟩
  · intro b
    refine (parse_urlText_iff known long).mpr ⟨?_, rfl⟩
    rw [plain.slices]
    simp
  · rw [Slices.builder, restSlices, plain.slices]
    exact plain.hostSlice_eq

/-- The printed text has the host up to its second colon. -/
theorem exists_ofText
    : ∃ u port,
        HttpUrl.ofText (hostUrl scheme host) = .ok u
        ∧ u.host = host
        ∧ u.url = scheme.map Char.toLower ++ [':', '/', '/'] ++ (host ++ ':' :: port) := by
  obtain ⟨parsed, parses, spelled, kept⟩ := plain.exists_parse known
  have printed := (Builder.wellformed_of_parse (parses .cleared)).toString_eq
  refine ⟨.init parsed,
    decimal parsed.printedPort ++ parsed.pathText ++ marked '?' parsed.queryPart
      ++ marked '#' parsed.fragmentPart, ?_, kept, ?_⟩
  · rw [HttpUrl.ofText, parses, Fallible.ok_bind]
  · change parsed.toString = _
    rw [printed, urlText, spelled, Builder.restText, Builder.authorityText, kept]
    simp

end PlainHost

/-- The stored host is never the canonical one after both ways. The setter leaves none, the
parser leaves it in lower case only if it was spelled so, and two spellings have the same host
or the same text only if they are one.
-/
theorem hosts_not_canonical (b : Builder) {scheme host : Text} (known : KnownScheme scheme)
    (plain : PlainHost host)
    : ¬HostCanonical b scheme host
      ∧ (b.setHost host).host = []
      ∧ (∃ parsed,
          b.parse (hostUrl scheme host) = .ok (true, parsed)
          ∧ (parsed.host = host.map Char.toLower ↔ host.map Char.toLower = host))
      ∧ ∀ other u v,
          PlainHost other
          → HttpUrl.ofText (hostUrl scheme host) = .ok u
          → HttpUrl.ofText (hostUrl scheme other) = .ok v
          → (u.host = v.host ↔ host = other) ∧ (u.url = v.url ↔ host = other) := by
  have unset := b.host_setHost plain.nonempty
  refine ⟨?_, unset, ?_, ?_⟩
  · intro canonical
    have some := canonical.set
    rw [unset, eq_comm, List.map_eq_nil_iff] at some
    exact plain.nonempty some
  · obtain ⟨parsed, parses, -, kept⟩ := plain.exists_parse known
    exact ⟨parsed, parses b, by rw [kept, eq_comm]⟩
  · intro other u v otherPlain made otherMade
    obtain ⟨u', port, done, host, url⟩ := plain.exists_ofText known
    obtain ⟨v', port', done', host', url'⟩ := otherPlain.exists_ofText known
    obtain rfl := Except.ok.inj (done.symm.trans made)
    obtain rfl := Except.ok.inj (done'.symm.trans otherMade)
    refine ⟨by rw [host, host'], ?_⟩
    constructor
    case mp =>
      intro same
      rw [url, url', List.append_cancel_left_eq] at same
      exact (Cut.append_cons_inj (plain.absent ':' (by decide))
        (otherPlain.absent ':' (by decide)) same).1
    case mpr =>
      rintro rfl
      rw [Except.ok.inj (done.symm.trans done')]

theorem hosts_not_canonical_lower
    : ¬HostCanonical .cleared https "h".toList :=
  (hosts_not_canonical .cleared (Or.inr (by decide))
    ⟨by decide, forall_mem_of_all (by decide)⟩).1

/-- The setter loses every host. -/
theorem host_lost
    : ¬∀ (b : Builder) (scheme host : Text),
        KnownScheme scheme → PlainHost host → HostCanonical b scheme host := by
  intro canonical
  have set := (canonical .cleared http "Example.COM".toList (Or.inl (by decide))
    ⟨by decide, forall_mem_of_all (by decide)⟩).set
  exact absurd set (by decide)

end Nbsdk.Http
