import Nbsdk.Http.QueryCalls
import Nbsdk.Lib.Machine

/-! Sequences of calls on a URL builder.
Every call leaves a builder, also a `Parse` that throws: only the cut of host and path can
throw, and until then the scheme alone has been stored.
-/

namespace Nbsdk.Http

/-- A host that `Host` writes into the buffer of the string itself, and over nothing else. -/
abbrev ShortHost := { host : Text // host.length ≤ 16 }

/-- A call that changes the builder. -/
inductive BuilderCall
  | scheme (scheme : Text)
  | host (host : ShortHost)
  | port (port : Int)
  | addEncodedPathSegment (pathSegment : Text)
  | addEncodedPathSegments (pathSegment : Text)
  | setEncodedPathSegment (index : Int) (pathSegment : Text)
  | removePathSegment (index : Int)
  | query (call : QueryCall)
  | addEncodedFragment (fragment : Text)
  | parse (url : Text)
  deriving DecidableEq, Repr

namespace Builder

/-- The scheme that `Parse` finds and stores before it cuts anything else. -/
def parseScheme (url : Text) : Except OutOfRange Text := do
  let url ← trim url
  let scheme ← substr url 0 (find ':' url)
  .ok (scheme.map Char.toLower)

/-- The builder that `Parse` leaves: the one it returns, or the one it was filling when it
threw.
-/
def afterParse (b : Builder) (url : Text) : Builder :=
  match b.parse url with
  | .ok (_, left) => left
  | .error _ => { cleared with scheme := (parseScheme url).toOption.getD [] }

def call (b : Builder) : BuilderCall → Builder
  | .scheme scheme => b.setScheme scheme
  | .host host => b.setHost host.1
  | .port port => b.setPort port
  | .addEncodedPathSegment pathSegment => b.addEncodedPathSegment pathSegment
  | .addEncodedPathSegments pathSegment => b.addEncodedPathSegments pathSegment
  | .setEncodedPathSegment index pathSegment => b.setEncodedPathSegment index pathSegment
  | .removePathSegment index => b.removePathSegment index
  | .query call => b.queryCall call
  | .addEncodedFragment fragment => b.addEncodedFragment fragment
  | .parse url => b.afterParse url

def calls (b : Builder) (calls : List BuilderCall) : Builder := calls.foldl call b

theorem parseScheme_eq (url : Text) : parseScheme url = .ok (schemeSlice (trimmed url)) := by
  rw [parseScheme, trim_eq, Fallible.ok_bind, substr_zero, Fallible.ok_bind, truncate_find]
  rfl

/-- The part with host and path is cut out of the text only if it begins there. -/
theorem hostPath_eq_error {scheme text : Text} (short : text.length < scheme.length + 3)
    : hostPath scheme text = .error .outOfRange := by
  rw [hostPath, substr, if_neg (Nat.not_le.mpr short)]

/-- The ways in which `Parse` ends: it does not look at a short text, it accepts, it rejects
with nothing but the scheme stored, or it throws where host and path are cut.
-/
theorem parse_cases (b : Builder) (url : Text)
    : url.length ≤ 7 ∧ b.parse url = .ok (false, b)
      ∨ Accepted url ∧ b.parse url = .ok (true, (Slices.of (trimmed url)).builder)
      ∨ 7 < url.length ∧ ¬Accepted url
        ∧ ((∃ scheme, b.parse url = .ok (false, { cleared with scheme := scheme }))
          ∨ b.parse url = .error .outOfRange
            ∧ (schemeSlice (trimmed url) = http ∨ schemeSlice (trimmed url) = https)
            ∧ hostPath (schemeSlice (trimmed url)) (trimmed url) = .error .outOfRange) := by
  rcases parse_ends b url with
    ⟨short, ends⟩ | ⟨unknown, long, ends⟩ | ⟨known, long, cut, ends⟩
    | ⟨known, long, skipped, none, ends⟩ | ⟨accepted, ends⟩
  · exact Or.inl ⟨short, ends⟩
  · exact Or.inr (Or.inr ⟨long, fun held => unknown held.scheme, Or.inl ⟨[], ends⟩⟩)
  · refine Or.inr (Or.inr ⟨long, fun held => Nat.not_lt.mpr held.skipped cut, Or.inr ?_⟩)
    exact ⟨ends, known, hostPath_eq_error cut⟩
  · exact Or.inr (Or.inr ⟨long, fun held => held.hostPath none, Or.inl ⟨_, ends⟩⟩)
  · exact Or.inr (Or.inl ⟨accepted, ends⟩)

/-- Where `Parse` throws, the scheme is known and host and path cannot be cut. -/
theorem hostPath_of_throws {b : Builder} {url : Text} {failure : OutOfRange}
    (threw : b.parse url = .error failure)
    : ∃ text scheme,
        trim url = .ok text
        ∧ parseScheme url = .ok scheme
        ∧ (scheme = http ∨ scheme = https)
        ∧ hostPath scheme text = .error failure := by
  refine ⟨trimmed url, schemeSlice (trimmed url), trim_eq url, parseScheme_eq url, ?_⟩
  rcases parse_cases b url with
    ⟨_, returned⟩ | ⟨_, returned⟩ | ⟨_, _, ⟨scheme, returned⟩ | ⟨thrown, known, cut⟩⟩
  · rw [returned] at threw
    contradiction
  · rw [returned] at threw
    contradiction
  · rw [returned] at threw
    contradiction
  · rw [thrown] at threw
    exact ⟨known, Except.error.inj threw ▸ cut⟩

/-- A text changes nothing, or describes the builder, or clears it but for the scheme. -/
theorem afterParse_cases (b : Builder) (url : Text)
    : url.length ≤ 7 ∧ b.afterParse url = b
      ∨ Accepted url ∧ b.afterParse url = (Slices.of (trimmed url)).builder
      ∨ 7 < url.length ∧ ¬Accepted url
        ∧ ∃ scheme, b.afterParse url = { cleared with scheme := scheme } := by
  rw [afterParse]
  rcases parse_cases b url with
    ⟨short, returned⟩ | ⟨accepted, returned⟩
    | ⟨long, rejected, ⟨scheme, returned⟩ | ⟨thrown, _, _⟩⟩
  · exact Or.inl ⟨short, by rw [returned]⟩
  · exact Or.inr (Or.inl ⟨accepted, by rw [returned]⟩)
  · exact Or.inr (Or.inr ⟨long, rejected, scheme, by rw [returned]⟩)
  · exact Or.inr (Or.inr ⟨long, rejected, _, by rw [thrown]⟩)

end Builder

end Nbsdk.Http
