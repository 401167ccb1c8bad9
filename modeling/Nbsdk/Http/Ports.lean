import Nbsdk.Http.Accessors
import Nbsdk.Http.Calls

/-! The ports of builders and URLs.
The setter looks at the range, the parser takes any number, and the scheme's own port is filled
in only while printing.
-/

namespace Nbsdk.Http

/-- The range that is documented for the port of a URL. -/
def ValidPort (port : Int) : Prop := 1 ≤ port ∧ port ≤ 65535

/-- A builder's port is in this range or unset. -/
def PortOk (port : Int) : Prop := port = -1 ∨ ValidPort port

theorem defaultPort_valid {scheme : Text} (known : scheme = http ∨ scheme = https)
    : ValidPort (defaultPort scheme) := by
  rcases known with plain | secure
  · subst plain
    exact ⟨by decide, by decide⟩
  · subst secure
    exact ⟨by decide, by decide⟩

/-- The port of a builder that slices describe has a property of the scheme's own port exactly
if there is no port text, or one that is read as such a number.
-/
theorem port_builder_iff {numbers : Int → Prop} {s : Slices}
    (known : numbers (defaultPort s.scheme))
    : numbers s.builder.port ↔ s.portText = [] ∨ numbers (atoi s.portText) := by
  rw [Slices.builder, portNumber]
  split
  case isTrue none => exact iff_of_true known (Or.inl none)
  case isFalse some => exact ⟨Or.inr, fun read => read.resolve_left some⟩

/-- The parser accepts the text and finds no port text in it, or one that is read as a number
with this property.
-/
structure ReadsPort (numbers : Int → Prop) (url : Text) : Prop where
  accepted : Accepted url
  read
    : (Slices.of (trimmed url)).portText = []
      ∨ numbers (atoi (Slices.of (trimmed url)).portText)

/-- An accepted text leaves a port with a property of the known schemes' ports exactly if it
reads one.
-/
theorem readsPort_iff {numbers : Int → Prop} {url : Text} (accepted : Accepted url)
    (known : numbers (defaultPort (Slices.of (trimmed url)).scheme))
    : numbers (Slices.of (trimmed url)).builder.port ↔ ReadsPort numbers url := by
  rw [port_builder_iff known]
  exact ⟨fun read => ⟨accepted, read⟩, fun reads => reads.read⟩

theorem scheme_of (text : Text) : (Slices.of text).scheme = schemeSlice text := rfl

theorem defaultPort_accepted {url : Text} (accepted : Accepted url)
    : ValidPort (defaultPort (Slices.of (trimmed url)).scheme) := by
  rw [scheme_of]
  exact defaultPort_valid accepted.scheme

namespace BuilderCall

/-- The call decides the port, whatever it was. -/
def decidesPort : BuilderCall → Bool
  | .port _ => true
  | .parse url => 7 < url.length
  | _ => false

/-- The call sets a port in range. -/
def SetsValidPort : BuilderCall → Prop
  | .port number => ValidPort number
  | .parse url => ReadsPort ValidPort url
  | _ => False

theorem SetsValidPort.decidesPort {call : BuilderCall} (sets : call.SetsValidPort)
    : call.decidesPort = true := by
  cases call with
  | port => rfl
  | parse url => simpa [BuilderCall.decidesPort] using ReadsPort.accepted sets |>.long
  | scheme | host | addEncodedPathSegment | addEncodedPathSegments | setEncodedPathSegment
  | removePathSegment | query | addEncodedFragment => contradiction

/-- The call does not read a port that is neither in range nor the number for an unset one. -/
def KeepsPortOk : BuilderCall → Prop
  | .parse url => Accepted url → ReadsPort PortOk url
  | _ => True

end BuilderCall

namespace Builder

theorem setPort_port (b : Builder) (port : Int)
    : (b.setPort port).port = port ∧ ValidPort port
      ∨ (b.setPort port).port = -1 ∧ ¬ValidPort port := by
  simp only [setPort, ValidPort]
  split
  case isTrue outside => exact Or.inr ⟨rfl, by omega⟩
  case isFalse inside => exact Or.inl ⟨rfl, by omega⟩

/-- Other calls than `Port` and `Parse` leave the port alone, by their kinds. -/
theorem call_port {b : Builder} {call : BuilderCall} (notPort : ∀ port, call ≠ .port port)
    (notParse : ∀ url, call ≠ .parse url)
    : (b.call call).port = b.port := by
  cases call with
  | port port => exact absurd rfl (notPort port)
  | parse url => exact absurd rfl (notParse url)
  | scheme => rfl
  | query call =>
      have kept := congrArg Builder.port (unqueried_queryCalls b [call])
      exact kept
  | host | addEncodedPathSegment | addEncodedPathSegments | removePathSegment
  | addEncodedFragment =>
      simp only [call, setHost, addEncodedPathSegment, addEncodedPathSegments,
        removePathSegment, addEncodedFragment]
      split <;> rfl
  | setEncodedPathSegment =>
      simp only [call, setEncodedPathSegment]
      split
      · rfl
      · split
        · rfl
        · split <;> rfl

/-- A call leaves the port in range if it sets such a port, or leaves alone one in range. -/
theorem validPort_call_iff {b : Builder} {call : BuilderCall}
    : ValidPort (b.call call).port
      ↔ call.SetsValidPort ∨ call.decidesPort = false ∧ ValidPort b.port := by
  have unset : ¬ValidPort (-1) := fun valid => by simp [ValidPort] at valid
  cases call with
  | port number =>
      simp only [BuilderCall.SetsValidPort, BuilderCall.decidesPort, Bool.true_eq_false,
        false_and, or_false]
      rcases b.setPort_port number with ⟨set, valid⟩ | ⟨set, invalid⟩
      · exact iff_of_true (Eq.substr set valid) valid
      · exact iff_of_false (Eq.substr set unset) invalid
  | parse url =>
      simp only [BuilderCall.SetsValidPort, BuilderCall.decidesPort, call]
      rcases afterParse_cases b url with
        ⟨short, same⟩ | ⟨accepted, read⟩ | ⟨long, rejected, scheme, cleared⟩
      · have unread : ¬ReadsPort ValidPort url :=
          fun reads => Nat.not_lt.mpr short reads.accepted.long
        rw [same]
        simp [unread, short]
      · rw [read, readsPort_iff accepted (defaultPort_accepted accepted)]
        simp [accepted.long]
      · have unread : ¬ReadsPort ValidPort url := fun reads => rejected reads.accepted
        rw [cleared]
        simp [unread, long]
        exact unset
  | scheme | host | addEncodedPathSegment | addEncodedPathSegments | setEncodedPathSegment
  | removePathSegment | query | addEncodedFragment =>
      rw [call_port (by simp) (by simp)]
      simp [BuilderCall.SetsValidPort, BuilderCall.decidesPort]

/-- A call keeps the port in range or unset unless it reads another number. -/
theorem portOk_call_iff {b : Builder} (ok : PortOk b.port) {call : BuilderCall}
    : PortOk (b.call call).port ↔ call.KeepsPortOk := by
  cases call with
  | port number =>
      refine iff_of_true ?_ trivial
      rcases b.setPort_port number with ⟨set, valid⟩ | ⟨set, invalid⟩
      · exact Or.inr (Eq.substr set valid)
      · exact Or.inl set
  | parse url =>
      simp only [BuilderCall.KeepsPortOk, call]
      rcases afterParse_cases b url with
        ⟨short, same⟩ | ⟨accepted, read⟩ | ⟨_, rejected, scheme, cleared⟩
      · rw [same]
        refine iff_of_true ok (fun accepted => ?_)
        exact absurd accepted.long (Nat.not_lt.mpr short)
      · have known : PortOk (defaultPort (Slices.of (trimmed url)).scheme) :=
          Or.inr (defaultPort_accepted accepted)
        rw [read, readsPort_iff accepted known]
        exact ⟨fun reads _ => reads, fun reads => reads accepted⟩
      · rw [cleared]
        exact iff_of_true (Or.inl rfl) (fun accepted => absurd accepted rejected)
  | scheme | host | addEncodedPathSegment | addEncodedPathSegments | setEncodedPathSegment
  | removePathSegment | query | addEncodedFragment =>
      rw [call_port (by simp) (by simp)]
      exact iff_of_true ok trivial

/-- The last call that decides the port sets one in range. -/
def LastSetsValidPort (calls : List BuilderCall) : Prop :=
  ∃ call, (calls.filter BuilderCall.decidesPort).getLast? = some call ∧ call.SetsValidPort

/-- After calls on a new builder the port is in range exactly if the last call that decides it
sets such a port, by induction over the calls.
-/
theorem validPort_calls_iff (calls : List BuilderCall)
    : ValidPort (cleared.calls calls).port ↔ LastSetsValidPort calls := by
  induction calls using List.reverseRecOn with
  | nil =>
      refine iff_of_false (fun valid => ?_) (fun sets => ?_)
      · exact absurd valid.1 (by decide)
      · obtain ⟨call, last, _⟩ := sets
        contradiction
  | append_singleton calls call ih =>
      have behind : cleared.calls (calls ++ [call]) = (cleared.calls calls).call call := by
        simp [Builder.calls]
      rw [behind, validPort_call_iff, ih]
      simp only [LastSetsValidPort, List.filter_append]
      cases decides : call.decidesPort with
      | true => simp [decides]
      | false =>
          have alone : ¬call.SetsValidPort := by
            intro sets
            rw [sets.decidesPort] at decides
            contradiction
          simp [decides, alone]

end Builder

-----------------------------------------------------------------------------------------
-- The port of a URL
-----------------------------------------------------------------------------------------

/-- The URL's port is in range, and it is the number printed behind the host. -/
structure HttpUrl.PortDocumented (u : HttpUrl) : Prop where
  range : ValidPort u.port
  printed
    : ∃ rest : Text,
        u.url
          = u.scheme ++ [':', '/', '/'] ++ Builder.shownHost u.host ++ ':' :: decimal u.port ++ rest
        ∧ ∀ char, rest.head? = some char → char.isDigit = false

/-- What is printed behind the port starts with a mark, by which parts are there. -/
theorem Builder.head_behind_port (b : Builder) {char : Char}
    (head : (b.pathText ++ marked '?' b.queryPart ++ marked '#' b.fragmentPart).head? = some char)
    : char ∈ ['/', '?', '#'] := by
  cases segments : b.encodedPathSegments with
  | cons first rest =>
      simp [pathText, segments] at head
      simp [← head]
  | nil =>
      cases query : b.queryPart with
      | some part =>
          simp [pathText, segments, query, marked] at head
          simp [← head]
      | none =>
          cases fragment : b.fragmentPart with
          | some part =>
              simp [pathText, segments, query, fragment, marked] at head
              simp [← head]
          | none => simp [pathText, segments, query, fragment, marked] at head

/-- A builder whose port is set prints it. -/
theorem HttpUrl.portDocumented_init_iff {b : Builder}
    : (init b).PortDocumented ↔ ValidPort b.port := by
  refine ⟨PortDocumented.range, fun valid => ⟨valid, ?_⟩⟩
  have printed : b.printedPort = b.port := by
    rw [Builder.printedPort, if_neg]
    intro unset
    rw [unset] at valid
    exact absurd valid.1 (by decide)
  refine ⟨b.pathText ++ marked '?' b.queryPart ++ marked '#' b.fragmentPart, ?_, ?_⟩
  · apply (Builder.toString_eq_front b).trans
    rw [Builder.frontText, printed]
    simp [init]
  · intro char head
    have noDigit : ∀ char ∈ ['/', '?', '#'], char.isDigit = false := forall_mem_of_all (by decide)
    exact noDigit char (b.head_behind_port head)

namespace Builder

/-- Through any calls on a new builder, with hosts that fit into the string's own buffer, the
port stays unset or in range exactly if no accepted text has a port text with another number;
a URL that is built has the documented port exactly if the last call that decides it sets one
in range; and a URL of an accepted text has it exactly if there is no port text or one in
range.
-/
theorem port_documented_iff (calls : List BuilderCall)
    : ((∀ before after, calls = before ++ after → PortOk (cleared.calls before).port)
        ↔ ∀ call ∈ calls, call.KeepsPortOk)
      ∧ ((cleared.calls calls).build.PortDocumented ↔ LastSetsValidPort calls)
      ∧ ∀ url parsed u,
          cleared.parse url = .ok (true, parsed)
          → HttpUrl.ofText url = .ok u
          → (u.PortDocumented ↔ ReadsPort ValidPort url) := by
  refine ⟨?_, ?_, ?_⟩
  · rw [← @Machine.throughout_total_iff _ _ call _ cleared calls]
    exact Machine.foldl_always_iff (fun b : Builder => PortOk b.port) _
      (fun ok => portOk_call_iff ok) (Or.inl rfl) calls
  · exact HttpUrl.portDocumented_init_iff.trans (validPort_calls_iff calls)
  · intro url parsed u parses made
    obtain ⟨accepted, read⟩ := parse_eq_true_iff.mp parses
    have same : HttpUrl.init parsed = u := by
      rw [HttpUrl.ofText, parses] at made
      exact Except.ok.inj made
    rw [← same, HttpUrl.portDocumented_init_iff, read]
    exact readsPort_iff accepted (defaultPort_accepted accepted)

/-- A text with a port, and a builder whose port is set after a text without. -/
theorem port_documented_iff_set
    : (cleared.calls [.parse "http://h/a".toList, .port 8080]).build.PortDocumented
      ∧ ∀ u, HttpUrl.ofText "https://h:65535/".toList = .ok u → u.PortDocumented := by
  have accepted
      : cleared.parse "https://h:65535/".toList
        = .ok (true, (Slices.of "https://h:65535/".toList).builder) := by
    decide +kernel
  obtain ⟨_, built, read⟩ := port_documented_iff [.parse "http://h/a".toList, .port 8080]
  refine ⟨built.mpr ⟨.port 8080, by decide, by decide, by decide⟩, fun u made => ?_⟩
  apply (read _ _ u accepted made).mpr
  exact ⟨(parse_eq_true_iff.mp accepted).1, Or.inr ⟨by decide +kernel, by decide +kernel⟩⟩

/-- A port text with a number out of range is accepted, and a URL that is built without a port
has none although one is printed.
-/
theorem ports_undocumented
    : (¬∀ calls : List BuilderCall, PortOk (cleared.calls calls).port)
      ∧ ¬∀ calls : List BuilderCall,
          (cleared.calls calls).scheme ≠ [] → (cleared.calls calls).build.PortDocumented := by
  constructor
  · intro claim
    have read : (cleared.calls [.parse "http://h:99999/".toList]).port = 99999 := by
      decide +kernel
    rcases claim [.parse "http://h:99999/".toList] with unset | valid
    · rw [read] at unset
      contradiction
    · rw [read] at valid
      exact absurd valid.2 (by decide)
  · intro claim
    have documented := claim [.scheme http] (by decide)
    exact absurd documented.range.1 (by decide)

end Builder

end Nbsdk.Http
