import Nbsdk.Http.Accessors

/-! The requests of http_request.cc with their builder.
A header is looked up with the map's index operator, which stores an empty value where there
was none; the builder later keeps whatever is stored.
-/

namespace Nbsdk.Http

/-- The type of `headers_`. -/
abbrev Headers := SortedMap Text Text

/-- `RequestBody`, which has no members yet. -/
structure RequestBody
  deriving DecidableEq, Repr

/-- `HttpRequest`; `none` stands for a null pointer. -/
structure HttpRequest where
  url : Option HttpUrl
  method : Text
  headers : Headers
  body : Option RequestBody
  deriving DecidableEq, Repr

/-- `HttpRequest::Builder`. -/
structure HttpRequest.Builder where
  url : Option HttpUrl
  method : Text
  headers : Headers
  body : Option RequestBody
  deriving DecidableEq, Repr

namespace HttpRequest

namespace Builder

/-- The default constructor. -/
def fresh : Builder where
  url := none
  method := []
  headers := .empty
  body := none

/-- The constructors from a request and from a pointer to one. -/
def ofRequest (request : HttpRequest) : Builder where
  url := request.url
  method := request.method
  headers := request.headers
  body := request.body

/-- `Url` with a text, whose parser may throw. -/
def setUrlText (b : Builder) (url : Text) : Except OutOfRange Builder :=
  if url = [] then .ok b
  else do
    let url ← HttpUrl.ofText url
    .ok { b with url := some url }

/-- `Url`. -/
def setUrl (b : Builder) (url : HttpUrl) : Builder := { b with url := some url }

def addHeader (b : Builder) (name value : Text) : Builder :=
  if name = [] then b
  else if value = [] then b
  else { b with headers := b.headers.emplace name value }

def removeHeader (b : Builder) (name : Text) : Builder :=
  if name = [] then b else { b with headers := b.headers.erase name }

def clearHeaders (b : Builder) : Builder := { b with headers := .empty }

/-- `Method`. -/
def setMethod (b : Builder) (method : Text) (body : Option RequestBody) : Builder :=
  if method = [] then b else { b with method, body }

def build (b : Builder) : HttpRequest where
  url := b.url
  method := b.method
  headers := b.headers
  body := b.body

end Builder

/-- `Header`: the value, and the request with what the index operator leaves in the map. -/
def header (r : HttpRequest) (name : Text) : Text × HttpRequest :=
  ((r.headers.find? name).getD [], { r with headers := r.headers.emplace name [] })

def newBuilder (r : HttpRequest) : Builder := .ofRequest r

/-- The request after lookups of these names. -/
def lookups (r : HttpRequest) (names : List Text) : HttpRequest :=
  names.foldl (fun r name => (r.header name).2) r

/-- The request that a new builder makes with one more header. -/
def withHeader (r : HttpRequest) (name value : Text) : HttpRequest :=
  (r.newBuilder.addHeader name value).build

end HttpRequest

-----------------------------------------------------------------------------------------
-- What a builder stores
-----------------------------------------------------------------------------------------

namespace HttpRequest

/-- A call on a builder; a `Url` that throws leaves the builder as it was. -/
inductive RequestCall
  | urlText (url : Text)
  | url (url : HttpUrl)
  | addHeader (name value : Text)
  | removeHeader (name : Text)
  | clearHeaders
  | method (method : Text) (body : Option RequestBody)
  deriving DecidableEq, Repr

namespace Builder

def call (b : Builder) : RequestCall → Builder
  | .urlText url => (b.setUrlText url).toOption.getD b
  | .url url => b.setUrl url
  | .addHeader name value => b.addHeader name value
  | .removeHeader name => b.removeHeader name
  | .clearHeaders => b.clearHeaders
  | .method method body => b.setMethod method body

def calls (b : Builder) (calls : List RequestCall) : Builder := calls.foldl call b

end Builder

/-- Every header has a name and a value. -/
def Valued (headers : Headers) : Prop :=
  ∀ name value, headers.find? name = some value → name ≠ [] ∧ value ≠ []

/-- Every call keeps the headers named and valued, by its kind. -/
theorem Valued.call {b : Builder} (h : Valued b.headers) (call : RequestCall)
    : Valued (b.call call).headers := by
  cases call with
  | urlText url =>
      simp only [Builder.call, Builder.setUrlText]
      split
      · exact h
      · cases HttpUrl.ofText url <;> exact h
  | url => exact h
  | clearHeaders =>
      intro name value found
      contradiction
  | method method body =>
      simp only [Builder.call, Builder.setMethod]
      split <;> exact h
  | removeHeader name =>
      simp only [Builder.call, Builder.removeHeader]
      split
      · exact h
      · intro other value found
        exact h other value (SortedMap.find?_erase_eq_some.mp found).1
  | addHeader name value =>
      simp only [Builder.call, Builder.addHeader]
      split
      case isTrue => exact h
      case isFalse named =>
        split
        case isTrue => exact h
        case isFalse valued =>
          intro other stored found
          by_cases same : other = name
          · subst same
            rw [SortedMap.find?_emplace_self] at found
            obtain rfl := Option.some.inj found
            refine ⟨named, ?_⟩
            cases there : b.headers.find? other with
            | none => exact valued
            | some kept => exact (h other kept there).2
          · rw [SortedMap.find?_emplace_of_ne same] at found
            exact h other stored found

/-- A request that is built has no header without a name or a value, by induction. -/
theorem valued_build (calls : List RequestCall)
    : Valued (Builder.fresh.calls calls).build.headers := by
  suffices kept : ∀ b : Builder, Valued b.headers → Valued (b.calls calls).headers from
    kept .fresh (fun name value found => by contradiction)
  induction calls with
  | nil => exact fun b h => h
  | cons call rest ih => exact fun b h => ih (b.call call) (h.call call)

-----------------------------------------------------------------------------------------
-- What lookups leave behind
-----------------------------------------------------------------------------------------

variable {r : HttpRequest}

/-- A lookup changes nothing but the headers. -/
theorem lookups_eq (r : HttpRequest) (names : List Text)
    : r.lookups names = { r with headers := (r.lookups names).headers } := by
  induction names generalizing r with
  | nil => rfl
  | cons name rest ih => exact ih (r.header name).2

/-- Lookups store an empty value at every name that had none, by induction over them. -/
theorem find?_lookups (r : HttpRequest) (names : List Text) (name : Text)
    : (r.lookups names).headers.find? name
      = if name ∈ names then some ((r.headers.find? name).getD []) else r.headers.find? name := by
  induction names generalizing r with
  | nil => rfl
  | cons first rest ih =>
      apply (ih (r.header first).2).trans
      simp only [header, List.mem_cons]
      by_cases same : name = first
      · subst same
        simp
      · simp [SortedMap.find?_emplace_of_ne same, same]

/-- Lookups of names that are there leave the request as it is, and others do not. -/
theorem lookups_headers_iff (r : HttpRequest) (names : List Text)
    : (r.lookups names).headers = r.headers ↔ ∀ name ∈ names, r.headers.find? name ≠ none := by
  constructor
  · intro same name looked absent
    have stored := find?_lookups r names name
    rw [same, absent, if_pos looked] at stored
    contradiction
  · intro present
    apply SortedMap.ext_find?
    intro name
    rw [find?_lookups]
    split
    case isTrue looked =>
      obtain ⟨value, there⟩ := Option.ne_none_iff_exists'.mp (present name looked)
      rw [there, Option.getD_some]
    case isFalse => rfl

/-- Nobody can tell that these names were looked up: the headers are the same, and so is what
a new builder makes of the request with one more header, which maps this header to its value
and the others as before.
-/
structure Unobserved (r : HttpRequest) (names : List Text) (name value : Text) : Prop where
  headers : (r.lookups names).headers = r.headers
  added : ((r.lookups names).withHeader name value).headers.find? name = some value
  others
    : ∀ other, other ≠ name →
        ((r.lookups names).withHeader name value).headers.find? other = r.headers.find? other
  same : (r.lookups names).withHeader name value = r.withHeader name value

/-- What a new builder makes of a request with one more header. -/
theorem find?_withHeader {name value : Text} (named : name ≠ []) (valued : value ≠ [])
    (other : Text)
    : (r.withHeader name value).headers.find? other
      = if other = name then some ((r.headers.find? name).getD value)
        else r.headers.find? other := by
  rw [withHeader, newBuilder, Builder.addHeader, if_neg named, if_neg valued]
  split
  case isTrue same =>
    subst same
    exact SortedMap.find?_emplace_self ..
  case isFalse apart => exact SortedMap.find?_emplace_of_ne apart

/-- Lookups of headers on a request that was built cannot be observed exactly if every name
looked up is one of its headers.
-/
theorem lookups_unobserved_iff {calls : List RequestCall} {names : List Text}
    {name value : Text} (named : name ≠ []) (valued : value ≠ [])
    (absent : (Builder.fresh.calls calls).build.headers.find? name = none)
    : Unobserved (Builder.fresh.calls calls).build names name value
      ↔ ∀ looked ∈ names, (Builder.fresh.calls calls).build.headers.find? looked ≠ none := by
  generalize (Builder.fresh.calls calls).build = r at absent
  rw [← lookups_headers_iff]
  refine ⟨Unobserved.headers, fun same => ?_⟩
  have unchanged : r.lookups names = r := by
    rw [lookups_eq, same]
  refine ⟨same, ?_, ?_, ?_⟩
  · rw [unchanged, find?_withHeader named valued, if_pos rfl, absent, Option.getD_none]
  · intro other apart
    rw [unchanged, find?_withHeader named valued, if_neg apart]
  · rw [unchanged]

/-- A request with one header. -/
def accepting : List RequestCall := [.addHeader "Accept".toList "*/*".toList]

theorem lookups_unobserved_iff_accepting
    : Unobserved (Builder.fresh.calls accepting).build ["Accept".toList, "Accept".toList]
        "Host".toList "h".toList :=
  (lookups_unobserved_iff (by decide) (by decide) (by decide)).mpr (by decide)

/-- A header is looked up before it is added, and then keeps the empty value. -/
theorem lookup_observed
    : ((Builder.fresh.calls accepting).build.lookups ["Host".toList]).headers
        ≠ (Builder.fresh.calls accepting).build.headers
      ∧ (((Builder.fresh.calls accepting).build.lookups ["Host".toList]).withHeader
          "Host".toList "h".toList).headers.find? "Host".toList = some []
      ∧ ¬Unobserved (Builder.fresh.calls accepting).build ["Host".toList] "Host".toList
          "h".toList := by
  have kept
      : (((Builder.fresh.calls accepting).build.lookups ["Host".toList]).withHeader
          "Host".toList "h".toList).headers.find? "Host".toList = some [] := by
    decide
  refine ⟨by decide, kept, fun unobserved => ?_⟩
  have added := unobserved.added
  rw [kept] at added
  contradiction

end HttpRequest

end Nbsdk.Http
