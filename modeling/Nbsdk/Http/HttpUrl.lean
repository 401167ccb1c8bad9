import Nbsdk.Http.StdString
import Nbsdk.Lib.Fallible
import Nbsdk.Lib.SortedMap
import Mathlib.Data.Char
import Mathlib.Data.List.Lex

/-! The URL builder of http_url.cc with its parser and its printer.
The parser searches the whole text and the part with host and path again and again, with
positions that may be npos and differences that may wrap.
-/

namespace Nbsdk.Http

def http : Text := ['h', 't', 't', 'p']

def https : Text := ['h', 't', 't', 'p', 's']

/-- `HttpUrl::DefaultPort`. -/
def defaultPort (scheme : Text) : Int :=
  if scheme = http then 80 else if scheme = https then 443 else -1

/-- The type of `encoded_query_names_and_values_`. -/
abbrev QueryMap := SortedMap Text (SortedSet Text)

/-- `HttpUrl::Builder`. -/
structure Builder where
  scheme : Text
  host : Text
  port : Int
  encodedPathSegments : List Text
  encodedQueryNamesAndValues : QueryMap
  encodedFragment : Text
  deriving DecidableEq, Repr

namespace Builder

/-- What `Clear` leaves, and the default constructor. -/
def cleared : Builder where
  scheme := []
  host := []
  port := -1
  encodedPathSegments := []
  encodedQueryNamesAndValues := .empty
  encodedFragment := []

-----------------------------------------------------------------------------------------
-- Components
-----------------------------------------------------------------------------------------

/-- `Scheme`. -/
def setScheme (b : Builder) (scheme : Text) : Builder :=
  { b with scheme := if scheme = http then http else if scheme = https then https else http }

/-- `Host`. The lower-case characters are written behind the end of the cleared text, which
keeps its length of zero. The string's own buffer has room for 16 of them; the source writes
any more over the members behind it, `port_` first, which no call of a `BuilderCall` does.
-/
def setHost (b : Builder) (host : Text) : Builder :=
  if host = [] then b else { b with host := [] }

/-- `Port`. -/
def setPort (b : Builder) (port : Int) : Builder :=
  { b with port := if port ≤ 0 ∨ 65535 < port then -1 else port }

/-- Erases the last segment, if there is one. -/
def pop (segments : List Text) : List Text := segments.dropLast

def push (segments : List Text) (segment : Text) : List Text :=
  if segment = [] then segments
  else if segment = ['.'] then segments
  else if segment = ['.', '.'] then pop segments
  else segments ++ [segment]

def addEncodedPathSegment (b : Builder) (pathSegment : Text) : Builder :=
  if pathSegment = [] then b
  else { b with encodedPathSegments := push b.encodedPathSegments pathSegment }

def addEncodedPathSegments (b : Builder) (pathSegment : Text) : Builder :=
  if pathSegment = [] then b
  else
    { b with
      encodedPathSegments :=
        (tokens '/' pathSegment).foldl
          (fun segments token => if token ≠ [] then push segments token else segments)
          b.encodedPathSegments }

def setEncodedPathSegment (b : Builder) (index : Int) (pathSegment : Text) : Builder :=
  if pathSegment = [] then b
  else if pathSegment = ['.'] ∨ pathSegment = ['.', '.'] then b
  else if index < 0 ∨ b.encodedPathSegments.length ≤ index then b
  else { b with encodedPathSegments := b.encodedPathSegments.set index.toNat pathSegment }

def removePathSegment (b : Builder) (index : Int) : Builder :=
  if index < 0 ∨ b.encodedPathSegments.length ≤ index then b
  else { b with encodedPathSegments := b.encodedPathSegments.eraseIdx index.toNat }

def addEncodedQueryParameter (b : Builder) (name value : Text) : Builder :=
  if name = [] then b
  else
    { b with
      encodedQueryNamesAndValues := b.encodedQueryNamesAndValues.addPair (name, value) }

def removeEncodedQueryParameter (b : Builder) (name value : Text) : Builder :=
  if name = [] then b
  else
    { b with
      encodedQueryNamesAndValues := b.encodedQueryNamesAndValues.removePair (name, value) }

/-- The overload of `RemoveEncodedQueryParameter` for all values of a name. -/
def removeEncodedQueryParameters (b : Builder) (name : Text) : Builder :=
  if name = [] then b
  else
    { b with encodedQueryNamesAndValues := b.encodedQueryNamesAndValues.erase name }

def addEncodedFragment (b : Builder) (fragment : Text) : Builder :=
  if fragment = [] then b else { b with encodedFragment := fragment }

-----------------------------------------------------------------------------------------
-- Parsing
-----------------------------------------------------------------------------------------

/-- The five erasures on each side, one kind of blank after another. -/
def trim (url : Text) : Except OutOfRange Text := do
  let url ← erase url 0 (findFirstNotOf ' ' url)
  let url ← erase url 0 (findFirstNotOf '\t' url)
  let url ← erase url 0 (findFirstNotOf '\n' url)
  let url ← erase url 0 (findFirstNotOf '\x0c' url)
  let url ← erase url 0 (findFirstNotOf '\r' url)
  let url ← erase url (plusOne (findLastNotOf ' ' url)) none
  let url ← erase url (plusOne (findLastNotOf '\t' url)) none
  let url ← erase url (plusOne (findLastNotOf '\n' url)) none
  let url ← erase url (plusOne (findLastNotOf '\x0c' url)) none
  erase url (plusOne (findLastNotOf '\r' url)) none

/-- The text of host, port and path, three characters behind the scheme. -/
def hostPath (scheme url : Text) : Except OutOfRange Text :=
  let pathStart := scheme.length + 3
  let pathEnd :=
    match find '?' url with
    | some queryStart => queryStart
    | none =>
        match find '#' url with
        | some fragmentStart => fragmentStart
        | none => url.length
  substr url pathStart (minus pathEnd pathStart)

/-- The text between the port's colon and the first slash. -/
def portText (hostPath : Text) (portStart : Nat) : Except OutOfRange Text :=
  match find '/' hostPath with
  | none => substr hostPath (portStart + 1) none
  | some portEnd => substr hostPath (portStart + 1) (minus portEnd (portStart + 1))

def parseHost (b : Builder) (hostPath : Text) : Except OutOfRange Builder :=
  match find ':' hostPath with
  | none => do
      let host ←
        match find '/' hostPath with
        | none => .ok hostPath
        | some pathStart => substr hostPath 0 (some pathStart)
      .ok { b with port := defaultPort b.scheme, host := host }
  | some portStart => do
      let host ← substr hostPath 0 (some portStart)
      let portS ← portText hostPath portStart
      .ok
        { b with
          host := host
          port := if portS ≠ [] then atoi portS else defaultPort b.scheme }

def parsePath (b : Builder) (hostPath : Text) : Except OutOfRange Builder := do
  -- without a slash the position wraps, and the path starts with the host
  let path ← substr hostPath (plusOne (find '/' hostPath)) none
  .ok (if path ≠ [] then b.addEncodedPathSegments path else b)

/-- The text between the first question mark and the first hash. -/
def queryText (url : Text) : Except OutOfRange Text :=
  match find '?' url with
  | none => .ok []
  | some queryStart =>
      match find '#' url with
      | none => substr url (queryStart + 1) none
      | some fragmentStart =>
          substr url (queryStart + 1) (minus fragmentStart (queryStart + 1))

/-- Adds one piece of the query, split at its first equals sign. -/
def parseParameter (b : Builder) (s : Text) : Except OutOfRange Builder :=
  if s = [] then .ok b
  else
    match find '=' s with
    | none => .ok (b.addEncodedQueryParameter s [])
    | some p => do
        let param ← substr s 0 (some p)
        let value ← substr s (p + 1) none
        .ok (b.addEncodedQueryParameter param value)

def parseQuery (b : Builder) (url : Text) : Except OutOfRange Builder := do
  let query ← queryText url
  if query = [] then .ok b
  else (tokens '&' query).foldlM parseParameter b

def parseFragment (b : Builder) (url : Text) : Except OutOfRange Builder :=
  match find '#' url with
  | none => .ok b
  | some fragmentStart => do
      let fragment ← substr url (fragmentStart + 1) none
      .ok (b.addEncodedFragment fragment)

/-- `Parse` after the scheme. -/
def parseComponents (b : Builder) (url : Text) : Except OutOfRange (Bool × Builder) := do
  let hostPath ← hostPath b.scheme url
  if hostPath = [] then .ok (false, b)
  else do
    let b ← b.parseHost hostPath
    let b ← b.parsePath hostPath
    let b ← b.parseQuery url
    let b ← b.parseFragment url
    .ok (true, b)

/-- `Parse`: the verdict and the builder that is left. -/
def parse (b : Builder) (url : Text) : Except OutOfRange (Bool × Builder) :=
  if url = [] ∨ url.length ≤ 7 then .ok (false, b)
  else do
    let url ← trim url
    let scheme ← substr url 0 (find ':' url)
    let scheme := scheme.map Char.toLower
    if scheme = http ∨ scheme = https then parseComponents { cleared with scheme } url
    else .ok (false, cleared)

-----------------------------------------------------------------------------------------
-- Printing
-----------------------------------------------------------------------------------------

/-- The values of one name, with the index of the next value. -/
def printValues (param : Text) (size : Nat) : Nat → List Text → Text
  | _, [] => []
  | valuesIndex, value :: rest =>
      param ++ '=' :: value ++ (if valuesIndex + 1 < size then ['&'] else [])
        ++ printValues param size (valuesIndex + 1) rest

/-- The parameters, with the index that only names with values advance. -/
def printParameters (size : Nat) : Nat → List (Text × SortedSet Text) → Text
  | _, [] => []
  | paramIndex, (param, values) :: rest =>
      let elements := SortedSet.elements values
      if elements = [] then param ++ printParameters size paramIndex rest
      else
        printValues param elements.length 0 elements
          ++ (if paramIndex + 1 < size then ['&'] else [])
          ++ printParameters size (paramIndex + 1) rest

/-- The text between the query's question mark and the fragment. -/
def printQuery (b : Builder) : Text :=
  printParameters b.encodedQueryNamesAndValues.entries.length 0
    b.encodedQueryNamesAndValues.entries

/-- The port that is printed. -/
def printedPort (b : Builder) : Int :=
  if b.port = -1 then defaultPort b.scheme else b.port

def toString (b : Builder) : Text :=
  b.scheme ++ [':', '/', '/']
    ++ (if ':' ∈ b.host then '[' :: b.host ++ [']'] else b.host)
    ++ ':' :: decimal b.printedPort
    ++ b.encodedPathSegments.flatMap (fun segment => '/' :: segment)
    ++ (if b.encodedQueryNamesAndValues.entries = [] then [] else '?' :: b.printQuery)
    ++ (if b.encodedFragment = [] then [] else '#' :: b.encodedFragment)

end Builder

end Nbsdk.Http
