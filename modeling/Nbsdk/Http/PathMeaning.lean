import Nbsdk.Lib.Directory
import Nbsdk.Http.PathBuilding
import Nbsdk.Http.PathSegments

/-! Where the path of a URL leads.
Whatever directory a server walks through, the segments of a builder are the names of the place
that the texts given to it lead to, one after another, with their dots and slashes.
-/

namespace Nbsdk.Http

open Cut (before after?)
open Directory (PathStep)

/-- What a piece of a path means. -/
def pathStep (piece : Text) : PathStep Text :=
  if piece = [] ∨ piece = ['.'] then .stay
  else if piece = ['.', '.'] then .up
  else .down piece

def pathSteps (path : Text) : List (PathStep Text) := (path.splitOn '/').map pathStep

namespace Builder

/-- A pushed piece is a step. -/
theorem push_eq_resolveStep (segments : List Text) (piece : Text)
    : push segments piece = Directory.resolveStep segments (pathStep piece) := by
  rw [push, pathStep]
  by_cases empty : piece = []
  case pos => simp [empty, Directory.resolveStep]
  by_cases dot : piece = ['.']
  case pos => simp [dot, Directory.resolveStep]
  simp only [empty, dot, if_false, or_self]
  split <;> rfl

/-- A text's pieces are pushed as its steps are walked. -/
theorem foldl_push_eq (segments : List Text) (path : Text)
    : (path.splitOn '/').foldl push segments
      = (pathSteps path).foldl Directory.resolveStep segments := by
  rw [pathSteps, List.foldl_map]
  congr
  funext segments piece
  exact push_eq_resolveStep segments piece

end Builder

instance (url : Text) : Decidable (Accepted url) :=
  decidable_of_iff
    (7 < url.length
      ∧ (schemeSlice (trimmed url) = http ∨ schemeSlice (trimmed url) = https)
      ∧ (schemeSlice (trimmed url)).length + 3 ≤ (trimmed url).length
      ∧ hostPathOf (trimmed url) ≠ [])
    ⟨fun ⟨long, scheme, skipped, hostPath⟩ => ⟨long, scheme, skipped, hostPath⟩,
      fun h => ⟨h.long, h.scheme, h.skipped, h.hostPath⟩⟩

-----------------------------------------------------------------------------------------
-- The path of a text
-----------------------------------------------------------------------------------------

/-- What follows the scheme of a text and the three characters of its separator. -/
def behindScheme (text : Text) : Text := text.drop ((before ':' text).length + 3)

/-- Authority and path of a text: they end at the first question mark or hash. -/
def authorityAndPath (text : Text) : Text := before '?' (before '#' (behindScheme text))

/-- The path of a text: what follows the first slash behind the authority, or nothing. -/
def urlPath (text : Text) : Text := (after? '/' (authorityAndPath text)).getD []

/-- The parser looks for the path in its place: a slash follows the authority, no mark is
among the characters that are skipped, and no first question mark comes behind a hash.
-/
def PathInPlace (text : Text) : Prop :=
  '/' ∈ authorityAndPath text
  ∧ '?' ∉ text.take ((before ':' text).length + 3)
  ∧ '#' ∉ text.take ((before ':' text).length + 3)
  ∧ ('?' ∈ behindScheme text → '#' ∉ before '?' (behindScheme text))

instance (text : Text) : Decidable (PathInPlace text) :=
  inferInstanceAs (Decidable (_ ∧ _ ∧ _ ∧ _))

/-- With no mark among the skipped characters host and path end at the first of both marks. -/
theorem hostPathSlice_eq_before {first rest : Text} (noMark : '?' ∉ first) (noHash : '#' ∉ first)
    (ordered : '?' ∈ rest → '#' ∉ before '?' rest)
    : hostPathSlice first rest = before '?' (before '#' rest) := by
  rw [hostPathSlice, if_neg noMark]
  by_cases mark : '?' ∈ rest
  case pos =>
    have hashless := ordered mark
    obtain ⟨front, query, rfl, absent⟩ := List.eq_append_cons_of_mem mark
    rw [Cut.before_append_cons absent] at hashless
    rw [if_pos mark, Cut.before_append_cons absent, Cut.before_append hashless, before,
      if_neg (by decide), Cut.before_append_cons absent]
  case neg =>
    have absent : '?' ∉ before '#' rest :=
      fun inside => mark ((Cut.before_isPrefix '#' rest).subset inside)
    rw [if_neg mark, if_neg noHash, Cut.before_of_not_mem absent]

/-- The parser cuts the path of a text that has it in its place. -/
theorem PathInPlace.path_eq {text : Text} (h : PathInPlace text)
    : (Slices.of text).path = urlPath text := by
  obtain ⟨slash, noMark, noHash, ordered⟩ := h
  have cut : hostPathOf text = authorityAndPath text := by
    have length : (schemeSlice text).length = (before ':' text).length := List.length_map _
    rw [hostPathOf, length]
    exact hostPathSlice_eq_before noMark noHash ordered
  change pathSlice (hostPathOf text) = urlPath text
  rw [cut, urlPath, pathSlice]
  obtain ⟨authority, path, split, absent⟩ := List.eq_append_cons_of_mem slash
  rw [split, Cut.after?_append_cons absent]
  rfl

/-- Without a slash behind the authority the parser takes the authority for the path. -/
example
    : urlPath "http://host".toList = []
      ∧ (Slices.of "http://host".toList).path = "host".toList := by
  decide +kernel

namespace BuilderCall

/-- The call does not edit the path by the position of a segment, and a text that it parses
has its path in its place.
-/
def Walks : BuilderCall → Prop
  | .setEncodedPathSegment _ _ | .removePathSegment _ => False
  | .parse url => Accepted url → PathInPlace (trimmed url)
  | _ => True

instance (call : BuilderCall) : Decidable call.Walks := by
  cases call <;> unfold Walks <;> infer_instance

/-- Where a call leads: one segment, the steps of a path, or from the root those of a URL. -/
def leads (d : Directory Text) (node : d.Node) : BuilderCall → d.Node
  | .addEncodedPathSegment pathSegment => d.step node (pathStep pathSegment)
  | .addEncodedPathSegments pathSegment => d.walk node (pathSteps pathSegment)
  | .parse url =>
      if url.length ≤ 7 then node
      else if Accepted url then d.walk d.root (pathSteps (urlPath (trimmed url)))
      else d.root
  | _ => node

/-- The call has nothing to do with the path. -/
def apart : BuilderCall → Bool
  | .scheme _ | .host _ | .port _ | .query _ | .addEncodedFragment _ => true
  | _ => false

/-- Calls for other parts leave the segments. -/
theorem segments_of_apart (b : Builder) {call : BuilderCall} (other : call.apart = true)
    : (b.call call).encodedPathSegments = b.encodedPathSegments := by
  cases call with
  | addEncodedPathSegment | addEncodedPathSegments | setEncodedPathSegment | removePathSegment
  | parse => contradiction
  | scheme | port => rfl
  | host host =>
      simp only [Builder.call, Builder.setHost]
      split <;> rfl
  | addEncodedFragment fragment =>
      simp only [Builder.call, Builder.addEncodedFragment]
      split <;> rfl
  | query call =>
      have kept := congrArg Builder.encodedPathSegments (Builder.unqueried_queryCalls b [call])
      exact kept

/-- A call leads from the place of the segments to that of those it leaves, by its kind. -/
theorem leads_place (d : Directory Text) (b : Builder) {call : BuilderCall}
    (walking : call.Walks)
    : call.leads d (d.place b.encodedPathSegments)
      = d.place (b.call call).encodedPathSegments := by
  cases call with
  | setEncodedPathSegment | removePathSegment => contradiction
  | scheme | host | port | query | addEncodedFragment =>
      rw [segments_of_apart b rfl]
      rfl
  | addEncodedPathSegment pathSegment =>
      rw [leads, d.step_place, ← Builder.push_eq_resolveStep]
      simp only [Builder.call, Builder.addEncodedPathSegment]
      split
      case isTrue empty => simp [empty, Builder.push]
      case isFalse => rfl
  | addEncodedPathSegments pathSegment =>
      rw [leads, d.walk_place, ← Builder.foldl_push_eq]
      exact congrArg d.place (Builder.segments_addEncodedPathSegments b pathSegment).symm
  | parse url =>
      rw [leads]
      rcases Builder.afterParse_cases b url with
        ⟨short, left⟩ | ⟨accepted, left⟩ | ⟨long, rejected, scheme, left⟩
      · rw [if_pos short, Builder.call, left]
      · rw [if_neg (Nat.not_le.mpr accepted.long), if_pos accepted, Builder.call, left,
          ← (walking accepted).path_eq]
        generalize Slices.of (trimmed url) = slices
        have walked := d.walk_place [] (pathSteps slices.path)
        rw [← Builder.foldl_push_eq] at walked
        exact walked
      · rw [if_neg (Nat.not_le.mpr long), if_neg rejected, Builder.call, left]
        rfl

end BuilderCall

namespace Builder

/-- Unless segments are edited by their position or a text is parsed that lacks a slash or
has its marks out of place, a new builder's segments are in every directory the place that
its calls lead to, and no other names are.
-/
theorem path_leads {calls : List BuilderCall} (walking : ∀ call ∈ calls, call.Walks)
    : (∀ d : Directory Text,
        d.place (cleared.calls calls).encodedPathSegments
        = calls.foldl (BuilderCall.leads d) d.root)
      ∧ ∀ names,
          (∀ d : Directory Text, d.place names = calls.foldl (BuilderCall.leads d) d.root)
          → names = (cleared.calls calls).encodedPathSegments := by
  have led
      : ∀ (d : Directory Text) (b : Builder) (calls : List BuilderCall),
          (∀ call ∈ calls, call.Walks)
          → d.place (b.calls calls).encodedPathSegments
            = calls.foldl (BuilderCall.leads d) (d.place b.encodedPathSegments) := by
    intro d b calls
    induction calls generalizing b with
    | nil => exact fun _ => rfl
    | cons call rest ih =>
        intro walking
        rw [List.foldl_cons, BuilderCall.leads_place d b (walking call List.mem_cons_self)]
        exact ih (b.call call)
          (fun other member => walking other (List.mem_cons_of_mem call member))
  refine ⟨fun d => led d cleared calls walking, fun names same => ?_⟩
  apply Directory.place_injective
  intro d
  rw [same d, led d cleared calls walking]
  rfl

/-- Paths in pieces, on top of one that was parsed. -/
def climbing : List BuilderCall :=
  [.parse "http://h/a/b/".toList, .addEncodedPathSegments "../c//./d".toList,
    .addEncodedPathSegment "..".toList]

theorem path_leads_climbing
    : (∀ d : Directory Text,
        d.place (cleared.calls climbing).encodedPathSegments
        = climbing.foldl (BuilderCall.leads d) d.root)
      ∧ ∀ names,
          (∀ d : Directory Text, d.place names = climbing.foldl (BuilderCall.leads d) d.root)
          → names = (cleared.calls climbing).encodedPathSegments :=
  path_leads (by decide +kernel)

example : (cleared.calls climbing).encodedPathSegments = ["a".toList, "c".toList] := by
  decide +kernel

/-- Every call leaves segments that are names, by its kind. -/
theorem normal_call {b : Builder}
    (normal : ∀ segment ∈ b.encodedPathSegments, NormalSegment segment) (call : BuilderCall)
    : ∀ segment ∈ (b.call call).encodedPathSegments, NormalSegment segment := by
  intro segment member
  cases call with
  | scheme | host | port | query | addEncodedFragment =>
      rw [BuilderCall.segments_of_apart b rfl] at member
      exact normal segment member
  | addEncodedPathSegment pathSegment =>
      simp only [Builder.call, addEncodedPathSegment] at member
      split at member
      · exact normal segment member
      · rcases mem_push member with before | ⟨rfl, pushed⟩
        · exact normal segment before
        · exact pushed
  | addEncodedPathSegments pathSegment =>
      simp only [Builder.call, segments_addEncodedPathSegments] at member
      rcases mem_foldl_push member with before | ⟨_, pushed⟩
      · exact normal segment before
      · exact pushed
  | setEncodedPathSegment index pathSegment =>
      simp only [Builder.call, setEncodedPathSegment] at member
      split at member
      case isTrue => exact normal segment member
      case isFalse nonempty =>
        split at member
        case isTrue => exact normal segment member
        case isFalse noDots =>
          split at member
          case isTrue => exact normal segment member
          case isFalse =>
            rcases List.mem_or_eq_of_mem_set member with before | rfl
            · exact normal segment before
            · exact ⟨nonempty, (not_or.mp noDots).1, (not_or.mp noDots).2⟩
  | removePathSegment index =>
      simp only [Builder.call, removePathSegment] at member
      split at member
      · exact normal segment member
      · exact normal segment (List.mem_of_mem_eraseIdx member)
  | parse url =>
      rcases afterParse_cases b url with ⟨_, left⟩ | ⟨_, left⟩ | ⟨_, _, _, left⟩
      · rw [Builder.call, left] at member
        exact normal segment member
      · rw [Builder.call, left] at member
        generalize Slices.of (trimmed url) = slices at member
        exact (mem_resolve member).2
      · rw [Builder.call, left] at member
        exact absurd member List.not_mem_nil

theorem normal_calls (calls : List BuilderCall)
    : ∀ segment ∈ (cleared.calls calls).encodedPathSegments, NormalSegment segment :=
  Machine.follow_invariant
    (fun b : Builder => ∀ segment ∈ b.encodedPathSegments, NormalSegment segment)
    (fun normal stepped => Option.some.inj stepped ▸ normal_call normal _)
    (fun _ inside => absurd inside List.not_mem_nil) (Machine.follow_total call cleared calls)

/-- After any calls the path that is printed leads to where the segments do exactly if no
segment holds a slash.
-/
theorem printed_path_leads_iff (calls : List BuilderCall)
    : (∀ d : Directory Text,
        d.walk d.root (pathSteps (cleared.calls calls).pathText)
        = d.place (cleared.calls calls).encodedPathSegments)
      ↔ ∀ segment ∈ (cleared.calls calls).encodedPathSegments, '/' ∉ segment := by
  have normal := normal_calls calls
  generalize cleared.calls calls = b at normal ⊢
  have walked
      : ∀ d : Directory Text,
          d.walk d.root (pathSteps b.pathText) = d.place (resolve (b.pathText.splitOn '/')) := by
    intro d
    have there := d.walk_place [] (pathSteps b.pathText)
    rw [← foldl_push_eq] at there
    exact there
  have same
      : (∀ d : Directory Text,
          d.walk d.root (pathSteps b.pathText) = d.place b.encodedPathSegments)
        ↔ resolve (b.pathText.splitOn '/') = b.encodedPathSegments := by
    simp only [walked]
    exact ⟨Directory.place_injective, fun resolved _ => by rw [resolved]⟩
  rw [same]
  constructor
  · intro resolved segment member
    rw [← resolved] at member
    exact (Cut.of_mem_splitOn (mem_resolve member).1).1
  · intro slashless
    have pieces := splitOn_flatMap [] b.encodedPathSegments
    rw [List.nil_append, List.splitOn_nil] at pieces
    have alone
        : b.encodedPathSegments.flatMap (fun segment => segment.splitOn '/')
          = b.encodedPathSegments := by
      have each
          : ∀ segment ∈ b.encodedPathSegments, segment.splitOn '/' = [segment] :=
        fun segment member => List.splitOn_eq_singleton (slashless segment member)
      rw [List.flatMap_congr each]
      exact List.flatMap_singleton' b.encodedPathSegments
    rw [pathText, pieces, alone]
    exact resolve_normal normal

end Builder

end Nbsdk.Http
