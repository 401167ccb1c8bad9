import Nbsdk.Http.Printing

/-! Building a path from texts with several segments.
A call runs the pieces between the slashes through a stack of segments, so that two calls are
one call for the two texts with a slash between them, and a finished path is read back.
-/

namespace Nbsdk.Http

/-- A piece on a stack of segments: a dot leaves it and two dots drop its last segment, if there
is one.
-/
def stackPiece (stack : List Text) (piece : Text) : List Text :=
  if piece = ['.'] then stack
  else if piece = ['.', '.'] then stack.dropLast
  else stack ++ [piece]

/-- The nonempty pieces of a path. -/
def pathPieces (path : Text) : List Text := (path.splitOn '/').filter (· ≠ [])

/-- The pieces of two paths with a slash between them. -/
theorem pathPieces_append (first second : Text)
    : pathPieces (first ++ '/' :: second) = pathPieces first ++ pathPieces second := by
  rw [pathPieces, List.splitOn_append_cons_self, List.filter_append, ← pathPieces, ← pathPieces]

/-- A nonempty piece is pushed on the stack. -/
theorem push_eq_stackPiece {piece : Text} (some : piece ≠ []) (segments : List Text)
    : Builder.push segments piece = stackPiece segments piece := by
  rw [Builder.push, if_neg some, stackPiece, Builder.pop]

namespace Builder

/-- The segments after a call, for every text. -/
theorem segments_addEncodedPathSegments (b : Builder) (path : Text)
    : (b.addEncodedPathSegments path).encodedPathSegments
      = (path.splitOn '/').foldl push b.encodedPathSegments := by
  rw [addEncodedPathSegments]
  split
  case isTrue empty => simp [empty, push]
  case isFalse => exact foldl_tokens b.encodedPathSegments path

/-- A call runs the nonempty pieces through the stack, since empty ones are not pushed. -/
theorem addEncodedPathSegments_eq (b : Builder) (path : Text)
    : (b.addEncodedPathSegments path).encodedPathSegments
      = (pathPieces path).foldl stackPiece b.encodedPathSegments := by
  have skipped
      : ∀ (pieces segments : List Text),
          pieces.foldl push segments = (pieces.filter (· ≠ [])).foldl stackPiece segments := by
    intro pieces
    induction pieces with
    | nil => exact fun _ => rfl
    | cons first rest ih =>
        intro segments
        rw [List.foldl_cons, ih]
        by_cases empty : first = []
        case pos => simp [empty, push]
        case neg =>
          rw [push_eq_stackPiece empty, List.filter_cons_of_pos (by simpa using empty),
            List.foldl_cons]
  rw [segments_addEncodedPathSegments, skipped, pathPieces]

/-- What calls add are normal segments without slashes, by induction over the calls. -/
theorem normal_addEncodedPathSegments {b : Builder} (paths : List Text)
    (normal : ∀ segment ∈ b.encodedPathSegments, NormalSegment segment ∧ '/' ∉ segment)
    : ∀ segment ∈ (paths.foldl addEncodedPathSegments b).encodedPathSegments,
        NormalSegment segment ∧ '/' ∉ segment := by
  induction paths generalizing b with
  | nil => exact normal
  | cons path rest ih =>
      refine ih ?_
      intro segment member
      rw [segments_addEncodedPathSegments] at member
      rcases mem_foldl_push member with before | ⟨inside, added⟩
      · exact normal segment before
      · exact ⟨added, (Cut.of_mem_splitOn inside).1⟩

/-- Two calls are one call for both paths with a slash between them. -/
theorem addEncodedPathSegments_append (b : Builder) (first second : Text)
    : ((b.addEncodedPathSegments first).addEncodedPathSegments second).encodedPathSegments
      = (b.addEncodedPathSegments (first ++ '/' :: second)).encodedPathSegments := by
  rw [addEncodedPathSegments_eq, addEncodedPathSegments_eq, addEncodedPathSegments_eq,
    pathPieces_append, List.foldl_append]

/-- The join of a built path is read back, since its segments are pushed as they are. -/
theorem addEncodedPathSegments_join (paths : List Text)
    : (cleared.addEncodedPathSegments
        (['/'].intercalate
          (paths.foldl addEncodedPathSegments cleared).encodedPathSegments)).encodedPathSegments
      = (paths.foldl addEncodedPathSegments cleared).encodedPathSegments := by
  have fresh
      : ∀ segment ∈ cleared.encodedPathSegments, NormalSegment segment ∧ '/' ∉ segment := by
    simp [cleared]
  have normal := normal_addEncodedPathSegments paths fresh
  generalize (paths.foldl addEncodedPathSegments cleared).encodedPathSegments = built at normal
  by_cases none : built = []
  case pos =>
    subst none
    rfl
  case neg =>
    rw [segments_addEncodedPathSegments]
    exact resolve_join none (fun segment member => (normal segment member).1)
      (fun segment member => (normal segment member).2)

/-- Building a path in two calls is building it in one, every call runs its pieces through the
stack, and a path that was built on a new builder is read back from its join.
-/
theorem path_homomorphism (b : Builder) (first second : Text) (paths : List Text)
    : ((b.addEncodedPathSegments first).addEncodedPathSegments second).encodedPathSegments
        = (b.addEncodedPathSegments (first ++ '/' :: second)).encodedPathSegments
      ∧ (b.addEncodedPathSegments first).encodedPathSegments
        = (pathPieces first).foldl stackPiece b.encodedPathSegments
      ∧ (cleared.addEncodedPathSegments
          (['/'].intercalate
            (paths.foldl addEncodedPathSegments cleared).encodedPathSegments)).encodedPathSegments
        = (paths.foldl addEncodedPathSegments cleared).encodedPathSegments :=
  ⟨addEncodedPathSegments_append b first second, addEncodedPathSegments_eq b first,
    addEncodedPathSegments_join paths⟩

example
    : (cleared.addEncodedPathSegments "/a//b/./c".toList
        |>.addEncodedPathSegments "../../d/".toList).encodedPathSegments
      = ["a".toList, "d".toList] := by
  decide

end Builder

end Nbsdk.Http
