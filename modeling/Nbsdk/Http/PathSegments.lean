import Nbsdk.Http.Calls

/-! Dot segments in the printed path.
The calls that take a path in pieces resolve the dots in it. Those that take one segment look
for a dot segment only in the whole text, which may have slashes.
-/

namespace Nbsdk.Http

/-- No piece between slashes is a dot segment. -/
def DotFree (path : Text) : Prop :=
  ∀ piece ∈ path.splitOn '/', piece ≠ ['.'] ∧ piece ≠ ['.', '.']

instance : DecidablePred DotFree := fun path =>
  inferInstanceAs (Decidable (∀ piece ∈ path.splitOn '/', _))

theorem NormalSegment.dotFree {segment : Text} (normal : NormalSegment segment)
    (slashless : '/' ∉ segment)
    : DotFree segment := by
  intro piece inside
  rw [List.splitOn_eq_singleton slashless, List.mem_singleton] at inside
  subst inside
  exact ⟨normal.notDot, normal.notDots⟩

/-- The segments' pieces follow the pieces in front of them, by induction over the segments. -/
theorem splitOn_flatMap (front : Text) (segments : List Text)
    : (front ++ segments.flatMap (fun segment => '/' :: segment)).splitOn '/'
      = front.splitOn '/' ++ segments.flatMap (fun segment => segment.splitOn '/') := by
  induction segments generalizing front with
  | nil => simp
  | cons first rest ih =>
      rw [List.flatMap_cons, List.cons_append, List.splitOn_append_cons_self, ih first,
        List.flatMap_cons]

namespace Builder

/-- The printed path has no dot segment exactly if no stored segment has one. -/
theorem dotFree_pathText_iff {b : Builder}
    : DotFree b.pathText ↔ ∀ segment ∈ b.encodedPathSegments, DotFree segment := by
  have pieces := splitOn_flatMap [] b.encodedPathSegments
  rw [List.nil_append, List.splitOn_nil] at pieces
  simp only [DotFree, pathText, pieces, List.mem_append, List.mem_singleton, List.mem_flatMap]
  constructor
  · intro free segment inside piece within
    exact free piece (Or.inr ⟨segment, inside, within⟩)
  · rintro free piece (rfl | ⟨segment, inside, within⟩)
    · simp
    · exact free segment inside piece within

/-- No stored segment has a dot segment. -/
def SegmentsDotFree (b : Builder) : Prop := ∀ segment ∈ b.encodedPathSegments, DotFree segment

/-- The call stores no segment with a dot segment: a single segment has none, or it is dropped
or resolved as a whole.
-/
def StoresNoDots (b : Builder) : BuilderCall → Prop
  | .addEncodedPathSegment pathSegment =>
      pathSegment = ['.'] ∨ pathSegment = ['.', '.'] ∨ DotFree pathSegment
  | .setEncodedPathSegment index pathSegment =>
      pathSegment = ['.'] ∨ pathSegment = ['.', '.']
      ∨ index < 0 ∨ b.encodedPathSegments.length ≤ index
      ∨ DotFree pathSegment
  | _ => True

theorem SegmentsDotFree.mono {b other : Builder} (h : b.SegmentsDotFree)
    (kept : other.encodedPathSegments ⊆ b.encodedPathSegments)
    : other.SegmentsDotFree :=
  fun segment inside => h segment (kept inside)

/-- A single segment is stored with its slashes. -/
theorem SegmentsDotFree.addEncodedPathSegment_iff {b : Builder} (h : b.SegmentsDotFree)
    (pathSegment : Text)
    : (b.addEncodedPathSegment pathSegment).SegmentsDotFree
      ↔ b.StoresNoDots (.addEncodedPathSegment pathSegment) := by
  simp only [Builder.addEncodedPathSegment, push, StoresNoDots]
  split
  case isTrue empty =>
    subst empty
    exact iff_of_true h (by decide)
  case isFalse =>
    split
    case isTrue dot => exact iff_of_true h (Or.inl dot)
    case isFalse notDot =>
      split
      case isTrue dots =>
        exact iff_of_true (h.mono (List.dropLast_subset _)) (Or.inr (Or.inl dots))
      case isFalse notDots =>
        simp only [SegmentsDotFree, List.mem_append, List.mem_singleton, notDot, notDots,
          false_or]
        constructor
        · intro free
          exact free pathSegment (Or.inr rfl)
        · rintro free segment (inside | rfl)
          · exact h segment inside
          · exact free

/-- Segments that are added together are cut at their slashes. -/
theorem SegmentsDotFree.addEncodedPathSegments {b : Builder} (h : b.SegmentsDotFree)
    (pathSegment : Text)
    : (b.addEncodedPathSegments pathSegment).SegmentsDotFree := by
  rw [Builder.addEncodedPathSegments]
  split
  · exact h
  · intro segment inside
    simp only [foldl_tokens] at inside
    rcases mem_foldl_push inside with before | ⟨piece, normal⟩
    · exact h segment before
    · exact normal.dotFree (Cut.of_mem_splitOn piece).1

/-- A segment is replaced by a text with its slashes. -/
theorem SegmentsDotFree.setEncodedPathSegment_iff {b : Builder} (h : b.SegmentsDotFree)
    (index : Int) (pathSegment : Text)
    : (b.setEncodedPathSegment index pathSegment).SegmentsDotFree
      ↔ b.StoresNoDots (.setEncodedPathSegment index pathSegment) := by
  simp only [Builder.setEncodedPathSegment, StoresNoDots]
  split
  case isTrue empty =>
    subst empty
    exact iff_of_true h (Or.inr (Or.inr (Or.inr (Or.inr (by decide)))))
  case isFalse =>
    split
    case isTrue dots => exact iff_of_true h (by tauto)
    case isFalse noDots =>
      split
      case isTrue outside => exact iff_of_true h (by tauto)
      case isFalse inside =>
        have stored : index.toNat < b.encodedPathSegments.length := by omega
        rw [not_or] at noDots inside
        simp only [noDots.1, noDots.2, inside.1, inside.2, false_or]
        constructor
        · intro free
          exact free pathSegment (List.mem_set stored pathSegment)
        · intro free segment member
          rcases List.mem_or_eq_of_mem_set member with before | rfl
          · exact h segment before
          · exact free

theorem SegmentsDotFree.removePathSegment {b : Builder} (h : b.SegmentsDotFree) (index : Int)
    : (b.removePathSegment index).SegmentsDotFree := by
  rw [Builder.removePathSegment]
  split
  · exact h
  · exact h.mono (List.eraseIdx_subset ..)

/-- A parsed path is cut at its slashes. -/
theorem segmentsDotFree_builder (s : Slices) : s.builder.SegmentsDotFree := by
  intro segment inside
  obtain ⟨piece, normal⟩ := mem_resolve inside
  exact normal.dotFree (Cut.of_mem_splitOn piece).1

theorem segmentsDotFree_cleared (scheme : Text)
    : { cleared with scheme := scheme }.SegmentsDotFree :=
  fun _ inside => absurd inside List.not_mem_nil

theorem SegmentsDotFree.afterParse {b : Builder} (h : b.SegmentsDotFree) (url : Text)
    : (b.afterParse url).SegmentsDotFree := by
  rcases afterParse_cases b url with ⟨_, same⟩ | ⟨accepted, read⟩ | ⟨_, _, scheme, rejected⟩
  · rwa [same]
  · rw [read]
    exact segmentsDotFree_builder _
  · rw [rejected]
    exact segmentsDotFree_cleared scheme

/-- A call leaves dot-free segments dot-free exactly if it stores no dots; the cases are the
calls.
-/
theorem SegmentsDotFree.call_iff {b : Builder} (h : b.SegmentsDotFree) {call : BuilderCall}
    : (b.call call).SegmentsDotFree ↔ b.StoresNoDots call := by
  cases call with
  | addEncodedPathSegment pathSegment => exact h.addEncodedPathSegment_iff pathSegment
  | setEncodedPathSegment index pathSegment => exact h.setEncodedPathSegment_iff index pathSegment
  | addEncodedPathSegments pathSegment =>
      exact iff_of_true (h.addEncodedPathSegments pathSegment) trivial
  | removePathSegment index => exact iff_of_true (h.removePathSegment index) trivial
  | parse url => exact iff_of_true (h.afterParse url) trivial
  | scheme | port => exact iff_of_true h trivial
  | host host =>
      refine iff_of_true ?_ trivial
      simp only [Builder.call, setHost]
      split <;> exact h
  | addEncodedFragment fragment =>
      refine iff_of_true ?_ trivial
      simp only [Builder.call, Builder.addEncodedFragment]
      split <;> exact h
  | query call =>
      refine iff_of_true ?_ trivial
      have kept := congrArg encodedPathSegments (unqueried_queryCalls b [call])
      exact h.mono (fun segment inside => kept ▸ inside)

/-- Through any calls on a new builder the printed path never has a dot segment exactly if no
call stores one.
-/
theorem path_dotFree_iff (calls : List BuilderCall)
    : (∀ before after,
        calls = before ++ after → DotFree (cleared.calls before).pathText)
      ↔ Machine.Throughout (Machine.total call) StoresNoDots cleared calls := by
  simp only [dotFree_pathText_iff]
  exact Machine.foldl_always_iff SegmentsDotFree StoresNoDots (fun h => h.call_iff)
    (segmentsDotFree_cleared []) calls

/-- A single segment with a way up behind a slash is printed. -/
theorem dots_stored
    : ¬∀ (calls : List BuilderCall), DotFree (cleared.calls calls).pathText := by
  intro claim
  have free := claim [.addEncodedPathSegment "a/../b".toList]
  revert free
  decide

end Builder

end Nbsdk.Http
