import Mathlib.Data.List.Forall2
import Nbsdk.Memory.BufferPrograms

/-! Access to the elements of buffers.
The index operators check their index against the size and then use the allocation, which is
behind a check of its own. A program that has only its indices wrong stops at the first of them.
-/

namespace Nbsdk.Memory

open Fallible

variable {T : Type}

namespace BufferT

/-- `data()`: the elements behind the pointer that it returns. -/
def getData (b : BufferT T) : Except Abort (List T) := do
  b.check
  .ok b.elements

/-- `size()`. -/
def getSize (b : BufferT T) : Except Abort Nat := do
  b.check
  .ok b.size

/-- `empty()`. -/
def isEmpty (b : BufferT T) : Except Abort Bool := do
  b.check
  .ok (b.size == 0)

/-- `CHECK(index < size_)`. -/
def checkIndex (b : BufferT T) (index : Nat) : Except Abort Unit :=
  if index < b.size then .ok () else .error (.checkFailed "index < size_")

/-- The index operator of a constant buffer. -/
def elementAt (b : BufferT T) (index : Nat) : Except Abort T := do
  b.checkIndex index
  let data ← b.getData
  match data[index]? with
  | some element => .ok element
  | none => .error .outOfBounds

/-- An assignment through the other index operator. -/
def setAt (b : BufferT T) (index : Nat) (value : T) : Except Abort (BufferT T) := do
  b.checkIndex index
  let data ← b.getData
  if index < data.length then .ok { b with data := b.data.map (fun _ => data.set index value) }
  else .error .outOfBounds

/-- What a loop from `begin()` to `end()` sees. -/
def iterate (b : BufferT T) : Except Abort (List T) := do
  let data ← b.getData
  let size ← b.getSize
  readElements data size

/-- The loop of `operator==` for the element types that are not integral. -/
def sameElements (differ : T → T → Bool) : Nat → List T → List T → Except Abort Bool
  | 0, _, _ => .ok true
  | count + 1, first :: left, second :: right =>
      if differ first second then .ok false else sameElements differ count left right
  | _ + 1, _, _ => .error .outOfBounds

/-- `operator==` of an element type that is not integral, with the `!=` of its elements. -/
def equalBy (differ : T → T → Bool) (b other : BufferT T) : Except Abort Bool := do
  b.check
  if b.size ≠ other.size then .ok false
  else sameElements differ b.size b.elements other.elements

/-- `operator!=`. -/
def notEqual [DecidableEq T] (b other : BufferT T) : Except Abort Bool := do
  let same ← b.equal other
  .ok !same

end BufferT

/-- An operation of a program that also looks at elements. -/
inductive ElementCall (T : Type)
  | buffer (call : BufferCall T)
  | size (id : Nat)
  | empty (id : Nat)
  | elementAt (id index : Nat)
  | setAt (id index : Nat) (value : T)
  | iterate (id : Nat)
  | equalBy (differ : T → T → Bool) (id other : Nat)
  | notEqual (id other : Nat)

/-- What such an operation returns. -/
inductive ElementReply (T : Type)
  | called (reply : Option Bool)
  | size (size : Nat)
  | truth (value : Bool)
  | element (element : T)
  | elements (elements : List T)
  deriving DecidableEq, Repr

namespace Buffers

/-- Runs an operation of one buffer that leaves all buffers as they are. -/
def view (buffers : Buffers T) (id : Nat)
    (operation : BufferT T → Except Abort (ElementReply T))
    : Except Abort (ElementReply T × Buffers T) := do
  let b ← buffers.get id
  let reply ← operation b
  .ok (reply, buffers)

def elementCall [DecidableEq T] (buffers : Buffers T)
    : ElementCall T → Except Abort (ElementReply T × Buffers T)
  | .buffer call => do
      let (reply, buffers) ← buffers.call call
      .ok (.called reply, buffers)
  | .size id => buffers.view id (fun b => b.getSize.map .size)
  | .empty id => buffers.view id (fun b => b.isEmpty.map .truth)
  | .elementAt id index => buffers.view id (fun b => (b.elementAt index).map .element)
  | .setAt id index value => do
      let (reply, buffers) ← buffers.change id (·.setAt index value)
      .ok (.called reply, buffers)
  | .iterate id => buffers.view id (fun b => b.iterate.map .elements)
  | .equalBy differ id other => do
      let o ← buffers.get other
      buffers.view id (fun b => (b.equalBy differ o).map .truth)
  | .notEqual id other => do
      let o ← buffers.get other
      buffers.view id (fun b => (b.notEqual o).map .truth)

end Buffers

/-- What each operation does to the lists and answers. -/
def listElementCall [DecidableEq T] (lists : Lists T) (call : ElementCall T)
    (reply : ElementReply T) (after : Lists T)
    : Prop :=
  match call with
  | .buffer call => ∃ answer, reply = .called answer ∧ listCall lists call answer after
  | .size id => ∃ list, lists id = some list ∧ reply = .size list.length ∧ after = lists
  | .empty id => ∃ list, lists id = some list ∧ reply = .truth list.isEmpty ∧ after = lists
  | .elementAt id index =>
      ∃ list element,
        lists id = some list
        ∧ list[index]? = some element
        ∧ reply = .element element
        ∧ after = lists
  | .setAt id index value =>
      ∃ list,
        lists id = some list
        ∧ reply = .called none
        ∧ after = lists.put id (list.set index value)
  | .iterate id => ∃ list, lists id = some list ∧ reply = .elements list ∧ after = lists
  | .equalBy differ id other =>
      ∃ list second same,
        lists id = some list
        ∧ lists other = some second
        ∧ (same = true ↔ List.Forall₂ (fun x y => differ x y = false) list second)
        ∧ reply = .truth same
        ∧ after = lists
  | .notEqual id other =>
      ∃ list second,
        lists id = some list
        ∧ lists other = some second
        ∧ reply = .truth (decide (list ≠ second))
        ∧ after = lists

/-- The sizes after an operation that a program may make, with what it may use as an index for
a size.
-/
def permitElement (inRange : Nat → Nat → Bool) (sizes : Sizes) : ElementCall T → Option Sizes
  | .buffer call => permitCall sizes call
  | .size id | .empty id | .iterate id => (sizes id).map (fun _ => sizes)
  | .elementAt id index | .setAt id index _ =>
      (sizes id).bind (fun size => if inRange index size then some sizes else none)
  | .equalBy _ id other | .notEqual id other =>
      (sizes id).bind (fun _ => (sizes other).map (fun _ => sizes))

/-- An index below the size. -/
def below (index size : Nat) : Bool := decide (index < size)

/-- Any index at all. -/
def anywhere (_ _ : Nat) : Bool := true

-----------------------------------------------------------------------------------------
-- One lemma for each operation
-----------------------------------------------------------------------------------------

namespace BufferT.Represents

variable {b other : BufferT T} {list second : List T}

theorem getData_eq (h : b.Represents list) : b.getData = .ok b.elements := by
  rw [getData, h.check_eq, ok_bind]

theorem getSize_eq (h : b.Represents list) : b.getSize = .ok list.length := by
  rw [getSize, h.check_eq, ok_bind, h.length_eq]

theorem isEmpty_eq (h : b.Represents list) : b.isEmpty = .ok list.isEmpty := by
  have length := h.length_eq
  rw [isEmpty, h.check_eq, ok_bind, ← length]
  cases list <;> rfl

theorem checkIndex_eq (h : b.Represents list) {index : Nat} (inside : index < list.length)
    : b.checkIndex index = .ok () := by
  rw [checkIndex, if_pos (h.length_eq ▸ inside)]

/-- An index behind the list is stopped before anything is read. -/
theorem checkIndex_stops (h : b.Represents list) {index : Nat} (outside : list.length ≤ index)
    : b.checkIndex index = .error (.checkFailed "index < size_") := by
  rw [checkIndex, if_neg (Nat.not_lt.mpr (h.length_eq ▸ outside))]

theorem elementAt_eq (h : b.Represents list) {index : Nat} {element : T}
    (found : list[index]? = some element)
    : b.elementAt index = .ok element := by
  have inside := (List.getElem?_eq_some_iff.mp found).1
  have there : b.elements[index]? = some element := by
    rw [h.contents, List.getElem?_take_of_lt (h.length_eq ▸ inside)] at found
    exact found
  rw [elementAt, h.checkIndex_eq inside, ok_bind, h.getData_eq, ok_bind, there]

/-- An assignment to an element is one to the list's. -/
theorem setAt_eq (h : b.Represents list) {index : Nat} (inside : index < list.length) (value : T)
    : ∃ after : BufferT T,
        b.setAt index value = .ok after ∧ after.Represents (list.set index value) := by
  have size := h.length_eq
  have stored := Nat.le_trans h.stored h.allocated
  have allocated : index < b.elements.length := by omega
  have elements
      : { b with data := b.data.map (fun _ => b.elements.set index value) }.elements
        = b.elements.set index value :=
    BufferT.elements_map List.length_set
  rw [setAt, h.checkIndex_eq inside, ok_bind, h.getData_eq, ok_bind, if_pos allocated]
  refine ⟨_, rfl, ?_, h.stored, h.word, ?_⟩
  · rw [elements, List.length_set]
    exact h.allocated
  · rw [elements, h.contents, List.take_set]

theorem iterate_eq (h : b.Represents list) : b.iterate = .ok list := by
  rw [iterate, h.getData_eq, ok_bind, h.getSize_eq, ok_bind, h.length_eq,
    readElements_eq (Nat.le_trans h.stored h.allocated), ← h.contents]

end BufferT.Represents

namespace BufferT

/-- The loop compares as many elements as it is told to, by induction over them. -/
theorem sameElements_eq (differ : T → T → Bool) {left right : List T} {count : Nat}
    (first : count ≤ left.length) (second : count ≤ right.length)
    : ∃ same,
        sameElements differ count left right = .ok same
        ∧ (same = true
          ↔ List.Forall₂ (fun x y => differ x y = false) (left.take count) (right.take count)) := by
  induction count generalizing left right with
  | zero => exact ⟨true, rfl, by simp⟩
  | succ count ih =>
      obtain ⟨x, left, rfl⟩ :=
        List.exists_cons_of_length_pos (Nat.lt_of_lt_of_le count.succ_pos first)
      obtain ⟨y, right, rfl⟩ :=
        List.exists_cons_of_length_pos (Nat.lt_of_lt_of_le count.succ_pos second)
      rw [sameElements, List.take_succ_cons, List.take_succ_cons, List.forall₂_cons]
      cases apart : differ x y with
      | true => exact ⟨false, rfl, by simp⟩
      | false =>
          obtain ⟨same, compared, agrees⟩ :=
            ih (Nat.le_of_succ_le_succ first) (Nat.le_of_succ_le_succ second)
          exact ⟨same, compared, by simpa using agrees⟩

theorem Represents.equalBy_eq {b other : BufferT T} {list second : List T}
    (h : b.Represents list) (ho : other.Represents second) (differ : T → T → Bool)
    : ∃ same,
        b.equalBy differ other = .ok same
        ∧ (same = true ↔ List.Forall₂ (fun x y => differ x y = false) list second) := by
  rw [equalBy, h.check_eq, ok_bind]
  by_cases sizes : b.size = other.size
  case neg =>
    refine ⟨false, if_pos sizes, iff_of_false (by simp) (fun alike => sizes ?_)⟩
    rw [← h.length_eq, ← ho.length_eq, alike.length_eq]
  case pos =>
    have first := Nat.le_trans h.stored h.allocated
    have behind := Nat.le_trans ho.stored ho.allocated
    obtain ⟨same, compared, agrees⟩ := sameElements_eq differ first (sizes ▸ behind)
    refine ⟨same, ?_, ?_⟩
    · rw [if_neg (not_not.mpr sizes), compared]
    · rw [agrees, h.contents, ho.contents, sizes]

theorem Represents.notEqual_eq [DecidableEq T] {b other : BufferT T} {list second : List T}
    (h : b.Represents list) (ho : other.Represents second)
    : b.notEqual other = .ok (decide (list ≠ second)) := by
  rw [notEqual, h.equal_eq ho, ok_bind, decide_not]

end BufferT

-----------------------------------------------------------------------------------------
-- Programs
-----------------------------------------------------------------------------------------

/-- An operation with an index is permitted on a size that it is in range for. -/
theorem permitIndex_eq_some {inRange : Nat → Nat → Bool} {sizes next : Sizes} {id index : Nat}
    : ((sizes id).bind (fun size => if inRange index size then some sizes else none)) = some next
      ↔ ∃ size, sizes id = some size ∧ inRange index size = true ∧ sizes = next := by
  simp [Option.bind_eq_some_iff]

/-- An operation that only looks at a buffer answers as its list does. -/
theorem Buffers.view_eq {buffers : Buffers T} {id : Nat} {b : BufferT T}
    {operation : BufferT T → Except Abort (ElementReply T)} {reply : ElementReply T}
    (found : buffers.get id = .ok b) (looked : operation b = .ok reply)
    : buffers.view id operation = .ok (reply, buffers) := by
  rw [view, found, ok_bind, looked, ok_bind]

/-- Every permitted operation with its indices in range succeeds with its effect on the lists;
the cases are the operations.
-/
theorem Buffers.elementCall_simulates [DecidableEq T]
    : Machine.Simulates Buffers.elementCall (listElementCall (T := T)) (permitElement below)
        Lists.sizes Buffers.Represents := by
  intro buffers lists call next related permitted
  cases call with
  | buffer call =>
      obtain ⟨answer, after, others, called, listed, kept, sizes⟩ :=
        Buffers.call_simulates related permitted
      refine ⟨.called answer, after, others, ?_, ⟨answer, rfl, listed⟩, kept, sizes⟩
      rw [elementCall, called, ok_bind]
  | size id =>
      obtain ⟨size, named, rfl⟩ := Option.map_eq_some_iff.mp permitted
      obtain ⟨b, list, found, present, represents, _⟩ := related.of_sizes named
      refine ⟨_, buffers, lists, view_eq found ?_, ⟨list, present, rfl, rfl⟩, related, rfl⟩
      rw [represents.getSize_eq]
      rfl
  | empty id =>
      obtain ⟨size, named, rfl⟩ := Option.map_eq_some_iff.mp permitted
      obtain ⟨b, list, found, present, represents, _⟩ := related.of_sizes named
      refine ⟨_, buffers, lists, view_eq found ?_, ⟨list, present, rfl, rfl⟩, related, rfl⟩
      rw [represents.isEmpty_eq]
      rfl
  | iterate id =>
      obtain ⟨size, named, rfl⟩ := Option.map_eq_some_iff.mp permitted
      obtain ⟨b, list, found, present, represents, _⟩ := related.of_sizes named
      refine ⟨_, buffers, lists, view_eq found ?_, ⟨list, present, rfl, rfl⟩, related, rfl⟩
      rw [represents.iterate_eq]
      rfl
  | elementAt id index =>
      obtain ⟨size, named, inside, rfl⟩ := permitIndex_eq_some.mp permitted
      obtain ⟨b, list, found, present, represents, length⟩ := related.of_sizes named
      obtain ⟨element, there⟩ : ∃ element, list[index]? = some element :=
        ⟨_, List.getElem?_eq_getElem (length ▸ of_decide_eq_true inside)⟩
      refine ⟨_, buffers, lists, view_eq found ?_, ⟨list, element, present, there, rfl, rfl⟩,
        related, rfl⟩
      rw [represents.elementAt_eq there]
      rfl
  | setAt id index value =>
      obtain ⟨size, named, inside, rfl⟩ := permitIndex_eq_some.mp permitted
      obtain ⟨b, list, found, present, represents, length⟩ := related.of_sizes named
      obtain ⟨after, done, set⟩ :=
        represents.setAt_eq (length ▸ of_decide_eq_true inside) value
      obtain ⟨called, kept⟩ := related.change_eq (·.setAt index value) found done set
      refine ⟨.called none, _, _, ?_, ⟨list, present, rfl, rfl⟩, kept, ?_⟩
      · rw [elementCall, called, ok_bind]
      · rw [Lists.sizes_put, List.length_set, length, Sizes.put, ← named, Function.update_eq_self]
  | equalBy differ id other =>
      obtain ⟨size, named, allowed⟩ := Option.bind_eq_some_iff.mp permitted
      obtain ⟨size', named', rfl⟩ := Option.map_eq_some_iff.mp allowed
      obtain ⟨b, list, found, present, represents, _⟩ := related.of_sizes named
      obtain ⟨o, second, found', present', represents', _⟩ := related.of_sizes named'
      obtain ⟨same, compared, agrees⟩ := represents.equalBy_eq represents' differ
      refine ⟨.truth same, buffers, lists, ?_,
        ⟨list, second, same, present, present', agrees, rfl, rfl⟩, related, rfl⟩
      rw [elementCall, found', ok_bind]
      refine view_eq found ?_
      rw [compared]
      rfl
  | notEqual id other =>
      obtain ⟨size, named, allowed⟩ := Option.bind_eq_some_iff.mp permitted
      obtain ⟨size', named', rfl⟩ := Option.map_eq_some_iff.mp allowed
      obtain ⟨b, list, found, present, represents, _⟩ := related.of_sizes named
      obtain ⟨o, second, found', present', represents', _⟩ := related.of_sizes named'
      refine ⟨.truth (decide (list ≠ second)), buffers, lists, ?_,
        ⟨list, second, present, present', rfl, rfl⟩, related, rfl⟩
      rw [elementCall, found', ok_bind]
      refine view_eq found ?_
      rw [represents.notEqual_eq represents']
      rfl

theorem permitElement_wider {sizes next : Sizes} {call : ElementCall T}
    (permitted : permitElement below sizes call = some next)
    : permitElement anywhere sizes call = some next := by
  cases call with
  | elementAt id index | setAt id index value =>
      obtain ⟨size, named, _, rfl⟩ := permitIndex_eq_some.mp permitted
      exact permitIndex_eq_some.mpr ⟨size, named, rfl, rfl⟩
  | buffer | size | empty | iterate | equalBy | notEqual => exact permitted

/-- An operation that has only its index out of range stops at the check of it. -/
theorem Buffers.elementCall_stops [DecidableEq T] {buffers : Buffers T} {lists : Lists T}
    {call : ElementCall T} {next : Sizes} (related : buffers.Represents lists)
    (refused : permitElement below lists.sizes call = none)
    (permitted : permitElement anywhere lists.sizes call = some next)
    : buffers.elementCall call = .error (.checkFailed "index < size_") := by
  cases call with
  | buffer | size | empty | iterate | equalBy | notEqual =>
      exact absurd (refused.symm.trans permitted) (by simp)
  | elementAt id index =>
      obtain ⟨size, named, _⟩ := permitIndex_eq_some.mp permitted
      obtain ⟨b, list, found, _, represents, length⟩ := related.of_sizes named
      have outside : list.length ≤ index := by
        simpa [permitElement, named, below, length] using refused
      rw [elementCall, view, found, ok_bind, BufferT.elementAt,
        represents.checkIndex_stops outside]
      rfl
  | setAt id index value =>
      obtain ⟨size, named, _⟩ := permitIndex_eq_some.mp permitted
      obtain ⟨b, list, found, _, represents, length⟩ := related.of_sizes named
      have outside : list.length ≤ index := by
        simpa [permitElement, named, below, length] using refused
      rw [elementCall, change, found, ok_bind, BufferT.setAt,
        represents.checkIndex_stops outside]
      rfl

/-- A program whose last index is one too far. -/
def indexing : List (ElementCall Nat) :=
  [.buffer (.createFrom 0 [1, 2, 3] 3 3 (fun _ => 0)), .setAt 0 2 7, .elementAt 0 2,
    .buffer (.setSize 0 2 (fun _ => 0)), .elementAt 0 2]

example
    : (Machine.run Buffers.elementCall (fun _ => none) indexing).map Prod.fst
      = .error (.checkFailed "index < size_") := by
  decide +kernel

end Nbsdk.Memory
