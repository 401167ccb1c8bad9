import Nbsdk.Memory.BufferRefinement

/-! Programs over any number of buffers refine programs over lists. -/

namespace Nbsdk.Memory

open Fallible

variable {T : Type}

/-- The lists of a program by name. -/
abbrev Lists (T : Type) := Nat → Option (List T)

/-- The sizes of a program's lists by name. -/
abbrev Sizes := Nat → Option Nat

def Lists.put (lists : Lists T) (id : Nat) (list : List T) : Lists T :=
  Function.update lists id (some list)

def Sizes.put (sizes : Sizes) (id size : Nat) : Sizes :=
  Function.update sizes id (some size)

def Lists.sizes (lists : Lists T) : Sizes := fun id => (lists id).map List.length

/-- What each operation does to the lists and answers. -/
def listCall [DecidableEq T] (lists : Lists T) (call : BufferCall T)
    (reply : Option Bool) (after : Lists T)
    : Prop :=
  match call with
  | .create id => reply = none ∧ after = lists.put id []
  | .createSized id size _ _ =>
      reply = none ∧ ∃ list, list.length = size ∧ after = lists.put id list
  | .createFrom id data size _ _ => reply = none ∧ after = lists.put id (data.take size)
  | .moveConstruct id source =>
      reply = none
      ∧ ∃ list, lists source = some list ∧ after = (lists.put source []).put id list
  | .moveAssign id source =>
      reply = none
      ∧ ∃ list, lists source = some list ∧ after = (lists.put source []).put id list
  | .swap id other =>
      reply = none
      ∧ ∃ list second,
          lists id = some list
          ∧ lists other = some second
          ∧ after = (lists.put other list).put id second
  | .setData id data size _ => reply = none ∧ after = lists.put id (data.take size)
  | .appendData id data size _ =>
      reply = none
      ∧ ∃ list, lists id = some list ∧ after = lists.put id (list ++ data.take size)
  | .setSize id size _ =>
      reply = none
      ∧ ∃ list resized,
          lists id = some list
          ∧ resized.length = size
          ∧ resized.take (min size list.length) = list.take (min size list.length)
          ∧ after = lists.put id resized
  | .ensureCapacity _ _ _ => reply = none ∧ after = lists
  | .clear id => reply = none ∧ after = lists.put id []
  | .equal id other =>
      ∃ list second,
        lists id = some list
        ∧ lists other = some second
        ∧ reply = some (decide (list = second))
        ∧ after = lists

/-- The sizes after an operation that a program may make: it names existing buffers, moves
between distinct ones, passes arrays that are long enough, and every argument and
resulting size is a `uint32_t`.
-/
def permitCall (sizes : Sizes) : BufferCall T → Option Sizes
  | .create id => some (sizes.put id 0)
  | .createSized id size capacity _ =>
      if size < 2 ^ 32 ∧ capacity < 2 ^ 32 then some (sizes.put id size) else none
  | .createFrom id data size capacity _ =>
      if size ≤ data.length ∧ size < 2 ^ 32 ∧ capacity < 2 ^ 32 then some (sizes.put id size)
      else none
  | .moveConstruct id source =>
      match sizes source with
      | some size => if id ≠ source then some ((sizes.put source 0).put id size) else none
      | none => none
  | .moveAssign id source =>
      match sizes id, sizes source with
      | some _, some size =>
          if id ≠ source then some ((sizes.put source 0).put id size) else none
      | _, _ => none
  | .swap id other =>
      match sizes id, sizes other with
      | some size, some second => some ((sizes.put other size).put id second)
      | _, _ => none
  | .setData id data size _ =>
      match sizes id with
      | some _ =>
          if size ≤ data.length ∧ size < 2 ^ 32 then some (sizes.put id size) else none
      | none => none
  | .appendData id data size _ =>
      match sizes id with
      | some old =>
          if size ≤ data.length ∧ old + size < 2 ^ 32 then some (sizes.put id (old + size))
          else none
      | none => none
  | .setSize id size _ =>
      match sizes id with
      | some _ => if size < 2 ^ 32 then some (sizes.put id size) else none
      | none => none
  | .ensureCapacity id capacity _ =>
      match sizes id with
      | some _ => if capacity < 2 ^ 32 then some sizes else none
      | none => none
  | .clear id =>
      match sizes id with
      | some _ => some (sizes.put id 0)
      | none => none
  | .equal id other =>
      match sizes id, sizes other with
      | some _, some _ => some sizes
      | _, _ => none

/-- Every buffer stands for the list of its name, and the same names are in use. -/
def Buffers.Represents (buffers : Buffers T) (lists : Lists T) : Prop :=
  ∀ id, Option.Rel BufferT.Represents (buffers id) (lists id)

/-- A list in use is the list of a buffer that the lookup finds. -/
theorem Buffers.Represents.get_eq {buffers : Buffers T} {lists : Lists T}
    (h : buffers.Represents lists) {id : Nat} {list : List T}
    (named : lists id = some list)
    : ∃ b, buffers.get id = .ok b ∧ b.Represents list := by
  have related := h id
  rw [named] at related
  rw [Buffers.get]
  cases found : buffers id with
  | none =>
      rw [found] at related
      cases related
  | some b =>
      rw [found] at related
      cases related with
      | some represents => exact ⟨b, rfl, represents⟩

/-- Renewing a buffer together with its list keeps the relation. -/
theorem Buffers.Represents.put {buffers : Buffers T} {lists : Lists T}
    (h : buffers.Represents lists) (id : Nat) {b : BufferT T} {list : List T}
    (represents : b.Represents list)
    : (buffers.put id b).Represents (lists.put id list) := by
  intro other
  by_cases same : other = id
  · subst same
    simpa only [Buffers.put, Lists.put, Function.update_self] using .some represents
  · simpa only [Buffers.put, Lists.put, Function.update_of_ne same] using h other

@[simp] theorem Lists.sizes_put (lists : Lists T) (id : Nat) (list : List T)
    : (lists.put id list).sizes = lists.sizes.put id list.length := by
  funext other
  by_cases same : other = id
  · subst same
    simp [Lists.sizes, Lists.put, Sizes.put]
  · simp [Lists.sizes, Lists.put, Sizes.put, Function.update_of_ne same]

/-- A size in use is the length of the list in use. -/
theorem Lists.exists_of_sizes {lists : Lists T} {id size : Nat}
    (h : lists.sizes id = some size)
    : ∃ list, lists id = some list ∧ list.length = size :=
  Option.map_eq_some_iff.mp h

/-- An operation on one buffer with a list effect is one step of the program. -/
theorem Buffers.Represents.change_eq {buffers : Buffers T} {lists : Lists T}
    (h : buffers.Represents lists) {id : Nat} {b after : BufferT T} {list : List T}
    (operation : BufferT T → Except Abort (BufferT T)) (found : buffers.get id = .ok b)
    (done : operation b = .ok after) (represents : after.Represents list)
    : buffers.change id operation = .ok (none, buffers.put id after)
      ∧ (buffers.put id after).Represents (lists.put id list) := by
  refine ⟨?_, h.put id represents⟩
  rw [Buffers.change, found, ok_bind, done, ok_bind]

/-- Renewing a list by itself changes nothing. -/
theorem Lists.put_self {lists : Lists T} {id : Nat} {list : List T}
    (named : lists id = some list)
    : lists.put id list = lists := by
  rw [Lists.put, ← named, Function.update_eq_self]

/-- A name in the sizes names a buffer with its list. -/
theorem Buffers.Represents.of_sizes {buffers : Buffers T} {lists : Lists T}
    (h : buffers.Represents lists) {id size : Nat} (named : lists.sizes id = some size)
    : ∃ b list,
        buffers.get id = .ok b
        ∧ lists id = some list
        ∧ b.Represents list
        ∧ list.length = size := by
  obtain ⟨list, present, length⟩ := Lists.exists_of_sizes named
  obtain ⟨b, found, represents⟩ := h.get_eq present
  exact ⟨b, list, found, present, represents, length⟩

/-- Every permitted operation succeeds on the buffers with its effect on the lists; the
cases are the operations.
-/
theorem Buffers.call_simulates [DecidableEq T]
    : Machine.Simulates Buffers.call (listCall (T := T)) permitCall Lists.sizes
        Buffers.Represents := by
  intro buffers lists call next related permitted
  cases call with
  | create id =>
      cases permitted
      exact ⟨none, _, lists.put id [], rfl, ⟨rfl, rfl⟩, related.put id BufferT.empty_represents,
        lists.sizes_put id []⟩
  | createSized id size capacity fresh =>
      simp only [permitCall] at permitted
      split at permitted
      case isFalse => contradiction
      case isTrue words =>
        cases permitted
        obtain ⟨b, list, made, represents, length⟩ :=
          BufferT.ofSize_eq fresh words.1 words.2
        refine ⟨none, _, lists.put id list, ?_, ⟨rfl, list, length, rfl⟩,
          related.put id represents, ?_⟩
        · rw [Buffers.call, made, ok_bind]
        · rw [Lists.sizes_put, length]
  | createFrom id data size capacity fresh =>
      simp only [permitCall] at permitted
      split at permitted
      case isFalse => contradiction
      case isTrue words =>
        cases permitted
        obtain ⟨b, made, represents⟩ :=
          BufferT.ofArray_eq fresh words.1 words.2.1 words.2.2
        refine ⟨none, _, lists.put id (data.take size), ?_, ⟨rfl, rfl⟩,
          related.put id represents, ?_⟩
        · rw [Buffers.call, made, ok_bind]
        · rw [Lists.sizes_put, List.length_take, Nat.min_eq_left words.1]
  | moveConstruct id source =>
      simp only [permitCall] at permitted
      split at permitted
      case h_2 => contradiction
      case h_1 size named =>
        split at permitted
        case isFalse => contradiction
        case isTrue distinct =>
          cases permitted
          obtain ⟨s, list, found, present, represents, length⟩ := related.of_sizes named
          obtain ⟨b, rest, moved, target, left⟩ := represents.moveConstruct_eq
          refine ⟨none, _, (lists.put source []).put id list, ?_, ⟨rfl, list, present, rfl⟩,
            (related.put source left).put id target, ?_⟩
          · rw [Buffers.call, found, ok_bind, moved, ok_bind]
          · rw [Lists.sizes_put, Lists.sizes_put, length, List.length_nil]
  | moveAssign id source =>
      simp only [permitCall] at permitted
      split at permitted
      case h_2 => contradiction
      case h_1 old size namedTarget named =>
        split at permitted
        case isFalse => contradiction
        case isTrue distinct =>
          cases permitted
          obtain ⟨t, before, foundTarget, _, targetBefore, _⟩ := related.of_sizes namedTarget
          obtain ⟨s, list, found, present, represents, length⟩ := related.of_sizes named
          obtain ⟨b, rest, moved, target, left⟩ := targetBefore.moveAssign_eq represents
          refine ⟨none, _, (lists.put source []).put id list, ?_, ⟨rfl, list, present, rfl⟩,
            (related.put source left).put id target, ?_⟩
          · rw [Buffers.call, foundTarget, ok_bind, found, ok_bind, moved, ok_bind]
          · rw [Lists.sizes_put, Lists.sizes_put, length, List.length_nil]
  | swap id other =>
      simp only [permitCall] at permitted
      split at permitted
      case h_2 => contradiction
      case h_1 size second namedFirst namedSecond =>
        cases permitted
        obtain ⟨b, list, foundFirst, first, represents, length⟩ :=
          related.of_sizes namedFirst
        obtain ⟨o, list', foundSecond, second, represents', length'⟩ :=
          related.of_sizes namedSecond
        refine ⟨none, _, (lists.put other list).put id list', ?_,
          ⟨rfl, list, list', first, second, rfl⟩,
          (related.put other represents).put id represents', ?_⟩
        · rw [Buffers.call, foundFirst, ok_bind, foundSecond, ok_bind]
        · rw [Lists.sizes_put, Lists.sizes_put, length, length']
  | setData id data size fresh =>
      simp only [permitCall] at permitted
      split at permitted
      case h_2 => contradiction
      case h_1 old named =>
        split at permitted
        case isFalse => contradiction
        case isTrue words =>
          cases permitted
          obtain ⟨b, list, found, present, represents, _⟩ := related.of_sizes named
          obtain ⟨after, done, set⟩ := represents.setData_eq fresh words.1 words.2
          obtain ⟨called, kept⟩ := related.change_eq (·.setData data size fresh) found done set
          refine ⟨none, _, _, called, ⟨rfl, rfl⟩, kept, ?_⟩
          rw [Lists.sizes_put, List.length_take, Nat.min_eq_left words.1]
  | appendData id data size fresh =>
      simp only [permitCall] at permitted
      split at permitted
      case h_2 => contradiction
      case h_1 old named =>
        split at permitted
        case isFalse => contradiction
        case isTrue words =>
          cases permitted
          obtain ⟨b, list, found, present, represents, length⟩ := related.of_sizes named
          obtain ⟨after, done, appended, -⟩ :=
            represents.appendData_eq fresh words.1 (by rw [length]; exact words.2)
          obtain ⟨called, kept⟩ :=
            related.change_eq (·.appendData data size fresh) found done appended
          refine ⟨none, _, _, called, ⟨rfl, list, present, rfl⟩, kept, ?_⟩
          rw [Lists.sizes_put, List.length_append, List.length_take, length,
            Nat.min_eq_left words.1]
  | setSize id size fresh =>
      simp only [permitCall] at permitted
      split at permitted
      case h_2 => contradiction
      case h_1 old named =>
        split at permitted
        case isFalse => contradiction
        case isTrue word =>
          cases permitted
          obtain ⟨b, list, found, present, represents, _⟩ := related.of_sizes named
          obtain ⟨after, resized, done, set, length, same⟩ := represents.setSize_eq fresh word
          obtain ⟨called, kept⟩ := related.change_eq (·.setSize size fresh) found done set
          refine ⟨none, _, _, called, ⟨rfl, list, resized, present, length, same, rfl⟩, kept,
            ?_⟩
          rw [Lists.sizes_put, length]
  | ensureCapacity id capacity fresh =>
      simp only [permitCall] at permitted
      split at permitted
      case h_2 => contradiction
      case h_1 old named =>
        split at permitted
        case isFalse => contradiction
        case isTrue word =>
          cases permitted
          obtain ⟨b, list, found, present, represents, _⟩ := related.of_sizes named
          obtain ⟨after, done, grown, _, _⟩ := represents.grow word false fresh
          obtain ⟨called, kept⟩ :=
            related.change_eq (·.ensureCapacity capacity fresh) found done grown
          rw [Lists.put_self present] at kept
          exact ⟨none, _, lists, called, ⟨rfl, rfl⟩, kept, rfl⟩
  | clear id =>
      simp only [permitCall] at permitted
      split at permitted
      case h_2 => contradiction
      case h_1 old named =>
        cases permitted
        obtain ⟨b, list, found, present, represents, _⟩ := related.of_sizes named
        obtain ⟨after, done, cleared⟩ := represents.clear_eq
        obtain ⟨called, kept⟩ := related.change_eq (·.clear) found done cleared
        exact ⟨none, _, _, called, ⟨rfl, rfl⟩, kept, lists.sizes_put id []⟩
  | equal id other =>
      simp only [permitCall] at permitted
      split at permitted
      case h_2 => contradiction
      case h_1 namedFirst namedSecond =>
        cases permitted
        obtain ⟨b, list, foundFirst, first, represents, _⟩ := related.of_sizes namedFirst
        obtain ⟨o, list', foundSecond, second, represents', _⟩ :=
          related.of_sizes namedSecond
        refine ⟨some (decide (list = list')), buffers, lists, ?_,
          ⟨list, list', first, second, rfl, rfl⟩, related, rfl⟩
        rw [Buffers.call, foundFirst, ok_bind, foundSecond, ok_bind,
          represents.equal_eq represents', ok_bind]

/-- A program whose operations are permitted runs to its end without a failed check or a
copy outside an allocation, and computes on the lists; the allocation of every buffer
reaches to its capacity, which bounds its size.
-/
theorem buffers_refine_lists [DecidableEq T] {program : List (BufferCall T)}
    (permitted : Machine.Permits permitCall (fun _ => none) program)
    : ∃ replies buffers lists,
        Machine.run Buffers.call (fun _ => none) program = .ok (replies, buffers)
        ∧ Machine.Explains listCall (fun _ => none) program replies lists
        ∧ buffers.Represents lists := by
  have start : Buffers.Represents (fun _ => none) (fun _ => none : Lists T) :=
    fun _ => .none
  exact Buffers.call_simulates.run start permitted

/-- The refinement at a program that moves a buffer, reuses its source and compares. -/
theorem buffers_refine_lists_moved
    : ∃ replies buffers lists,
        Machine.run Buffers.call (fun _ => (none : Option (BufferT Nat)))
          [.createFrom 0 [1, 2, 3] 3 3 (fun _ => 0), .moveConstruct 1 0,
            .appendData 1 [4] 1 (fun _ => 9), .setData 0 [1, 2] 2 (fun _ => 9),
            .setSize 1 2 (fun _ => 9), .equal 0 1]
          = .ok (replies, buffers)
        ∧ Machine.Explains listCall (fun _ => none)
          [.createFrom 0 [1, 2, 3] 3 3 (fun _ => 0), .moveConstruct 1 0,
            .appendData 1 [4] 1 (fun _ => 9), .setData 0 [1, 2] 2 (fun _ => 9),
            .setSize 1 2 (fun _ => 9), .equal 0 1]
            replies lists
        ∧ buffers.Represents lists :=
  buffers_refine_lists
    ⟨_, rfl, _, rfl, _, rfl, _, rfl, _, rfl, _, rfl, trivial⟩

example
    : (Machine.run Buffers.call (fun _ => (none : Option (BufferT Nat)))
        [.createFrom 0 [1, 2, 3] 3 3 (fun _ => 0), .moveConstruct 1 0,
          .appendData 1 [4] 1 (fun _ => 9), .setData 0 [1, 2] 2 (fun _ => 9),
          .setSize 1 2 (fun _ => 9), .equal 0 1]).map Prod.fst
      = .ok [none, none, none, none, none, some true] := by
  decide +kernel

end Nbsdk.Memory
