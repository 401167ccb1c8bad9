import Nbsdk.Memory.BufferElements

/-! What new arrays hold before they are written.
A buffer with a size and no data, and a size that is set larger, take elements of a new array
into the list. A program that does neither cannot tell what its arrays held.
-/

namespace Nbsdk.Memory

variable {T : Type}

/-- The same call with a new array that holds other elements. -/
def BufferCall.withFresh (fresh : Nat → T) : BufferCall T → BufferCall T
  | .createSized id size capacity _ => .createSized id size capacity fresh
  | .createFrom id data size capacity _ => .createFrom id data size capacity fresh
  | .setData id data size _ => .setData id data size fresh
  | .appendData id data size _ => .appendData id data size fresh
  | .setSize id size _ => .setSize id size fresh
  | .ensureCapacity id capacity _ => .ensureCapacity id capacity fresh
  | call => call

def ElementCall.withFresh (fresh : Nat → T) : ElementCall T → ElementCall T
  | .buffer call => .buffer (call.withFresh fresh)
  | call => call

/-- The program in which the array that a call allocates holds what the memory has for it. -/
def holding (memory : Nat → Nat → T) (program : List (ElementCall T)) : List (ElementCall T) :=
  program.mapIdx (fun number call => call.withFresh (memory number))

/-- The call takes no element of a new array into a list. -/
def ElementCall.determined (sizes : Sizes) : ElementCall T → Bool
  | .buffer (.createSized _ count _ _) => count == 0
  | .buffer (.setSize id count _) => (sizes id).all (fun old => decide (count ≤ old))
  | _ => true

/-- The sizes after an operation that a program may make without looking at new elements. -/
def permitDetermined (inRange : Nat → Nat → Bool) (sizes : Sizes) (call : ElementCall T)
    : Option Sizes :=
  if call.determined sizes then permitElement inRange sizes call else none

/-- The calls differ at most in what a new array holds. -/
def ElementCall.Alike (first second : ElementCall T) : Prop :=
  ∃ call fresh other,
    first = ElementCall.withFresh fresh call ∧ second = ElementCall.withFresh other call

/-- Nothing that a call may do depends on what a new array holds. -/
theorem permitDetermined_withFresh (inRange : Nat → Nat → Bool) (sizes : Sizes)
    (call : ElementCall T) (fresh : Nat → T)
    : permitDetermined inRange sizes (call.withFresh fresh)
      = permitDetermined inRange sizes call := by
  cases call with
  | buffer call => cases call <;> rfl
  | size | empty | elementAt | setAt | iterate | equalBy | notEqual => rfl

/-- A call on lists that takes no element of a new array into a list. -/
def determinedCall [DecidableEq T] (lists : Lists T) (call : ElementCall T)
    (reply : ElementReply T) (after : Lists T)
    : Prop :=
  listElementCall lists call reply after ∧ call.determined lists.sizes = true

/-- A call on buffers has then one answer and one effect on the lists, by its kind. -/
theorem bufferCall_single [DecidableEq T] {lists next after : Lists T} {call : BufferCall T}
    {fresh other : Nat → T} {reply answer : Option Bool}
    (determined
      : ((ElementCall.buffer call).withFresh fresh).determined lists.sizes = true)
    (first : listCall lists (call.withFresh fresh) reply next)
    (second : listCall lists (call.withFresh other) answer after)
    : reply = answer ∧ next = after := by
  cases call with
  | create | createFrom | setData | ensureCapacity | clear =>
      obtain ⟨rfl, rfl⟩ := first
      obtain ⟨rfl, rfl⟩ := second
      exact ⟨rfl, rfl⟩
  | moveConstruct | moveAssign | appendData =>
      obtain ⟨rfl, list, named, rfl⟩ := first
      obtain ⟨rfl, _, named', rfl⟩ := second
      obtain rfl := Option.some.inj (named.symm.trans named')
      exact ⟨rfl, rfl⟩
  | swap id other =>
      obtain ⟨rfl, list, list', named, named', rfl⟩ := first
      obtain ⟨rfl, _, _, again, again', rfl⟩ := second
      obtain rfl := Option.some.inj (named.symm.trans again)
      obtain rfl := Option.some.inj (named'.symm.trans again')
      exact ⟨rfl, rfl⟩
  | equal id other =>
      obtain ⟨list, list', named, named', rfl, rfl⟩ := first
      obtain ⟨_, _, again, again', rfl, rfl⟩ := second
      obtain rfl := Option.some.inj (named.symm.trans again)
      obtain rfl := Option.some.inj (named'.symm.trans again')
      exact ⟨rfl, rfl⟩
  | createSized id size capacity _ =>
      obtain ⟨rfl, list, length, rfl⟩ := first
      obtain ⟨rfl, list', length', rfl⟩ := second
      have none : size = 0 := beq_iff_eq.mp determined
      obtain rfl := List.eq_nil_of_length_eq_zero (length.trans none)
      obtain rfl := List.eq_nil_of_length_eq_zero (length'.trans none)
      exact ⟨rfl, rfl⟩
  | setSize id size _ =>
      obtain ⟨rfl, list, resized, named, length, kept, rfl⟩ := first
      obtain ⟨rfl, _, resized', named', length', kept', rfl⟩ := second
      obtain rfl := Option.some.inj (named.symm.trans named')
      -- what is kept of a list that does not grow is all that is left of it
      have fits : size ≤ list.length := by
        simpa [ElementCall.withFresh, BufferCall.withFresh, ElementCall.determined,
          Lists.sizes, named] using determined
      rw [Nat.min_eq_left fits] at kept kept'
      rw [List.take_of_length_le (Nat.le_of_eq length)] at kept
      rw [List.take_of_length_le (Nat.le_of_eq length')] at kept'
      exact ⟨rfl, by rw [kept, kept']⟩

/-- Such a call has one answer and one effect on the lists, by its kind. -/
theorem determinedCall_single [DecidableEq T] {lists next after : Lists T}
    {first second : ElementCall T} {reply other : ElementReply T} (alike : first.Alike second)
    (answered : determinedCall lists first reply next)
    (again : determinedCall lists second other after)
    : reply = other ∧ next = after := by
  obtain ⟨call, fresh, fresh', rfl, rfl⟩ := alike
  obtain ⟨first, determined⟩ := answered
  obtain ⟨second, determined'⟩ := again
  cases call with
  | size | empty | iterate | setAt =>
      obtain ⟨list, named, rfl, rfl⟩ := first
      obtain ⟨_, named', rfl, rfl⟩ := second
      obtain rfl := Option.some.inj (named.symm.trans named')
      exact ⟨rfl, rfl⟩
  | elementAt id index =>
      obtain ⟨list, element, named, there, rfl, rfl⟩ := first
      obtain ⟨_, _, named', there', rfl, rfl⟩ := second
      obtain rfl := Option.some.inj (named.symm.trans named')
      obtain rfl := Option.some.inj (there.symm.trans there')
      exact ⟨rfl, rfl⟩
  | equalBy differ id other =>
      obtain ⟨list, list', same, named, named', agrees, rfl, rfl⟩ := first
      obtain ⟨_, _, same', again, again', agrees', rfl, rfl⟩ := second
      obtain rfl := Option.some.inj (named.symm.trans again)
      obtain rfl := Option.some.inj (named'.symm.trans again')
      obtain rfl : same = same' := Bool.eq_iff_iff.mpr (agrees.trans agrees'.symm)
      exact ⟨rfl, rfl⟩
  | notEqual id other =>
      obtain ⟨list, list', named, named', rfl, rfl⟩ := first
      obtain ⟨_, _, again, again', rfl, rfl⟩ := second
      obtain rfl := Option.some.inj (named.symm.trans again)
      obtain rfl := Option.some.inj (named'.symm.trans again')
      exact ⟨rfl, rfl⟩
  | buffer call =>
      obtain ⟨answer, rfl, first⟩ := first
      obtain ⟨answer', rfl, second⟩ := second
      have single := bufferCall_single determined first second
      exact ⟨congrArg ElementReply.called single.1, single.2⟩

-----------------------------------------------------------------------------------------
-- Programs
-----------------------------------------------------------------------------------------

/-- A program is permitted whatever its arrays hold, by induction over its calls. -/
theorem permits_holding_iff {inRange : Nat → Nat → Bool} {sizes : Sizes}
    (memory : Nat → Nat → T) {program : List (ElementCall T)}
    : Machine.Permits (permitDetermined inRange) sizes (holding memory program)
      ↔ Machine.Permits (permitDetermined inRange) sizes program := by
  induction program generalizing sizes memory with
  | nil => rfl
  | cons call rest ih =>
      simp only [holding, List.mapIdx_cons, Machine.Permits, permitDetermined_withFresh]
      exact exists_congr
        (fun next => and_congr_right (fun _ => ih (fun number => memory (number + 1))))

theorem alike_holding (memory other : Nat → Nat → T) (program : List (ElementCall T))
    : List.Forall₂ ElementCall.Alike (holding memory program) (holding other program) := by
  induction program generalizing memory other with
  | nil => exact .nil
  | cons call rest ih =>
      simp only [holding, List.mapIdx_cons]
      exact .cons ⟨call, memory 0, other 0, rfl, rfl⟩
        (ih (fun number => memory (number + 1)) (fun number => other (number + 1)))

theorem permitDetermined_eq_some {inRange : Nat → Nat → Bool} {sizes next : Sizes}
    {call : ElementCall T}
    : permitDetermined inRange sizes call = some next
      ↔ call.determined sizes = true ∧ permitElement inRange sizes call = some next := by
  rw [permitDetermined, Option.ite_none_right_eq_some]

/-- The simulation of the calls, with what it says about new elements. -/
theorem Buffers.determinedCall_simulates [DecidableEq T]
    : Machine.Simulates Buffers.elementCall (determinedCall (T := T)) (permitDetermined below)
        Lists.sizes Buffers.Represents := by
  intro buffers lists call next related permitted
  obtain ⟨determined, permitted⟩ := permitDetermined_eq_some.mp permitted
  obtain ⟨reply, after, others, called, listed, kept, sizes⟩ :=
    Buffers.elementCall_simulates related permitted
  exact ⟨reply, after, others, called, ⟨listed, determined⟩, kept, sizes⟩

/-- A program that takes no element of a new array into a buffer gets the same replies, or the
same failure, whatever its arrays held when they were allocated.
-/
theorem buffers_ignore_fresh [DecidableEq T] {program : List (ElementCall T)}
    (permitted : Machine.Permits (permitDetermined anywhere) (fun _ => none) program)
    (memory other : Nat → Nat → T)
    : (Machine.run Buffers.elementCall (fun _ => none) (holding memory program)).map Prod.fst
      = (Machine.run Buffers.elementCall (fun _ => none) (holding other program)).map
          Prod.fst := by
  have ends
      : ∀ memory : Nat → Nat → T,
          (Machine.Permits (permitDetermined below) (fun _ => none) (holding memory program)
            ∧ ∃ replies buffers lists,
                Machine.run Buffers.elementCall (fun _ => none) (holding memory program)
                  = .ok (replies, buffers)
                ∧ Machine.Explains determinedCall (fun _ => none) (holding memory program) replies
                    lists
                ∧ buffers.Represents lists)
          ∨ ¬Machine.Permits (permitDetermined below) (fun _ => none) (holding memory program)
            ∧ Machine.run Buffers.elementCall (fun _ => none) (holding memory program)
              = .error (.checkFailed "index < size_") := by
    intro memory
    have start : Buffers.Represents (fun _ => none) (fun _ => none : Lists T) := fun _ => .none
    refine Buffers.determinedCall_simulates.run_or_stops ?_ ?_ start
      ((permits_holding_iff memory).mpr permitted)
    · intro sizes call next allowed
      obtain ⟨determined, inside⟩ := permitDetermined_eq_some.mp allowed
      exact permitDetermined_eq_some.mpr ⟨determined, permitElement_wider inside⟩
    · intro buffers lists call next related refused allowed
      obtain ⟨determined, outside⟩ := permitDetermined_eq_some.mp allowed
      rw [permitDetermined, if_pos determined] at refused
      exact Buffers.elementCall_stops related refused outside
  rcases ends memory with ⟨inRange, replies, buffers, lists, ran, explained, _⟩ | ⟨beyond, stopped⟩
  · rcases ends other with ⟨_, replies', buffers', lists', ran', explained', _⟩ | ⟨beyond, _⟩
    · obtain ⟨rfl, _⟩ :=
        explained.alike explained' (alike_holding memory other program) determinedCall_single
      rw [ran, ran']
      rfl
    · exact absurd ((permits_holding_iff memory).mp inRange)
        (fun held => beyond ((permits_holding_iff other).mpr held))
  · rcases ends other with ⟨inRange, _⟩ | ⟨_, stopped'⟩
    · exact absurd ((permits_holding_iff other).mp inRange)
        (fun held => beyond ((permits_holding_iff memory).mpr held))
    · rw [stopped, stopped']

/-- A buffer grows in new arrays and shrinks, and its elements are read. -/
def growing : List (ElementCall Nat) :=
  [.buffer (.create 0), .buffer (.appendData 0 [1, 2] 2 (fun _ => 0)),
    .buffer (.ensureCapacity 0 9 (fun _ => 0)), .buffer (.setSize 0 1 (fun _ => 0)), .iterate 0]

theorem buffers_ignore_fresh_growing
    : (Machine.run Buffers.elementCall (fun _ => none)
        (holding (fun _ _ => 7) growing)).map Prod.fst
      = (Machine.run Buffers.elementCall (fun _ => none)
          (holding (fun number _ => number) growing)).map Prod.fst := by
  have permitted : Machine.Permits (permitDetermined anywhere) (fun _ => none) growing :=
    ⟨_, rfl, _, rfl, _, rfl, _, rfl, _, rfl, trivial⟩
  exact buffers_ignore_fresh permitted _ _

end Nbsdk.Memory
