import Mathlib.Logic.Function.Basic
import Nbsdk.Lib.Word
import Nbsdk.Lib.Cells
import Nbsdk.Lib.Fallible

/-! The growable buffer of buffer.h, for an integral element type.
`CHECK` ends the program with the text of its condition; a copy outside an allocation is
undefined behaviour. Both are failures of the model.
-/

namespace Nbsdk.Memory

/-- How an operation on buffers can fail. -/
inductive Abort
  | checkFailed (condition : String)
  | outOfBounds
  | unknownObject
  deriving DecidableEq, Repr

/-- A sum of two `uint32_t`. -/
def addUint32 (a b : Nat) : Nat := Word.add 32 a b

/-- The elements of `new T[length]`; the language does not say what they hold. -/
def newArray {T : Type} (length : Nat) (fresh : Nat → T) : List T :=
  (List.range length).map fresh

/-- The first `count` elements of an allocation, as `memcpy` and `memcmp` read them. -/
def readElements {T : Type} (block : List T) (count : Nat) : Except Abort (List T) :=
  if count ≤ block.length then .ok (block.take count) else .error .outOfBounds

/-- `memcpy` of `elements` into an allocation. -/
def writeElements {T : Type} (block : List T) (position : Nat) (elements : List T)
    : Except Abort (List T) :=
  if position + elements.length ≤ block.length then
    .ok (Cells.overwrite block position elements)
  else .error .outOfBounds

/-- The members; `data` is the owned allocation, `none` for the null pointer. -/
structure BufferT (T : Type) where
  size : Nat
  capacity : Nat
  data : Option (List T)
  deriving DecidableEq, Repr

namespace BufferT

variable {T : Type}

/-- The elements behind `data_`, none behind a null pointer. -/
def elements (b : BufferT T) : List T := b.data.getD []

def isConsistent (b : BufferT T) : Bool :=
  (b.data.isSome || b.capacity == 0) && decide (b.capacity ≥ b.size)

/-- `CHECK(IsConsistent())`. -/
def check (b : BufferT T) : Except Abort Unit :=
  if b.isConsistent then .ok () else .error (.checkFailed "IsConsistent()")

/-- `memcpy` to `data_ + position`; nothing can be copied to a null pointer. -/
def copyIn (b : BufferT T) (position : Nat) (source : List T) (count : Nat)
    : Except Abort (BufferT T) := do
  let copied ← readElements source count
  let block ← writeElements b.elements position copied
  .ok { b with data := b.data.map (fun _ => block) }

/-- The default constructor. -/
def empty : BufferT T := { size := 0, capacity := 0, data := none }

def onMovedFrom (b : BufferT T) : BufferT T := { b with size := 0, capacity := 0 }

def ensureCapacityWithHeadroom (b : BufferT T) (capacity : Nat) (extraHeadroom : Bool)
    (fresh : Nat → T)
    : Except Abort (BufferT T) := do
  b.check
  if capacity ≤ b.capacity then .ok b
  else
    let newCapacity :=
      if extraHeadroom then max capacity (addUint32 b.capacity (b.capacity / 2))
      else capacity
    let copied ← readElements b.elements b.size
    let newData ← writeElements (newArray newCapacity fresh) 0 copied
    let b : BufferT T := { b with data := some newData, capacity := newCapacity }
    b.check
    .ok b

/-- The constructor from a size and a capacity. -/
def ofSize (size capacity : Nat) (fresh : Nat → T) : Except Abort (BufferT T) := do
  let capacity := max size capacity
  let b : BufferT T := {
    size
    capacity
    data := if capacity > 0 then some (newArray capacity fresh) else none
  }
  b.check
  .ok b

/-- The constructor from an array. -/
def ofArray (data : List T) (size capacity : Nat) (fresh : Nat → T)
    : Except Abort (BufferT T) := do
  let b ← ofSize size capacity fresh
  b.copyIn 0 data size

/-- The move constructor: the new buffer and what is left of its source. -/
def moveConstruct (source : BufferT T) : Except Abort (BufferT T × BufferT T) := do
  source.check
  let b : BufferT T := source
  b.check
  .ok (b, { source with data := none }.onMovedFrom)

/-- Move assignment from another buffer: the target and what is left of the source. -/
def moveAssign (b source : BufferT T) : Except Abort (BufferT T × BufferT T) := do
  b.check
  source.check
  .ok (
    { size := source.size, capacity := source.capacity, data := source.data },
    { source with data := none }.onMovedFrom
  )

/-- `operator==` of an integral element type, by `memcmp`. -/
def equal [DecidableEq T] (b other : BufferT T) : Except Abort Bool := do
  b.check
  if b.size ≠ other.size then .ok false
  else
    let left ← readElements b.elements b.size
    let right ← readElements other.elements b.size
    .ok (decide (left = right))

def appendData (b : BufferT T) (data : List T) (size : Nat) (fresh : Nat → T)
    : Except Abort (BufferT T) := do
  b.check
  let newSize := addUint32 b.size size
  let b ← b.ensureCapacityWithHeadroom newSize true fresh
  let b ← b.copyIn b.size data size
  let b : BufferT T := { b with size := newSize }
  b.check
  .ok b

def setData (b : BufferT T) (data : List T) (size : Nat) (fresh : Nat → T)
    : Except Abort (BufferT T) := do
  b.check
  { b with size := 0 }.appendData data size fresh

def setSize (b : BufferT T) (size : Nat) (fresh : Nat → T) : Except Abort (BufferT T) := do
  let b ← b.ensureCapacityWithHeadroom size true fresh
  .ok { b with size }

def ensureCapacity (b : BufferT T) (capacity : Nat) (fresh : Nat → T)
    : Except Abort (BufferT T) :=
  b.ensureCapacityWithHeadroom capacity false fresh

def clear (b : BufferT T) : Except Abort (BufferT T) := do
  let b : BufferT T := { b with size := 0 }
  b.check
  .ok b

end BufferT

-----------------------------------------------------------------------------------------
-- Programs over any number of buffers
-----------------------------------------------------------------------------------------

/-- The buffers of a program by name; a name without a buffer holds `none`. -/
abbrev Buffers (T : Type) := Nat → Option (BufferT T)

/-- One operation of a program, with the arguments it passes and what its allocation, if
it makes one, holds at first.
-/
inductive BufferCall (T : Type)
  | create (id : Nat)
  | createSized (id size capacity : Nat) (fresh : Nat → T)
  | createFrom (id : Nat) (data : List T) (size capacity : Nat) (fresh : Nat → T)
  | moveConstruct (id source : Nat)
  | moveAssign (id source : Nat)
  | swap (id other : Nat)
  | setData (id : Nat) (data : List T) (size : Nat) (fresh : Nat → T)
  | appendData (id : Nat) (data : List T) (size : Nat) (fresh : Nat → T)
  | setSize (id size : Nat) (fresh : Nat → T)
  | ensureCapacity (id capacity : Nat) (fresh : Nat → T)
  | clear (id : Nat)
  | equal (id other : Nat)

namespace Buffers

variable {T : Type}

/-- The buffer of this name. -/
def get (buffers : Buffers T) (id : Nat) : Except Abort (BufferT T) :=
  match buffers id with
  | some b => .ok b
  | none => .error .unknownObject

/-- Gives a name to this buffer. -/
def put (buffers : Buffers T) (id : Nat) (b : BufferT T) : Buffers T :=
  Function.update buffers id (some b)

/-- Replaces the buffer of a name by the result of an operation on it. -/
def change (buffers : Buffers T) (id : Nat)
    (operation : BufferT T → Except Abort (BufferT T))
    : Except Abort (Option Bool × Buffers T) := do
  let b ← buffers.get id
  let b ← operation b
  .ok (none, buffers.put id b)

/-- Runs one operation; only the comparison has an answer. -/
def call [DecidableEq T] (buffers : Buffers T)
    : BufferCall T → Except Abort (Option Bool × Buffers T)
  | .create id => .ok (none, buffers.put id .empty)
  | .createSized id size capacity fresh => do
      let b ← BufferT.ofSize size capacity fresh
      .ok (none, buffers.put id b)
  | .createFrom id data size capacity fresh => do
      let b ← BufferT.ofArray data size capacity fresh
      .ok (none, buffers.put id b)
  | .moveConstruct id source => do
      let s ← buffers.get source
      let (b, s) ← s.moveConstruct
      .ok (none, (buffers.put source s).put id b)
  | .moveAssign id source => do
      let b ← buffers.get id
      let s ← buffers.get source
      let (b, s) ← b.moveAssign s
      .ok (none, (buffers.put source s).put id b)
  | .swap id other => do
      let b ← buffers.get id
      let o ← buffers.get other
      .ok (none, (buffers.put other b).put id o)
  | .setData id data size fresh => buffers.change id (·.setData data size fresh)
  | .appendData id data size fresh => buffers.change id (·.appendData data size fresh)
  | .setSize id size fresh => buffers.change id (·.setSize size fresh)
  | .ensureCapacity id capacity fresh => buffers.change id (·.ensureCapacity capacity fresh)
  | .clear id => buffers.change id (·.clear)
  | .equal id other => do
      let b ← buffers.get id
      let o ← buffers.get other
      let same ← b.equal o
      .ok (some same, buffers)

end Buffers

end Nbsdk.Memory
