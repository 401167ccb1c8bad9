import Nbsdk.Lib.Machine
import Nbsdk.Lib.Fallible
import Nbsdk.Lib.BoundedQueue
import Nbsdk.Memory.FifoBuffer

/-! The byte ring is a bounded queue of bytes, for every sequence of calls.
Each locked transfer is first rewritten to one access through the ring's window; the
calls then follow the queue one by one.
-/

namespace Nbsdk.Memory

open Fallible

-----------------------------------------------------------------------------------------
-- What holds between two calls
-----------------------------------------------------------------------------------------

/-- The array has the recorded length, the stored bytes fit in it and the read position
is one of its cells; an empty array is read from position 0.
-/
structure FifoBuffer.WellFormed (b : FifoBuffer) : Prop where
  allocated : b.buffer.length = b.bufferLength
  allocatable : b.bufferLength ≤ maxAllocation
  stored : b.dataLength ≤ b.bufferLength
  position : b.readPosition < max 1 b.bufferLength

/-- The stored bytes, the oldest first. -/
def FifoBuffer.content (b : FifoBuffer) : List Byte :=
  Ring.window b.buffer b.readPosition b.dataLength

/-- The ring stands for this queue. -/
structure FifoBuffer.Represents (b : FifoBuffer) (queue : BoundedQueue Byte) : Prop where
  wellFormed : b.WellFormed
  capacity : queue.capacity = b.bufferLength
  items : queue.items = b.content

/-- The ring with `data` in the cells behind the stored bytes, skipping `offset` cells. -/
def FifoBuffer.place (b : FifoBuffer) (offset : Nat) (data : List Byte) : FifoBuffer :=
  let position := (b.readPosition + (b.dataLength + offset)) % b.bufferLength
  { b with buffer := Ring.write b.buffer position data }

/-- The ring with as many more stored bytes, those behind the stored ones. -/
def FifoBuffer.publish (b : FifoBuffer) (count : Nat) : FifoBuffer :=
  { b with dataLength := addSize b.dataLength count }

/-- There are as many stored bytes as recorded, because they fit. -/
theorem FifoBuffer.WellFormed.length_content {b : FifoBuffer} (wf : b.WellFormed)
    : b.content.length = b.dataLength :=
  Ring.length_window (by rw [wf.allocated]; exact wf.stored)

/-- A represented queue has as many items as the ring has recorded. -/
theorem FifoBuffer.Represents.length_items {b : FifoBuffer} {queue : BoundedQueue Byte}
    (h : b.Represents queue)
    : queue.items.length = b.dataLength := by
  rw [h.items, h.wellFormed.length_content]

theorem length_newChars (length : Nat) (fresh : Nat → Byte)
    : (newChars length fresh).length = length := by
  simp [newChars]

theorem maxAllocation_lt : maxAllocation < 2 ^ 63 := by decide

theorem subSize_eq {a b : Nat} (small : a ≤ maxAllocation) (le : b ≤ a)
    : subSize a b = a - b :=
  Word.sub_eq (by have := maxAllocation_lt; omega) le

theorem addSize_eq {a b : Nat} (first : a ≤ maxAllocation) (second : b ≤ maxAllocation)
    : addSize a b = a + b :=
  Word.add_eq (by have := maxAllocation_lt; omega)

theorem modSize_eq {a b : Nat} (positive : 0 < b) : modSize a b = .ok (a % b) := by
  rw [modSize, if_neg positive.ne']

theorem copyFrom_eq {source : List Byte} {position count : Nat}
    (inside : position + count ≤ source.length)
    : copyFrom source position count = .ok ((source.drop position).take count) := by
  rw [copyFrom, if_pos inside]

theorem copyTo_eq {target data : List Byte} {position : Nat}
    (inside : position + data.length ≤ target.length)
    : copyTo target position data = .ok (Cells.overwrite target position data) := by
  rw [copyTo, if_pos inside]

/-- A copy between two ranges that are inside replaces the target's range. -/
theorem memcpy_eq {target source : List Byte} {dest position count : Nat}
    (reads : position + count ≤ source.length) (writes : dest + count ≤ target.length)
    : memcpy target dest source position count
      = .ok (Cells.overwrite target dest ((source.drop position).take count)) := by
  have copied : ((source.drop position).take count).length = count := by
    rw [List.length_take, List.length_drop]
    omega
  rw [memcpy, copyFrom_eq reads]
  exact copyTo_eq (by rw [copied]; exact writes)

/-- Writing the part before the end and then the part at the front is a ring write. -/
theorem memcpy_window {cells p : List Byte} {position count : Nat}
    (inside : position ≤ cells.length) (fits : count ≤ cells.length)
    (readable : count ≤ p.length)
    : (do
        let first ← memcpy cells position p 0 (min count (cells.length - position))
        memcpy first 0 p (min count (cells.length - position))
          (count - min count (cells.length - position)))
      = Except.ok (Ring.write cells position (p.take count)) := by
  have tail : (p.take count).take (cells.length - position)
      = p.take (min count (cells.length - position)) := by
    rw [List.take_take, Nat.min_comm]
  have front : (p.take count).drop (cells.length - position)
      = (p.drop (min count (cells.length - position))).take
          (count - min count (cells.length - position)) := by
    rcases Nat.le_total count (cells.length - position) with short | long
    · rw [Nat.min_eq_left short, Nat.sub_self, List.take_zero]
      exact List.drop_eq_nil_of_le (by rw [List.length_take]; omega)
    · rw [Nat.min_eq_right long, List.drop_take]
  have length : (Cells.overwrite cells position
      (p.take (min count (cells.length - position)))).length = cells.length :=
    Cells.length_overwrite (by rw [List.length_take]; omega)
  rw [Ring.write, tail, front, memcpy_eq (by omega) (by omega), ok_bind, List.drop_zero]
  exact memcpy_eq (by omega) (by omega)

/-- Copying the window to the front of a longer array leaves it there. -/
theorem memcpy_relinearize {cells target : List Byte} {position count : Nat}
    (inside : position ≤ cells.length) (fits : count ≤ cells.length)
    (room : count ≤ target.length)
    : (do
        let first ← memcpy target 0 cells position (min count (cells.length - position))
        memcpy first (min count (cells.length - position)) cells 0
          (count - min count (cells.length - position)))
      = Except.ok (Cells.overwrite target 0 (Ring.window cells position count)) := by
  have tail : ((cells.drop position).take (min count (cells.length - position))).length
      = min count (cells.length - position) := by
    rw [List.length_take, List.length_drop]
    omega
  have length : (Cells.overwrite target 0
      ((cells.drop position).take (min count (cells.length - position)))).length
      = target.length :=
    Cells.length_overwrite (by omega)
  have joined := Cells.overwrite_overwrite target
    ((cells.drop position).take (min count (cells.length - position)))
    (cells.take (count - min count (cells.length - position))) 0 (Nat.zero_le _)
  rw [tail, Nat.zero_add, ← Ring.window_eq_pieces inside fits] at joined
  rw [memcpy_eq (by omega) (by omega), ok_bind, ← joined]
  exact memcpy_eq (by omega) (by omega)

-----------------------------------------------------------------------------------------
-- One lemma for each operation
-----------------------------------------------------------------------------------------

/-- A fresh ring is well formed, whatever its cells hold. -/
theorem create_represents {length : Nat} (fresh : Nat → Byte)
    (allocatable : length ≤ maxAllocation)
    : (FifoBuffer.create length fresh).Represents (BoundedQueue.empty length) where
  wellFormed := {
    allocated := length_newChars length fresh
    allocatable
    stored := Nat.zero_le _
    position := Nat.lt_of_lt_of_le Nat.zero_lt_one (Nat.le_max_left 1 length)
  }
  capacity := rfl
  items := (Ring.window_zero _ _).symm

/-- An offset read hands out the stored bytes from the offset on and fails past them. -/
theorem readOffsetLocked_eq {b : FifoBuffer} (wf : b.WellFormed) (bytes offset : Nat)
    : b.readOffsetLocked bytes offset
      = .ok (if b.dataLength ≤ offset then none
             else some ((b.content.drop offset).take bytes)) := by
  have stored := wf.stored
  have allocatable := wf.allocatable
  have position := wf.position
  simp only [FifoBuffer.readOffsetLocked]
  by_cases past : b.dataLength ≤ offset
  · rw [if_pos past, if_pos past]
  have positive : 0 < b.bufferLength := by omega
  have start := Nat.mod_lt (b.readPosition + offset) positive
  rw [if_neg past, if_neg past, subSize_eq (by omega) (by omega),
    addSize_eq (by omega) (by omega), modSize_eq positive, ok_bind]
  have inside : (b.readPosition + offset) % b.bufferLength ≤ b.buffer.length := by
    rw [wf.allocated]
    exact start.le
  have fits : min bytes (b.dataLength - offset) ≤ b.buffer.length := by
    rw [wf.allocated]
    omega
  have window : Ring.window b.buffer ((b.readPosition + offset) % b.bufferLength)
        (min bytes (b.dataLength - offset))
      = (b.content.drop offset).take bytes := by
    rw [FifoBuffer.content, ← Ring.window_advance _ _ (by omega) (by rw [wf.allocated]; omega),
      Ring.take_window, wf.allocated]
  rw [subSize_eq allocatable start.le, subSize_eq (by omega) (Nat.min_le_left ..),
    ← wf.allocated]
  rw [← wf.allocated] at inside window
  rw [copyFrom_eq (by omega), ok_bind, copyFrom_eq (by omega), ok_bind, List.drop_zero,
    ← Ring.window_eq_pieces inside fits, window]

/-- An offset write puts the bytes behind the stored ones, as many as are free. -/
theorem writeOffsetLocked_eq {b : FifoBuffer} (wf : b.WellFormed) {p : List Byte}
    {bytes offset : Nat} (readable : bytes ≤ p.length)
    (small : b.dataLength + offset < 2 ^ 64)
    : b.writeOffsetLocked p bytes offset
      = .ok (if b.bufferLength ≤ b.dataLength + offset then none
             else
               let copy := min bytes (b.bufferLength - b.dataLength - offset)
               some (copy, b.place offset (p.take copy))) := by
  have stored := wf.stored
  have allocatable := wf.allocatable
  have position := wf.position
  simp only [FifoBuffer.writeOffsetLocked]
  rw [addSize, Word.add_eq small]
  by_cases full : b.bufferLength ≤ b.dataLength + offset
  · rw [if_pos full, if_pos full]
  have positive : 0 < b.bufferLength := by omega
  have start := Nat.mod_lt (b.readPosition + (b.dataLength + offset)) positive
  have inside : (b.readPosition + (b.dataLength + offset)) % b.bufferLength
      ≤ b.buffer.length := by
    rw [wf.allocated]
    exact start.le
  have sum : addSize (addSize b.readPosition b.dataLength) offset
      = b.readPosition + (b.dataLength + offset) := by
    have first : addSize b.readPosition b.dataLength = b.readPosition + b.dataLength :=
      addSize_eq (by omega) (by omega)
    rw [first, addSize, Word.add_eq (by have := maxAllocation_lt; omega), Nat.add_assoc]
  rw [if_neg full, if_neg full, sum, modSize_eq positive, ok_bind,
    subSize_eq allocatable stored, subSize_eq (by omega) (by omega),
    subSize_eq allocatable start.le, subSize_eq (by omega) (Nat.min_le_left ..)]
  have copied : min bytes (b.bufferLength - b.dataLength - offset) ≤ p.length := by omega
  have written := memcpy_window inside (by rw [wf.allocated]; omega) copied
  rw [wf.allocated] at written
  rw [← bind_assoc, written, ok_bind]
  rfl

/-- Placing bytes that fit keeps the ring well formed, since only cells change. -/
theorem FifoBuffer.WellFormed.place {b : FifoBuffer} (wf : b.WellFormed) {offset : Nat}
    {data : List Byte} (fits : b.dataLength + offset + data.length ≤ b.bufferLength)
    : (b.place offset data).WellFormed where
  allocated := by
    have same := Ring.length_write_mod data (b.readPosition + (b.dataLength + offset))
      (show data.length ≤ b.buffer.length by rw [wf.allocated]; omega)
    rw [wf.allocated] at same
    exact same
  allocatable := wf.allocatable
  stored := wf.stored
  position := wf.position

/-- Placed bytes are stored once they are published. -/
theorem FifoBuffer.WellFormed.publish_place {b : FifoBuffer} (wf : b.WellFormed)
    (data : List Byte) (fits : b.dataLength + data.length ≤ b.bufferLength)
    : ((b.place 0 data).publish data.length).WellFormed
      ∧ ((b.place 0 data).publish data.length).content = b.content ++ data := by
  have allocatable := wf.allocatable
  have placed : (b.place 0 data).WellFormed := wf.place (by omega)
  have sum : addSize (b.place 0 data).dataLength data.length = b.dataLength + data.length :=
    addSize_eq (show b.dataLength ≤ maxAllocation by omega) (by omega)
  rw [FifoBuffer.publish, sum]
  constructor
  case left =>
    exact {
      allocated := placed.allocated
      allocatable := placed.allocatable
      stored := fits
      position := placed.position
    }
  case right =>
    have extended := Ring.window_write b.buffer data b.readPosition b.dataLength
      (by rw [wf.allocated]; exact fits)
    rw [wf.allocated] at extended
    exact extended

/-- A write appends the first bytes that fit to the stored ones. -/
theorem write_eq {b : FifoBuffer} (wf : b.WellFormed) {p : List Byte} {bytes : Nat}
    (readable : bytes ≤ p.length)
    : ∃ after : FifoBuffer,
        b.write p bytes = .ok (min bytes (b.bufferLength - b.dataLength), after)
        ∧ after.WellFormed
        ∧ after.bufferLength = b.bufferLength
        ∧ after.content
          = b.content ++ p.take (min bytes (b.bufferLength - b.dataLength)) := by
  have stored := wf.stored
  have allocatable := wf.allocatable
  have position := wf.position
  have small : b.dataLength + 0 < 2 ^ 64 := by
    have := maxAllocation_lt
    omega
  rw [FifoBuffer.write, writeOffsetLocked_eq wf readable small, ok_bind]
  simp only [Nat.add_zero, Nat.sub_zero]
  by_cases full : b.bufferLength ≤ b.dataLength
  · have none : min bytes (b.bufferLength - b.dataLength) = 0 := by omega
    rw [if_pos full]
    refine ⟨b, by rw [none], wf, rfl, by rw [none, List.take_zero, List.append_nil]⟩
  rw [if_neg full]
  generalize copied : min bytes (b.bufferLength - b.dataLength) = copy
  have length : (p.take copy).length = copy := by
    rw [List.length_take]
    omega
  obtain ⟨wf', content⟩ := wf.publish_place (p.take copy) (by rw [length]; omega)
  rw [length] at wf' content
  exact ⟨_, rfl, wf', rfl, content⟩

/-- A read hands out the oldest bytes, as many as are stored, and removes them. -/
theorem read_eq {b : FifoBuffer} (wf : b.WellFormed) (bytes : Nat)
    : ∃ after : FifoBuffer,
        b.read bytes = .ok (min bytes b.dataLength, b.content.take bytes, after)
        ∧ after.WellFormed
        ∧ after.bufferLength = b.bufferLength
        ∧ after.content = b.content.drop bytes := by
  have stored := wf.stored
  have allocatable := wf.allocatable
  have position := wf.position
  rw [FifoBuffer.read, readOffsetLocked_eq wf, ok_bind]
  by_cases empty : b.dataLength ≤ 0
  · have none : b.content = [] := List.eq_nil_of_length_eq_zero (by
      rw [wf.length_content]
      omega)
    rw [if_pos empty, none]
    refine ⟨b, ?_, wf, rfl, by rw [none, List.drop_nil]⟩
    rw [Nat.le_zero.mp empty, Nat.min_zero, List.take_nil]
  have positive : 0 < b.bufferLength := by omega
  have length : (b.content.take bytes).length = min bytes b.dataLength := by
    rw [List.length_take, wf.length_content]
  rw [if_neg empty, List.drop_zero]
  simp only []
  rw [length, addSize_eq (by omega) (by omega), modSize_eq positive, ok_bind,
    subSize_eq (by omega) (Nat.min_le_right ..)]
  refine ⟨_, rfl, ?_, rfl, ?_⟩
  · exact {
      allocated := wf.allocated
      allocatable := wf.allocatable
      stored := by change b.dataLength - _ ≤ b.bufferLength; omega
      position := (Nat.mod_lt _ positive).trans_le (Nat.le_max_right ..)
    }
  · have advanced := Ring.window_advance b.buffer b.readPosition
      (show min bytes b.dataLength ≤ b.dataLength from Nat.min_le_right ..)
      (by rw [wf.allocated]; exact stored)
    rw [wf.allocated] at advanced
    apply advanced.trans
    change b.content.drop _ = b.content.drop _
    rcases Nat.le_total bytes b.dataLength with within | beyond
    · rw [Nat.min_eq_left within]
    · have all := wf.length_content
      rw [List.drop_eq_nil_of_le (by omega), List.drop_eq_nil_of_le (by omega)]

/-- A new capacity is refused exactly when the stored bytes would not fit, and otherwise
keeps them, starting at the front of the new array.
-/
theorem setCapacity_eq {b : FifoBuffer} (wf : b.WellFormed) {size : Nat}
    (fresh : Nat → Byte) (allocatable : size ≤ maxAllocation)
    : (size < b.dataLength ∧ b.setCapacity size fresh = .ok (false, b))
      ∨ (b.dataLength ≤ size
        ∧ ∃ after : FifoBuffer,
            b.setCapacity size fresh = .ok (true, after)
            ∧ after.WellFormed
            ∧ after.bufferLength = size
            ∧ after.content = b.content) := by
  have stored := wf.stored
  have position := wf.position
  simp only [FifoBuffer.setCapacity]
  by_cases refused : b.dataLength > size
  · exact Or.inl ⟨refused, if_pos refused⟩
  refine Or.inr ⟨by omega, ?_⟩
  rw [if_neg refused]
  by_cases same : size ≠ b.bufferLength
  · have fresh_length := length_newChars size fresh
    have inside : b.readPosition ≤ b.buffer.length := by
      rw [wf.allocated]
      omega
    have fits : b.dataLength ≤ b.buffer.length := by
      rw [wf.allocated]
      exact stored
    have room : b.dataLength ≤ (newChars size fresh).length := by omega
    have moved := memcpy_relinearize inside fits room
    have counted : (Ring.window b.buffer b.readPosition b.dataLength).length = b.dataLength :=
      Ring.length_window fits
    rw [wf.allocated] at moved
    rw [if_pos same, subSize_eq wf.allocatable (by omega),
      subSize_eq (by have := wf.allocatable; omega) (Nat.min_le_left ..), ← bind_assoc, moved,
      ok_bind]
    refine ⟨_, rfl, ?_, rfl, ?_⟩
    · exact {
        allocated := (Cells.length_overwrite (by omega)).trans fresh_length
        allocatable
        stored := by change b.dataLength ≤ size; omega
        position := by change 0 < max 1 size; omega
      }
    · exact Ring.window_front.trans (Cells.take_overwrite_front counted)
  · rw [if_neg same]
    have equal : size = b.bufferLength := not_not.mp same
    exact ⟨b, rfl, wf, equal.symm, rfl⟩

-----------------------------------------------------------------------------------------
-- Whole sequences of calls
-----------------------------------------------------------------------------------------

/-- What a bounded queue of bytes answers to a call, and the queue afterwards. -/
def queueCall (queue : BoundedQueue Byte) (call : FifoCall) (reply : FifoReply)
    (after : BoundedQueue Byte)
    : Prop :=
  match call with
  | .write p bytes =>
      reply = .written (min bytes queue.free) ∧ after = queue.offer (p.take bytes)
  | .read bytes =>
      reply = .read (min bytes queue.items.length) (queue.items.take bytes)
      ∧ after = queue.discard bytes
  | .setCapacity size _ =>
      (reply = .resized true ∧ queue.resize size = some after)
      ∨ (reply = .resized false ∧ queue.resize size = none ∧ after = queue)
  | .getDataLen => reply = .length queue.items.length ∧ after = queue

/-- Each valid call on a ring is answered as by the queue it stands for. -/
theorem call_simulates
    : Machine.Simulates FifoBuffer.call queueCall
        (fun _ call => if call.Valid then some () else none) (fun _ => ())
        FifoBuffer.Represents := by
  intro b queue call _ represents permitted
  have valid : call.Valid := by
    by_contra invalid
    simp [invalid] at permitted
  have wf := represents.wellFormed
  have length := represents.length_items
  cases call with
  | write p bytes =>
      obtain ⟨after, wrote, wf', capacity, content⟩ := write_eq wf valid
      have free : queue.free = b.bufferLength - b.dataLength := by
        rw [BoundedQueue.free, represents.capacity, length]
      refine ⟨.written (min bytes queue.free), after, queue.offer (p.take bytes), ?_,
        ⟨rfl, rfl⟩, ⟨wf', ?_, ?_⟩, rfl⟩
      · rw [FifoBuffer.call, wrote, ok_bind, free]
      · exact represents.capacity.trans capacity.symm
      · rw [content, ← represents.items, BoundedQueue.offer_items, free, List.take_take,
          Nat.min_comm]
  | read bytes =>
      obtain ⟨after, took, wf', capacity, content⟩ := read_eq wf bytes
      refine ⟨_, after, queue.discard bytes, ?_, ⟨rfl, rfl⟩, ⟨wf', ?_, ?_⟩, rfl⟩
      · rw [FifoBuffer.call, took, ok_bind, length, represents.items]
      · exact represents.capacity.trans capacity.symm
      · rw [content, ← represents.items, BoundedQueue.discard]
  | setCapacity size fresh =>
      rcases setCapacity_eq wf fresh valid with
        ⟨small, refused⟩ | ⟨fits, after, resized, wf', capacity, content⟩
      · refine ⟨.resized false, b, queue, ?_, Or.inr ⟨rfl, ?_, rfl⟩, represents, rfl⟩
        · rw [FifoBuffer.call, refused, ok_bind]
        · rw [BoundedQueue.resize, dif_neg (by omega)]
      · have room : queue.items.length ≤ size := by omega
        refine ⟨.resized true, after, ⟨size, queue.items, room⟩, ?_, Or.inl ⟨rfl, ?_⟩,
          ⟨wf', capacity.symm, ?_⟩, rfl⟩
        · rw [FifoBuffer.call, resized, ok_bind]
        · rw [BoundedQueue.resize, dif_pos room]
        · exact represents.items.trans content.symm
  | getDataLen =>
      refine ⟨.length b.dataLength, b, queue, rfl, ⟨?_, rfl⟩, represents, rfl⟩
      rw [length]

/-- Every sequence of valid calls on a new ring is answered as by a bounded queue of the
same capacity, by the simulation of each call.
-/
theorem fifoBuffer_refines_boundedQueue {length : Nat} {fresh : Nat → Byte}
    {calls : List FifoCall} (allocatable : length ≤ maxAllocation)
    (valid : ∀ call ∈ calls, call.Valid)
    : ∃ replies b queue,
        Machine.run FifoBuffer.call (FifoBuffer.create length fresh) calls = .ok (replies, b)
        ∧ Machine.Explains queueCall (BoundedQueue.empty length) calls replies queue
        ∧ b.Represents queue :=
  call_simulates.run (create_represents fresh allocatable) (Machine.permits_of_forall valid)

/-- The refinement at a run that fills the ring, wraps and then shrinks it. -/
theorem fifoBuffer_refines_boundedQueue_wrapping
    : ∃ replies b queue,
        Machine.run FifoBuffer.call (FifoBuffer.create 4 (fun _ => 0))
          [.write [1, 2, 3, 4, 5] 5, .read 3, .write [6, 7] 2, .setCapacity 3 (fun _ => 9),
            .read 8]
          = .ok (replies, b)
        ∧ Machine.Explains queueCall (BoundedQueue.empty 4)
            [.write [1, 2, 3, 4, 5] 5, .read 3, .write [6, 7] 2, .setCapacity 3 (fun _ => 9),
              .read 8]
            replies queue
        ∧ b.Represents queue :=
  fifoBuffer_refines_boundedQueue (by decide) (by decide)

example
    : (Machine.run FifoBuffer.call (FifoBuffer.create 4 (fun _ => 0))
        [.write [1, 2, 3, 4, 5] 5, .read 3, .write [6, 7] 2, .setCapacity 3 (fun _ => 9),
          .read 8]).map Prod.fst
      = .ok [.written 4, .read 3 [1, 2, 3], .written 2, .resized true, .read 3 [4, 6, 7]] := by
  decide +kernel

end Nbsdk.Memory
