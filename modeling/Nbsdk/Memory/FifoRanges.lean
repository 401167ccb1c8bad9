import Nbsdk.Memory.FifoRefinement

/-! The ring's arithmetic and its copies stay in range.
The strict ring runs the same code with every sum, difference and transfer watched, and
fails where one of them leaves its range. It never does, and so it runs as the ring does.
-/

namespace Nbsdk.Memory

open Fallible

-----------------------------------------------------------------------------------------
-- What is watched
-----------------------------------------------------------------------------------------

/-- What must not happen; `fault` is what already is a fault of the ring. -/
inductive RangeFault
  | sumWraps
  | differenceNegative
  | transferOutOfRange
  | fault (fault : Fault)
  deriving DecidableEq, Repr

def strictAdd (a b : Nat) : Except RangeFault Nat :=
  if a + b < 2 ^ 64 then .ok (addSize a b) else .error .sumWraps

def strictSub (a b : Nat) : Except RangeFault Nat :=
  if b ≤ a then .ok (subSize a b) else .error .differenceNegative

def strictMod (a b : Nat) : Except RangeFault Nat := (modSize a b).mapError .fault

/-- One call of `memcpy`. -/
structure Piece where
  target : Nat
  source : Nat
  count : Nat
  deriving DecidableEq, Repr

/-- What a transfer may read: the stored bytes of a ring, or the caller's first bytes. -/
inductive Readable
  | stored (start count length : Nat)
  | first (copy : Nat)
  deriving DecidableEq, Repr

/-- The cells that may be read. -/
def Readable.Cell : Readable → Nat → Prop
  | .stored start count length, cell => ∃ index < count, cell = (start + index) % length
  | .first copy, cell => cell < copy

instance (readable : Readable) (cell : Nat) : Decidable (readable.Cell cell) :=
  match readable with
  | .stored start count length =>
      inferInstanceAs (Decidable (∃ index < count, cell = (start + index) % length))
  | .first copy => inferInstanceAs (Decidable (cell < copy))

/-- Two ranges of cells without a common one. -/
def Apart (start count start' count' : Nat) : Prop :=
  ∀ i < count, ∀ j < count', start + i ≠ start' + j

instance (start count start' count' : Nat) : Decidable (Apart start count start' count') :=
  inferInstanceAs (Decidable (∀ i < count, ∀ j < count', start + i ≠ start' + j))

/-- The two copies of one call, with what they may read and the size of their target. -/
structure Transfer where
  readable : Readable
  room : Nat
  tail : Piece
  front : Piece
  deriving DecidableEq, Repr

namespace Transfer

/-- Both copies read what they may and write inside the target, and they share no cell. -/
structure InRange (t : Transfer) : Prop where
  readsTail : ∀ i < t.tail.count, t.readable.Cell (t.tail.source + i)
  readsFront : ∀ i < t.front.count, t.readable.Cell (t.front.source + i)
  writesTail : t.tail.target + t.tail.count ≤ t.room
  writesFront : t.front.target + t.front.count ≤ t.room
  sources : Apart t.tail.source t.tail.count t.front.source t.front.count
  targets : Apart t.tail.target t.tail.count t.front.target t.front.count

instance (t : Transfer) : Decidable t.InRange :=
  decidable_of_iff
    ((∀ i < t.tail.count, t.readable.Cell (t.tail.source + i))
      ∧ (∀ i < t.front.count, t.readable.Cell (t.front.source + i))
      ∧ t.tail.target + t.tail.count ≤ t.room
      ∧ t.front.target + t.front.count ≤ t.room
      ∧ Apart t.tail.source t.tail.count t.front.source t.front.count
      ∧ Apart t.tail.target t.tail.count t.front.target t.front.count)
    ⟨fun ⟨a, b, c, d, e, f⟩ => ⟨a, b, c, d, e, f⟩,
      fun ⟨a, b, c, d, e, f⟩ => ⟨a, b, c, d, e, f⟩⟩

/-- Both copies into `target`. -/
def copyInto (t : Transfer) (target source : List Byte) : Except RangeFault (List Byte) :=
  if t.InRange then
    Except.mapError .fault (do
      let target ← memcpy target t.tail.target source t.tail.source t.tail.count
      memcpy target t.front.target source t.front.source t.front.count)
  else .error .transferOutOfRange

/-- Both copies into the caller's array, which gets them one behind the other. -/
def copyOut (t : Transfer) (source : List Byte) : Except RangeFault (List Byte) :=
  if t.InRange then
    Except.mapError .fault (do
      let tail ← copyFrom source t.tail.source t.tail.count
      let front ← copyFrom source t.front.source t.front.count
      .ok (tail ++ front))
  else .error .transferOutOfRange

end Transfer

-----------------------------------------------------------------------------------------
-- The strict ring
-----------------------------------------------------------------------------------------

namespace FifoBuffer

def strictSetCapacity (b : FifoBuffer) (size : Nat) (fresh : Nat → Byte)
    : Except RangeFault (Bool × FifoBuffer) :=
  if b.dataLength > size then .ok (false, b)
  else if size ≠ b.bufferLength then do
    let buffer := newChars size fresh
    let copy := b.dataLength
    let tailCopy := min copy (← strictSub b.bufferLength b.readPosition)
    let frontCopy ← strictSub copy tailCopy
    let buffer ← Transfer.copyInto
      {
        readable := .stored b.readPosition b.dataLength b.bufferLength
        room := size
        tail := ⟨0, b.readPosition, tailCopy⟩
        front := ⟨tailCopy, 0, frontCopy⟩
      } buffer b.buffer
    .ok (true, { b with buffer, readPosition := 0, bufferLength := size })
  else .ok (true, b)

/-- The caller's array has room for `bytes`. -/
def strictReadOffsetLocked (b : FifoBuffer) (bytes offset : Nat)
    : Except RangeFault (Option (List Byte)) :=
  if offset ≥ b.dataLength then .ok none
  else do
    let available ← strictSub b.dataLength offset
    let readPosition ← strictMod (← strictAdd b.readPosition offset) b.bufferLength
    let copy := min bytes available
    let tailCopy := min copy (← strictSub b.bufferLength readPosition)
    let frontCopy ← strictSub copy tailCopy
    let data ← Transfer.copyOut
      {
        readable := .stored b.readPosition b.dataLength b.bufferLength
        room := bytes
        tail := ⟨0, readPosition, tailCopy⟩
        front := ⟨tailCopy, 0, frontCopy⟩
      } b.buffer
    .ok (some data)

def strictWriteOffsetLocked (b : FifoBuffer) (p : List Byte) (bytes offset : Nat)
    : Except RangeFault (Option (Nat × FifoBuffer)) := do
  if (← strictAdd b.dataLength offset) ≥ b.bufferLength then .ok none
  else do
    let available ← strictSub (← strictSub b.bufferLength b.dataLength) offset
    let sum ← strictAdd (← strictAdd b.readPosition b.dataLength) offset
    let writePosition ← strictMod sum b.bufferLength
    let copy := min bytes available
    let tailCopy := min copy (← strictSub b.bufferLength writePosition)
    let frontCopy ← strictSub copy tailCopy
    let buffer ← Transfer.copyInto
      {
        readable := .first copy
        room := b.bufferLength
        tail := ⟨writePosition, 0, tailCopy⟩
        front := ⟨0, tailCopy, frontCopy⟩
      } b.buffer p
    .ok (some (copy, { b with buffer }))

def strictRead (b : FifoBuffer) (bytes : Nat)
    : Except RangeFault (Nat × List Byte × FifoBuffer) := do
  match ← b.strictReadOffsetLocked bytes 0 with
  | none => .ok (0, [], b)
  | some data =>
      let readPosition ← strictMod (← strictAdd b.readPosition data.length) b.bufferLength
      let dataLength ← strictSub b.dataLength data.length
      .ok (data.length, data, { b with readPosition, dataLength })

def strictWrite (b : FifoBuffer) (p : List Byte) (bytes : Nat)
    : Except RangeFault (Nat × FifoBuffer) := do
  match ← b.strictWriteOffsetLocked p bytes 0 with
  | none => .ok (0, b)
  | some (copy, b) =>
      let dataLength ← strictAdd b.dataLength copy
      .ok (copy, { b with dataLength })

/-- One call on the strict ring. -/
def strictCall (b : FifoBuffer) : FifoCall → Except RangeFault (FifoReply × FifoBuffer)
  | .write p bytes => do
      let (copied, b) ← b.strictWrite p bytes
      .ok (.written copied, b)
  | .read bytes => do
      let (copied, data, b) ← b.strictRead bytes
      .ok (.read copied data, b)
  | .setCapacity size fresh => do
      let (ok, b) ← b.strictSetCapacity size fresh
      .ok (.resized ok, b)
  | .getDataLen => .ok (.length b.getDataLen, b)

end FifoBuffer

-----------------------------------------------------------------------------------------
-- Nothing leaves its range
-----------------------------------------------------------------------------------------

theorem strictAdd_eq {a b : Nat} (fits : a + b < 2 ^ 64) : strictAdd a b = .ok (a + b) := by
  rw [strictAdd, if_pos fits, addSize, Word.add_eq fits]

theorem strictSub_eq {a b : Nat} (small : a ≤ maxAllocation) (le : b ≤ a)
    : strictSub a b = .ok (a - b) := by
  rw [strictSub, if_pos le, subSize_eq small le]

theorem strictMod_eq {a b : Nat} (positive : 0 < b) : strictMod a b = .ok (a % b) := by
  rw [strictMod, modSize_eq positive]
  rfl

/-- The two ranges of a ring from a position on, up to its end and from its front. -/
theorem apart_wrapping {position count length : Nat} (fits : count ≤ length)
    : Apart position (min count (length - position)) 0
        (count - min count (length - position)) := by
  intro i tail j front
  omega

/-- Two ranges of which the second follows the first. -/
theorem apart_following (start count count' : Nat)
    : Apart start count (start + count) count' := by
  intro i first j second
  omega

/-- A transfer out of the ring reads stored bytes only; both copies go where they belong. -/
theorem FifoBuffer.WellFormed.stored_inRange {b : FifoBuffer} (wf : b.WellFormed)
    {offset count room : Nat} (within : offset + count ≤ b.dataLength) (fits : count ≤ room)
    : let position := (b.readPosition + offset) % b.bufferLength
      let tailCopy := min count (b.bufferLength - position)
      Transfer.InRange
        {
          readable := .stored b.readPosition b.dataLength b.bufferLength
          room := room
          tail := ⟨0, position, tailCopy⟩
          front := ⟨tailCopy, 0, count - tailCopy⟩
        } := by
  intro position tailCopy
  have stored := wf.stored
  have tailBound : tailCopy = min count (b.bufferLength - position) := rfl
  refine ⟨?_, ?_, ?_, ?_, apart_wrapping (by omega), ?_⟩
  · intro i tail
    refine ⟨offset + i, by dsimp only at tail; omega, ?_⟩
    have inside : position + i < b.bufferLength := by dsimp only at tail; omega
    calc position + i
        = (position + i) % b.bufferLength := (Nat.mod_eq_of_lt inside).symm
      _ = (b.readPosition + (offset + i)) % b.bufferLength := by
          rw [Nat.mod_add_mod, Nat.add_assoc]
  · intro i front
    have wraps : position + tailCopy = b.bufferLength := by
      dsimp only at front
      have := Nat.mod_lt (b.readPosition + offset) (show 0 < b.bufferLength by omega)
      omega
    refine ⟨offset + tailCopy + i, by dsimp only at front; omega, ?_⟩
    have inside : i < b.bufferLength := by dsimp only at front; omega
    calc 0 + i
        = (b.bufferLength + i) % b.bufferLength := by
          rw [Nat.zero_add, Nat.add_mod_left, Nat.mod_eq_of_lt inside]
      _ = (b.readPosition + (offset + tailCopy + i)) % b.bufferLength := by
          rw [← wraps, Nat.add_assoc, wraps, Nat.mod_add_mod]
          congr 1
          omega
  · dsimp only
    omega
  · dsimp only
    omega
  · have following := apart_following 0 tailCopy (count - tailCopy)
    rwa [Nat.zero_add] at following

/-- A transfer into the ring reads the caller's first bytes and writes inside the ring. -/
theorem first_inRange {position count length : Nat} (inside : position ≤ length)
    (fits : count ≤ length)
    : let tailCopy := min count (length - position)
      Transfer.InRange
        {
          readable := .first count
          room := length
          tail := ⟨position, 0, tailCopy⟩
          front := ⟨0, tailCopy, count - tailCopy⟩
        } := by
  intro tailCopy
  have tailBound : tailCopy = min count (length - position) := rfl
  refine ⟨?_, ?_, ?_, ?_, ?_, apart_wrapping fits⟩
  · intro i tail
    change 0 + i < count
    dsimp only at tail
    omega
  · intro i front
    change tailCopy + i < count
    dsimp only at front
    omega
  · dsimp only
    omega
  · dsimp only
    omega
  · have following := apart_following 0 tailCopy (count - tailCopy)
    rwa [Nat.zero_add] at following

/-- A strict offset read is the offset read. -/
theorem strictReadOffsetLocked_eq {b : FifoBuffer} (wf : b.WellFormed) (bytes offset : Nat)
    : b.strictReadOffsetLocked bytes offset
      = (b.readOffsetLocked bytes offset).mapError .fault := by
  have stored := wf.stored
  have allocatable := wf.allocatable
  have position := wf.position
  have small := maxAllocation_lt
  simp only [FifoBuffer.strictReadOffsetLocked, FifoBuffer.readOffsetLocked]
  split
  case isTrue => rfl
  case isFalse within =>
    have positive : 0 < b.bufferLength := by omega
    have start := Nat.mod_lt (b.readPosition + offset) positive
    have inRange := wf.stored_inRange
      (show offset + min bytes (b.dataLength - offset) ≤ b.dataLength by omega)
      (Nat.min_le_left bytes (b.dataLength - offset))
    rw [strictSub_eq (by omega) (by omega), ok_bind, strictAdd_eq (by omega), ok_bind,
      strictMod_eq positive, ok_bind, strictSub_eq allocatable start.le, ok_bind,
      strictSub_eq (by omega) (Nat.min_le_left ..), ok_bind, Transfer.copyOut, if_pos inRange]
    rw [addSize_eq (by omega) (by omega), modSize_eq positive, ok_bind]
    simp only [subSize_eq (show b.dataLength ≤ maxAllocation by omega)
        (show offset ≤ b.dataLength by omega), subSize_eq allocatable start.le]
    rw [subSize_eq (by omega) (Nat.min_le_left ..), mapError_bind, mapError_bind]
    simp only [mapError_bind, bind_assoc]
    rfl

/-- A strict offset write is the offset write. -/
theorem strictWriteOffsetLocked_eq {b : FifoBuffer} (wf : b.WellFormed) (p : List Byte)
    {bytes offset : Nat} (small : b.dataLength + offset < 2 ^ 64)
    : b.strictWriteOffsetLocked p bytes offset
      = (b.writeOffsetLocked p bytes offset).mapError .fault := by
  have stored := wf.stored
  have allocatable := wf.allocatable
  have position := wf.position
  have bound := maxAllocation_lt
  simp only [FifoBuffer.strictWriteOffsetLocked, FifoBuffer.writeOffsetLocked]
  rw [strictAdd_eq small, ok_bind, addSize, Word.add_eq small]
  split
  case isTrue => rfl
  case isFalse within =>
    have positive : 0 < b.bufferLength := by omega
    have start := Nat.mod_lt (b.readPosition + b.dataLength + offset) positive
    have inRange := first_inRange start.le
      (show min bytes (b.bufferLength - b.dataLength - offset) ≤ b.bufferLength by omega)
    rw [strictSub_eq allocatable stored, ok_bind, strictSub_eq (by omega) (by omega), ok_bind,
      strictAdd_eq (by omega), ok_bind, strictAdd_eq (by omega), ok_bind,
      strictMod_eq positive, ok_bind, strictSub_eq allocatable start.le, ok_bind,
      strictSub_eq (by omega) (Nat.min_le_left ..), ok_bind, Transfer.copyInto, if_pos inRange]
    have sum : addSize b.readPosition b.dataLength = b.readPosition + b.dataLength :=
      addSize_eq (by omega) (by omega)
    rw [sum, addSize, Word.add_eq (by omega), modSize_eq positive, ok_bind]
    simp only [subSize_eq allocatable stored, subSize_eq allocatable start.le]
    rw [subSize_eq (show b.bufferLength - b.dataLength ≤ maxAllocation by omega) (by omega),
      subSize_eq (by omega) (Nat.min_le_left ..)]
    simp only [mapError_bind, bind_assoc]
    rfl

/-- A strict change of the capacity is the change of the capacity. -/
theorem strictSetCapacity_eq {b : FifoBuffer} (wf : b.WellFormed) (size : Nat)
    (fresh : Nat → Byte)
    : b.strictSetCapacity size fresh = (b.setCapacity size fresh).mapError .fault := by
  have stored := wf.stored
  have allocatable := wf.allocatable
  have position := wf.position
  simp only [FifoBuffer.strictSetCapacity, FifoBuffer.setCapacity]
  split
  case isTrue => rfl
  case isFalse fits =>
    split
    case isFalse => rfl
    case isTrue =>
      have inRange := wf.stored_inRange (show 0 + b.dataLength ≤ b.dataLength by omega)
        (show b.dataLength ≤ size by omega)
      have start : (b.readPosition + 0) % b.bufferLength = b.readPosition := by
        rcases Nat.eq_zero_or_pos b.bufferLength with empty | positive
        · rw [empty, Nat.mod_zero, Nat.add_zero]
        · exact Nat.mod_eq_of_lt (by omega)
      rw [start] at inRange
      rw [strictSub_eq allocatable (by omega), ok_bind,
        strictSub_eq (by omega) (Nat.min_le_left ..), ok_bind, Transfer.copyInto,
        if_pos inRange, subSize_eq allocatable (by omega),
        subSize_eq (by omega) (Nat.min_le_left ..)]
      simp only [mapError_bind, bind_assoc]
      rfl

/-- A strict read is the read, since it hands out no more than is stored. -/
theorem strictRead_eq {b : FifoBuffer} (wf : b.WellFormed) (bytes : Nat)
    : b.strictRead bytes = (b.read bytes).mapError .fault := by
  have stored := wf.stored
  have allocatable := wf.allocatable
  have position := wf.position
  have bound := maxAllocation_lt
  rw [FifoBuffer.strictRead, FifoBuffer.read, strictReadOffsetLocked_eq wf,
    readOffsetLocked_eq wf, mapError_ok, ok_bind, ok_bind]
  by_cases empty : b.dataLength ≤ 0
  · rw [if_pos empty]
    rfl
  rw [if_neg empty]
  have length : ((b.content.drop 0).take bytes).length ≤ b.dataLength := by
    rw [List.length_take, List.drop_zero, wf.length_content]
    exact Nat.min_le_right ..
  generalize (b.content.drop 0).take bytes = data at length
  simp only []
  rw [strictAdd_eq (by omega), ok_bind, strictMod_eq (by omega), ok_bind,
    strictSub_eq (by omega) length, ok_bind, addSize_eq (by omega) (by omega),
    modSize_eq (by omega), ok_bind, subSize_eq (by omega) length]
  rfl

/-- A strict write is the write, since it stores no more than there is room for. -/
theorem strictWrite_eq {b : FifoBuffer} (wf : b.WellFormed) {p : List Byte} {bytes : Nat}
    (readable : bytes ≤ p.length)
    : b.strictWrite p bytes = (b.write p bytes).mapError .fault := by
  have stored := wf.stored
  have allocatable := wf.allocatable
  have bound := maxAllocation_lt
  have small : b.dataLength + 0 < 2 ^ 64 := by omega
  rw [FifoBuffer.strictWrite, FifoBuffer.write, strictWriteOffsetLocked_eq wf p small,
    writeOffsetLocked_eq wf readable small, mapError_ok, ok_bind, ok_bind]
  by_cases full : b.bufferLength ≤ b.dataLength + 0
  · rw [if_pos full]
    rfl
  rw [if_neg full]
  have copied : min bytes (b.bufferLength - b.dataLength - 0) ≤ maxAllocation := by omega
  generalize min bytes (b.bufferLength - b.dataLength - 0) = copy at copied
  have same : (b.place 0 (p.take copy)).dataLength = b.dataLength := rfl
  simp only []
  rw [strictAdd_eq (by omega), ok_bind, addSize_eq (by omega) copied]
  rfl

-----------------------------------------------------------------------------------------
-- Whole sequences of calls
-----------------------------------------------------------------------------------------

/-- A strict call is the call, by the cases of the calls. -/
theorem strictCall_eq {b : FifoBuffer} (wf : b.WellFormed) {call : FifoCall}
    (valid : call.Valid)
    : b.strictCall call = (b.call call).mapError .fault := by
  cases call with
  | write p bytes =>
      rw [FifoBuffer.strictCall, FifoBuffer.call, strictWrite_eq wf valid]
      cases b.write p bytes <;> rfl
  | read bytes =>
      rw [FifoBuffer.strictCall, FifoBuffer.call, strictRead_eq wf]
      cases b.read bytes <;> rfl
  | setCapacity size fresh =>
      rw [FifoBuffer.strictCall, FifoBuffer.call, strictSetCapacity_eq wf]
      cases b.setCapacity size fresh <;> rfl
  | getDataLen => rfl

/-- A ring that is well formed stands for the queue of its stored bytes. -/
theorem FifoBuffer.WellFormed.represents {b : FifoBuffer} (wf : b.WellFormed)
    : b.Represents ⟨b.bufferLength, b.content, by rw [wf.length_content]; exact wf.stored⟩ :=
  ⟨wf, rfl, rfl⟩

/-- An answer leaves a ring that is well formed, and the strict ring gives it as well. -/
theorem strictCall_agrees {b next : FifoBuffer} {call : FifoCall} {reply : FifoReply}
    (wf : b.WellFormed) (valid : call.Valid) (called : b.call call = .ok (reply, next))
    : b.strictCall call = .ok (reply, next) ∧ next.WellFormed := by
  obtain ⟨_, after, _, answered, _, represents, _⟩ :=
    call_simulates wf.represents (if_pos valid)
  obtain ⟨_, rfl⟩ := Prod.mk.inj (Except.ok.inj (answered.symm.trans called))
  rw [strictCall_eq wf valid, called]
  exact ⟨rfl, represents.wellFormed⟩

/-- Every sequence of valid calls runs on the strict ring as it does on the ring, so no sum
wraps, no difference is negative, no remainder is taken by zero and every transfer is in
range; and the stored bytes and the read position are inside the array.
-/
theorem fifoBuffer_stays_in_range {length : Nat} {fresh : Nat → Byte}
    {calls : List FifoCall} (allocatable : length ≤ maxAllocation)
    (valid : ∀ call ∈ calls, call.Valid)
    : ∃ replies b,
        Machine.run FifoBuffer.strictCall (FifoBuffer.create length fresh) calls
          = .ok (replies, b)
        ∧ Machine.run FifoBuffer.call (FifoBuffer.create length fresh) calls
          = .ok (replies, b)
        ∧ b.dataLength ≤ b.bufferLength
        ∧ b.readPosition < max 1 b.bufferLength := by
  have start := create_represents fresh allocatable
  obtain ⟨replies, b, _, ran, _, represents⟩ :=
    call_simulates.run start (Machine.permits_of_forall valid)
  have wf := represents.wellFormed
  refine ⟨replies, b, ?_, ran, wf.stored, wf.position⟩
  exact (Machine.run_agrees FifoBuffer.WellFormed FifoCall.Valid
    (fun wf valid called => strictCall_agrees wf valid called) start.wellFormed valid ran).1

/-- A full ring whose write position meets its read position, shrunk to what it stores. -/
theorem fifoBuffer_stays_in_range_full
    : ∃ replies b,
        Machine.run FifoBuffer.strictCall (FifoBuffer.create 3 (fun _ => 0))
          [.write [1, 2, 3] 3, .read 2, .write [4, 5, 6] 3, .read 1, .setCapacity 2 (fun _ => 9),
            .write [7] 1, .setCapacity 0 (fun _ => 9), .read 5]
          = .ok (replies, b)
        ∧ Machine.run FifoBuffer.call (FifoBuffer.create 3 (fun _ => 0))
          [.write [1, 2, 3] 3, .read 2, .write [4, 5, 6] 3, .read 1, .setCapacity 2 (fun _ => 9),
            .write [7] 1, .setCapacity 0 (fun _ => 9), .read 5]
          = .ok (replies, b)
        ∧ b.dataLength ≤ b.bufferLength
        ∧ b.readPosition < max 1 b.bufferLength :=
  fifoBuffer_stays_in_range (by decide) (by decide)

end Nbsdk.Memory
