import Nbsdk.Lib.Word
import Nbsdk.Lib.Ring

/-! The byte ring of fifo_buffer.cc, with its size_t arithmetic and its memcpy calls.
An access outside an allocation and a remainder by zero are faults of the model; what
`new char[n]` holds before it is written is an argument of the allocation.
-/

namespace Nbsdk.Memory

/-- A `char` of the buffers. -/
abbrev Byte := UInt8

/-- What the language leaves undefined in these functions. -/
inductive Fault
  | outOfBounds
  | divisionByZero
  deriving DecidableEq, Repr

/-- The longest array that `new char[n]` can return. -/
def maxAllocation : Nat := 2 ^ 63 - 1

def addSize (a b : Nat) : Nat := Word.add 64 a b

def subSize (a b : Nat) : Nat := Word.sub 64 a b

def modSize (a b : Nat) : Except Fault Nat :=
  if b = 0 then .error .divisionByZero else .ok (a % b)

/-- The cells of `new char[length]`; the language does not say what they hold. -/
def newChars (length : Nat) (fresh : Nat → Byte) : List Byte :=
  (List.range length).map fresh

/-- The bytes `memcpy` reads: `count` of them from `position` on. -/
def copyFrom (source : List Byte) (position count : Nat) : Except Fault (List Byte) :=
  if position + count ≤ source.length then .ok ((source.drop position).take count)
  else .error .outOfBounds

/-- The bytes `memcpy` writes: all of `data` from `position` on. -/
def copyTo (target : List Byte) (position : Nat) (data : List Byte)
    : Except Fault (List Byte) :=
  if position + data.length ≤ target.length then .ok (Cells.overwrite target position data)
  else .error .outOfBounds

/-- `memcpy(target + targetPosition, source + sourcePosition, count)`. -/
def memcpy (target : List Byte) (targetPosition : Nat) (source : List Byte)
    (sourcePosition count : Nat)
    : Except Fault (List Byte) := do
  let data ← copyFrom source sourcePosition count
  copyTo target targetPosition data

/-- The fields of the class; the mutex makes each call one step. -/
structure FifoBuffer where
  buffer : List Byte
  bufferLength : Nat
  dataLength : Nat
  readPosition : Nat
  deriving DecidableEq, Repr

namespace FifoBuffer

/-- The constructor. -/
def create (length : Nat) (fresh : Nat → Byte) : FifoBuffer where
  buffer := newChars length fresh
  bufferLength := length
  dataLength := 0
  readPosition := 0

def getDataLen (b : FifoBuffer) : Nat := b.dataLength

def setCapacity (b : FifoBuffer) (size : Nat) (fresh : Nat → Byte)
    : Except Fault (Bool × FifoBuffer) :=
  if b.dataLength > size then .ok (false, b)
  else if size ≠ b.bufferLength then do
    let buffer := newChars size fresh
    let copy := b.dataLength
    let tailCopy := min copy (subSize b.bufferLength b.readPosition)
    let buffer ← memcpy buffer 0 b.buffer b.readPosition tailCopy
    let buffer ← memcpy buffer tailCopy b.buffer 0 (subSize copy tailCopy)
    .ok (true, { b with buffer, readPosition := 0, bufferLength := size })
  else .ok (true, b)

/-- Copies out without consuming; `none` is the result -1, otherwise the bytes handed to
the caller, whose number is `*bytes_read`.
-/
def readOffsetLocked (b : FifoBuffer) (bytes offset : Nat)
    : Except Fault (Option (List Byte)) :=
  if offset ≥ b.dataLength then .ok none
  else do
    let available := subSize b.dataLength offset
    let readPosition ← modSize (addSize b.readPosition offset) b.bufferLength
    let copy := min bytes available
    let tailCopy := min copy (subSize b.bufferLength readPosition)
    let tail ← copyFrom b.buffer readPosition tailCopy
    let front ← copyFrom b.buffer 0 (subSize copy tailCopy)
    .ok (some (tail ++ front))

/-- Copies in without publishing; `none` is the result -1, otherwise `*bytes_written` and
the buffer with the bytes of `p` in place.
-/
def writeOffsetLocked (b : FifoBuffer) (p : List Byte) (bytes offset : Nat)
    : Except Fault (Option (Nat × FifoBuffer)) :=
  if addSize b.dataLength offset ≥ b.bufferLength then .ok none
  else do
    let available := subSize (subSize b.bufferLength b.dataLength) offset
    let writePosition ←
      modSize (addSize (addSize b.readPosition b.dataLength) offset) b.bufferLength
    let copy := min bytes available
    let tailCopy := min copy (subSize b.bufferLength writePosition)
    let buffer ← memcpy b.buffer writePosition p 0 tailCopy
    let buffer ← memcpy buffer 0 p tailCopy (subSize copy tailCopy)
    .ok (some (copy, { b with buffer }))

/-- The number of bytes read, and the bytes in the caller's buffer. -/
def read (b : FifoBuffer) (bytes : Nat) : Except Fault (Nat × List Byte × FifoBuffer) := do
  match ← b.readOffsetLocked bytes 0 with
  | none => .ok (0, [], b)
  | some data =>
      let readPosition ← modSize (addSize b.readPosition data.length) b.bufferLength
      let dataLength := subSize b.dataLength data.length
      .ok (data.length, data, { b with readPosition, dataLength })

/-- The number of bytes written. -/
def write (b : FifoBuffer) (p : List Byte) (bytes : Nat)
    : Except Fault (Nat × FifoBuffer) := do
  match ← b.writeOffsetLocked p bytes 0 with
  | none => .ok (0, b)
  | some (copy, b) => .ok (copy, { b with dataLength := addSize b.dataLength copy })

end FifoBuffer

/-- A call of the public interface with what the caller passes. -/
inductive FifoCall
  | write (p : List Byte) (bytes : Nat)
  | read (bytes : Nat)
  | setCapacity (size : Nat) (fresh : Nat → Byte)
  | getDataLen

/-- What a call returns, for a read together with the bytes it handed out. -/
inductive FifoReply
  | written (copied : Nat)
  | read (copied : Nat) (data : List Byte)
  | resized (ok : Bool)
  | length (bytes : Nat)
  deriving DecidableEq, Repr

/-- What callers guarantee: as many readable bytes as they announce, and a capacity that
can be allocated.
-/
def FifoCall.Valid : FifoCall → Prop
  | .write p bytes => bytes ≤ p.length
  | .setCapacity size _ => size ≤ maxAllocation
  | .read _ | .getDataLen => True

instance : DecidablePred FifoCall.Valid
  | .write p bytes => inferInstanceAs (Decidable (bytes ≤ p.length))
  | .setCapacity size _ => inferInstanceAs (Decidable (size ≤ maxAllocation))
  | .read _ | .getDataLen => inferInstanceAs (Decidable True)

/-- One call on the ring. -/
def FifoBuffer.call (b : FifoBuffer) : FifoCall → Except Fault (FifoReply × FifoBuffer)
  | .write p bytes => do
      let (copied, b) ← b.write p bytes
      .ok (.written copied, b)
  | .read bytes => do
      let (copied, data, b) ← b.read bytes
      .ok (.read copied data, b)
  | .setCapacity size fresh => do
      let (ok, b) ← b.setCapacity size fresh
      .ok (.resized ok, b)
  | .getDataLen => .ok (.length b.getDataLen, b)

end Nbsdk.Memory
