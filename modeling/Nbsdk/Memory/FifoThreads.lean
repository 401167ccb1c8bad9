import Nbsdk.Lib.Monitor
import Nbsdk.Memory.FifoStreams

/-! The ring of fifo_buffer.cc in several threads, with their accesses to its members one by one.
Each public call holds the mutex from its first access to its last. So whatever the order of
the accesses, callers see a queue that answers each call at once.
-/

namespace Nbsdk.Memory

open Fallible

/-- A computation that accesses the members of a ring. -/
abbrev RingSteps := Steps FifoBuffer Fault

namespace RingSteps

/-- What a thread does with values that it has loaded. -/
def lift {α : Type} (result : Except Fault α) : RingSteps α :=
  .once (fun b => result.map (·, b))

def loadByte (position : Nat) : RingSteps Byte :=
  .once (fun b =>
    match b.buffer[position]? with
    | some byte => .ok (byte, b)
    | none => .error .outOfBounds)

def storeByte (position : Nat) (byte : Byte) : RingSteps Unit :=
  .once (fun b =>
    if position < b.buffer.length then
      .ok ((), { b with buffer := b.buffer.set position byte })
    else .error .outOfBounds)

/-- `memcpy` from `buffer_`, byte by byte. -/
def copyOut (position : Nat) : Nat → RingSteps (List Byte)
  | 0 => pure []
  | count + 1 => do
      let byte ← loadByte position
      let rest ← copyOut (position + 1) count
      pure (byte :: rest)

/-- `memcpy` to `buffer_`, byte by byte. -/
def copyIn (position : Nat) : List Byte → RingSteps Unit
  | [] => pure ()
  | byte :: rest => do
      storeByte position byte
      copyIn (position + 1) rest

def bufferLength : RingSteps Nat := .load FifoBuffer.bufferLength

def dataLength : RingSteps Nat := .load FifoBuffer.dataLength

def readPosition : RingSteps Nat := .load FifoBuffer.readPosition

def setDataLength (dataLength : Nat) : RingSteps Unit := .store (fun b => { b with dataLength })

def setReadPosition (readPosition : Nat) : RingSteps Unit :=
  .store (fun b => { b with readPosition })

def getDataLen : RingSteps Nat := dataLength

def setCapacity (size : Nat) (fresh : Nat → Byte) : RingSteps Bool := do
  if (← dataLength) > size then pure false
  else if size ≠ (← bufferLength) then do
    let buffer := newChars size fresh
    let copy ← dataLength
    let tailCopy := min copy (subSize (← bufferLength) (← readPosition))
    let tail ← copyOut (← readPosition) tailCopy
    let buffer ← lift (copyTo buffer 0 tail)
    let front ← copyOut 0 (subSize copy tailCopy)
    let buffer ← lift (copyTo buffer tailCopy front)
    .store (fun b => { b with buffer })
    setReadPosition 0
    .store (fun b => { b with bufferLength := size })
    pure true
  else pure true

def readOffsetLocked (bytes offset : Nat) : RingSteps (Option (List Byte)) := do
  if offset ≥ (← dataLength) then pure none
  else do
    let available := subSize (← dataLength) offset
    let position ← lift (modSize (addSize (← readPosition) offset) (← bufferLength))
    let copy := min bytes available
    let tailCopy := min copy (subSize (← bufferLength) position)
    let tail ← copyOut position tailCopy
    let front ← copyOut 0 (subSize copy tailCopy)
    pure (some (tail ++ front))

def writeOffsetLocked (p : List Byte) (bytes offset : Nat) : RingSteps (Option Nat) := do
  if addSize (← dataLength) offset ≥ (← bufferLength) then pure none
  else do
    let available := subSize (subSize (← bufferLength) (← dataLength)) offset
    let position ←
      lift (modSize (addSize (addSize (← readPosition) (← dataLength)) offset) (← bufferLength))
    let copy := min bytes available
    let tailCopy := min copy (subSize (← bufferLength) position)
    copyIn position (← lift (copyFrom p 0 tailCopy))
    copyIn 0 (← lift (copyFrom p tailCopy (subSize copy tailCopy)))
    pure (some copy)

def read (bytes : Nat) : RingSteps (Nat × List Byte) := do
  match ← readOffsetLocked bytes 0 with
  | none => pure (0, [])
  | some data =>
      setReadPosition
        (← lift (modSize (addSize (← readPosition) data.length) (← bufferLength)))
      setDataLength (subSize (← dataLength) data.length)
      pure (data.length, data)

def write (p : List Byte) (bytes : Nat) : RingSteps Nat := do
  match ← writeOffsetLocked p bytes 0 with
  | none => pure 0
  | some copy =>
      setDataLength (addSize (← dataLength) copy)
      pure copy

end RingSteps

/-- A public call, from the construction of its `std::lock_guard` to its return. -/
def FifoCall.steps : FifoCall → RingSteps FifoReply
  | .write p bytes => do
      let copied ← RingSteps.write p bytes
      pure (.written copied)
  | .read bytes => do
      let (copied, data) ← RingSteps.read bytes
      pure (.read copied data)
  | .setCapacity size fresh => do
      let ok ← RingSteps.setCapacity size fresh
      pure (.resized ok)
  | .getDataLen => do
      let bytes ← RingSteps.getDataLen
      pure (.length bytes)

-----------------------------------------------------------------------------------------
-- A call without others between its accesses
-----------------------------------------------------------------------------------------

namespace RingSteps

theorem alone_lift_bind {α β : Type} {result : Except Fault α} {value : α}
    (ok : result = .ok value) (next : α → RingSteps β) (b : FifoBuffer)
    : (lift result >>= next).alone b = (next value).alone b := by
  subst ok
  rfl

theorem copyFrom_ok_iff {source data : List Byte} {position count : Nat}
    : copyFrom source position count = .ok data
      ↔ position + count ≤ source.length ∧ (source.drop position).take count = data := by
  rw [copyFrom]
  split <;> simp [*]

theorem copyTo_ok_iff {target data result : List Byte} {position : Nat}
    : copyTo target position data = .ok result
      ↔ position + data.length ≤ target.length
        ∧ Cells.overwrite target position data = result := by
  rw [copyTo]
  split <;> simp [*]

/-- Byte by byte `memcpy` reads what it reads at once, by induction over the count. -/
theorem alone_copyOut {b : FifoBuffer} {position count : Nat} {data : List Byte}
    (copied : copyFrom b.buffer position count = .ok data)
    : (copyOut position count).alone b = .ok (data, b) := by
  induction count generalizing position data with
  | zero =>
      obtain ⟨_, rfl⟩ := copyFrom_ok_iff.mp copied
      rfl
  | succ count ih =>
      obtain ⟨fits, rfl⟩ := copyFrom_ok_iff.mp copied
      have inside : position < b.buffer.length := by omega
      have loads : (loadByte position).alone b = .ok (b.buffer[position], b) := by
        simp [loadByte, Steps.once, Steps.alone, List.getElem?_eq_getElem inside]
      have within : position + 1 + count ≤ b.buffer.length := by omega
      have rest := ih (copyFrom_ok_iff.mpr ⟨within, rfl⟩)
      rw [copyOut, Steps.alone_bind loads, Steps.alone_bind rest, List.drop_eq_getElem_cons inside]
      rfl

/-- Byte by byte `memcpy` writes what it writes at once, by induction over the bytes. -/
theorem alone_copyIn {b : FifoBuffer} {position : Nat} {data buffer : List Byte}
    (copied : copyTo b.buffer position data = .ok buffer)
    : (copyIn position data).alone b = .ok ((), { b with buffer }) := by
  induction data generalizing b position with
  | nil =>
      obtain ⟨_, rfl⟩ := copyTo_ok_iff.mp copied
      simp [copyIn]
  | cons byte rest ih =>
      obtain ⟨fits, made⟩ := copyTo_ok_iff.mp copied
      rw [List.length_cons] at fits
      have inside : position < b.buffer.length := by omega
      have stores
          : (storeByte position byte).alone b
            = .ok ((), { b with buffer := b.buffer.set position byte }) := by
        simp [storeByte, Steps.once, Steps.alone, inside]
      have one : b.buffer.set position byte = Cells.overwrite b.buffer position [byte] := by
        rw [Cells.overwrite, List.set_eq_take_append_cons_drop, if_pos inside, List.append_assoc]
        rfl
      have both :=
        Cells.overwrite_overwrite b.buffer [byte] rest position (Nat.le_of_lt inside)
      have later : copyTo (b.buffer.set position byte) (position + 1) rest = .ok buffer := by
        refine copyTo_ok_iff.mpr ⟨?_, ?_⟩
        · rw [List.length_set]
          omega
        · exact one ▸ both.trans made
      rw [copyIn, Steps.alone_bind stores, ih later]

theorem alone_readOffsetLocked {b : FifoBuffer} {bytes offset : Nat} {result : Option (List Byte)}
    (done : b.readOffsetLocked bytes offset = .ok result)
    : (readOffsetLocked bytes offset).alone b = .ok (result, b) := by
  simp only [readOffsetLocked, dataLength, Steps.alone_load_bind]
  rw [FifoBuffer.readOffsetLocked] at done
  split at done
  case isTrue far =>
    obtain rfl := Except.ok.inj done
    rw [if_pos far]
    rfl
  case isFalse near =>
    obtain ⟨start, modulo, done⟩ := bind_eq_ok.mp done
    obtain ⟨tail, tail_read, done⟩ := bind_eq_ok.mp done
    obtain ⟨front, front_read, done⟩ := bind_eq_ok.mp done
    obtain rfl := Except.ok.inj done
    simp only [if_neg near, readPosition, bufferLength, Steps.alone_load_bind]
    rw [alone_lift_bind modulo]
    simp only [Steps.alone_load_bind]
    rw [Steps.alone_bind (alone_copyOut tail_read), Steps.alone_bind (alone_copyOut front_read)]
    rfl

/-- What `WriteOffsetLocked` leaves and hands back: the ring itself where it returns -1. -/
theorem alone_writeOffsetLocked {b after : FifoBuffer} {p : List Byte} {bytes offset copy : Nat}
    (done : b.writeOffsetLocked p bytes offset = .ok (some (copy, after)))
    : (writeOffsetLocked p bytes offset).alone b = .ok (some copy, after) := by
  simp only [writeOffsetLocked, dataLength, bufferLength, Steps.alone_load_bind]
  rw [FifoBuffer.writeOffsetLocked] at done
  split at done
  case isTrue => simp at done
  case isFalse near =>
    obtain ⟨start, modulo, done⟩ := bind_eq_ok.mp done
    obtain ⟨first, first_written, done⟩ := bind_eq_ok.mp done
    obtain ⟨second, second_written, done⟩ := bind_eq_ok.mp done
    obtain ⟨rfl, rfl⟩ := Prod.mk.inj (Option.some.inj (Except.ok.inj done))
    obtain ⟨tail, tail_read, tail_written⟩ := bind_eq_ok.mp first_written
    obtain ⟨front, front_read, front_written⟩ := bind_eq_ok.mp second_written
    simp only [if_neg near, readPosition, Steps.alone_load_bind]
    rw [alone_lift_bind modulo]
    simp only [Steps.alone_load_bind]
    rw [alone_lift_bind tail_read, Steps.alone_bind (alone_copyIn tail_written),
      alone_lift_bind front_read]
    have writes := alone_copyIn (b := { b with buffer := first }) front_written
    rw [Steps.alone_bind writes]
    rfl

theorem alone_writeOffsetLocked_none {b : FifoBuffer} {p : List Byte} {bytes offset : Nat}
    (done : b.writeOffsetLocked p bytes offset = .ok none)
    : (writeOffsetLocked p bytes offset).alone b = .ok (none, b) := by
  simp only [writeOffsetLocked, dataLength, bufferLength, Steps.alone_load_bind]
  rw [FifoBuffer.writeOffsetLocked] at done
  split at done
  case isTrue far =>
    rw [if_pos far]
    rfl
  case isFalse =>
    obtain ⟨_, _, done⟩ := bind_eq_ok.mp done
    obtain ⟨_, _, done⟩ := bind_eq_ok.mp done
    obtain ⟨_, _, done⟩ := bind_eq_ok.mp done
    simp at done

theorem alone_read {b after : FifoBuffer} {bytes copied : Nat} {data : List Byte}
    (done : b.read bytes = .ok (copied, data, after))
    : (read bytes).alone b = .ok ((copied, data), after) := by
  obtain ⟨result, reads, done⟩ := bind_eq_ok.mp done
  rw [read, Steps.alone_bind (alone_readOffsetLocked reads)]
  cases result with
  | none =>
      obtain ⟨rfl, same⟩ := Prod.mk.inj (Except.ok.inj done)
      obtain ⟨rfl, rfl⟩ := Prod.mk.inj same
      rfl
  | some found =>
      obtain ⟨start, modulo, done⟩ := bind_eq_ok.mp done
      obtain ⟨rfl, same⟩ := Prod.mk.inj (Except.ok.inj done)
      obtain ⟨rfl, rfl⟩ := Prod.mk.inj same
      simp only [readPosition, bufferLength, Steps.alone_load_bind]
      rw [alone_lift_bind modulo]
      rfl

theorem alone_write {b after : FifoBuffer} {p : List Byte} {bytes copied : Nat}
    (done : b.write p bytes = .ok (copied, after))
    : (write p bytes).alone b = .ok (copied, after) := by
  obtain ⟨result, writes, done⟩ := bind_eq_ok.mp done
  cases result with
  | none =>
      obtain ⟨rfl, rfl⟩ := Prod.mk.inj (Except.ok.inj done)
      rw [write, Steps.alone_bind (alone_writeOffsetLocked_none writes)]
      rfl
  | some found =>
      obtain ⟨copy, written⟩ := found
      obtain ⟨rfl, rfl⟩ := Prod.mk.inj (Except.ok.inj done)
      rw [write, Steps.alone_bind (alone_writeOffsetLocked writes)]
      rfl

theorem alone_setCapacity {b after : FifoBuffer} {size : Nat} {fresh : Nat → Byte} {ok : Bool}
    (done : b.setCapacity size fresh = .ok (ok, after))
    : (setCapacity size fresh).alone b = .ok (ok, after) := by
  simp only [setCapacity, dataLength, Steps.alone_load_bind]
  rw [FifoBuffer.setCapacity] at done
  split at done
  case isTrue small =>
    obtain ⟨rfl, rfl⟩ := Prod.mk.inj (Except.ok.inj done)
    rw [if_pos small]
    rfl
  case isFalse fits =>
    simp only [if_neg fits, bufferLength, Steps.alone_load_bind]
    split at done
    case isFalse same =>
      obtain ⟨rfl, rfl⟩ := Prod.mk.inj (Except.ok.inj done)
      rw [if_neg same]
      rfl
    case isTrue other =>
      obtain ⟨first, first_copied, done⟩ := bind_eq_ok.mp done
      obtain ⟨second, second_copied, done⟩ := bind_eq_ok.mp done
      obtain ⟨rfl, rfl⟩ := Prod.mk.inj (Except.ok.inj done)
      obtain ⟨tail, tail_read, tail_written⟩ := bind_eq_ok.mp first_copied
      obtain ⟨front, front_read, front_written⟩ := bind_eq_ok.mp second_copied
      simp only [if_pos other, readPosition, Steps.alone_load_bind]
      rw [Steps.alone_bind (alone_copyOut tail_read), alone_lift_bind tail_written,
        Steps.alone_bind (alone_copyOut front_read), alone_lift_bind front_written]
      rfl

end RingSteps

/-- The accesses of a call, one after another, do what the call does. -/
theorem FifoCall.alone_steps {b after : FifoBuffer} {call : FifoCall} {reply : FifoReply}
    (done : b.call call = .ok (reply, after))
    : call.steps.alone b = .ok (reply, after) := by
  cases call with
  | write p bytes =>
      obtain ⟨⟨copied, next⟩, wrote, done⟩ := bind_eq_ok.mp done
      obtain ⟨rfl, rfl⟩ := Prod.mk.inj (Except.ok.inj done)
      rw [FifoCall.steps, Steps.alone_bind (RingSteps.alone_write wrote)]
      rfl
  | read bytes =>
      obtain ⟨⟨copied, data, next⟩, took, done⟩ := bind_eq_ok.mp done
      obtain ⟨rfl, rfl⟩ := Prod.mk.inj (Except.ok.inj done)
      rw [FifoCall.steps, Steps.alone_bind (RingSteps.alone_read took)]
      rfl
  | setCapacity size fresh =>
      obtain ⟨⟨ok, next⟩, resized, done⟩ := bind_eq_ok.mp done
      obtain ⟨rfl, rfl⟩ := Prod.mk.inj (Except.ok.inj done)
      rw [FifoCall.steps, Steps.alone_bind (RingSteps.alone_setCapacity resized)]
      rfl
  | getDataLen =>
      obtain ⟨rfl, rfl⟩ := Prod.mk.inj (Except.ok.inj done)
      rfl

-----------------------------------------------------------------------------------------
-- Calls in several threads
-----------------------------------------------------------------------------------------

/-- A ring with its mutex and the threads that call it. -/
abbrev SharedRing := Monitor FifoBuffer Fault FifoCall FifoReply

namespace SharedRing

/-- A new ring that no thread has called. -/
def create (length : Nat) (fresh : Nat → Byte) : SharedRing :=
  Monitor.create (FifoBuffer.create length fresh)

def run (m : SharedRing) (events : List (MonitorEvent FifoCall FifoReply)) : Option SharedRing :=
  Monitor.run FifoCall.steps m events

end SharedRing

/-- The accesses of each valid call alone do what a queue answers. -/
theorem steps_meet
    : Monitor.Meets FifoCall.steps queueCall FifoBuffer.Represents FifoCall.Valid := by
  intro b queue call represents valid
  obtain ⟨reply, after, next, called, answered, represents', _⟩ :=
    call_simulates represents (if_pos valid)
  exact ⟨reply, after, next, FifoCall.alone_steps called, answered, represents'⟩

/-- The threads of a ring stand for those of a queue, whatever steps they have taken. -/
theorem sharedRing_stands {length : Nat} {fresh : Nat → Byte}
    {events : List (MonitorEvent FifoCall FifoReply)} {final : SharedRing}
    (allocatable : length ≤ maxAllocation)
    (ran : (SharedRing.create length fresh).run events = some final)
    (valid : Monitor.CallsOnly FifoCall.Valid events)
    : ∃ order queue stages,
        Monitor.Answers queueCall (BoundedQueue.empty length) (fun _ => .idle)
          (events.filterMap Monitor.seen?) order queue stages
        ∧ Monitor.StandsFor FifoBuffer.Represents FifoCall.Valid final queue stages :=
  (Monitor.StandsFor.create (create_represents fresh allocatable)).run steps_meet valid ran

/-- In any number of threads whose accesses to the ring interleave in any way, no two are under
the mutex at once, no access is out of bounds, and what the callers see is a bounded queue that
answers each call in one step between its call and its return.
-/
theorem fifoBuffer_linearizable {length : Nat} {fresh : Nat → Byte}
    {events : List (MonitorEvent FifoCall FifoReply)} {final : SharedRing}
    (allocatable : length ≤ maxAllocation)
    (ran : (SharedRing.create length fresh).run events = some final)
    (valid : Monitor.CallsOnly FifoCall.Valid events)
    : (∀ first second,
        (final.threads first).isInside = true → (final.threads second).isInside = true
        → first = second)
      ∧ (∀ thread fault, final.threads thread ≠ .failed fault)
      ∧ ∃ order queue stages,
          Monitor.Answers queueCall (BoundedQueue.empty length) (fun _ => .idle)
            (events.filterMap Monitor.seen?) order queue stages
          ∧ (final.owner = none → final.shared.Represents queue) := by
  obtain ⟨order, queue, stages, answers, stands⟩ := sharedRing_stands allocatable ran valid
  exact ⟨stands.exclusive, stands.not_failed, order, queue, stages, answers, stands.free⟩

/-- One thread writes while another waits to read what it writes. -/
def handover : List (MonitorEvent FifoCall FifoReply) :=
  [.invoke 0 (.write [7] 1), .invoke 1 (.read 1), .lock 0]
    ++ List.replicate 14 (.access 0)
    ++ [.unlock 0, .lock 1, .answer 0 (.written 1)]
    ++ List.replicate 13 (.access 1)
    ++ [.unlock 1, .answer 1 (.read 1 [7])]

theorem handover_valid : Monitor.CallsOnly FifoCall.Valid handover := by
  intro thread call member
  simp only [handover, List.mem_append, List.mem_cons, List.mem_replicate, List.not_mem_nil,
    reduceCtorEq, and_false, or_false, MonitorEvent.invoke.injEq] at member
  rcases member with ⟨_, rfl⟩ | ⟨_, rfl⟩
  · exact Nat.le_refl 1
  · trivial

theorem fifoBuffer_linearizable_handover
    : ∃ final order queue stages,
        (SharedRing.create 2 (fun _ => 0)).run handover = some final
        ∧ Monitor.Answers queueCall (BoundedQueue.empty 2) (fun _ => .idle)
            (handover.filterMap Monitor.seen?) order queue stages := by
  have runs : ((SharedRing.create 2 (fun _ => 0)).run handover).isSome = true := by
    decide +kernel
  obtain ⟨final, ran⟩ := Option.isSome_iff_exists.mp runs
  obtain ⟨_, _, order, queue, stages, answers, _⟩ :=
    fifoBuffer_linearizable (by decide) ran handover_valid
  exact ⟨final, order, queue, stages, ran, answers⟩

/-- In a ring that no thread is calling any more, the calls have an order in which each thread
finds its own with the replies it got, and in which the bytes read and those still stored are
the bytes that the writes accepted.
-/
theorem fifoBuffer_shared_streams {length : Nat} {fresh : Nat → Byte}
    {events : List (MonitorEvent FifoCall FifoReply)} {final : SharedRing}
    (allocatable : length ≤ maxAllocation)
    (ran : (SharedRing.create length fresh).run events = some final)
    (valid : Monitor.CallsOnly FifoCall.Valid events)
    (idle : ∀ thread, final.threads thread = .idle)
    : ∃ order : List (Monitor.Exchange FifoCall FifoReply),
        (∀ thread,
          order.filter (·.thread = thread)
            = Monitor.dialogue thread none (events.filterMap Monitor.seen?))
        ∧ order.flatMap (fun e => e.call.accepted e.reply)
          = order.flatMap (fun e => e.reply.delivered) ++ final.shared.content := by
  obtain ⟨order, queue, stages, answers, stands⟩ := sharedRing_stands allocatable ran valid
  refine ⟨order, fun thread => ?_, ?_⟩
  · have own := answers.dialogue thread
    rw [stands.stage_of_idle (idle thread)] at own
    simpa [Monitor.Stage.taken, Monitor.Stage.call?] using own
  · have conserved :=
      answers.explains.conserved BoundedQueue.items FifoCall.accepted FifoReply.delivered
        queueCall_conserves
    have empty : (BoundedQueue.empty length).items = ([] : List Byte) := rfl
    rw [← (stands.free (stands.free_of_idle idle)).items]
    simpa [empty, List.flatMap_map, List.flatMap_def, Function.comp_def] using conserved

theorem fifoBuffer_shared_streams_handover
    : ∃ final,
        (SharedRing.create 2 (fun _ => 0)).run handover = some final
        ∧ ∃ order : List (Monitor.Exchange FifoCall FifoReply),
            order.flatMap (fun e => e.call.accepted e.reply)
              = order.flatMap (fun e => e.reply.delivered) ++ final.shared.content := by
  have runs
      : ((SharedRing.create 2 (fun _ => 0)).run handover).any
          (fun m => m.threads 0 = .idle ∧ m.threads 1 = .idle)
        = true := by
    decide +kernel
  obtain ⟨final, ran, returned⟩ := (Option.any_eq_true ..).mp runs
  obtain ⟨writer, reader⟩ := of_decide_eq_true returned
  have idle : ∀ thread, final.threads thread = .idle := by
    intro thread
    by_cases calls : thread ∈ handover.map MonitorEvent.thread
    case neg => exact Monitor.run_other ran calls
    case pos =>
      have two : ∀ other ∈ handover.map MonitorEvent.thread, other = 0 ∨ other = 1 := by decide
      rcases two thread calls with rfl | rfl
      · exact writer
      · exact reader
  obtain ⟨order, _, streams⟩ := fifoBuffer_shared_streams (by decide) ran handover_valid idle
  exact ⟨final, ran, order, streams⟩

/-- Whatever the threads have done, all of their calls can return as long as none makes another
one: no call is ever kept from the mutex for good.
-/
theorem fifoBuffer_calls_return {length : Nat} {fresh : Nat → Byte}
    {events : List (MonitorEvent FifoCall FifoReply)} {m : SharedRing}
    (allocatable : length ≤ maxAllocation)
    (ran : (SharedRing.create length fresh).run events = some m)
    (valid : Monitor.CallsOnly FifoCall.Valid events)
    : ∃ more final,
        (∀ event ∈ more, event.goesOn = true)
        ∧ m.run more = some final
        ∧ ∀ thread, final.threads thread = .idle := by
  obtain ⟨_, _, _, _, stands⟩ := sharedRing_stands allocatable ran valid
  exact stands.all_return steps_meet fun _ other => Monitor.run_other ran other

/-- The writer is at work and the reader waits. -/
theorem fifoBuffer_calls_return_waiting
    : ∃ m more final,
        (SharedRing.create 2 (fun _ => 0)).run (handover.take 10) = some m
        ∧ m.run more = some final
        ∧ ∀ thread, final.threads thread = .idle := by
  have runs : ((SharedRing.create 2 (fun _ => 0)).run (handover.take 10)).isSome = true := by
    decide +kernel
  obtain ⟨m, ran⟩ := Option.isSome_iff_exists.mp runs
  have valid : Monitor.CallsOnly FifoCall.Valid (handover.take 10) :=
    fun thread call member => handover_valid thread call (List.mem_of_mem_take member)
  obtain ⟨more, final, _, goes, idle⟩ := fifoBuffer_calls_return (by decide) ran valid
  exact ⟨m, more, final, ran, goes, idle⟩

end Nbsdk.Memory
