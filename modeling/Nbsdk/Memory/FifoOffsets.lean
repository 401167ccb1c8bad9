import Nbsdk.Memory.FifoRefinement

/-! Transfers at an offset, between the calls that publish them.
A read from an offset looks into the queue, and a write at an offset puts bytes behind it that
a later call may publish. The gap in front of them can be filled afterwards.
-/

namespace Nbsdk.Memory

open Fallible

namespace FifoBuffer

/-- The ring after `WriteOffsetLocked` of all of `data`, the same ring where that fails. -/
def putAt (b : FifoBuffer) (data : List Byte) (offset : Nat) : Except Fault FifoBuffer := do
  match ← b.writeOffsetLocked data data.length offset with
  | none => .ok b
  | some (_, after) => .ok after

/-- What transfers at an offset do to a ring that stands for a queue. -/
structure OffsetTransfers (b : FifoBuffer) (queue : BoundedQueue Byte) : Prop where
  reads
    : ∀ bytes offset,
        queue.items.length + offset < 2 ^ 64
        → b.readOffsetLocked bytes offset
          = .ok (if queue.items.length ≤ offset then none
                 else some ((queue.items.drop offset).take bytes))
  writes
    : ∀ (p : List Byte) bytes offset,
        bytes ≤ p.length
        → queue.items.length + offset < 2 ^ 64
        → ∃ after : FifoBuffer,
            b.writeOffsetLocked p bytes offset
              = .ok (if queue.capacity ≤ queue.items.length + offset then none
                     else some (min bytes (queue.free - offset), after))
            ∧ after.Represents queue
  composes
    : ∀ first second : List Byte,
        queue.items.length + first.length + second.length ≤ queue.capacity
        → ∃ after : FifoBuffer,
            (do
              let b ← b.putAt second first.length
              b.putAt first 0) = .ok after
            ∧ b.putAt (first ++ second) 0 = .ok after
            ∧ (after.publish (first.length + second.length)).WellFormed
            ∧ (after.publish (first.length + second.length)).content
              = queue.items ++ first ++ second

@[simp] theorem place_nil (b : FifoBuffer) (offset : Nat) : b.place offset [] = b := by
  simp [place]

/-- Placed bytes leave the stored ones as they are. -/
theorem WellFormed.content_place {b : FifoBuffer} (wf : b.WellFormed) {offset : Nat}
    {data : List Byte} (fits : b.dataLength + offset + data.length ≤ b.bufferLength)
    : (b.place offset data).content = b.content := by
  have kept := Ring.window_write_behind b.buffer data b.readPosition
    (Nat.le_add_right b.dataLength offset) (by rw [wf.allocated]; exact fits)
  rw [wf.allocated] at kept
  exact kept

/-- Bytes in a gap and those placed behind it are placed as one. -/
theorem WellFormed.place_place {b : FifoBuffer} (wf : b.WellFormed) {first second : List Byte}
    (fits : b.dataLength + first.length + second.length ≤ b.bufferLength)
    : (b.place first.length second).place 0 first = b.place 0 (first ++ second) := by
  have inside : (b.readPosition + b.dataLength) % b.buffer.length ≤ b.buffer.length := by
    have stored := wf.stored
    have position := wf.position
    rw [wf.allocated]
    rcases Nat.eq_zero_or_pos b.bufferLength with empty | positive
    · rw [empty, Nat.mod_zero]
      omega
    · exact (Nat.mod_lt _ positive).le
  have joined := Ring.write_write first second inside
    (by rw [wf.allocated]; omega)
  rw [Nat.mod_add_mod, wf.allocated, Nat.add_assoc] at joined
  simp only [FifoBuffer.place, Nat.add_zero]
  rw [joined]

/-- Bytes that fit are placed, also none where the offset leaves no room. -/
theorem WellFormed.putAt_eq {b : FifoBuffer} (wf : b.WellFormed) {offset : Nat}
    {data : List Byte} (fits : b.dataLength + offset + data.length ≤ b.bufferLength)
    : b.putAt data offset = .ok (b.place offset data) := by
  have allocatable := wf.allocatable
  have bound := maxAllocation_lt
  rw [putAt, writeOffsetLocked_eq wf (Nat.le_refl _) (by omega), ok_bind]
  by_cases full : b.bufferLength ≤ b.dataLength + offset
  case pos =>
    have none : data = [] := List.eq_nil_of_length_eq_zero (by omega)
    rw [if_pos full, none, place_nil]
  case neg =>
    have all : min data.length (b.bufferLength - b.dataLength - offset) = data.length :=
      Nat.min_eq_left (by omega)
    rw [if_neg full]
    simp only [all, List.take_length]

/-- Two transfers that fill the space behind the stored bytes from the end have the effect of
one, and publishing them appends both parts.
-/
theorem WellFormed.transfers_compose {b : FifoBuffer} (wf : b.WellFormed)
    {first second : List Byte}
    (fits : b.dataLength + first.length + second.length ≤ b.bufferLength)
    : ∃ after : FifoBuffer,
        (do
          let b ← b.putAt second first.length
          b.putAt first 0) = .ok after
        ∧ b.putAt (first ++ second) 0 = .ok after
        ∧ (after.publish (first.length + second.length)).WellFormed
        ∧ (after.publish (first.length + second.length)).content
          = b.content ++ first ++ second := by
  have behind := wf.place fits
  have whole : b.dataLength + 0 + (first ++ second).length ≤ b.bufferLength := by
    rw [List.length_append]
    omega
  have front : (b.place first.length second).dataLength + 0 + first.length
      ≤ (b.place first.length second).bufferLength := by
    change b.dataLength + 0 + first.length ≤ b.bufferLength
    omega
  refine ⟨b.place 0 (first ++ second), ?_, wf.putAt_eq whole, ?_⟩
  · rw [wf.putAt_eq fits, ok_bind, behind.putAt_eq front, wf.place_place fits]
  · rw [← List.length_append, List.append_assoc]
    exact wf.publish_place (first ++ second) (by rw [List.length_append]; omega)

end FifoBuffer

/-- Transfers at an offset are transfers on the queue that the ring stands for. -/
theorem FifoBuffer.Represents.offsetTransfers {b : FifoBuffer} {queue : BoundedQueue Byte}
    (h : b.Represents queue)
    : b.OffsetTransfers queue where
  reads := by
    intro bytes offset _
    rw [readOffsetLocked_eq h.wellFormed, h.length_items, h.items]
  writes := by
    intro p bytes offset readable small
    have free : queue.free = b.bufferLength - b.dataLength := by
      rw [BoundedQueue.free, h.capacity, h.length_items]
    rw [h.length_items] at small ⊢
    rw [writeOffsetLocked_eq h.wellFormed readable small, h.capacity, free]
    by_cases full : b.bufferLength ≤ b.dataLength + offset
    case pos => exact ⟨b, by rw [if_pos full, if_pos full], h⟩
    case neg =>
      generalize copied : min bytes (b.bufferLength - b.dataLength - offset) = copy
      have fits : b.dataLength + offset + (p.take copy).length ≤ b.bufferLength := by
        rw [List.length_take]
        omega
      refine ⟨b.place offset (p.take copy), ?_, h.wellFormed.place fits, h.capacity, ?_⟩
      · rw [if_neg full]
      · rw [h.items, h.wellFormed.content_place fits]
  composes := by
    intro first second fits
    rw [h.length_items, h.capacity] at fits
    rw [h.items]
    exact h.wellFormed.transfers_compose fits

/-- In every state that calls lead to, offset transfers look into the stored bytes and leave
them as they are, and two writes that meet are one.
-/
theorem offsetTransfers_compose {length : Nat} {fresh : Nat → Byte} {calls : List FifoCall}
    {replies : List FifoReply} {b : FifoBuffer} (allocatable : length ≤ maxAllocation)
    (valid : ∀ call ∈ calls, call.Valid)
    (ran : Machine.run FifoBuffer.call (FifoBuffer.create length fresh) calls
      = .ok (replies, b))
    : ∃ queue,
        Machine.Explains queueCall (BoundedQueue.empty length) calls replies queue
        ∧ b.Represents queue
        ∧ b.OffsetTransfers queue := by
  obtain ⟨replies', b', queue, ran', explained, represents⟩ :=
    call_simulates.run (create_represents fresh allocatable) (Machine.permits_of_forall valid)
  obtain ⟨rfl, rfl⟩ := Prod.mk.inj (Except.ok.inj (ran.symm.trans ran'))
  exact ⟨queue, explained, represents, represents.offsetTransfers⟩

/-- The transfers on a ring whose stored bytes wrap around its end. -/
theorem offsetTransfers_compose_wrapping
    : ∃ replies b,
        Machine.run FifoBuffer.call (FifoBuffer.create 4 (fun _ => 0))
            [.write [1, 2, 3] 3, .read 2, .write [4, 5] 2]
          = .ok (replies, b)
        ∧ ∃ queue,
            Machine.Explains queueCall (BoundedQueue.empty 4)
              [.write [1, 2, 3] 3, .read 2, .write [4, 5] 2] replies queue
            ∧ b.Represents queue
            ∧ b.OffsetTransfers queue := by
  have ran
      : Machine.run FifoBuffer.call (FifoBuffer.create 4 (fun _ => 0))
          [.write [1, 2, 3] 3, .read 2, .write [4, 5] 2]
        = .ok ([.written 3, .read 2 [1, 2], .written 2], ⟨[5, 2, 3, 4], 4, 3, 2⟩) := by
    decide +kernel
  exact ⟨_, _, ran, offsetTransfers_compose (by decide) (by decide) ran⟩

end Nbsdk.Memory
