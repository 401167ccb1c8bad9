import Nbsdk.Memory.FifoRefinement

/-! The bytes that go through a ring, over whole sequences of calls.
The callers, in however many threads, are one sequence of calls under the mutex. What they read
continues what was stored with what they wrote, and nothing of it depends on what the arrays
held when they were allocated.
-/

namespace Nbsdk.Memory

/-- The bytes that a call stores, by what it returns. -/
def FifoCall.accepted : FifoCall → FifoReply → List Byte
  | .write p _, .written copied => p.take copied
  | _, _ => []

/-- The bytes that a call hands out. -/
def FifoReply.delivered : FifoReply → List Byte
  | .read _ data => data
  | .written _ | .resized _ | .length _ => []

/-- The calls differ at most in what a new array holds. -/
inductive FifoCall.Alike : FifoCall → FifoCall → Prop
  | same (call : FifoCall) : Alike call call
  | setCapacity (size : Nat) (fresh other : Nat → Byte)
    : Alike (.setCapacity size fresh) (.setCapacity size other)

/-- A queue's answer takes the oldest bytes of the stored ones and those that come in. -/
theorem queueCall_conserves {queue after : BoundedQueue Byte} {call : FifoCall}
    {reply : FifoReply} (answered : queueCall queue call reply after)
    : queue.items ++ call.accepted reply = reply.delivered ++ after.items := by
  cases call with
  | write p bytes =>
      obtain ⟨rfl, rfl⟩ := answered
      simp [FifoCall.accepted, FifoReply.delivered, List.take_take, Nat.min_comm]
  | read bytes =>
      obtain ⟨rfl, rfl⟩ := answered
      simp [FifoCall.accepted, FifoReply.delivered, BoundedQueue.discard]
  | setCapacity size fresh =>
      rcases answered with ⟨rfl, resized⟩ | ⟨rfl, _, rfl⟩
      · rw [BoundedQueue.resize, Option.dite_none_right_eq_some] at resized
        obtain ⟨_, made⟩ := resized
        obtain rfl := Option.some.inj made
        simp [FifoCall.accepted, FifoReply.delivered]
      · simp [FifoCall.accepted, FifoReply.delivered]
  | getDataLen =>
      obtain ⟨rfl, rfl⟩ := answered
      simp [FifoCall.accepted, FifoReply.delivered]

/-- A queue has one answer to calls that are alike. -/
theorem queueCall_single {queue next after : BoundedQueue Byte} {first second : FifoCall}
    {reply other : FifoReply} (alike : first.Alike second)
    (answered : queueCall queue first reply next) (again : queueCall queue second other after)
    : reply = other ∧ next = after := by
  have resizes
      : ∀ size fresh, queueCall queue (.setCapacity size fresh) reply next
        → ∀ fresh, queueCall queue (.setCapacity size fresh) other after
        → reply = other ∧ next = after := by
    rintro size _ (⟨rfl, fits⟩ | ⟨rfl, full, rfl⟩) _ (⟨rfl, fits'⟩ | ⟨rfl, full', rfl⟩)
    · exact ⟨rfl, Option.some.inj (fits.symm.trans fits')⟩
    · exact absurd (fits.symm.trans full') (by simp)
    · exact absurd (full.symm.trans fits') (by simp)
    · exact ⟨rfl, rfl⟩
  cases alike with
  | setCapacity size fresh other' => exact resizes size fresh answered other' again
  | same =>
      cases first with
      | write p bytes =>
          obtain ⟨rfl, rfl⟩ := answered
          obtain ⟨rfl, rfl⟩ := again
          exact ⟨rfl, rfl⟩
      | read bytes =>
          obtain ⟨rfl, rfl⟩ := answered
          obtain ⟨rfl, rfl⟩ := again
          exact ⟨rfl, rfl⟩
      | setCapacity size fresh => exact resizes size fresh answered fresh again
      | getDataLen =>
          obtain ⟨rfl, rfl⟩ := answered
          obtain ⟨rfl, rfl⟩ := again
          exact ⟨rfl, rfl⟩

/-- In every sequence of valid calls the bytes read and then those still stored are the bytes
that the writes accepted, each once and in their order.
-/
theorem fifoBuffer_streams {length : Nat} {fresh : Nat → Byte} {calls : List FifoCall}
    (allocatable : length ≤ maxAllocation) (valid : ∀ call ∈ calls, call.Valid)
    : ∃ replies b,
        Machine.run FifoBuffer.call (FifoBuffer.create length fresh) calls = .ok (replies, b)
        ∧ (calls.zipWith FifoCall.accepted replies).flatten
          = replies.flatMap FifoReply.delivered ++ b.content := by
  obtain ⟨replies, b, queue, ran, explained, represents⟩ :=
    call_simulates.run (create_represents fresh allocatable) (Machine.permits_of_forall valid)
  refine ⟨replies, b, ran, ?_⟩
  have conserved :=
    explained.conserved BoundedQueue.items FifoCall.accepted FifoReply.delivered
      queueCall_conserves
  rw [← represents.items, ← conserved]
  rfl

/-- Bytes are written behind the end of the array and read in between. -/
theorem fifoBuffer_streams_wrapping
    : ∃ replies b,
        Machine.run FifoBuffer.call (FifoBuffer.create 4 (fun _ => 0))
            [.write [1, 2, 3] 3, .read 2, .write [4, 5, 6, 7] 4, .read 3]
          = .ok (replies, b)
        ∧ ([.write [1, 2, 3] 3, .read 2, .write [4, 5, 6, 7] 4, .read 3].zipWith
            FifoCall.accepted replies).flatten
          = replies.flatMap FifoReply.delivered ++ b.content :=
  fifoBuffer_streams (by decide) (by decide)

/-- Whether calls are valid does not depend on what new arrays hold, by induction. -/
theorem alike_valid {calls others : List FifoCall}
    (alike : List.Forall₂ FifoCall.Alike calls others) (valid : ∀ call ∈ calls, call.Valid)
    : ∀ call ∈ others, call.Valid := by
  induction alike with
  | nil => exact valid
  | cons same _ ih =>
      rw [List.forall_mem_cons] at valid ⊢
      refine ⟨?_, ih valid.2⟩
      cases same <;> exact valid.1

/-- What the arrays hold when they are allocated is never seen: calls that are alike but for it
get the same replies and leave the same bytes stored.
-/
theorem fifoBuffer_ignores_fresh {length : Nat} {fresh other : Nat → Byte}
    {calls others : List FifoCall} (allocatable : length ≤ maxAllocation)
    (alike : List.Forall₂ FifoCall.Alike calls others) (valid : ∀ call ∈ calls, call.Valid)
    : ∃ replies b b',
        Machine.run FifoBuffer.call (FifoBuffer.create length fresh) calls = .ok (replies, b)
        ∧ Machine.run FifoBuffer.call (FifoBuffer.create length other) others = .ok (replies, b')
        ∧ b.content = b'.content := by
  have valid' : ∀ call ∈ others, call.Valid := alike_valid alike valid
  obtain ⟨replies, b, queue, ran, explained, represents⟩ :=
    call_simulates.run (create_represents fresh allocatable) (Machine.permits_of_forall valid)
  obtain ⟨replies', b', queue', ran', explained', represents'⟩ :=
    call_simulates.run (create_represents other allocatable) (Machine.permits_of_forall valid')
  obtain ⟨rfl, rfl⟩ := explained.alike explained' alike queueCall_single
  exact ⟨replies, b, b', ran, ran', represents.items.symm.trans represents'.items⟩

/-- The ring grows and wraps in arrays that held other bytes. -/
theorem fifoBuffer_ignores_fresh_grown
    : ∃ replies b b',
        Machine.run FifoBuffer.call (FifoBuffer.create 2 (fun _ => 0))
            [.write [1, 2] 2, .setCapacity 3 (fun _ => 7), .write [3, 4] 2, .read 3]
          = .ok (replies, b)
        ∧ Machine.run FifoBuffer.call (FifoBuffer.create 2 (fun _ => 9))
            [.write [1, 2] 2, .setCapacity 3 (fun _ => 8), .write [3, 4] 2, .read 3]
          = .ok (replies, b')
        ∧ b.content = b'.content :=
  fifoBuffer_ignores_fresh (by decide)
    (.cons (.same _) (.cons (.setCapacity _ _ _) (.cons (.same _) (.cons (.same _) .nil))))
    (by decide)

end Nbsdk.Memory
