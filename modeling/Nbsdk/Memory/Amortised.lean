import Nbsdk.Memory.Growth

/-! The cost of appending.
A new allocation costs the elements that are copied into it. It has at least half of the old
capacity as headroom, as long as its size can be counted, and the headroom pays for the copies.
-/

namespace Nbsdk.Memory

open Fallible

variable {T : Type}

/-- One call of `AppendData`, and what a new allocation holds at first. -/
structure Append (T : Type) where
  data : List T
  size : Nat
  fresh : Nat → T

/-- The number of elements that the calls append. -/
def appended (calls : List (Append T)) : Nat := (calls.map Append.size).sum

namespace BufferT

/-- The elements that are copied from the old allocation to make room for a capacity. -/
def relocated (b : BufferT T) (requested : Nat) : Nat :=
  if requested ≤ b.capacity then 0 else b.size

/-- `AppendData`, together with what it copies from the old allocation. -/
def append (b : BufferT T) (call : Append T) : Except Abort (Nat × BufferT T) := do
  let after ← b.appendData call.data call.size call.fresh
  .ok (b.relocated (addUint32 b.size call.size), after)

/-- No capacity beyond half of the size is kept in reserve. -/
def Economical (b : BufferT T) : Prop := b.capacity ≤ b.size + b.size / 2

/-- The elements whose copies an allocation has paid for. -/
def budget (b : BufferT T) : Nat := (8 * b.capacity - 2) / 3

/-- What holds between two calls: the buffer has its allocation and is economical. -/
structure Appending (b : BufferT T) : Prop where
  allocated : b.Allocated
  economical : b.Economical

/-- Requests of up to half of the range of `uint32_t` get their headroom without a wrap. -/
theorem grownCapacity_eq (b : BufferT T) {requested : Nat} (bounded : requested ≤ 2 ^ 31)
    : b.grownCapacity requested
      = if requested ≤ b.capacity then b.capacity
        else max requested (b.capacity + b.capacity / 2) := by
  rw [grownCapacity]
  split
  case isTrue => rfl
  case isFalse small =>
    rw [addUint32, Word.add_eq (by omega)]

/-- A buffer stays economical: new headroom is half of a capacity below the new size. -/
theorem Economical.grow {b after : BufferT T} (economical : b.Economical)
    (larger : b.size ≤ after.size) (bounded : after.size ≤ 2 ^ 31)
    (grown : after.capacity = b.grownCapacity after.size)
    : after.Economical := by
  rw [Economical] at economical ⊢
  rw [grown, grownCapacity_eq b bounded]
  split
  case isTrue => omega
  case isFalse small =>
    apply Nat.max_le.mpr
    constructor <;> omega

/-- A new allocation pays for the elements copied into it. From a capacity of four on that is
due to the headroom; smaller ones grow by less than a half, and there the rounding decides.
-/
theorem relocated_paid {b after : BufferT T} (stored : b.size ≤ b.capacity)
    (bounded : after.size ≤ 2 ^ 31) (grown : after.capacity = b.grownCapacity after.size)
    : b.relocated after.size + b.budget ≤ after.budget := by
  rw [relocated, budget, budget, grown, grownCapacity_eq b bounded]
  split
  case isTrue => omega
  case isFalse small =>
    have requested := Nat.le_max_left after.size (b.capacity + b.capacity / 2)
    have headroom := Nat.le_max_right after.size (b.capacity + b.capacity / 2)
    generalize max after.size (b.capacity + b.capacity / 2) = capacity at *
    by_cases large : 4 ≤ b.capacity
    case pos => omega
    case neg =>
      have counted : b.capacity = 0 ∨ b.capacity = 1 ∨ b.capacity = 2 ∨ b.capacity = 3 := by
        omega
      rcases counted with none | one | two | three
      all_goals omega

/-- An empty buffer starts without a capacity. -/
theorem Appending.empty : (BufferT.empty : BufferT T).Appending where
  allocated := .empty
  economical := Nat.zero_le _

/-- One call appends its elements, keeps the buffer economical and pays for its copies. -/
theorem Appending.append_eq {b : BufferT T} (h : b.Appending) {call : Append T}
    (readable : call.size ≤ call.data.length) (bounded : b.size + call.size ≤ 2 ^ 31)
    : ∃ after : BufferT T,
        b.append call = .ok (b.relocated after.size, after)
        ∧ after.Appending
        ∧ after.size = b.size + call.size
        ∧ b.relocated after.size + b.budget ≤ after.budget := by
  obtain ⟨after, done, allocated, sum, grown⟩ :=
    h.allocated.appendData_eq call.fresh readable (by omega)
  rw [← sum] at grown bounded
  have economical := h.economical.grow (by omega) bounded grown
  refine ⟨after, ?_, ⟨allocated, economical⟩, sum, ?_⟩
  · rw [append, done, ok_bind, addUint32, Word.add_eq (by omega), ← sum]
  · exact relocated_paid h.allocated.stored bounded grown

/-- What an economical buffer has paid for is within four times its size. -/
theorem Economical.copied_le {b : BufferT T} (economical : b.Economical) {copied : Nat}
    (paid : copied ≤ b.budget)
    : copied ≤ 4 * b.size := by
  rw [Economical] at economical
  rw [budget] at paid
  omega

end BufferT

/-- The buffer is ready for these calls, after which it has this many elements. -/
structure ReadyFor (total : Nat) (b : BufferT T) (calls : List (Append T)) : Prop where
  appending : b.Appending
  readable : ∀ call ∈ calls, call.size ≤ call.data.length
  sized : b.size + appended calls = total

/-- The next call leaves the buffer ready for the others. -/
theorem ReadyFor.append_eq {total : Nat} (bounded : total ≤ 2 ^ 31) {b : BufferT T}
    {call : Append T} {rest : List (Append T)} (h : ReadyFor total b (call :: rest))
    : ∃ copied after,
        b.append call = .ok (copied, after)
        ∧ ReadyFor total after rest
        ∧ copied + b.budget ≤ after.budget := by
  have sized := h.sized
  rw [appended, List.map_cons, List.sum_cons] at sized
  obtain ⟨after, done, appending, sum, paid⟩ :=
    h.appending.append_eq (h.readable call List.mem_cons_self) (by omega)
  refine ⟨_, after, done, ⟨appending, ?_, ?_⟩, paid⟩
  · intro later member
    exact h.readable later (List.mem_cons_of_mem call member)
  · rw [appended]
    omega

/-- Calls with readable data can be made on an empty buffer one after another, and it ends up
with all of their elements, economical, and with its copies paid for.
-/
theorem appends_run {calls : List (Append T)}
    (readable : ∀ call ∈ calls, call.size ≤ call.data.length)
    (bounded : appended calls ≤ 2 ^ 31)
    : ∃ (copies : List Nat) (b : BufferT T),
        Machine.run BufferT.append BufferT.empty calls = .ok (copies, b)
        ∧ b.Economical
        ∧ b.size = appended calls
        ∧ copies.sum ≤ b.budget := by
  have start : ReadyFor (appended calls) (BufferT.empty : BufferT T) calls :=
    ⟨.empty, readable, Nat.zero_add _⟩
  obtain ⟨copies, b, ran, ready, paid⟩ :=
    Machine.run_paid (ReadyFor (appended calls)) BufferT.budget (ReadyFor.append_eq bounded) start
  exact ⟨copies, b, ran, ready.appending.economical, ready.sized, by omega⟩

/-- All calls together copy at most four times the elements they append, and after none of them
is more than half of the size kept in reserve.
-/
theorem appending_amortised {calls : List (Append T)}
    (readable : ∀ call ∈ calls, call.size ≤ call.data.length)
    (bounded : appended calls ≤ 2 ^ 31)
    : (∃ (copies : List Nat) (b : BufferT T),
        Machine.run BufferT.append BufferT.empty calls = .ok (copies, b)
        ∧ copies.sum ≤ 4 * appended calls)
      ∧ ∀ before after,
          calls = before ++ after
          → ∃ (copies : List Nat) (b : BufferT T),
              Machine.run BufferT.append BufferT.empty before = .ok (copies, b)
              ∧ b.capacity ≤ b.size + b.size / 2 := by
  constructor
  case left =>
    obtain ⟨copies, b, ran, economical, sized, paid⟩ := appends_run readable bounded
    exact ⟨copies, b, ran, sized ▸ economical.copied_le paid⟩
  case right =>
    intro before after split
    subst split
    have part : appended before ≤ appended (before ++ after) := by
      simp only [appended, List.map_append, List.sum_append]
      omega
    have first : ∀ call ∈ before, call.size ≤ call.data.length :=
      fun call member => readable call (List.mem_append_left after member)
    obtain ⟨copies, b, ran, economical, -⟩ := appends_run first (Nat.le_trans part bounded)
    exact ⟨copies, b, ran, economical⟩

/-- Single elements, whose allocations grow by less than a half at first, and a longer array. -/
theorem appending_amortised_mixed
    : (∃ (copies : List Nat) (b : BufferT UInt8),
        Machine.run BufferT.append BufferT.empty
            [⟨[1], 1, fun _ => 0⟩, ⟨[2], 1, fun _ => 0⟩, ⟨[3, 4, 5, 6], 4, fun _ => 9⟩]
          = .ok (copies, b)
        ∧ copies.sum
          ≤ 4 * appended
              [⟨[1], 1, fun _ => 0⟩, ⟨[2], 1, fun _ => 0⟩, ⟨[3, 4, 5, 6], 4, fun _ => 9⟩])
      ∧ ∀ before after : List (Append UInt8),
          [⟨[1], 1, fun _ => 0⟩, ⟨[2], 1, fun _ => 0⟩, ⟨[3, 4, 5, 6], 4, fun _ => 9⟩]
            = before ++ after
          → ∃ (copies : List Nat) (b : BufferT UInt8),
              Machine.run BufferT.append BufferT.empty before = .ok (copies, b)
              ∧ b.capacity ≤ b.size + b.size / 2 := by
  refine appending_amortised ?_ (by decide)
  simp

example
    : (Machine.run BufferT.append (BufferT.empty : BufferT UInt8)
        [⟨[1], 1, fun _ => 0⟩, ⟨[2], 1, fun _ => 0⟩, ⟨[3, 4, 5, 6], 4, fun _ => 9⟩]).map
          (fun (copies, b) => (copies, b.size, b.capacity))
      = .ok ([0, 1, 2], 6, 6) := by
  decide +kernel

end Nbsdk.Memory
