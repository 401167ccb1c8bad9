import Mathlib.Data.List.Basic

/-! First-in first-out queues of bounded length, the purpose of every ring buffer. -/

/-- A queue that holds at most `capacity` items, the oldest first. -/
@[ext] structure BoundedQueue (α : Type*) where
  capacity : Nat
  items : List α
  bounded : items.length ≤ capacity

namespace BoundedQueue

variable {α : Type*}

/-- The queue without items. -/
def empty (capacity : Nat) : BoundedQueue α := ⟨capacity, [], by simp⟩

/-- The number of items that still fit. -/
def free (queue : BoundedQueue α) : Nat := queue.capacity - queue.items.length

/-- Appends as much of the front of `data` as fits. -/
def offer (queue : BoundedQueue α) (data : List α) : BoundedQueue α where
  capacity := queue.capacity
  items := queue.items ++ data.take queue.free
  bounded := by
    have := queue.bounded
    rw [List.length_append, List.length_take, free]
    omega

@[simp] theorem offer_items (queue : BoundedQueue α) (data : List α)
    : (queue.offer data).items = queue.items ++ data.take queue.free := rfl

/-- Removes the `count` oldest items, or all of them. -/
def discard (queue : BoundedQueue α) (count : Nat) : BoundedQueue α where
  capacity := queue.capacity
  items := queue.items.drop count
  bounded := by
    have := queue.bounded
    rw [List.length_drop]
    omega

/-- Changes the capacity unless the items would not fit. -/
def resize (queue : BoundedQueue α) (capacity : Nat) : Option (BoundedQueue α) :=
  if fits : queue.items.length ≤ capacity then some ⟨capacity, queue.items, fits⟩
  else none

end BoundedQueue
