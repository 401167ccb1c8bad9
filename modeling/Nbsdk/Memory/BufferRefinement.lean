import Nbsdk.Lib.Machine
import Nbsdk.Memory.Buffer

/-! Programs over buffers compute on lists.
A buffer stands for the list of its first `size` elements. No operation of a program whose
sizes fit in a word stops at a check or leaves an allocation, and each has its list effect.
-/

namespace Nbsdk.Memory

open Fallible

variable {T : Type}

/-- The buffer stands for this list: its allocation reaches to the capacity, which bounds
the size, and the list is the initial part of that size.
-/
structure BufferT.Represents (b : BufferT T) (list : List T) : Prop where
  allocated : b.capacity ≤ b.elements.length
  stored : b.size ≤ b.capacity
  word : b.capacity < 2 ^ 32
  contents : list = b.elements.take b.size

/-- A buffer has the size of its list. -/
theorem BufferT.Represents.length_eq {b : BufferT T} {list : List T}
    (h : b.Represents list)
    : list.length = b.size := by
  rw [h.contents, List.length_take]
  exact Nat.min_eq_left (Nat.le_trans h.stored h.allocated)

/-- The checks pass, since a null allocation has no elements and so no capacity. -/
theorem BufferT.Represents.check_eq {b : BufferT T} {list : List T}
    (h : b.Represents list)
    : b.check = .ok () := by
  have allocated := h.allocated
  rw [BufferT.check, if_pos]
  rw [BufferT.isConsistent, Bool.and_eq_true, Bool.or_eq_true, decide_eq_true_eq]
  refine ⟨?_, h.stored⟩
  cases block : b.data with
  | some _ => exact Or.inl rfl
  | none =>
      rw [BufferT.elements, block] at allocated
      exact Or.inr (beq_iff_eq.mpr (Nat.le_zero.mp allocated))

theorem length_newArray (length : Nat) (fresh : Nat → T)
    : (newArray length fresh).length = length := by
  simp [newArray]

theorem readElements_eq {block : List T} {count : Nat} (inside : count ≤ block.length)
    : readElements block count = .ok (block.take count) := by
  rw [readElements, if_pos inside]

theorem writeElements_eq {block elements : List T} {position : Nat}
    (inside : position + elements.length ≤ block.length)
    : writeElements block position elements
      = .ok (Cells.overwrite block position elements) := by
  rw [writeElements, if_pos inside]

/-- Replacing an allocation replaces the elements; a null pointer has no room for any. -/
theorem BufferT.elements_map {b : BufferT T} {block : List T}
    (sameLength : block.length = b.elements.length)
    : { b with data := b.data.map (fun _ => block) }.elements = block := by
  cases allocation : b.data with
  | some _ => simp [BufferT.elements]
  | none =>
      rw [BufferT.elements, allocation] at sameLength
      simp only [Option.getD_none, List.length_nil] at sameLength
      simp [BufferT.elements, List.eq_nil_of_length_eq_zero sameLength]

/-- A copy that fits changes nothing but the elements it replaces. -/
theorem BufferT.copyIn_eq {b : BufferT T} {position count : Nat} {source : List T}
    (readable : count ≤ source.length) (room : position + count ≤ b.elements.length)
    : ∃ after : BufferT T,
        b.copyIn position source count = .ok after
        ∧ after.size = b.size
        ∧ after.capacity = b.capacity
        ∧ after.elements = Cells.overwrite b.elements position (source.take count) := by
  have copied : (source.take count).length = count := by simp [readable]
  rw [BufferT.copyIn, readElements_eq readable, ok_bind,
    writeElements_eq (by rw [copied]; exact room), ok_bind]
  refine ⟨_, rfl, rfl, rfl, BufferT.elements_map ?_⟩
  exact Cells.length_overwrite (by rw [copied]; exact room)

/-- Growing keeps the list and leaves a capacity that is at least the requested one. It keeps
the buffer, or makes an allocation of exactly the new capacity.
-/
theorem BufferT.Represents.grow {b : BufferT T} {list : List T} (h : b.Represents list)
    {capacity : Nat} (word : capacity < 2 ^ 32) (extraHeadroom : Bool) (fresh : Nat → T)
    : ∃ after : BufferT T,
        b.ensureCapacityWithHeadroom capacity extraHeadroom fresh = .ok after
        ∧ after.Represents list
        ∧ after.size = b.size
        ∧ capacity ≤ after.capacity
        ∧ (after = b ∨ after.elements.length = after.capacity)
        ∧ (extraHeadroom = true
          → after.capacity
            = if capacity ≤ b.capacity then b.capacity
              else max capacity (addUint32 b.capacity (b.capacity / 2))) := by
  have stored := h.stored
  have allocated := h.allocated
  simp only [BufferT.ensureCapacityWithHeadroom]
  rw [h.check_eq, ok_bind]
  by_cases enough : capacity ≤ b.capacity
  · exact ⟨b, if_pos enough, h, rfl, enough, Or.inl rfl, fun _ => (if_pos enough).symm⟩
  rw [if_neg enough, if_neg enough]
  have headroom := Word.add_lt 32 b.capacity (b.capacity / 2)
  have larger : capacity
      ≤ if extraHeadroom = true then max capacity (addUint32 b.capacity (b.capacity / 2))
        else capacity := by
    split <;> omega
  have fits : (if extraHeadroom = true then
        max capacity (addUint32 b.capacity (b.capacity / 2)) else capacity) < 2 ^ 32 := by
    rw [addUint32]
    split <;> omega
  have chosen
      : extraHeadroom = true
        → (if extraHeadroom = true then max capacity (addUint32 b.capacity (b.capacity / 2))
            else capacity)
          = max capacity (addUint32 b.capacity (b.capacity / 2)) :=
    fun extra => if_pos extra
  generalize (if extraHeadroom = true then
    max capacity (addUint32 b.capacity (b.capacity / 2)) else capacity) = newCapacity
    at larger fits chosen
  have room := length_newArray newCapacity fresh
  have copied : (b.elements.take b.size).length = b.size := by
    rw [List.length_take]
    omega
  have length
      : (Cells.overwrite (newArray newCapacity fresh) 0 (b.elements.take b.size)).length
        = newCapacity := by
    rw [Cells.length_overwrite (by omega), room]
  have grown : BufferT.Represents
      {
        size := b.size
        capacity := newCapacity
        data := some (Cells.overwrite (newArray newCapacity fresh) 0 (b.elements.take b.size))
      } list := {
    allocated := Nat.le_of_eq length.symm
    stored := by
      change b.size ≤ newCapacity
      omega
    word := fits
    contents := h.contents.trans (Cells.take_overwrite_front copied).symm
  }
  rw [readElements_eq (by omega), ok_bind, writeElements_eq (by omega), ok_bind,
    grown.check_eq, ok_bind]
  exact ⟨_, rfl, grown, rfl, larger, Or.inr length, chosen⟩

/-- The default constructor stands for the empty list. -/
theorem BufferT.empty_represents : (BufferT.empty : BufferT T).Represents [] where
  allocated := Nat.zero_le _
  stored := Nat.le_refl _
  word := Nat.two_pow_pos 32
  contents := rfl

/-- A sized buffer stands for some list of that size, of whatever was allocated. -/
theorem BufferT.ofSize_eq {size capacity : Nat} (fresh : Nat → T)
    (sizeWord : size < 2 ^ 32) (capacityWord : capacity < 2 ^ 32)
    : ∃ (after : BufferT T) (list : List T),
        BufferT.ofSize size capacity fresh = .ok after
        ∧ after.Represents list
        ∧ list.length = size := by
  have room := length_newArray (max size capacity) fresh
  simp only [BufferT.ofSize]
  by_cases positive : max size capacity > 0
  · rw [if_pos positive]
    have made : BufferT.Represents
        {
          size
          capacity := max size capacity
          data := some (newArray (max size capacity) fresh)
        } ((newArray (max size capacity) fresh).take size) := {
      allocated := Nat.le_of_eq room.symm
      stored := Nat.le_max_left ..
      word := by
        change max size capacity < 2 ^ 32
        omega
      contents := rfl
    }
    rw [made.check_eq, ok_bind]
    exact ⟨_, _, rfl, made, made.length_eq⟩
  · rw [if_neg positive]
    have made : BufferT.Represents
        ({ size, capacity := max size capacity, data := none } : BufferT T) [] := {
      allocated := by
        change max size capacity ≤ 0
        omega
      stored := Nat.le_max_left ..
      word := by
        change max size capacity < 2 ^ 32
        omega
      contents := List.take_nil.symm
    }
    rw [made.check_eq, ok_bind]
    exact ⟨_, _, rfl, made, made.length_eq⟩

/-- A buffer made from an array stands for the array's first elements. -/
theorem BufferT.ofArray_eq {data : List T} {size capacity : Nat} (fresh : Nat → T)
    (readable : size ≤ data.length) (sizeWord : size < 2 ^ 32)
    (capacityWord : capacity < 2 ^ 32)
    : ∃ after : BufferT T,
        BufferT.ofArray data size capacity fresh = .ok after
        ∧ after.Represents (data.take size) := by
  obtain ⟨b, list, made, represents, length⟩ :=
    BufferT.ofSize_eq fresh sizeWord capacityWord
  have stored := represents.stored
  have allocated := represents.allocated
  rw [represents.length_eq] at length
  have copied : (data.take size).length = size := by simp [readable]
  obtain ⟨after, wrote, sameSize, sameCapacity, elements⟩ :=
    BufferT.copyIn_eq readable (show 0 + size ≤ b.elements.length by omega)
  rw [BufferT.ofArray, made, ok_bind]
  refine ⟨after, wrote, ?_⟩
  exact {
    allocated := by
      rw [elements, sameCapacity, Cells.length_overwrite (by omega)]
      exact allocated
    stored := by
      rw [sameSize, sameCapacity]
      exact stored
    word := by
      rw [sameCapacity]
      exact represents.word
    contents := by
      rw [elements, Cells.take_overwrite_front (by omega)]
  }

/-- What a move leaves behind is an empty buffer. -/
theorem BufferT.onMovedFrom_represents (b : BufferT T)
    : ({ b with data := none } : BufferT T).onMovedFrom.Represents [] :=
  BufferT.empty_represents

/-- Move construction transfers the list. -/
theorem BufferT.Represents.moveConstruct_eq {source : BufferT T} {list : List T}
    (h : source.Represents list)
    : ∃ b rest : BufferT T,
        source.moveConstruct = .ok (b, rest) ∧ b.Represents list ∧ rest.Represents [] := by
  simp only [BufferT.moveConstruct]
  rw [h.check_eq, ok_bind, ok_bind]
  exact ⟨_, _, rfl, h, source.onMovedFrom_represents⟩

/-- Move assignment transfers the list and drops the target's. -/
theorem BufferT.Represents.moveAssign_eq {b source : BufferT T} {old list : List T}
    (h : b.Represents old) (hs : source.Represents list)
    : ∃ after rest : BufferT T,
        b.moveAssign source = .ok (after, rest)
        ∧ after.Represents list
        ∧ rest.Represents [] := by
  simp only [BufferT.moveAssign]
  rw [h.check_eq, ok_bind, hs.check_eq, ok_bind]
  exact ⟨_, _, rfl, hs, source.onMovedFrom_represents⟩

/-- Comparison answers whether the lists are equal, whatever lies behind them. -/
theorem BufferT.Represents.equal_eq [DecidableEq T] {b other : BufferT T}
    {left right : List T} (hl : b.Represents left) (hr : other.Represents right)
    : b.equal other = .ok (decide (left = right)) := by
  have leftStored := Nat.le_trans hl.stored hl.allocated
  have rightStored := Nat.le_trans hr.stored hr.allocated
  rw [BufferT.equal, hl.check_eq, ok_bind]
  by_cases sizes : b.size = other.size
  · rw [if_neg (not_not.mpr sizes), readElements_eq leftStored, ok_bind,
      readElements_eq (sizes ▸ rightStored), ok_bind, hl.contents, hr.contents, sizes]
  · have different : left ≠ right := by
      intro same
      exact sizes (hl.length_eq.symm.trans ((congrArg List.length same).trans hr.length_eq))
    rw [if_pos sizes, decide_eq_false different]

/-- Appending appends the array's first elements. -/
theorem BufferT.Represents.appendData_eq {b : BufferT T} {list data : List T}
    (h : b.Represents list) {size : Nat} (fresh : Nat → T) (readable : size ≤ data.length)
    (word : list.length + size < 2 ^ 32)
    : ∃ after : BufferT T,
        b.appendData data size fresh = .ok after
        ∧ after.Represents (list ++ data.take size)
        ∧ after.capacity
          = if b.size + size ≤ b.capacity then b.capacity
            else max (b.size + size) (addUint32 b.capacity (b.capacity / 2)) := by
  have length := h.length_eq
  have sum : addUint32 b.size size = b.size + size := Word.add_eq (by omega)
  obtain ⟨grown, grew, represents, sameSize, enough, -, grownCapacity⟩ :=
    h.grow (show b.size + size < 2 ^ 32 by omega) true fresh
  have allocated := represents.allocated
  have copied : (data.take size).length = size := by simp [readable]
  obtain ⟨after, wrote, _, capacity, elements⟩ :=
    BufferT.copyIn_eq readable (show grown.size + size ≤ grown.elements.length by omega)
  have cut : (grown.elements.take grown.size).length = b.size := by
    rw [List.length_take]
    omega
  have front : (grown.elements.take grown.size ++ data.take size).length
      = b.size + size := by
    rw [List.length_append, cut, copied]
  have appended : BufferT.Represents { after with size := b.size + size }
      (list ++ data.take size) := {
    allocated := by
      change after.capacity ≤ after.elements.length
      rw [elements, capacity, Cells.length_overwrite (by omega)]
      exact allocated
    stored := by
      change b.size + size ≤ after.capacity
      omega
    word := by
      change after.capacity < 2 ^ 32
      rw [capacity]
      exact represents.word
    contents := by
      change _ = after.elements.take (b.size + size)
      rw [elements, Cells.overwrite, represents.contents, ← front, List.take_left]
  }
  simp only [BufferT.appendData]
  rw [h.check_eq, ok_bind, sum, grew, ok_bind, wrote, ok_bind, appended.check_eq, ok_bind]
  exact ⟨_, rfl, appended, capacity.trans (grownCapacity rfl)⟩

/-- Clearing leaves the empty list and keeps the allocation. -/
theorem BufferT.Represents.clear_represents {b : BufferT T} {list : List T}
    (h : b.Represents list)
    : { b with size := 0 }.Represents ([] : List T) where
  allocated := h.allocated
  stored := Nat.zero_le _
  word := h.word
  contents := rfl

theorem BufferT.Represents.clear_eq {b : BufferT T} {list : List T} (h : b.Represents list)
    : ∃ after : BufferT T, b.clear = .ok after ∧ after.Represents [] := by
  simp only [BufferT.clear]
  rw [h.clear_represents.check_eq, ok_bind]
  exact ⟨_, rfl, h.clear_represents⟩

/-- Setting data replaces the list, by appending to the cleared buffer. -/
theorem BufferT.Represents.setData_eq {b : BufferT T} {list data : List T}
    (h : b.Represents list) {size : Nat} (fresh : Nat → T) (readable : size ≤ data.length)
    (word : size < 2 ^ 32)
    : ∃ after : BufferT T,
        b.setData data size fresh = .ok after ∧ after.Represents (data.take size) := by
  obtain ⟨after, done, represents, -⟩ :=
    h.clear_represents.appendData_eq fresh readable
      (by rw [List.length_nil, Nat.zero_add]; exact word)
  rw [BufferT.setData, h.check_eq, ok_bind]
  exact ⟨after, done, represents⟩

/-- Setting the size keeps the elements below both sizes. -/
theorem BufferT.Represents.setSize_eq {b : BufferT T} {list : List T}
    (h : b.Represents list) {size : Nat} (fresh : Nat → T) (word : size < 2 ^ 32)
    : ∃ (after : BufferT T) (resized : List T),
        b.setSize size fresh = .ok after
        ∧ after.Represents resized
        ∧ resized.length = size
        ∧ resized.take (min size list.length) = list.take (min size list.length) := by
  obtain ⟨grown, grew, represents, sameSize, enough, -⟩ := h.grow word true fresh
  have resized : BufferT.Represents { grown with size } (grown.elements.take size) := {
    allocated := represents.allocated
    stored := enough
    word := represents.word
    contents := rfl
  }
  refine ⟨_, _, ?_, resized, resized.length_eq, ?_⟩
  · rw [BufferT.setSize, grew, ok_bind]
  · have length := represents.length_eq
    rw [represents.contents, List.take_take, List.take_take, List.length_take]
    congr 1
    omega

end Nbsdk.Memory
