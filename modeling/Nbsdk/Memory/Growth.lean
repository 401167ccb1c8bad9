import Nbsdk.Memory.BufferRefinement

/-! The arithmetic of growing a buffer.
Sizes and capacities are of type `uint32_t`, and so are the two sums that a growing buffer
computes: the size after an append and the capacity with headroom. Both can wrap. The first
lets a copy leave the allocation, and the second loses the headroom.
-/

namespace Nbsdk.Memory

open Fallible

variable {T : Type}

-----------------------------------------------------------------------------------------
-- The buffers of programs
-----------------------------------------------------------------------------------------

/-- The sizes and capacities that a call passes are of type `uint32_t`. -/
def BufferCall.PassesWords : BufferCall T → Prop
  | .createSized _ size capacity _ => size < 2 ^ 32 ∧ capacity < 2 ^ 32
  | .createFrom _ _ size capacity _ => size < 2 ^ 32 ∧ capacity < 2 ^ 32
  | .setData _ _ size _ | .appendData _ _ size _ | .setSize _ size _ => size < 2 ^ 32
  | .ensureCapacity _ capacity _ => capacity < 2 ^ 32
  | .create _ | .moveConstruct _ _ | .moveAssign _ _ | .swap _ _ | .clear _ | .equal _ _ => True

/-- The states of a program whose calls have all returned. A buffer can also be moved to
itself: it keeps its allocation then.
-/
inductive Buffers.Reachable [DecidableEq T] : Buffers T → Prop
  | start : Reachable (fun _ => none)
  | call {buffers after : Buffers T} {call : BufferCall T} {reply : Option Bool}
    (before : Reachable buffers)
    (words : call.PassesWords)
    (returned : buffers.call call = .ok (reply, after))
    : Reachable after
  | selfMove {buffers : Buffers T} {id : Nat} {b : BufferT T}
    (before : Reachable buffers)
    (found : buffers.get id = .ok b)
    : Reachable (buffers.put id b.onMovedFrom)

namespace BufferT

/-- The size is within the capacity, and that within the allocation, which a `uint32_t`
counts.
-/
structure Allocated (b : BufferT T) : Prop where
  stored : b.size ≤ b.capacity
  allocated : b.capacity ≤ b.elements.length
  word : b.elements.length < 2 ^ 32

/-- The capacity after a request, with headroom when there has to be a new allocation. -/
def grownCapacity (b : BufferT T) (requested : Nat) : Nat :=
  if requested ≤ b.capacity then b.capacity
  else max requested (addUint32 b.capacity (b.capacity / 2))

/-- A request that needs no new allocation, or leaves the headroom below the bound of
`uint32_t`, or asks for that bound itself.
-/
def LeavesHeadroom (b : BufferT T) (requested : Nat) : Prop :=
  requested ≤ b.capacity ∨ b.capacity + b.capacity / 2 < 2 ^ 32 ∨ requested = 2 ^ 32 - 1

/-- A new allocation has one and a half times the old capacity, as far as `uint32_t` goes. -/
def GrowsEnough (b after : BufferT T) : Prop :=
  after.capacity ≠ b.capacity → min (2 ^ 32 - 1) (b.capacity * 3 / 2) ≤ after.capacity

/-- `AppendData` stops at its first check, before anything is written, or the copies stay
within the allocations, and there is room for the sum of the sizes.
-/
def AppendsSafely (b : BufferT T) (data : List T) (size : Nat) (fresh : Nat → T) : Prop :=
  (∃ condition, b.check = .error (.checkFailed condition))
  ∨ ∃ after : BufferT T,
      b.appendData data size fresh = .ok after
      ∧ b.size + size ≤ after.elements.length
      ∧ after.size = b.size + size
      ∧ b.GrowsEnough after

/-- `SetSize` stops at its first check, or the copy stays within the new allocation. -/
def ResizesSafely (b : BufferT T) (size : Nat) (fresh : Nat → T) : Prop :=
  (∃ condition, b.check = .error (.checkFailed condition))
  ∨ ∃ after : BufferT T,
      b.setSize size fresh = .ok after ∧ after.size = size ∧ b.GrowsEnough after

/-- The capacity grows enough exactly when the headroom fits or nothing larger exists. -/
theorem growsEnough_iff {b after : BufferT T} {requested : Nat} (word : requested < 2 ^ 32)
    (grown : after.capacity = b.grownCapacity requested)
    : b.GrowsEnough after ↔ b.LeavesHeadroom requested := by
  rw [GrowsEnough, LeavesHeadroom, grown, grownCapacity, addUint32, Word.add]
  split
  case isTrue enough => simp [enough]
  case isFalse small =>
    have half : b.capacity * 3 / 2 = b.capacity + b.capacity / 2 := by omega
    rw [half]
    by_cases fits : b.capacity + b.capacity / 2 < 2 ^ 32
    case pos =>
      rw [Nat.mod_eq_of_lt fits]
      omega
    case neg =>
      -- A wrapped headroom is below the old capacity, and then the request decides.
      have wrapped
          : (b.capacity + b.capacity / 2) % 2 ^ 32 = b.capacity + b.capacity / 2 - 2 ^ 32 := by
        omega
      rw [wrapped, Nat.max_eq_left (by omega)]
      omega

namespace Allocated

variable {b : BufferT T}

theorem represents (h : b.Allocated) : b.Represents (b.elements.take b.size) where
  allocated := h.allocated
  stored := h.stored
  word := Nat.lt_of_le_of_lt h.allocated h.word
  contents := rfl

theorem check_eq (h : b.Allocated) : b.check = .ok () := h.represents.check_eq

/-- A request below the bound of `uint32_t` gets an allocation of the new capacity. -/
theorem ensure_eq (h : b.Allocated) {requested : Nat} (word : requested < 2 ^ 32)
    (extraHeadroom : Bool) (fresh : Nat → T)
    : ∃ after : BufferT T,
        b.ensureCapacityWithHeadroom requested extraHeadroom fresh = .ok after
        ∧ after.Allocated
        ∧ after.size = b.size
        ∧ requested ≤ after.capacity
        ∧ (extraHeadroom = true → after.capacity = b.grownCapacity requested) := by
  rcases h.represents.grow word extraHeadroom fresh with
    ⟨after, done, represents, sameSize, enough, unchanged | length, capacity⟩
  · exact ⟨after, done, unchanged ▸ h, sameSize, enough, capacity⟩
  · refine ⟨after, done, ?_, sameSize, enough, capacity⟩
    exact ⟨represents.stored, represents.allocated, length ▸ represents.word⟩

/-- A sum of sizes that wraps asks for too little, and the copy leaves the allocation. -/
theorem appendData_wraps (h : b.Allocated) {data : List T} {size : Nat} (fresh : Nat → T)
    (word : size < 2 ^ 32) (readable : size ≤ data.length) (wraps : 2 ^ 32 ≤ b.size + size)
    : b.appendData data size fresh = .error .outOfBounds := by
  obtain ⟨stored, allocated, bound⟩ := h
  have sum : addUint32 b.size size = b.size + size - 2 ^ 32 := by
    rw [addUint32, Word.add]
    omega
  have enough : b.size + size - 2 ^ 32 ≤ b.capacity := by omega
  have outside : ¬b.size + (data.take size).length ≤ b.elements.length := by
    rw [List.length_take, Nat.min_eq_left readable]
    omega
  have check := check_eq ⟨stored, allocated, bound⟩
  simp only [appendData, ensureCapacityWithHeadroom]
  rw [check, ok_bind, sum, ok_bind, if_pos enough, ok_bind, copyIn,
    readElements_eq readable, ok_bind, writeElements, if_neg outside]
  rfl

/-- A size below the bound of `uint32_t` is set. -/
theorem setSize_eq (h : b.Allocated) {size : Nat} (word : size < 2 ^ 32) (fresh : Nat → T)
    : ∃ after : BufferT T,
        b.setSize size fresh = .ok after
        ∧ after.Allocated
        ∧ after.size = size
        ∧ after.capacity = b.grownCapacity size := by
  obtain ⟨grown, grew, ⟨_, allocated, bound⟩, _, enough, capacity⟩ :=
    h.ensure_eq word true fresh
  refine ⟨{ grown with size }, ?_, ⟨enough, allocated, bound⟩, rfl, capacity rfl⟩
  rw [setSize, grew, ok_bind]

-----------------------------------------------------------------------------------------
-- What operations that return leave behind
-----------------------------------------------------------------------------------------

theorem empty : (BufferT.empty : BufferT T).Allocated :=
  ⟨Nat.le_refl _, Nat.le_refl _, Nat.two_pow_pos 32⟩

/-- A moved buffer that keeps its allocation, as one moved to itself does. -/
theorem onMovedFrom (h : b.Allocated) : b.onMovedFrom.Allocated :=
  ⟨Nat.le_refl _, Nat.zero_le _, h.word⟩

/-- Shrinking keeps the allocation. -/
theorem clear (h : b.Allocated) : { b with size := 0 }.Allocated :=
  ⟨Nat.zero_le _, h.allocated, h.word⟩

theorem ofSize {size capacity : Nat} {fresh : Nat → T} (sizeWord : size < 2 ^ 32)
    (capacityWord : capacity < 2 ^ 32) (returned : BufferT.ofSize size capacity fresh = .ok b)
    : b.Allocated := by
  simp only [BufferT.ofSize] at returned
  obtain ⟨_, _, made⟩ := bind_eq_ok.mp returned
  obtain rfl := Except.ok.inj made
  have room := length_newArray (max size capacity) fresh
  by_cases positive : max size capacity > 0
  case pos =>
    rw [if_pos positive]
    exact
      { stored := Nat.le_max_left size capacity
        allocated := Nat.le_of_eq room.symm
        word := by
          change (newArray _ _).length < 2 ^ 32
          omega }
  case neg =>
    rw [if_neg positive]
    exact ⟨Nat.le_max_left size capacity, Nat.not_lt.mp positive, Nat.two_pow_pos 32⟩

theorem copyIn (h : b.Allocated) {position count : Nat} {source : List T} {after : BufferT T}
    (returned : b.copyIn position source count = .ok after)
    : after.Allocated := by
  rw [BufferT.copyIn] at returned
  obtain ⟨copied, -, wrote⟩ := bind_eq_ok.mp returned
  obtain ⟨block, written, made⟩ := bind_eq_ok.mp wrote
  obtain rfl := Except.ok.inj made
  rw [writeElements] at written
  split at written
  case isFalse outside => contradiction
  case isTrue inside =>
    have length : block.length = b.elements.length :=
      Except.ok.inj written ▸ Cells.length_overwrite inside
    have elements := elements_map length
    exact
      { stored := h.stored
        allocated := by
          rw [elements, length]
          exact h.allocated
        word := by
          rw [elements, length]
          exact h.word }

/-- A size within the capacity is what a passed check says. -/
theorem stored_of_check {after : BufferT T} {done : Unit} (checked : after.check = .ok done)
    : after.size ≤ after.capacity := by
  rw [check] at checked
  split at checked
  case isFalse => contradiction
  case isTrue consistent =>
    rw [isConsistent, Bool.and_eq_true, decide_eq_true_eq] at consistent
    exact consistent.2

theorem appendData (h : b.Allocated) {data : List T} {size : Nat} {fresh : Nat → T}
    {after : BufferT T} (returned : b.appendData data size fresh = .ok after)
    : after.Allocated := by
  simp only [BufferT.appendData] at returned
  obtain ⟨_, -, afterCheck⟩ := bind_eq_ok.mp returned
  obtain ⟨grown, grew, afterGrowth⟩ := bind_eq_ok.mp afterCheck
  obtain ⟨copied, wrote, afterCopy⟩ := bind_eq_ok.mp afterGrowth
  obtain ⟨_, checked, made⟩ := bind_eq_ok.mp afterCopy
  obtain rfl := Except.ok.inj made
  obtain ⟨ensured, ensures, allocated, -⟩ :=
    h.ensure_eq (Word.add_lt 32 b.size size) true fresh
  obtain rfl := Except.ok.inj (ensures.symm.trans grew)
  have kept := allocated.copyIn wrote
  exact ⟨stored_of_check checked, kept.allocated, kept.word⟩

/-- A sum of sizes below the bound of `uint32_t` is appended. -/
theorem appendData_eq (h : b.Allocated) {data : List T} {size : Nat} (fresh : Nat → T)
    (readable : size ≤ data.length) (fits : b.size + size < 2 ^ 32)
    : ∃ after : BufferT T,
        b.appendData data size fresh = .ok after
        ∧ after.Allocated
        ∧ after.size = b.size + size
        ∧ after.capacity = b.grownCapacity (b.size + size) := by
  have stored := h.represents.length_eq
  obtain ⟨after, done, represents, capacity⟩ :=
    h.represents.appendData_eq fresh readable (by rw [stored]; exact fits)
  refine ⟨after, done, h.appendData done, ?_, capacity⟩
  rw [← represents.length_eq, List.length_append, stored, List.length_take,
    Nat.min_eq_left readable]

end Allocated

end BufferT

-----------------------------------------------------------------------------------------
-- Runs of programs
-----------------------------------------------------------------------------------------

/-- Every buffer of the program has its allocation. -/
def Buffers.Allocated (buffers : Buffers T) : Prop :=
  ∀ id b, buffers.get id = .ok b → b.Allocated

theorem Buffers.Allocated.put {buffers : Buffers T} (h : buffers.Allocated) (id : Nat)
    {b : BufferT T} (allocated : b.Allocated)
    : (buffers.put id b).Allocated := by
  intro other found get
  by_cases same : other = id
  case pos =>
    subst same
    rw [Buffers.get, Buffers.put, Function.update_self] at get
    exact Except.ok.inj get ▸ allocated
  case neg =>
    rw [Buffers.get, Buffers.put, Function.update_of_ne same, ← Buffers.get] at get
    exact h other found get

/-- An operation that keeps a buffer's allocation keeps the program's. -/
theorem Buffers.Allocated.change {buffers after : Buffers T} (h : buffers.Allocated) {id : Nat}
    {operation : BufferT T → Except Abort (BufferT T)} {reply : Option Bool}
    (keeps : ∀ {b result}, b.Allocated → operation b = .ok result → result.Allocated)
    (returned : buffers.change id operation = .ok (reply, after))
    : after.Allocated := by
  rw [Buffers.change] at returned
  obtain ⟨b, found, rest⟩ := bind_eq_ok.mp returned
  obtain ⟨result, done, made⟩ := bind_eq_ok.mp rest
  cases made
  exact h.put id (keeps (h id b found) done)

/-- Every call that returns keeps the allocations; the cases are the calls. -/
theorem Buffers.Allocated.call [DecidableEq T] {buffers after : Buffers T}
    (h : buffers.Allocated) {call : BufferCall T} {reply : Option Bool}
    (words : call.PassesWords) (returned : buffers.call call = .ok (reply, after))
    : after.Allocated := by
  cases call with
  | create id =>
      cases returned
      exact h.put id .empty
  | createSized id size capacity fresh =>
      obtain ⟨b, made, rest⟩ := bind_eq_ok.mp returned
      cases rest
      exact h.put id (.ofSize words.1 words.2 made)
  | createFrom id data size capacity fresh =>
      obtain ⟨b, made, rest⟩ := bind_eq_ok.mp returned
      cases rest
      rw [BufferT.ofArray] at made
      obtain ⟨sized, built, copied⟩ := bind_eq_ok.mp made
      exact h.put id ((BufferT.Allocated.ofSize words.1 words.2 built).copyIn copied)
  | moveConstruct id source =>
      obtain ⟨s, found, rest⟩ := bind_eq_ok.mp returned
      obtain ⟨⟨b, left⟩, moved, made⟩ := bind_eq_ok.mp rest
      cases made
      simp only [BufferT.moveConstruct, (h _ _ found).check_eq, ok_bind] at moved
      cases moved
      exact (h.put source .empty).put id (h _ _ found)
  | moveAssign id source =>
      obtain ⟨t, target, rest⟩ := bind_eq_ok.mp returned
      obtain ⟨s, found, rest⟩ := bind_eq_ok.mp rest
      obtain ⟨⟨b, left⟩, moved, made⟩ := bind_eq_ok.mp rest
      cases made
      simp only [BufferT.moveAssign, (h _ _ target).check_eq, (h _ _ found).check_eq, ok_bind]
        at moved
      cases moved
      exact (h.put source .empty).put id (h _ _ found)
  | swap id other =>
      obtain ⟨b, found, rest⟩ := bind_eq_ok.mp returned
      obtain ⟨o, second, made⟩ := bind_eq_ok.mp rest
      cases made
      exact (h.put other (h _ _ found)).put id (h _ _ second)
  | setData id data size fresh =>
      refine h.change ?_ returned
      intro b result allocated set
      rw [BufferT.setData, allocated.check_eq, ok_bind] at set
      exact allocated.clear.appendData set
  | appendData id data size fresh =>
      exact h.change (fun allocated appended => allocated.appendData appended) returned
  | setSize id size fresh =>
      refine h.change ?_ returned
      intro b result allocated set
      obtain ⟨after, done, kept, -⟩ := allocated.setSize_eq words fresh
      exact Except.ok.inj (done.symm.trans set) ▸ kept
  | ensureCapacity id capacity fresh =>
      refine h.change ?_ returned
      intro b result allocated ensured
      obtain ⟨after, done, kept, -⟩ := allocated.ensure_eq words false fresh
      exact Except.ok.inj (done.symm.trans ensured) ▸ kept
  | clear id =>
      refine h.change ?_ returned
      intro b result allocated cleared
      simp only [BufferT.clear] at cleared
      rw [allocated.clear.check_eq, ok_bind] at cleared
      exact Except.ok.inj cleared ▸ allocated.clear
  | equal id other =>
      obtain ⟨b, -, rest⟩ := bind_eq_ok.mp returned
      obtain ⟨o, -, rest⟩ := bind_eq_ok.mp rest
      obtain ⟨same, -, made⟩ := bind_eq_ok.mp rest
      cases made
      exact h

/-- The buffers of a program keep their allocations, by induction over its calls. -/
theorem Buffers.Reachable.allocated [DecidableEq T] {buffers : Buffers T}
    (reachable : Buffers.Reachable buffers)
    : buffers.Allocated := by
  induction reachable with
  | start =>
      intro id b found
      contradiction
  | call before words returned ih => exact ih.call words returned
  | @selfMove buffers id b before found ih => exact ih.put id (ih id b found).onMovedFrom

/-- `AppendData` is safe exactly when the sum of the sizes is below the bound of `uint32_t` and
the headroom fits, and `SetSize` exactly when the headroom fits.
-/
theorem growth_safe_iff [DecidableEq T] {buffers : Buffers T} {id : Nat} {b : BufferT T}
    (reachable : Buffers.Reachable buffers) (found : buffers.get id = .ok b)
    {data : List T} {size : Nat} (fresh : Nat → T) (word : size < 2 ^ 32)
    (readable : size ≤ data.length)
    : (b.AppendsSafely data size fresh
        ↔ b.size + size < 2 ^ 32 ∧ b.LeavesHeadroom (b.size + size))
      ∧ (b.ResizesSafely size fresh ↔ b.LeavesHeadroom size) := by
  have h := reachable.allocated id b found
  have unstopped : ¬∃ condition, b.check = .error (.checkFailed condition) := by
    simp [h.check_eq]
  constructor
  case left =>
    rw [BufferT.AppendsSafely, or_iff_right unstopped]
    by_cases fits : b.size + size < 2 ^ 32
    case pos =>
      obtain ⟨after, done, kept, sum, capacity⟩ := h.appendData_eq fresh readable fits
      have room := Nat.le_trans kept.stored kept.allocated
      rw [← BufferT.growsEnough_iff fits capacity]
      simp only [done, Except.ok.injEq, exists_eq_left', sum, true_and, fits]
      exact and_iff_right (sum ▸ room)
    case neg =>
      have wrapped := h.appendData_wraps fresh word readable (Nat.not_lt.mp fits)
      exact iff_of_false (by simp [wrapped]) (fun held => fits held.1)
  case right =>
    obtain ⟨after, done, -, sized, capacity⟩ := h.setSize_eq word fresh
    rw [BufferT.ResizesSafely, or_iff_right unstopped, ← BufferT.growsEnough_iff word capacity]
    simp [done, sized]

/-- Both calls at a buffer of two elements, once within its capacity and once beyond it. -/
theorem growth_safe_iff_appended
    : ∃ b : BufferT UInt8,
        b.size = 2
        ∧ b.capacity = 3
        ∧ (b.AppendsSafely [3] 1 (fun _ => 7) ∧ b.ResizesSafely 1 (fun _ => 7))
        ∧ b.AppendsSafely [3, 4, 5, 6] 4 (fun _ => 7)
        ∧ b.ResizesSafely 4 (fun _ => 7) := by
  have words : (BufferCall.createFrom 0 [1, 2] 2 3 (fun _ => 7) : BufferCall UInt8).PassesWords :=
    ⟨by decide, by decide⟩
  let b : BufferT UInt8 := ⟨2, 3, some [1, 2, 7]⟩
  have returned
      : Buffers.call (fun _ => none) (.createFrom 0 [1, 2] 2 3 (fun _ => 7))
        = .ok (none, Buffers.put (fun _ => none) 0 b) := rfl
  have reachable := Buffers.Reachable.call .start words returned
  have found : (Buffers.put (fun _ => none) 0 b).get 0 = .ok b := rfl
  have one : 1 ≤ ([3] : List UInt8).length := by decide
  have four : 4 ≤ ([3, 4, 5, 6] : List UInt8).length := by decide
  have within := growth_safe_iff reachable found (fun _ => 7) (by decide) one
  have beyond := growth_safe_iff reachable found (fun _ => 7) (by decide) four
  refine ⟨b, rfl, rfl, ⟨within.1.mpr ?_, within.2.mpr ?_⟩, beyond.1.mpr ?_, beyond.2.mpr ?_⟩
  · exact ⟨by decide, .inl (by decide)⟩
  · exact .inl (by decide)
  · exact ⟨by decide, .inr (.inl (by decide))⟩
  · exact .inr (.inl (by decide))

/-- One more element for a buffer of the largest size is written behind its allocation. -/
theorem append_unsafe
    : ¬∀ (buffers : Buffers UInt8) (id : Nat) (b : BufferT UInt8),
        Buffers.Reachable buffers
        → buffers.get id = .ok b
        → ∀ (data : List UInt8) (size : Nat) (fresh : Nat → UInt8),
            size < 2 ^ 32
            → size ≤ data.length
            → b.AppendsSafely data size fresh ∧ b.ResizesSafely size fresh := by
  intro safe
  obtain ⟨b, list, made, represents, length⟩ :=
    BufferT.ofSize_eq (fun _ => (0 : UInt8)) (show 2 ^ 32 - 1 < 2 ^ 32 by omega)
      (show 2 ^ 32 - 1 < 2 ^ 32 by omega)
  rw [represents.length_eq] at length
  have reachable : Buffers.Reachable (Buffers.put (fun _ => none) 0 b) := by
    have words
        : (BufferCall.createSized 0 (2 ^ 32 - 1) (2 ^ 32 - 1)
            (fun _ => (0 : UInt8))).PassesWords :=
      ⟨by decide, by decide⟩
    have returned
        : Buffers.call (fun _ => none)
            (.createSized 0 (2 ^ 32 - 1) (2 ^ 32 - 1) (fun _ => (0 : UInt8)))
          = .ok (none, Buffers.put (fun _ => none) 0 b) := by
      rw [Buffers.call, made, ok_bind]
    exact .call .start words returned
  have allocated := reachable.allocated 0 b rfl
  rcases (safe _ 0 b reachable rfl [0] 1 (fun _ => 0) (by decide) (by decide)).1 with
    ⟨condition, stopped⟩ | ⟨after, done, -⟩
  · rw [allocated.check_eq] at stopped
    contradiction
  · rw [allocated.appendData_wraps _ (by decide) (by decide) (by omega)] at done
    contradiction

end Nbsdk.Memory
