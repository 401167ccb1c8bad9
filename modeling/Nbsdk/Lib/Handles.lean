import Mathlib.Data.List.Basic

/-! Handles to resources that are created, used and released.
A store numbers the resources in the order of their creation and remembers what was released.
Using or releasing a handle that is not live is a misuse.
-/

namespace Handles

variable {ρ : Type*}

/-- What must not be done with a handle. -/
inductive Misuse
  | used
  | released
  deriving DecidableEq, Repr

/-- The resources that were created, in order, and the handles that were released. -/
structure Store (ρ : Type*) where
  created : List ρ
  released : List Nat
  known : ∀ handle ∈ released, handle < created.length

namespace Store

def empty : Store ρ := ⟨[], [], by simp⟩

/-- The handle was created and not released. -/
def Live (s : Store ρ) (handle : Nat) : Prop :=
  handle < s.created.length ∧ handle ∉ s.released

instance (s : Store ρ) (handle : Nat) : Decidable (s.Live handle) :=
  inferInstanceAs (Decidable (_ ∧ _))

/-- A new resource and its handle. -/
def create (s : Store ρ) (resource : ρ) : Nat × Store ρ :=
  (s.created.length,
    { s with
        created := s.created ++ [resource]
        known handle member := by
          rw [List.length_append]
          exact Nat.lt_add_right _ (s.known handle member) })

/-- Uses a live handle to this resource. -/
def use [DecidableEq ρ] (s : Store ρ) (handle : Nat) (resource : ρ) : Except Misuse Unit :=
  if s.Live handle ∧ s.created[handle]? = some resource then .ok () else .error .used

/-- A live handle becomes a released one. -/
def retire (s : Store ρ) (handle : Nat) (live : s.Live handle) : Store ρ :=
  { s with
      released := s.released ++ [handle]
      known := by
        intro other member
        rcases List.mem_append.mp member with earlier | same
        · exact s.known other earlier
        · exact List.mem_singleton.mp same ▸ live.1 }

def release (s : Store ρ) (handle : Nat) : Except Misuse (Store ρ) :=
  if live : s.Live handle then .ok (s.retire handle live) else .error .released

/-- Everything that was created has been released exactly once. -/
def Settled (s : Store ρ) : Prop := ∀ handle < s.created.length, s.released.count handle = 1

instance (s : Store ρ) : Decidable s.Settled :=
  inferInstanceAs (Decidable (∀ handle < s.created.length, _))

@[simp] theorem released_retire {s : Store ρ} {handle : Nat} (live : s.Live handle)
    : (s.retire handle live).released = s.released ++ [handle] := rfl

@[simp] theorem created_retire {s : Store ρ} {handle : Nat} (live : s.Live handle)
    : (s.retire handle live).created = s.created := rfl

@[simp] theorem released_create (s : Store ρ) (resource : ρ)
    : (s.create resource).2.released = s.released := rfl

@[simp] theorem created_create (s : Store ρ) (resource : ρ)
    : (s.create resource).2.created = s.created ++ [resource] := rfl

@[simp] theorem handle_create (s : Store ρ) (resource : ρ)
    : (s.create resource).1 = s.created.length := rfl

theorem release_of_live {s : Store ρ} {handle : Nat} (live : s.Live handle)
    : s.release handle = .ok (s.retire handle live) :=
  dif_pos live

theorem release_of_dead {s : Store ρ} {handle : Nat} (dead : ¬s.Live handle)
    : s.release handle = .error .released :=
  dif_neg dead

/-- A release takes a live handle, and only that one. -/
theorem release_eq_ok {s after : Store ρ} {handle : Nat}
    : s.release handle = .ok after ↔ ∃ live : s.Live handle, after = s.retire handle live := by
  by_cases live : s.Live handle
  case pos => simp [release_of_live live, live, eq_comm]
  case neg => simp [release_of_dead live, live]

theorem use_of_live [DecidableEq ρ] {s : Store ρ} {handle : Nat} {resource : ρ}
    (live : s.Live handle) (kind : s.created[handle]? = some resource)
    : s.use handle resource = .ok () :=
  if_pos ⟨live, kind⟩

/-- A live handle survives the release of another. -/
theorem Live.release {s after : Store ρ} {handle other : Nat} (live : s.Live handle)
    (apart : handle ≠ other) (released : s.release other = .ok after)
    : after.Live handle := by
  obtain ⟨_, rfl⟩ := release_eq_ok.mp released
  exact ⟨live.1, by simp [live.2, apart]⟩

/-- A new handle is live. -/
theorem live_create (s : Store ρ) (resource : ρ) : (s.create resource).2.Live s.created.length :=
  ⟨by simp, fun member => Nat.lt_irrefl _ (s.known _ member)⟩

/-- A live handle survives the creation of another. -/
theorem Live.create {s : Store ρ} {handle : Nat} (live : s.Live handle) (resource : ρ)
    : (s.create resource).2.Live handle :=
  ⟨by simpa using Nat.lt_succ_of_lt live.1, live.2⟩

/-- With a live handle left, not everything has been released. -/
theorem Live.not_settled {s : Store ρ} {handle : Nat} (live : s.Live handle) : ¬s.Settled := by
  intro settled
  have once := settled handle live.1
  rw [List.count_eq_zero.mpr live.2] at once
  contradiction

/-- In a settled store every handle is dead. -/
theorem Settled.dead {s : Store ρ} (settled : s.Settled) (handle : Nat) : ¬s.Live handle :=
  fun live => live.not_settled settled

end Store

end Handles
