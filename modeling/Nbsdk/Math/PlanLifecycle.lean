import Mathlib.Data.List.Count
import Nbsdk.Math.Fft

/-! The life of a transform's plan and arrays, from the first call to the destructor.
A transform either holds three live handles, or none of its handles is live any more. The
plan's pointer outlives the plan, and what the next call does with it decides.
-/

namespace Nbsdk.Math

open Handles (Misuse Store)
open Fallible

-----------------------------------------------------------------------------------------
-- The order of calls
-----------------------------------------------------------------------------------------

/-- `Execute` is only called behind an `Init` that no `Terminate` has followed. -/
def Ordered : Bool → List FftCall → Prop
  | _, [] => True
  | _, .init _ :: rest => Ordered true rest
  | ready, .execute _ :: rest => ready = true ∧ Ordered ready rest
  | _, .terminate :: rest => Ordered false rest

instance Ordered.decidable (ready : Bool) (calls : List FftCall)
    : Decidable (Ordered ready calls) :=
  match calls with
  | [] => isTrue trivial
  | .init _ :: rest => Ordered.decidable true rest
  | .execute _ :: rest =>
      have := Ordered.decidable ready rest
      inferInstanceAs (Decidable (_ ∧ Ordered ready rest))
  | .terminate :: rest => Ordered.decidable false rest

/-- The number of samples asked for when a call returns. -/
def asked (sampleCount : Int) : FftCall → Int
  | .init sampleCount => sampleCount
  | .execute _ | .terminate => sampleCount

/-- The number of samples of the latest `Init`. -/
def latest (calls : List FftCall) : Int := calls.foldl asked 0

section

variable {τ : Type}
  (call : τ × Store Resource → FftCall → Except Misuse (τ × Store Resource))

/-- The calls and the destructor behind them run without a misuse, and then everything that
was created has been released exactly once.
-/
def Completes (state : τ × Store Resource) (calls : List FftCall) : Prop :=
  ∃ final, (calls ++ [FftCall.terminate]).foldlM call state = .ok final ∧ final.2.Settled

/-- The life of a transform: it uses live handles only, of the size of the latest `Init`, it
releases nothing twice, and in the end it has released everything.
-/
structure LivesWell (size : τ → Int) (fresh : τ) (calls : List FftCall) : Prop where
  completes : Completes call (fresh, .empty) calls
  sized
    : ∀ before given after reached,
        calls = before ++ .execute given :: after
        → before.foldlM call (fresh, .empty) = .ok reached
        → size reached.1 = latest before

variable {call}

/-- The destructor decides at the end. -/
theorem completes_nil {state : τ × Store Resource}
    : Completes call state []
      ↔ ∃ final, call state .terminate = .ok final ∧ final.2.Settled := by
  simp [Completes]

/-- A first call that is a misuse ends the run, and otherwise the rest decides. -/
theorem completes_cons {state : τ × Store Resource} {first : FftCall} {rest : List FftCall}
    : Completes call state (first :: rest)
      ↔ ∃ next, call state first = .ok next ∧ Completes call next rest := by
  simp only [Completes, List.cons_append, List.foldlM_cons, bind_eq_ok]
  constructor
  case mp =>
    rintro ⟨final, ⟨next, called, run⟩, settled⟩
    exact ⟨next, called, final, run, settled⟩
  case mpr =>
    rintro ⟨next, called, final, run, settled⟩
    exact ⟨final, ⟨next, called, run⟩, settled⟩

theorem completes_cons_ok {state next : τ × Store Resource} {first : FftCall}
    {rest : List FftCall} (called : call state first = .ok next)
    : Completes call state (first :: rest) ↔ Completes call next rest := by
  simp [completes_cons, called]

theorem not_completes_cons {state : τ × Store Resource} {first : FftCall}
    {rest : List FftCall} {misuse : Misuse} (called : call state first = .error misuse)
    : ¬Completes call state (first :: rest) := by
  simp [completes_cons, called]

/-- A size that every call sets as asked is the one of the latest `Init`. -/
theorem size_run {size : τ → Int}
    (step : ∀ {state next c}, call state c = .ok next → size next.1 = asked (size state.1) c)
    {calls : List FftCall} {state reached : τ × Store Resource}
    (run : calls.foldlM call state = .ok reached)
    : size reached.1 = calls.foldl asked (size state.1) := by
  induction calls generalizing state with
  | nil =>
      cases run
      rfl
  | cons c rest ih =>
      obtain ⟨next, called, rest⟩ := bind_eq_ok.mp run
      rw [List.foldl_cons, ← step called]
      exact ih rest

/-- When the sizes are always as asked, completing is all that is left. -/
theorem livesWell_iff_completes {size : τ → Int} {fresh : τ} {calls : List FftCall}
    (step : ∀ {state next c}, call state c = .ok next → size next.1 = asked (size state.1) c)
    (start : size fresh = 0)
    : LivesWell call size fresh calls ↔ Completes call (fresh, .empty) calls := by
  constructor
  case mp => exact LivesWell.completes
  case mpr =>
    intro completes
    refine ⟨completes, ?_⟩
    intro before given after reached split run
    rw [size_run step run, start, latest]

end

-----------------------------------------------------------------------------------------
-- The pointers of a transform
-----------------------------------------------------------------------------------------

namespace Pointers

variable {p : Pointers} {s : Store Resource}

/-- The three pointers are different live handles to the plan and its arrays, and everything
else has been released.
-/
structure Holds (p : Pointers) (s : Store Resource) (sampleCount : Int)
    (input output : Resource) (plan i o : Nat)
    : Prop where
  pointers : p = ⟨some plan, some i, some o⟩
  live : s.Live plan ∧ s.Live i ∧ s.Live o
  apart : plan ≠ i ∧ plan ≠ o ∧ i ≠ o
  kinds
    : s.created[plan]? = some (.plan sampleCount p.input p.output)
      ∧ s.created[i]? = some input
      ∧ s.created[o]? = some output
  others
    : ∀ handle < s.created.length,
        handle ≠ plan → handle ≠ i → handle ≠ o → s.released.count handle = 1

/-- A plan that was released but is still pointed to. -/
def Stale (p : Pointers) (s : Store Resource) : Prop := ∃ plan, p.plan = some plan ∧ ¬s.Live plan

/-- A live handle that nothing points to. -/
def Leaks (p : Pointers) (s : Store Resource) : Prop :=
  ∃ handle, s.Live handle ∧ p.plan ≠ some handle ∧ p.input ≠ some handle ∧ p.output ≠ some handle

/-- What is held is released once, and the pointer to the plan stays. -/
theorem Holds.terminate {sampleCount : Int} {input output : Resource} {plan i o : Nat}
    (h : p.Holds s sampleCount input output plan i o)
    : ∃ after : Store Resource,
        p.terminate s = .ok (⟨some plan, none, none⟩, after) ∧ after.Settled := by
  obtain ⟨livePlan, liveInput, liveOutput⟩ := h.live
  obtain ⟨planInput, planOutput, inputOutput⟩ := h.apart
  have destroyed := Store.release_of_live livePlan
  have liveInput := liveInput.release planInput.symm destroyed
  have liveOutput := liveOutput.release planOutput.symm destroyed
  have freed := Store.release_of_live liveInput
  have liveOutput := liveOutput.release inputOutput.symm freed
  refine ⟨((s.retire plan livePlan).retire i liveInput).retire o liveOutput, ?_, ?_⟩
  · rw [Pointers.terminate, h.pointers]
    simp only [destroyPlan, freeArray]
    rw [destroyed, ok_bind, freed, ok_bind, Store.release_of_live liveOutput, ok_bind]
  · intro handle created
    have absent : ∀ {handle}, s.Live handle → s.released.count handle = 0 :=
      fun live => List.count_eq_zero.mpr live.2
    simp only [Store.released_retire, List.count_append, List.count_singleton]
    by_cases isPlan : handle = plan
    · subst isPlan
      simp [absent h.live.1, planInput.symm, planOutput.symm]
    · by_cases isInput : handle = i
      · subst isInput
        simp [absent h.live.2.1, planInput, inputOutput.symm]
      · by_cases isOutput : handle = o
        · subst isOutput
          simp [absent h.live.2.2, planOutput, inputOutput]
        · simp [h.others handle created isPlan isInput isOutput, Ne.symm isPlan,
            Ne.symm isInput, Ne.symm isOutput]

/-- The arrays can be accessed and the plan executed. -/
theorem Holds.execute {sampleCount : Int} {input output : Resource} {plan i o : Nat}
    (h : p.Holds s sampleCount input output plan i o)
    : (∀ count, access s p.input count input = .ok ())
      ∧ executePlan s p.plan (.plan sampleCount p.input p.output) = .ok ()
      ∧ ∀ count, access s p.output count output = .ok () := by
  have pointsPlan : p.plan = some plan := by rw [h.pointers]
  have pointsInput : p.input = some i := by rw [h.pointers]
  have pointsOutput : p.output = some o := by rw [h.pointers]
  refine ⟨?_, ?_, ?_⟩
  · intro count
    rw [pointsInput, access]
    split
    · rfl
    · exact Store.use_of_live h.live.2.1 h.kinds.2.1
  · rw [pointsPlan, executePlan]
    exact Store.use_of_live h.live.1 h.kinds.1
  · intro count
    rw [pointsOutput, access]
    split
    · rfl
    · exact Store.use_of_live h.live.2.2 h.kinds.2.2

/-- A stale plan cannot be destroyed. -/
theorem Stale.terminate (h : p.Stale s) : p.terminate s = .error .released := by
  obtain ⟨plan, pointed, dead⟩ := h
  rw [Pointers.terminate, pointed]
  simp only [destroyPlan]
  rw [Store.release_of_dead dead]
  rfl

/-- A handle survives the release of a pointer to another. -/
theorem live_destroyPlan {after : Store Resource} {plan : Option Nat} {handle : Nat}
    (live : s.Live handle) (apart : plan ≠ some handle) (destroyed : destroyPlan s plan = .ok after)
    : after.Live handle := by
  cases plan with
  | none => exact Except.ok.inj destroyed ▸ live
  | some plan => exact live.release (fun same => apart (congrArg some same.symm)) destroyed

/-- What leaks is not released. -/
theorem Leaks.terminate {p' : Pointers} {after : Store Resource} (h : p.Leaks s)
    (terminated : p.terminate s = .ok (p', after))
    : p'.Leaks after := by
  obtain ⟨handle, live, notPlan, notInput, notOutput⟩ := h
  obtain ⟨s1, destroyed, rest⟩ := bind_eq_ok.mp terminated
  obtain ⟨s2, freed, rest⟩ := bind_eq_ok.mp rest
  obtain ⟨s3, freed', made⟩ := bind_eq_ok.mp rest
  cases made
  have live := live_destroyPlan live notPlan destroyed
  have live := live_destroyPlan live notInput freed
  exact ⟨handle, live_destroyPlan live notOutput freed', notPlan, by simp, by simp⟩

end Pointers

end Nbsdk.Math
