import Nbsdk.Math.PlanLifecycle

/-! The orders of calls in which FFTW and IFFTW live well.
`FFTW::Init` releases nothing, so that a second one loses what the first has made, and the
destructor of a transform that was terminated destroys its plan again. `IFFTW::Init` terminates
what was there, unless it is called for the size that the transform already has.
-/

namespace Nbsdk.Math

open Handles (Misuse Store)
open Fallible

/-- Three resources created in a settled store are live, and everything else is released. -/
theorem settled_create {s : Store Resource} (settled : s.Settled) (first second third : Resource)
    : let after := (((s.create first).2.create second).2.create third).2
      (after.Live s.created.length
        ∧ after.Live (s.created.length + 1)
        ∧ after.Live (s.created.length + 2))
      ∧ (after.created[s.created.length]? = some first
        ∧ after.created[s.created.length + 1]? = some second
        ∧ after.created[s.created.length + 2]? = some third)
      ∧ ∀ handle < after.created.length,
          handle ≠ s.created.length
          → handle ≠ s.created.length + 1
          → handle ≠ s.created.length + 2
          → after.released.count handle = 1 := by
  intro after
  have firstLive := ((Store.live_create s first).create second).create third
  have secondLive := (Store.live_create (s.create first).2 second).create third
  have thirdLive := Store.live_create ((s.create first).2.create second).2 third
  simp only [Store.created_create, List.length_append, List.length_singleton]
    at firstLive secondLive thirdLive
  refine ⟨⟨firstLive, secondLive, thirdLive⟩, ?_, ?_⟩
  · simp [after]
  · intro handle created notFirst notSecond notThird
    refine settled handle ?_
    simp only [after, Store.created_create, List.length_append, List.length_singleton] at created
    omega

-----------------------------------------------------------------------------------------
-- FFTW
-----------------------------------------------------------------------------------------

/-- What a call does to the plan: `Init` makes one and `Terminate` destroys it. -/
def turn : FftCall → Option Bool
  | .init _ => some true
  | .execute _ => none
  | .terminate => some false

/-- `Init` and `Terminate` take turns, and `Terminate` is not the last of them. -/
def TakeTurns (turns : List Bool) : Prop :=
  turns.IsChain (· ≠ ·) ∧ turns.getLast? ≠ some false

instance (turns : List Bool) : Decidable (TakeTurns turns) :=
  inferInstanceAs (Decidable (_ ∧ _))

theorem takeTurns_cons {first second : Bool} {rest : List Bool}
    : TakeTurns (first :: second :: rest) ↔ first ≠ second ∧ TakeTurns (second :: rest) := by
  simp [TakeTurns, and_assoc]

namespace FFTW

variable {t : FFTW} {s : Store Resource} {calls : List FftCall}

/-- The transform holds a plan and two arrays of its size. -/
def Held (t : FFTW) (s : Store Resource) : Prop :=
  ∃ plan i o,
    t.toPointers.Holds s t.sampleCount (.reals t.sampleCount) (.complexes t.outSize) plan i o

/-- `Terminate` has released everything, and the plan's pointer is still there. -/
def Freed (t : FFTW) (s : Store Resource) : Prop := t.toPointers.Stale s ∧ s.Settled

/-- `Execute` changes nothing. -/
theorem call_execute_eq_ok {given : Bool} {next : FFTW × Store Resource}
    (called : call (t, s) (.execute given) = .ok next)
    : next = (t, s) := by
  cases given with
  | false => exact (Except.ok.inj called).symm
  | true =>
      obtain ⟨done, -, made⟩ := bind_eq_ok.mp called
      exact (Except.ok.inj made).symm

/-- `Terminate` changes the pointers. -/
theorem call_terminate_eq_ok {next : FFTW × Store Resource}
    (called : call (t, s) .terminate = .ok next)
    : ∃ pointers,
        t.toPointers.terminate s = .ok (pointers, next.2)
        ∧ next.1 = { t with toPointers := pointers } := by
  obtain ⟨⟨pointers, after⟩, terminated, made⟩ := bind_eq_ok.mp called
  cases made
  exact ⟨pointers, terminated, rfl⟩

theorem asked_call {state next : FFTW × Store Resource} {c : FftCall}
    (called : call state c = .ok next)
    : next.1.sampleCount = asked state.1.sampleCount c := by
  obtain ⟨t, s⟩ := state
  cases c with
  | init sampleCount => exact Except.ok.inj called ▸ rfl
  | execute given => exact call_execute_eq_ok called ▸ rfl
  | terminate =>
      obtain ⟨pointers, -, same⟩ := call_terminate_eq_ok called
      exact same ▸ rfl

theorem init_eq (sampleCount : Int) (s : Store Resource)
    : init sampleCount s
      = ({ sampleCount
           outSize := sampleCount.tdiv 2 + 1
           plan := some (s.created.length + 2)
           input := some s.created.length
           output := some (s.created.length + 1) },
          (((s.create (.reals sampleCount)).2.create (.complexes (sampleCount.tdiv 2 + 1))).2.create
            (.plan sampleCount (some s.created.length) (some (s.created.length + 1)))).2) := by
  simp [init]

/-- When nothing is left to release, `Init` sets up the plan and the arrays. -/
theorem init_held (settled : s.Settled) (sampleCount : Int)
    : (init sampleCount s).1.Held (init sampleCount s).2 := by
  rw [init_eq]
  obtain ⟨⟨input, output, plan⟩, ⟨inputKind, outputKind, planKind⟩, others⟩ :=
    settled_create settled (.reals sampleCount) (.complexes (sampleCount.tdiv 2 + 1))
      (.plan sampleCount (some s.created.length) (some (s.created.length + 1)))
  refine ⟨s.created.length + 2, s.created.length, s.created.length + 1, ?_⟩
  exact
    { pointers := rfl
      live := ⟨plan, input, output⟩
      apart := by omega
      kinds := ⟨planKind, inputKind, outputKind⟩
      others handle created notPlan notInput notOutput :=
        others handle created notInput notOutput notPlan }

/-- A handle that is live when `Init` is called is pointed to no more. -/
theorem init_leaks {handle : Nat} (live : s.Live handle) (sampleCount : Int)
    : (init sampleCount s).1.toPointers.Leaks (init sampleCount s).2 := by
  have older := live.1
  rw [init_eq]
  refine ⟨handle, ((live.create _).create _).create _, ?_, ?_, ?_⟩ <;>
    simp only [ne_eq, Option.some.injEq] <;>
    omega

theorem Held.call_execute (held : t.Held s) (given : Bool)
    : call (t, s) (.execute given) = .ok (t, s) := by
  obtain ⟨plan, i, o, holds⟩ := held
  obtain ⟨input, executed, output⟩ := holds.execute
  cases given with
  | false => rfl
  | true =>
      simp only [call, execute, ↓reduceIte]
      rw [input, ok_bind, executed, ok_bind, output, ok_bind]

theorem Held.call_terminate (held : t.Held s)
    : ∃ next, call (t, s) .terminate = .ok next ∧ next.1.Freed next.2 := by
  obtain ⟨plan, i, o, holds⟩ := held
  obtain ⟨after, terminated, settled⟩ := holds.terminate
  refine ⟨({ t with toPointers := ⟨some plan, none, none⟩ }, after), ?_, ?_, settled⟩
  · rw [call, terminate, terminated, ok_bind]
  · exact ⟨plan, rfl, settled.dead plan⟩

theorem Freed.call_terminate (freed : t.Freed s)
    : call (t, s) .terminate = .error .released := by
  rw [call, terminate, freed.1.terminate]
  rfl

/-- What leaks stays so. -/
theorem leaks_call {next : FFTW × Store Resource} {c : FftCall} (leaks : t.toPointers.Leaks s)
    (called : call (t, s) c = .ok next)
    : next.1.toPointers.Leaks next.2 := by
  cases c with
  | init sampleCount =>
      obtain ⟨handle, live, -⟩ := leaks
      exact Except.ok.inj called ▸ init_leaks live sampleCount
  | execute given => exact call_execute_eq_ok called ▸ leaks
  | terminate =>
      obtain ⟨pointers, terminated, same⟩ := call_terminate_eq_ok called
      exact same ▸ leaks.terminate terminated

/-- After a leak not everything gets released. -/
theorem not_completes_of_leaks (leaks : t.toPointers.Leaks s)
    : ¬Completes call (t, s) calls := by
  induction calls generalizing t s with
  | nil =>
      rw [completes_nil]
      rintro ⟨final, terminated, settled⟩
      obtain ⟨handle, live, -⟩ := leaks_call leaks terminated
      exact live.not_settled settled
  | cons c rest ih =>
      rw [completes_cons]
      rintro ⟨next, called, completes⟩
      exact ih (leaks_call leaks called) completes

/-- From a held or a freed transform on, `Init` and `Terminate` have to take turns. -/
theorem completes_iff (calls : List FftCall)
    : (∀ {t s},
        Held t s
        → Ordered true calls
        → (Completes call (t, s) calls ↔ TakeTurns (true :: calls.filterMap turn)))
      ∧ ∀ {t s},
          Freed t s
          → Ordered false calls
          → (Completes call (t, s) calls ↔ TakeTurns (false :: calls.filterMap turn)) := by
  induction calls with
  | nil =>
      constructor
      case left =>
        intro t s held ordered
        obtain ⟨next, terminated, freed⟩ := held.call_terminate
        refine iff_of_true (completes_nil.mpr ⟨next, terminated, freed.2⟩) ?_
        decide
      case right =>
        intro t s freed ordered
        refine iff_of_false ?_ (by decide)
        rw [completes_nil, freed.call_terminate]
        simp
  | cons c rest ih =>
      obtain ⟨fromHeld, fromFreed⟩ := ih
      cases c with
      | init sampleCount =>
          have turned
              : (FftCall.init sampleCount :: rest).filterMap turn
                = true :: rest.filterMap turn := rfl
          rw [turned, takeTurns_cons, takeTurns_cons]
          constructor
          case left =>
            intro t s held ordered
            obtain ⟨plan, i, o, holds⟩ := held
            refine iff_of_false ?_ (by simp)
            rw [completes_cons_ok rfl]
            exact not_completes_of_leaks (init_leaks holds.live.1 sampleCount)
          case right =>
            intro t s freed ordered
            rw [completes_cons_ok rfl]
            simpa using fromHeld (init_held freed.2 sampleCount) ordered
      | execute given =>
          rw [List.filterMap_cons_none rfl]
          constructor
          case left =>
            intro t s held ordered
            rw [completes_cons_ok (held.call_execute given)]
            exact fromHeld held ordered.2
          case right =>
            intro t s freed ordered
            exact absurd ordered.1 (by simp)
      | terminate =>
          have turned
              : (FftCall.terminate :: rest).filterMap turn
                = false :: rest.filterMap turn := rfl
          rw [turned, takeTurns_cons, takeTurns_cons]
          constructor
          case left =>
            intro t s held ordered
            obtain ⟨next, terminated, freed⟩ := held.call_terminate
            rw [completes_cons_ok terminated]
            simpa using fromFreed freed ordered
          case right =>
            intro t s freed ordered
            refine iff_of_false (not_completes_cons freed.call_terminate) (by simp)

/-- Before the first `Init`, `Terminate` has nothing to do. -/
theorem completes_create_iff (settled : s.Settled) (ordered : Ordered false calls)
    : Completes call (create, s) calls
      ↔ TakeTurns ((calls.filterMap turn).dropWhile (· == false)) := by
  induction calls with
  | nil => exact iff_of_true (completes_nil.mpr ⟨(create, s), rfl, settled⟩) (by decide)
  | cons c rest ih =>
      cases c with
      | init sampleCount =>
          rw [completes_cons_ok rfl]
          exact (completes_iff rest).1 (init_held settled sampleCount) ordered
      | execute given => exact absurd ordered.1 (by simp)
      | terminate =>
          have nothing : call (create, s) .terminate = .ok (create, s) := rfl
          rw [completes_cons_ok nothing]
          exact ih ordered

end FFTW

-----------------------------------------------------------------------------------------
-- IFFTW
-----------------------------------------------------------------------------------------

/-- An `Init` that a new `IFFTW` does not take for the size it already has. -/
def setsUp : FftCall → Bool
  | .init sampleCount => sampleCount ≠ 0
  | .execute _ | .terminate => false

namespace IFFTW

variable {t : IFFTW} {s : Store Resource} {calls : List FftCall}

/-- The transform holds a plan and two arrays of its size. -/
def Held (t : IFFTW) (s : Store Resource) : Prop :=
  ∃ plan i o,
    t.toPointers.Holds s t.outSize (.complexes t.inSize) (.reals t.outSize) plan i o

/-- `Execute` changes nothing. -/
theorem call_execute_eq_ok {given : Bool} {next : IFFTW × Store Resource}
    (called : call (t, s) (.execute given) = .ok next)
    : next = (t, s) := by
  cases given with
  | false => exact (Except.ok.inj called).symm
  | true =>
      obtain ⟨done, -, made⟩ := bind_eq_ok.mp called
      exact (Except.ok.inj made).symm

/-- `Terminate` keeps the size. -/
theorem outSize_terminate {next : IFFTW × Store Resource} (terminated : t.terminate s = .ok next)
    : next.1.outSize = t.outSize := by
  obtain ⟨⟨pointers, after⟩, -, made⟩ := bind_eq_ok.mp terminated
  cases made
  rfl

theorem init_same (sampleCount : Int) (same : t.outSize = sampleCount)
    : t.init sampleCount s = .ok (t, s) :=
  if_pos same

theorem init_other {sampleCount : Int} (other : t.outSize ≠ sampleCount)
    : t.init sampleCount s
      = (t.terminate s).map fun terminated =>
          let s := terminated.2
          ({ inSize := sampleCount.tdiv 2 + 1
             outSize := sampleCount
             plan := some (s.created.length + 2)
             input := some (s.created.length + 1)
             output := some s.created.length },
            (((s.create (.reals sampleCount)).2.create
                (.complexes (sampleCount.tdiv 2 + 1))).2.create
              (.plan sampleCount (some (s.created.length + 1)) (some s.created.length))).2) := by
  rw [init, if_neg other]
  cases t.terminate s with
  | error misuse => rfl
  | ok terminated => simp [Except.map, ok_bind]

theorem asked_call {state next : IFFTW × Store Resource} {c : FftCall}
    (called : call state c = .ok next)
    : next.1.outSize = asked state.1.outSize c := by
  obtain ⟨t, s⟩ := state
  cases c with
  | init sampleCount =>
      by_cases same : t.outSize = sampleCount
      case pos =>
        rw [call, init_same sampleCount same] at called
        exact Except.ok.inj called ▸ same
      case neg =>
        rw [call, init_other same] at called
        cases terminated : t.terminate s with
        | error misuse => simp [terminated, Except.map] at called
        | ok after => exact Except.ok.inj (terminated ▸ called) ▸ rfl
  | execute given => exact call_execute_eq_ok called ▸ rfl
  | terminate => exact outSize_terminate called

theorem Held.terminate (held : t.Held s)
    : ∃ next : IFFTW × Store Resource,
        t.terminate s = .ok next ∧ next.1.toPointers.Stale next.2 ∧ next.2.Settled := by
  obtain ⟨plan, i, o, holds⟩ := held
  obtain ⟨after, terminated, settled⟩ := holds.terminate
  refine ⟨({ t with toPointers := ⟨some plan, none, none⟩ }, after), ?_, ?_, settled⟩
  · rw [IFFTW.terminate, terminated, ok_bind]
  · exact ⟨plan, rfl, settled.dead plan⟩

/-- When nothing is left to release behind `Terminate`, `Init` sets up the plan and the arrays. -/
theorem init_held {sampleCount : Int} {after : IFFTW × Store Resource}
    (other : t.outSize ≠ sampleCount) (terminated : t.terminate s = .ok after)
    (settled : after.2.Settled)
    : ∃ next, t.init sampleCount s = .ok next ∧ next.1.Held next.2 := by
  obtain ⟨⟨output, input, plan⟩, ⟨outputKind, inputKind, planKind⟩, others⟩ :=
    settled_create settled (.reals sampleCount) (.complexes (sampleCount.tdiv 2 + 1))
      (.plan sampleCount (some (after.2.created.length + 1)) (some after.2.created.length))
  rw [init_other other, terminated]
  refine ⟨_, rfl, after.2.created.length + 2, after.2.created.length + 1,
    after.2.created.length, ?_⟩
  exact
    { pointers := rfl
      live := ⟨plan, input, output⟩
      apart := by omega
      kinds := ⟨planKind, inputKind, outputKind⟩
      others handle created notPlan notInput notOutput :=
        others handle created notOutput notInput notPlan }

theorem Held.call_execute (held : t.Held s) (given : Bool)
    : call (t, s) (.execute given) = .ok (t, s) := by
  obtain ⟨plan, i, o, holds⟩ := held
  obtain ⟨input, executed, output⟩ := holds.execute
  cases given with
  | false => rfl
  | true =>
      simp only [call, execute, ↓reduceIte]
      rw [input, ok_bind, executed, ok_bind, output, ok_bind]

/-- A transform with a stale plan is lost: every `Init` keeps it or destroys it again, and so
does the destructor.
-/
theorem not_completes_of_stale (stale : t.toPointers.Stale s)
    : ¬Completes call (t, s) calls := by
  have failed : t.terminate s = .error .released := by
    rw [terminate, stale.terminate]
    rfl
  induction calls with
  | nil => simp [completes_nil, call, failed]
  | cons c rest ih =>
      rw [completes_cons]
      rintro ⟨next, called, completes⟩
      cases c with
      | init sampleCount =>
          by_cases same : t.outSize = sampleCount
          case pos =>
            rw [call, init_same sampleCount same, Except.ok.injEq] at called
            exact ih (called ▸ completes)
          case neg => simp [call, init_other same, failed, Except.map] at called
      | execute given => exact ih (call_execute_eq_ok called ▸ completes)
      | terminate => simp [call, failed] at called

/-- Once a plan was made, only the destructor may terminate. -/
theorem completes_held_iff (held : t.Held s)
    : Completes call (t, s) calls ↔ .terminate ∉ calls := by
  induction calls generalizing t s with
  | nil =>
      obtain ⟨next, terminated, -, settled⟩ := held.terminate
      exact iff_of_true (completes_nil.mpr ⟨next, terminated, settled⟩) (by simp)
  | cons c rest ih =>
      obtain ⟨after, terminated, stale, settled⟩ := held.terminate
      cases c with
      | init sampleCount =>
          by_cases same : t.outSize = sampleCount
          case pos =>
            rw [completes_cons_ok (init_same sampleCount same), ih held]
            simp
          case neg =>
            obtain ⟨next, made, again⟩ := init_held same terminated settled
            rw [completes_cons_ok made, ih again]
            simp
      | execute given =>
          rw [completes_cons_ok (held.call_execute given), ih held]
          simp
      | terminate =>
          refine iff_of_false ?_ (by simp)
          rw [completes_cons_ok terminated]
          exact not_completes_of_stale stale

/-- Before the first plan is made, `Execute` has nothing to work with. -/
theorem completes_create_iff (settled : s.Settled)
    : Completes call (create, s) calls
      ↔ .execute true ∉ calls.takeWhile (!setsUp ·)
        ∧ .terminate ∉ calls.dropWhile (!setsUp ·) := by
  induction calls with
  | nil => exact iff_of_true (completes_nil.mpr ⟨(create, s), rfl, settled⟩) (by simp)
  | cons c rest ih =>
      cases c with
      | init sampleCount =>
          by_cases zero : sampleCount = 0
          case pos =>
            rw [completes_cons_ok (init_same sampleCount zero.symm), ih]
            simp [setsUp, zero]
          case neg =>
            have nothing : create.terminate s = .ok (create, s) := rfl
            obtain ⟨next, made, held⟩ := init_held (Ne.symm zero) nothing settled
            rw [completes_cons_ok made, completes_held_iff held]
            simp [setsUp, zero]
      | execute given =>
          cases given with
          | false =>
              have skipped : call (create, s) (.execute false) = .ok (create, s) := rfl
              rw [completes_cons_ok skipped, ih]
              simp [setsUp]
          | true =>
              have planless : call (create, s) (.execute true) = .error .used := rfl
              exact iff_of_false (not_completes_cons planless) (by simp [setsUp])
      | terminate =>
          have nothing : call (create, s) .terminate = .ok (create, s) := rfl
          rw [completes_cons_ok nothing, ih]
          simp [setsUp]

end IFFTW

-----------------------------------------------------------------------------------------
-- Both transforms
-----------------------------------------------------------------------------------------

/-- A new transform lives well exactly in these orders of calls. For `FFTW`, `Init` and
`Terminate` take turns from the first `Init` on and end with an `Init`. For `IFFTW`, nothing is
executed before the first `Init` for some samples, and nothing is terminated after it.
-/
theorem plan_lifecycle_iff {calls : List FftCall} (ordered : Ordered false calls)
    : (LivesWell FFTW.call (·.sampleCount) .create calls
        ↔ TakeTurns ((calls.filterMap turn).dropWhile (· == false)))
      ∧ (LivesWell IFFTW.call (·.outSize) .create calls
        ↔ .execute true ∉ calls.takeWhile (!setsUp ·)
          ∧ .terminate ∉ calls.dropWhile (!setsUp ·)) := by
  have settled : (Store.empty : Store Resource).Settled := by simp [Store.Settled, Store.empty]
  constructor
  case left =>
    rw [livesWell_iff_completes FFTW.asked_call rfl]
    exact FFTW.completes_create_iff settled ordered
  case right =>
    rw [livesWell_iff_completes IFFTW.asked_call rfl]
    exact IFFTW.completes_create_iff settled

theorem plan_lifecycle_iff_reinit
    : LivesWell FFTW.call (·.sampleCount) .create
        [.terminate, .init 8, .execute true, .terminate, .init 16, .execute true]
      ∧ LivesWell IFFTW.call (·.outSize) .create
        [.terminate, .init 8, .execute true, .init 8, .init 16, .execute true] :=
  ⟨(plan_lifecycle_iff (by decide)).1.mpr (by decide),
    (plan_lifecycle_iff (by decide)).2.mpr (by decide)⟩

/-- An explicit `Terminate` makes the destructor destroy the plan a second time. -/
theorem plan_destroyed_twice
    : ¬∀ calls,
        Ordered false calls
        → LivesWell FFTW.call (·.sampleCount) .create calls
          ∧ LivesWell IFFTW.call (·.outSize) .create calls := by
  intro alive
  obtain ⟨final, run, -⟩ := (alive [.init 8, .execute true, .terminate] (by decide)).1.completes
  have failed
      : [FftCall.init 8, .execute true, .terminate, .terminate].foldlM FFTW.call
          (.create, .empty)
        = .error .released := rfl
  cases failed.symm.trans run

end Nbsdk.Math
