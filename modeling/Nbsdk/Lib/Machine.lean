import Mathlib.Algebra.GroupWithZero.Nat
import Mathlib.Data.List.Basic
import Mathlib.Data.List.Induction

/-! Runs of machines whose steps answer, fail, or are not enabled.
A machine with outputs is compared with a specification by forward simulation; a machine
of enabled events carries invariants through its runs.
-/

namespace Machine

variable {σ τ ι ω φ κ : Type*}

/-- Feeds the inputs to `step` one after another and collects the outputs; the first
failure ends the run.
-/
def run (step : σ → ι → Except φ (ω × σ)) : σ → List ι → Except φ (List ω × σ)
  | state, [] => .ok ([], state)
  | state, input :: rest =>
      match step state input with
      | .error failure => .error failure
      | .ok (output, next) =>
          match run step next rest with
          | .error failure => .error failure
          | .ok (outputs, final) => .ok (output :: outputs, final)

/-- The specification allows this sequence of answers to this sequence of inputs. -/
inductive Explains (spec : τ → ι → ω → τ → Prop) : τ → List ι → List ω → τ → Prop
  | nil (state) : Explains spec state [] [] state
  | cons {state input output next inputs outputs final}
    (first : spec state input output next)
    (rest : Explains spec next inputs outputs final)
    : Explains spec state (input :: inputs) (output :: outputs) final

/-- `permit` follows the shape of a state through the inputs and refuses those a caller
must not give; a program is admitted when no input of it is refused.
-/
def Permits (permit : κ → ι → Option κ) : κ → List ι → Prop
  | _, [] => True
  | shape, input :: rest => ∃ next, permit shape input = some next ∧ Permits permit next rest

/-- From related states an admitted input does not fail, and the specification allows the
answer and a related successor.
-/
def Simulates (step : σ → ι → Except φ (ω × σ)) (spec : τ → ι → ω → τ → Prop)
    (permit : κ → ι → Option κ) (shape : τ → κ) (related : σ → τ → Prop)
    : Prop :=
  ∀ {state abstract input next},
    related state abstract
    → permit (shape abstract) input = some next
    → ∃ output after abstractAfter,
        step state input = .ok (output, after)
        ∧ spec abstract input output abstractAfter
        ∧ related after abstractAfter
        ∧ shape abstractAfter = next

/-- A simulation carries whole admitted programs, by induction over the inputs. -/
theorem Simulates.run {step : σ → ι → Except φ (ω × σ)} {spec : τ → ι → ω → τ → Prop}
    {permit : κ → ι → Option κ} {shape : τ → κ} {related : σ → τ → Prop}
    (simulates : Simulates step spec permit shape related)
    {state : σ} {abstract : τ} {inputs : List ι} (start : related state abstract)
    (permitted : Permits permit (shape abstract) inputs)
    : ∃ outputs final abstractFinal,
        Machine.run step state inputs = .ok (outputs, final)
        ∧ Explains spec abstract inputs outputs abstractFinal
        ∧ related final abstractFinal := by
  induction inputs generalizing state abstract with
  | nil => exact ⟨[], state, abstract, rfl, .nil abstract, start⟩
  | cons input rest ih =>
      obtain ⟨next, allowed, later⟩ := permitted
      obtain ⟨output, after, abstractAfter, stepped, explained, related', shaped⟩ :=
        simulates start allowed
      subst shaped
      obtain ⟨outputs, final, abstractFinal, ran, explains, finish⟩ := ih related' later
      refine ⟨output :: outputs, final, abstractFinal, ?_, .cons explained explains, finish⟩
      simp only [Machine.run, stepped, ran]

/-- A machine that follows its specification on admitted inputs and stops with one failure at
others of a wider kind runs programs of these to their end, or with this failure up to the first
input that is not admitted; by induction over the inputs.
-/
theorem Simulates.run_or_stops {step : σ → ι → Except φ (ω × σ)} {spec : τ → ι → ω → τ → Prop}
    {permit wide : κ → ι → Option κ} {shape : τ → κ} {related : σ → τ → Prop} {failure : φ}
    (simulates : Simulates step spec permit shape related)
    (wider : ∀ {form input next}, permit form input = some next → wide form input = some next)
    (stops
      : ∀ {state abstract input next},
          related state abstract
          → permit (shape abstract) input = none
          → wide (shape abstract) input = some next
          → step state input = .error failure)
    {state : σ} {abstract : τ} {inputs : List ι} (start : related state abstract)
    (permitted : Permits wide (shape abstract) inputs)
    : (Permits permit (shape abstract) inputs
        ∧ ∃ outputs final abstractFinal,
            Machine.run step state inputs = .ok (outputs, final)
            ∧ Explains spec abstract inputs outputs abstractFinal
            ∧ related final abstractFinal)
      ∨ ¬Permits permit (shape abstract) inputs
        ∧ Machine.run step state inputs = .error failure := by
  induction inputs generalizing state abstract with
  | nil => exact Or.inl ⟨trivial, [], state, abstract, rfl, .nil abstract, start⟩
  | cons input rest ih =>
      obtain ⟨next, allowed, later⟩ := permitted
      cases admitted : permit (shape abstract) input with
      | none =>
          refine Or.inr ⟨fun ⟨_, found, _⟩ => ?_, ?_⟩
          · simp [admitted] at found
          · simp only [Machine.run, stops start admitted allowed]
      | some other =>
          obtain rfl := Option.some.inj ((wider admitted).symm.trans allowed)
          obtain ⟨output, after, abstractAfter, stepped, explained, related', shaped⟩ :=
            simulates start admitted
          subst shaped
          rcases ih related' later with
            ⟨rest_admitted, outputs, final, abstractFinal, ran, explains, finish⟩
            | ⟨refused, stopped⟩
          · refine Or.inl ⟨⟨_, admitted, rest_admitted⟩, output :: outputs, final, abstractFinal,
              ?_, .cons explained explains, finish⟩
            simp only [Machine.run, stepped, ran]
          · refine Or.inr ⟨fun ⟨_, found, onward⟩ => ?_, ?_⟩
            · obtain rfl := Option.some.inj (admitted.symm.trans found)
              exact refused onward
            · simp only [Machine.run, stepped, stopped]

/-- Where every answer hands on what was in stock before what came in, all answers together do
so; by induction over the inputs.
-/
theorem Explains.conserved {α : Type*} {spec : τ → ι → ω → τ → Prop} (stock : τ → List α)
    (inflow : ι → ω → List α) (outflow : ω → List α)
    (conserves
      : ∀ {state input output next},
          spec state input output next
          → stock state ++ inflow input output = outflow output ++ stock next)
    {state final : τ} {inputs : List ι} {outputs : List ω}
    (explained : Explains spec state inputs outputs final)
    : stock state ++ (inputs.zipWith inflow outputs).flatten
      = outputs.flatMap outflow ++ stock final := by
  induction explained with
  | nil => simp
  | cons first rest ih =>
      have here := conserves first
      rw [List.zipWith_cons_cons, List.flatten_cons, List.flatMap_cons, ← List.append_assoc, here,
        List.append_assoc, ih, List.append_assoc]

/-- Where inputs that are alike have one answer and successor, programs that are alike have one
sequence of answers and one last state; by induction over the inputs.
-/
theorem Explains.alike {spec : τ → ι → ω → τ → Prop} {like : ι → ι → Prop}
    {state final last : τ} {inputs others : List ι} {outputs replies : List ω}
    (explained : Explains spec state inputs outputs final)
    (answered : Explains spec state others replies last) (same : List.Forall₂ like inputs others)
    (single
      : ∀ {state first second output other next after},
          like first second
          → spec state first output next
          → spec state second other after
          → output = other ∧ next = after)
    : outputs = replies ∧ final = last := by
  induction explained generalizing others replies with
  | nil =>
      cases same
      cases answered
      exact ⟨rfl, rfl⟩
  | cons first rest ih =>
      cases same with
      | cons alike later =>
          cases answered with
          | cons second continued =>
              obtain ⟨rfl, rfl⟩ := single alike first second
              obtain ⟨rfl, rfl⟩ := ih continued later
              exact ⟨rfl, rfl⟩

/-- A machine that answers as another in the states of an invariant, which these answers
keep, has the other's runs; by induction over the inputs.
-/
theorem run_agrees {ψ : Type*} {step : σ → ι → Except φ (ω × σ)}
    {other : σ → ι → Except ψ (ω × σ)} (invariant : σ → Prop) (valid : ι → Prop)
    (agrees
      : ∀ {state input output next},
          invariant state → valid input → step state input = .ok (output, next)
          → other state input = .ok (output, next) ∧ invariant next)
    {state final : σ} {inputs : List ι} {outputs : List ω} (start : invariant state)
    (all : ∀ input ∈ inputs, valid input) (ran : run step state inputs = .ok (outputs, final))
    : run other state inputs = .ok (outputs, final) ∧ invariant final := by
  induction inputs generalizing state outputs with
  | nil =>
      obtain ⟨rfl, rfl⟩ := Prod.mk.inj (Except.ok.inj ran)
      exact ⟨rfl, start⟩
  | cons input rest ih =>
      simp only [run] at ran ⊢
      split at ran
      case h_1 => contradiction
      case h_2 output next stepped =>
        split at ran
        case h_1 => contradiction
        case h_2 others last later =>
          obtain ⟨rfl, rfl⟩ := Prod.mk.inj (Except.ok.inj ran)
          obtain ⟨answered, kept⟩ := agrees start (all input List.mem_cons_self) stepped
          have others_valid : ∀ other ∈ rest, valid other :=
            fun other member => all other (List.mem_cons_of_mem input member)
          obtain ⟨continued, finish⟩ := ih kept others_valid later
          exact ⟨by simp only [answered, continued], finish⟩

/-- What every answered input keeps, every run keeps. -/
theorem run_invariant {step : σ → ι → Except φ (ω × σ)} (invariant : σ → Prop)
    (kept
      : ∀ {state input output next},
          invariant state → step state input = .ok (output, next) → invariant next)
    {state final : σ} {inputs : List ι} {outputs : List ω} (start : invariant state)
    (ran : run step state inputs = .ok (outputs, final))
    : invariant final := by
  have agrees
      : ∀ {state input output next},
          invariant state → True → step state input = .ok (output, next)
          → step state input = .ok (output, next) ∧ invariant next :=
    fun held _ stepped => ⟨stepped, kept held stepped⟩
  exact (run_agrees invariant (fun _ => True) agrees start (fun _ _ => trivial) ran).2

/-- A machine that answers each input by itself, or fails on it, in the states of an invariant
has run like a map over the inputs, by induction over them.
-/
theorem run_mapM {step : σ → ι → Except φ (ω × σ)} {answer : ι → Except φ ω}
    (invariant : σ → Prop)
    (answers
      : ∀ {state} input,
          invariant state
          → ∃ next, invariant next ∧ step state input = (answer input).map (·, next))
    {state : σ} (start : invariant state) (inputs : List ι)
    : (run step state inputs).map Prod.fst = inputs.mapM answer := by
  induction inputs generalizing state with
  | nil => rfl
  | cons input rest ih =>
      obtain ⟨next, kept, stepped⟩ := answers input start
      have later := ih kept
      rw [List.mapM_cons, ← later]
      simp only [run, stepped]
      cases answer input with
      | error failure => rfl
      | ok output =>
          change (match run step next rest with
            | .error failure => Except.error failure
            | .ok (outputs, final) => Except.ok (output :: outputs, final)).map Prod.fst = _
          cases run step next rest <;> rfl

/-- A run whose steps answer with what they cost: when a budget gains the cost at each step,
it has paid for all of them. What must hold of a state and the inputs still to come is handed
on by every step; by induction over the inputs.
-/
theorem run_paid {step : σ → ι → Except φ (Nat × σ)} (ready : σ → List ι → Prop)
    (budget : σ → Nat)
    (pays
      : ∀ {state input rest},
          ready state (input :: rest)
          → ∃ cost next,
              step state input = .ok (cost, next)
              ∧ ready next rest
              ∧ cost + budget state ≤ budget next)
    {state : σ} {inputs : List ι} (start : ready state inputs)
    : ∃ costs final,
        run step state inputs = .ok (costs, final)
        ∧ ready final []
        ∧ costs.sum + budget state ≤ budget final := by
  induction inputs generalizing state with
  | nil => exact ⟨[], state, rfl, start, by simp⟩
  | cons input rest ih =>
      obtain ⟨cost, next, stepped, later, paid⟩ := pays start
      obtain ⟨costs, final, ran, finish, spent⟩ := ih later
      refine ⟨cost :: costs, final, ?_, finish, ?_⟩
      · simp only [run, stepped, ran]
      · rw [List.sum_cons]
        omega

/-- Inputs that are judged one by one make a permitted program, by induction. -/
theorem permits_of_forall {valid : ι → Prop} [DecidablePred valid] {inputs : List ι}
    (all : ∀ input ∈ inputs, valid input)
    : Permits (fun _ input => if valid input then some () else none) () inputs := by
  induction inputs with
  | nil => trivial
  | cons input rest ih =>
      refine ⟨(), if_pos (all input (by simp)), ih ?_⟩
      intro later member
      exact all later (List.mem_cons_of_mem input member)

-----------------------------------------------------------------------------------------
-- Machines of enabled events
-----------------------------------------------------------------------------------------

/-- Takes the events in order; `none` as soon as one of them is not enabled. -/
def follow (step : σ → ι → Option σ) : σ → List ι → Option σ
  | state, [] => some state
  | state, event :: rest => (step state event).bind (fun next => follow step next rest)

@[simp] theorem follow_nil (step : σ → ι → Option σ) (state : σ)
    : follow step state [] = some state := rfl

/-- A nonempty run takes its first event and continues, by the run's equation. -/
theorem follow_cons_iff {step : σ → ι → Option σ} {state final : σ} {event : ι}
    {rest : List ι}
    : follow step state (event :: rest) = some final
      ↔ ∃ next, step state event = some next ∧ follow step next rest = some final := by
  simp only [follow, Option.bind_eq_some_iff]

/-- A run over an append stops at a middle state, by induction over the first part. -/
theorem follow_append_iff {step : σ → ι → Option σ} {state final : σ}
    {first second : List ι}
    : follow step state (first ++ second) = some final
      ↔ ∃ middle,
          follow step state first = some middle
          ∧ follow step middle second = some final := by
  induction first generalizing state with
  | nil => simp
  | cons event rest ih =>
      simp only [List.cons_append, follow_cons_iff, ih]
      constructor
      · intro held
        rcases held with ⟨next, stepped, middle, ran, ended⟩
        exact ⟨middle, ⟨next, stepped, ran⟩, ended⟩
      · intro held
        rcases held with ⟨middle, ⟨next, stepped, ran⟩, ended⟩
        exact ⟨next, stepped, middle, ran, ended⟩

/-- A run with one more event takes it at the end. -/
theorem follow_concat_iff {step : σ → ι → Option σ} {state final : σ} {events : List ι}
    {event : ι}
    : follow step state (events ++ [event]) = some final
      ↔ ∃ last, follow step state events = some last ∧ step last event = some final := by
  simp [follow_append_iff, follow_cons_iff]

/-- What holds of no events and the first state, and is preserved by one more event, holds of
the events of a run and its last state; by induction over the events.
-/
theorem follow_history {step : σ → ι → Option σ} (related : List ι → σ → Prop)
    (extended
      : ∀ {events event state next},
          related events state → step state event = some next
          → related (events ++ [event]) next)
    {state final : σ} {events : List ι} (start : related [] state)
    (ran : follow step state events = some final)
    : related events final := by
  induction events using List.reverseRecOn generalizing final with
  | nil =>
      obtain rfl := Option.some.inj ran
      exact start
  | append_singleton events event ih =>
      obtain ⟨last, earlier, stepped⟩ := follow_concat_iff.mp ran
      exact extended (ih earlier) stepped

/-- A machine whose steps show through `view` as steps of another shows its runs as runs of
the other, by induction over the events.
-/
theorem follow_map {step : σ → ι → Option σ} {other : τ → ι → Option τ} {view : σ → τ}
    (shown : ∀ state event, other (view state) event = (step state event).map view)
    (state : σ) (events : List ι)
    : follow other (view state) events = (follow step state events).map view := by
  induction events generalizing state with
  | nil => rfl
  | cons event rest ih =>
      simp only [follow, shown]
      cases step state event with
      | none => rfl
      | some next => exact ih next

/-- A view that every step advances by its event alone is after a run what the events make of
it, by induction over them.
-/
theorem follow_foldl {step : σ → ι → Option σ} (view : σ → τ) (advance : τ → ι → τ)
    (advances
      : ∀ {state event next},
          step state event = some next → view next = advance (view state) event)
    {state final : σ} {events : List ι} (ran : follow step state events = some final)
    : view final = events.foldl advance (view state) := by
  induction events generalizing state with
  | nil =>
      obtain rfl := Option.some.inj ran
      rfl
  | cons event rest ih =>
      obtain ⟨next, stepped, later⟩ := follow_cons_iff.mp ran
      rw [ih later, advances stepped, List.foldl_cons]

/-- What every step taken under `allowed` preserves, every run of such steps preserves. -/
theorem follow_allowed {step : σ → ι → Option σ} (allowed : σ → ι → Prop)
    (invariant : σ → Prop)
    (preserved
      : ∀ {state event next},
          invariant state → allowed state event → step state event = some next
          → invariant next)
    {state final : σ} {events : List ι} (start : invariant state)
    (meets
      : ∀ before event after middle,
          events = before ++ event :: after
          → follow step state before = some middle
          → allowed middle event)
    (ran : follow step state events = some final)
    : invariant final := by
  induction events generalizing state with
  | nil =>
      simp only [follow_nil, Option.some.injEq] at ran
      exact ran ▸ start
  | cons event rest ih =>
      obtain ⟨next, stepped, later⟩ := follow_cons_iff.mp ran
      have first := meets [] event rest state rfl rfl
      refine ih (preserved start first stepped) ?_ later
      intro before other after middle split reached
      apply meets (event :: before) other after middle (by rw [split]; rfl)
      exact follow_cons_iff.mpr ⟨next, stepped, reached⟩

/-- What the steps of a run count for, together. -/
def tally (step : σ → ι → Option σ) (count : σ → ι → Nat) : σ → List ι → Nat
  | _, [] => 0
  | state, event :: rest =>
      count state event + ((step state event).map (tally step count · rest)).getD 0

/-- What depends on the events alone is counted in their list, by induction. -/
theorem tally_of_events {step : σ → ι → Option σ} (counts : ι → Bool) {state final : σ}
    {events : List ι} (ran : follow step state events = some final)
    : tally step (fun _ event => (counts event).toNat) state events = events.countP counts := by
  induction events generalizing state with
  | nil => rfl
  | cons event rest ih =>
      obtain ⟨next, stepped, later⟩ := follow_cons_iff.mp ran
      simp only [tally, stepped, Option.map_some, Option.getD_some, ih later, List.countP_cons]
      cases counts event <;> simp [Nat.add_comm]

/-- What every step keeps balanced between gains and losses, every run keeps balanced, by
induction over the events.
-/
theorem follow_balanced {step : σ → ι → Option σ} (stock : σ → Nat) (gain loss : σ → ι → Nat)
    (balanced
      : ∀ {state event next},
          step state event = some next
          → stock next + loss state event = stock state + gain state event)
    {state final : σ} {events : List ι} (ran : follow step state events = some final)
    : stock final + tally step loss state events = stock state + tally step gain state events := by
  induction events generalizing state with
  | nil =>
      obtain rfl := Option.some.inj ran
      rfl
  | cons event rest ih =>
      obtain ⟨next, stepped, later⟩ := follow_cons_iff.mp ran
      have first := balanced stepped
      have others := ih later
      simp only [tally, stepped, Option.map_some, Option.getD_some]
      omega

/-- What every step preserves, every run preserves. -/
theorem follow_invariant {step : σ → ι → Option σ} (invariant : σ → Prop)
    (preserved
      : ∀ {state event next},
          invariant state → step state event = some next → invariant next)
    {state final : σ} {events : List ι} (start : invariant state)
    (ran : follow step state events = some final)
    : invariant final :=
  follow_allowed (fun _ _ => True) invariant
    (fun held _ stepped => preserved held stepped) start (fun _ _ _ _ _ _ => trivial) ran

/-- What holds of a state exactly as long as every step is fine holds after a run exactly
when every step of the run was fine, by induction over the events.
-/
theorem follow_iff {step : σ → ι → Option σ} (holds : σ → Prop) (fine : σ → ι → Prop)
    (advances
      : ∀ {state event next},
          step state event = some next → (holds next ↔ holds state ∧ fine state event))
    {state final : σ} {events : List ι} (start : holds state)
    (ran : follow step state events = some final)
    : holds final
      ↔ ∀ before event after middle,
          events = before ++ event :: after
          → follow step state before = some middle
          → fine middle event := by
  constructor
  · intro holds' before event after middle split reached
    rw [split] at ran
    obtain ⟨_, there, later⟩ := follow_append_iff.mp ran
    obtain rfl := Option.some.inj (there.symm.trans reached)
    obtain ⟨next, stepped, rest⟩ := follow_cons_iff.mp later
    refine ((advances stepped).mp ?_).2
    by_contra broken
    refine follow_invariant (fun s => ¬ holds s) ?_ broken rest holds'
    intro state event next broken stepped held
    exact broken ((advances stepped).mp held).1
  · intro fine'
    exact follow_allowed fine holds
      (fun held fine stepped => (advances stepped).mpr ⟨held, fine⟩) start fine' ran

/-- Every step of the run is fine. -/
def Throughout (step : σ → ι → Option σ) (fine : σ → ι → Prop) : σ → List ι → Prop
  | _, [] => True
  | state, event :: rest =>
      fine state event
      ∧ match step state event with
        | none => True
        | some next => Throughout step fine next rest

instance Throughout.decidable (step : σ → ι → Option σ) (fine : σ → ι → Prop)
    [∀ state event, Decidable (fine state event)] (state : σ) (events : List ι)
    : Decidable (Throughout step fine state events) :=
  match events with
  | [] => isTrue trivial
  | event :: rest =>
      match stepped : step state event with
      | none =>
          decidable_of_iff (fine state event) (by simp [Throughout, stepped])
      | some next =>
          have := Throughout.decidable step fine next rest
          decidable_of_iff (fine state event ∧ Throughout step fine next rest)
            (by simp [Throughout, stepped])

/-- A run that takes its first event is fine throughout if that event and the rest are. -/
theorem throughout_cons_iff {step : σ → ι → Option σ} {fine : σ → ι → Prop} {state next : σ}
    {event : ι} (stepped : step state event = some next) (rest : List ι)
    : Throughout step fine state (event :: rest)
      ↔ fine state event ∧ Throughout step fine next rest := by
  simp only [Throughout, stepped]

/-- A run over an append is fine throughout if both parts are, by induction over the first. -/
theorem throughout_append_iff {step : σ → ι → Option σ} {fine : σ → ι → Prop}
    {state middle : σ} {first : List ι} (ran : follow step state first = some middle)
    (second : List ι)
    : Throughout step fine state (first ++ second)
      ↔ Throughout step fine state first ∧ Throughout step fine middle second := by
  induction first generalizing state with
  | nil =>
      obtain rfl := Option.some.inj ran
      simp [Throughout]
  | cons event rest ih =>
      obtain ⟨next, stepped, later⟩ := follow_cons_iff.mp ran
      rw [List.cons_append, throughout_cons_iff stepped, throughout_cons_iff stepped, ih later,
        and_assoc]

/-- Events that are fine in every state are fine throughout, by induction over them. -/
theorem throughout_of_forall {step : σ → ι → Option σ} {fine : σ → ι → Prop} {state : σ}
    {events : List ι} (all : ∀ event ∈ events, ∀ state, fine state event)
    : Throughout step fine state events := by
  induction events generalizing state with
  | nil => trivial
  | cons event rest ih =>
      refine ⟨all event List.mem_cons_self state, ?_⟩
      split
      · trivial
      · exact ih (fun other member => all other (List.mem_cons_of_mem event member))

/-- Every state of a run holds exactly if every step of the run is fine, where a step decides
by being fine whether its result holds, under an invariant that lasts as long as the states
hold; by induction over the events.
-/
theorem follow_always_iff {step : σ → ι → Option σ} (invariant holds : σ → Prop)
    (fine : σ → ι → Prop)
    (advances
      : ∀ {state event next},
          invariant state
          → step state event = some next
          → (holds next ↔ fine state event) ∧ (holds next → invariant next))
    {state final : σ} {events : List ι} (kept : invariant state) (start : holds state)
    (ran : follow step state events = some final)
    : (∀ before after reached,
        events = before ++ after
        → follow step state before = some reached
        → holds reached)
      ↔ Throughout step fine state events := by
  induction events generalizing state with
  | nil =>
      refine iff_of_true ?_ trivial
      intro before after reached split there
      obtain ⟨rfl, _⟩ := List.append_eq_nil_iff.mp split.symm
      exact Option.some.inj there ▸ start
  | cons event rest ih =>
      obtain ⟨next, stepped, later⟩ := follow_cons_iff.mp ran
      obtain ⟨decides, lasts⟩ := advances kept stepped
      rw [throughout_cons_iff stepped]
      constructor
      · intro always
        have good : holds next :=
          always [event] rest next rfl (follow_cons_iff.mpr ⟨next, stepped, rfl⟩)
        refine ⟨decides.mp good, (ih (lasts good) good later).mp ?_⟩
        intro before after reached split there
        apply always (event :: before) after reached (by rw [split]; rfl)
        exact follow_cons_iff.mpr ⟨next, stepped, there⟩
      · intro held before after reached split there
        have good := decides.mpr held.1
        cases before with
        | nil => exact Option.some.inj there ▸ start
        | cons first others =>
            obtain ⟨rfl, tail⟩ := List.cons.inj split
            obtain ⟨middle, stepped', there'⟩ := follow_cons_iff.mp there
            obtain rfl := Option.some.inj (stepped.symm.trans stepped')
            exact (ih (lasts good) good later).mpr held.2 others after reached tail there'

section

variable {step : σ → ι → Option σ} (invariant done : σ → Prop) (allowed : ι → Prop)
  (measure : σ → Nat)

/-- Steps that a measure pays for until something is done, one of which can always be taken:
a run of them has got it done, or it is short and can go on; by induction over the events.
-/
theorem follow_finishes
    (pays
      : ∀ {state event next},
          invariant state
          → ¬ done state
          → allowed event
          → step state event = some next
          → invariant next ∧ measure next < measure state)
    (progress
      : ∀ {state},
          invariant state
          → ¬ done state
          → ∃ event next, allowed event ∧ step state event = some next)
    {state final : σ} {events : List ι} (start : invariant state)
    (all : ∀ event ∈ events, allowed event) (ran : follow step state events = some final)
    : (∃ before after reached,
        events = before ++ after ∧ follow step state before = some reached ∧ done reached)
      ∨ events.length + measure final ≤ measure state
        ∧ ∃ event next, allowed event ∧ step final event = some next := by
  induction events generalizing state with
  | nil =>
      obtain rfl := Option.some.inj ran
      by_cases finished : done state
      · exact Or.inl ⟨[], [], state, rfl, rfl, finished⟩
      · exact Or.inr ⟨by simp, progress start finished⟩
  | cons event rest ih =>
      by_cases finished : done state
      · exact Or.inl ⟨[], event :: rest, state, rfl, rfl, finished⟩
      obtain ⟨next, stepped, later⟩ := follow_cons_iff.mp ran
      obtain ⟨kept, paid⟩ := pays start finished (all event List.mem_cons_self) stepped
      have others : ∀ other ∈ rest, allowed other :=
        fun other member => all other (List.mem_cons_of_mem event member)
      rcases ih kept others later with ⟨before, after, reached, split, there, found⟩ | short
      · refine Or.inl ⟨event :: before, after, reached, by rw [split]; rfl, ?_, found⟩
        exact follow_cons_iff.mpr ⟨next, stepped, there⟩
      · refine Or.inr ⟨?_, short.2⟩
        have left := short.1
        rw [List.length_cons]
        omega

/-- Such steps can be taken until it is done, and the measure bounds how many, by induction
over it.
-/
theorem exists_follow_done
    (pays
      : ∀ {state event next},
          invariant state
          → ¬ done state
          → allowed event
          → step state event = some next
          → invariant next ∧ measure next < measure state)
    (progress
      : ∀ {state},
          invariant state
          → ¬ done state
          → ∃ event next, allowed event ∧ step state event = some next)
    {state : σ} (start : invariant state)
    : ∃ events final,
        (∀ event ∈ events, allowed event)
        ∧ follow step state events = some final
        ∧ invariant final
        ∧ done final
        ∧ events.length + measure final ≤ measure state := by
  by_cases finished : done state
  case pos => exact ⟨[], state, by simp, rfl, start, finished, by simp⟩
  obtain ⟨event, next, may, stepped⟩ := progress start finished
  obtain ⟨kept, paid⟩ := pays start finished may stepped
  obtain ⟨events, final, all, ran, well, last, short⟩ := exists_follow_done pays progress kept
  refine ⟨event :: events, final, List.forall_mem_cons.mpr ⟨may, all⟩,
    follow_cons_iff.mpr ⟨next, stepped, ran⟩, well, last, ?_⟩
  rw [List.length_cons]
  omega
termination_by measure state

end

/-- The machine that takes every event. -/
def total (change : σ → ι → σ) (state : σ) (event : ι) : Option σ := some (change state event)

theorem follow_total (change : σ → ι → σ) (state : σ) (events : List ι)
    : follow (total change) state events = some (events.foldl change state) := by
  induction events generalizing state with
  | nil => rfl
  | cons event rest ih => exact ih (change state event)

/-- `follow_always_iff` for a machine that takes every event. -/
theorem foldl_always_iff {change : σ → ι → σ} (holds : σ → Prop) (fine : σ → ι → Prop)
    (advances : ∀ {state event}, holds state → (holds (change state event) ↔ fine state event))
    {state : σ} (start : holds state) (events : List ι)
    : (∀ before after, events = before ++ after → holds (before.foldl change state))
      ↔ Throughout (total change) fine state events := by
  have decides
      : ∀ {state event next},
          holds state → total change state event = some next →
            (holds next ↔ fine state event) ∧ (holds next → holds next) := by
    intro state event next held taken
    obtain rfl := Option.some.inj taken
    exact ⟨advances held, id⟩
  rw [← follow_always_iff holds holds fine decides start start (follow_total change state events)]
  constructor
  · intro always before after reached split there
    rw [follow_total, Option.some.injEq] at there
    exact there ▸ always before after split
  · intro always before after split
    exact always before after _ split (follow_total change state before)

/-- Where the state does not matter, every step is fine if every event is, by induction. -/
theorem throughout_total_iff {change : σ → ι → σ} {fine : ι → Prop} {state : σ}
    {events : List ι}
    : Throughout (total change) (fun _ event => fine event) state events
      ↔ ∀ event ∈ events, fine event := by
  induction events generalizing state with
  | nil => simp [Throughout]
  | cons event rest ih =>
      have taken : total change state event = some (change state event) := rfl
      rw [throughout_cons_iff taken, ih, List.forall_mem_cons]

/-- One more event has to be fine where the events before it lead, by induction over them. -/
theorem throughout_total_concat_iff {change : σ → ι → σ} {fine : σ → ι → Prop} {state : σ}
    {events : List ι} {event : ι}
    : Throughout (total change) fine state (events ++ [event])
      ↔ Throughout (total change) fine state events
        ∧ fine (events.foldl change state) event := by
  induction events generalizing state with
  | nil => simp [Throughout, total]
  | cons first rest ih =>
      have taken : total change state first = some (change state first) := rfl
      rw [List.cons_append, throughout_cons_iff taken, throughout_cons_iff taken, ih, and_assoc,
        List.foldl_cons]

-----------------------------------------------------------------------------------------
-- Orders of the events of a run
-----------------------------------------------------------------------------------------

/-- No event of the second kind comes after one of the first kind. -/
def NoneAfter (first second : ι → Bool) (events : List ι) : Prop :=
  events.Pairwise (fun earlier later => ¬ (first earlier ∧ second later))

instance (first second : ι → Bool) (events : List ι)
    : Decidable (NoneAfter first second events) :=
  inferInstanceAs (Decidable (List.Pairwise _ events))

/-- One more event keeps the order unless it is of the second kind and comes too late. -/
theorem noneAfter_concat {first second : ι → Bool} {events : List ι} {event : ι}
    : NoneAfter first second (events ++ [event])
      ↔ NoneAfter first second events
        ∧ (second event = true → ∀ earlier ∈ events, first earlier = false) := by
  simp only [NoneAfter, List.pairwise_append, List.pairwise_singleton, true_and,
    List.mem_singleton, forall_eq]
  refine and_congr_right (fun _ => ?_)
  constructor
  · intro apart late earlier member
    exact Bool.eq_false_iff.mpr (fun early => apart earlier member ⟨early, late⟩)
  · rintro apart earlier member ⟨early, late⟩
    exact Bool.eq_false_iff.mp (apart late earlier member) early

/-- A first part of the events keeps the order. -/
theorem NoneAfter.of_append {first second : ι → Bool} {before after : List ι}
    (h : NoneAfter first second (before ++ after))
    : NoneAfter first second before :=
  (List.pairwise_append.mp h).1

/-- A broken order shows at an event of the second kind with one of the first before it. -/
theorem exists_of_not_noneAfter {first second : ι → Bool} {events : List ι}
    (broken : ¬ NoneAfter first second events)
    : ∃ before event after,
        events = before ++ event :: after
        ∧ second event = true
        ∧ ∃ earlier ∈ before, first earlier = true := by
  induction events using List.reverseRecOn with
  | nil => exact absurd List.Pairwise.nil broken
  | append_singleton events event ih =>
      by_cases earlier : NoneAfter first second events
      · refine ⟨events, event, [], rfl, ?_⟩
        simpa [noneAfter_concat, earlier] using broken
      · obtain ⟨before, found, after, split, kinds⟩ := ih earlier
        refine ⟨before, found, after ++ [event], ?_, kinds⟩
        rw [split, List.append_assoc, List.cons_append]

/-- Every event of the first kind is followed by one of the second kind. -/
def Followed (first second : ι → Bool) : List ι → Prop
  | [] => True
  | event :: rest =>
      (first event = true → ∃ later ∈ rest, second later = true) ∧ Followed first second rest

instance Followed.decidable (first second : ι → Bool) (events : List ι)
    : Decidable (Followed first second events) :=
  match events with
  | [] => isTrue trivial
  | _ :: rest =>
      have := Followed.decidable first second rest
      inferInstanceAs (Decidable ((_ → _) ∧ Followed first second rest))

/-- One more event of the second kind follows all events before it; one of the first kind is
not followed; any other leaves things as they are; by induction over the events.
-/
theorem followed_concat {first second : ι → Bool} {events : List ι} {event : ι}
    : Followed first second (events ++ [event])
      ↔ first event = false ∧ (second event = true ∨ Followed first second events) := by
  induction events with
  | nil => simp [Followed]
  | cons earlier rest ih =>
      simp only [List.cons_append, Followed, ih, List.mem_append, List.mem_singleton, or_and_right,
        exists_or, exists_eq_left]
      cases second event <;> simp [and_left_comm]

end Machine
