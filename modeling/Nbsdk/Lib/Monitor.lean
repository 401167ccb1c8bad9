import Nbsdk.Lib.Machine
import Mathlib.Logic.Function.Basic

/-! Objects whose calls run under a mutex, in any number of threads.
A call is a computation that accesses the shared state step by step, and the threads' steps
interleave in any order. If each call alone does what a specification says, then callers see
no more than an object that answers each call in one step, somewhere between the call and its
return.
-/

/-- A computation that ends, or accesses the state once and goes on with what it found. -/
inductive Steps (σ φ α : Type) : Type 1
  | done (result : α)
  | access {β : Type} (action : σ → Except φ (β × σ)) (next : β → Steps σ φ α)

namespace Steps

variable {σ φ α β : Type}

protected def bind : Steps σ φ α → (α → Steps σ φ β) → Steps σ φ β
  | done result, next => next result
  | access action later, next => access action (fun found => (later found).bind next)

instance : Monad (Steps σ φ) where
  pure := done
  bind := Steps.bind

/-- One access. -/
def once (action : σ → Except φ (α × σ)) : Steps σ φ α := access action done

/-- Reads from the state. -/
def load (read : σ → α) : Steps σ φ α := once (fun state => .ok (read state, state))

/-- Writes to the state. -/
def store (write : σ → σ) : Steps σ φ Unit := once (fun state => .ok ((), write state))

/-- The computation without any other between its steps. -/
def alone : Steps σ φ α → σ → Except φ (α × σ)
  | done result, state => .ok (result, state)
  | access action next, state =>
      match action state with
      | .error failure => .error failure
      | .ok (found, after) => (next found).alone after

@[simp] theorem alone_pure (result : α) (state : σ)
    : (pure result : Steps σ φ α).alone state = .ok (result, state) := rfl

/-- One computation behind another goes on where that one ends, by induction over its steps. -/
theorem alone_bind {first : Steps σ φ α} {next : α → Steps σ φ β} {state after : σ} {result : α}
    (ran : first.alone state = .ok (result, after))
    : (first >>= next).alone state = (next result).alone after := by
  induction first generalizing state with
  | done found =>
      obtain ⟨rfl, rfl⟩ := Prod.mk.inj (Except.ok.inj ran)
      rfl
  | access action later ih =>
      change (Steps.bind (access action later) next).alone state = _
      simp only [alone] at ran
      simp only [Steps.bind, alone]
      split at ran
      case h_1 => contradiction
      case h_2 found middle stepped => exact ih found ran

@[simp] theorem alone_load_bind (read : σ → α) (next : α → Steps σ φ β) (state : σ)
    : (load read >>= next).alone state = (next (read state)).alone state := rfl

end Steps

/-- Where a thread is in a call. -/
inductive Activity (σ φ κ ρ : Type) : Type 1
  | idle
  | called (call : κ)
  | inside (rest : Steps σ φ ρ)
  | left (reply : ρ)
  | failed (failure : φ)

instance {σ φ κ ρ : Type} (activity : Activity σ φ κ ρ) : Decidable (activity = .idle) :=
  match activity with
  | .idle => isTrue rfl
  | .called _ | .inside _ | .left _ | .failed _ => isFalse nofun

/-- The thread is in the part of its call that the mutex protects. -/
def Activity.isInside {σ φ κ ρ : Type} : Activity σ φ κ ρ → Bool
  | .inside _ => true
  | _ => false

/-- An object with its mutex and the threads that call it. -/
structure Monitor (σ φ κ ρ : Type) where
  shared : σ
  owner : Option Nat
  threads : Nat → Activity σ φ κ ρ

/-- A thread calls, takes the mutex, accesses the state, gives the mutex back and returns. -/
inductive MonitorEvent (κ ρ : Type)
  | invoke (thread : Nat) (call : κ)
  | lock (thread : Nat)
  | access (thread : Nat)
  | unlock (thread : Nat)
  | answer (thread : Nat) (reply : ρ)
  deriving DecidableEq, Repr

namespace MonitorEvent

variable {κ ρ : Type}

/-- The thread whose event it is. -/
def thread : MonitorEvent κ ρ → Nat
  | .invoke thread _ | .lock thread | .access thread | .unlock thread | .answer thread _ => thread

/-- The event is not a call. -/
def goesOn : MonitorEvent κ ρ → Bool
  | .invoke _ _ => false
  | .lock _ | .access _ | .unlock _ | .answer _ _ => true

end MonitorEvent

namespace Monitor

variable {σ τ φ κ ρ : Type}

/-- The object before any call. -/
def create (shared : σ) : Monitor σ φ κ ρ := ⟨shared, none, fun _ => .idle⟩

/-- The thread goes on to another place. -/
def go (m : Monitor σ φ κ ρ) (thread : Nat) (activity : Activity σ φ κ ρ) : Monitor σ φ κ ρ :=
  { m with threads := Function.update m.threads thread activity }

/-- One step of a thread, where each call runs its body under the mutex. -/
def step [DecidableEq ρ] (body : κ → Steps σ φ ρ) (m : Monitor σ φ κ ρ)
    : MonitorEvent κ ρ → Option (Monitor σ φ κ ρ)
  | .invoke thread call =>
      match m.threads thread with
      | .idle => some (m.go thread (.called call))
      | _ => none
  | .lock thread =>
      match m.threads thread, m.owner with
      | .called call, none => some { m.go thread (.inside (body call)) with owner := some thread }
      | _, _ => none
  | .access thread =>
      match m.threads thread with
      | .inside (.access action next) =>
          match action m.shared with
          | .error failure => some (m.go thread (.failed failure))
          | .ok (found, shared) => some { m.go thread (.inside (next found)) with shared }
      | _ => none
  | .unlock thread =>
      match m.threads thread with
      | .inside (.done reply) => some { m.go thread (.left reply) with owner := none }
      | _ => none
  | .answer thread reply =>
      match m.threads thread with
      | .left found => if found = reply then some (m.go thread .idle) else none
      | _ => none

/-- The state after these events, if each was enabled in its turn. -/
def run [DecidableEq ρ] (body : κ → Steps σ φ ρ) (m : Monitor σ φ κ ρ)
    (events : List (MonitorEvent κ ρ))
    : Option (Monitor σ φ κ ρ) :=
  Machine.follow (step body) m events

/-- What a step has found and what it has done, for each event. -/
theorem step_cases [DecidableEq ρ] {body : κ → Steps σ φ ρ} {m next : Monitor σ φ κ ρ}
    {event : MonitorEvent κ ρ} (stepped : step body m event = some next)
    : match event with
      | .invoke thread call =>
          m.threads thread = .idle ∧ m.go thread (.called call) = next
      | .lock thread =>
          ∃ call,
            m.threads thread = .called call
            ∧ m.owner = none
            ∧ { m.go thread (.inside (body call)) with owner := some thread } = next
      | .access thread =>
          ∃ (β : Type) (action : σ → Except φ (β × σ)) (rest : β → Steps σ φ ρ),
            m.threads thread = .inside (.access action rest)
            ∧ ((∃ failure, action m.shared = .error failure
                ∧ m.go thread (.failed failure) = next)
              ∨ ∃ found shared, action m.shared = .ok (found, shared)
                ∧ { m.go thread (.inside (rest found)) with shared } = next)
      | .unlock thread =>
          ∃ reply,
            m.threads thread = .inside (.done reply)
            ∧ { m.go thread (.left reply) with owner := none } = next
      | .answer thread reply =>
          m.threads thread = .left reply ∧ m.go thread .idle = next := by
  cases event with
  | invoke thread call =>
      simp only [step] at stepped
      split at stepped
      case h_1 idle => exact ⟨idle, Option.some.inj stepped⟩
      case h_2 => contradiction
  | lock thread =>
      simp only [step] at stepped
      split at stepped
      case h_1 call waits free => exact ⟨call, waits, free, Option.some.inj stepped⟩
      case h_2 => contradiction
  | access thread =>
      simp only [step] at stepped
      split at stepped
      case h_2 => contradiction
      case h_1 β action rest inside =>
        refine ⟨β, action, rest, inside, ?_⟩
        split at stepped
        case h_1 failure failed => exact Or.inl ⟨failure, failed, Option.some.inj stepped⟩
        case h_2 found shared went => exact Or.inr ⟨found, shared, went, Option.some.inj stepped⟩
  | unlock thread =>
      simp only [step] at stepped
      split at stepped
      case h_1 reply ended => exact ⟨reply, ended, Option.some.inj stepped⟩
      case h_2 => contradiction
  | answer thread reply =>
      simp only [step] at stepped
      split at stepped
      case h_2 => contradiction
      case h_1 found left =>
        rw [Option.ite_none_right_eq_some] at stepped
        obtain ⟨rfl, made⟩ := stepped
        exact ⟨left, Option.some.inj made⟩

-----------------------------------------------------------------------------------------
-- Objects that answer in one step
-----------------------------------------------------------------------------------------

/-- What callers see of a monitor. -/
inductive Seen (κ ρ : Type)
  | call (thread : Nat) (call : κ)
  | answer (thread : Nat) (reply : ρ)
  deriving DecidableEq, Repr

def seen? : MonitorEvent κ ρ → Option (Seen κ ρ)
  | .invoke thread call => some (.call thread call)
  | .answer thread reply => some (.answer thread reply)
  | .lock _ | .access _ | .unlock _ => none

/-- Where a thread is in a call of an object that answers in one step. -/
inductive Stage (κ ρ : Type)
  | idle
  | called (call : κ)
  | answered (call : κ) (reply : ρ)
  deriving DecidableEq, Repr

/-- A thread's call with its answer. -/
structure Exchange (κ ρ : Type) where
  thread : Nat
  call : κ
  reply : ρ
  deriving DecidableEq, Repr

/-- An object of this specification can show these calls and returns: each call is answered in
one step between its call and its return, and the answers come in this order.
-/
inductive Answers (spec : τ → κ → ρ → τ → Prop)
    : τ → (Nat → Stage κ ρ) → List (Seen κ ρ) → List (Exchange κ ρ) → τ → (Nat → Stage κ ρ)
      → Prop
  | nil (state stages) : Answers spec state stages [] [] state stages
  | call {state stages thread call seen order final last}
    (free : stages thread = .idle)
    (rest : Answers spec state (Function.update stages thread (.called call)) seen order final last)
    : Answers spec state stages (.call thread call :: seen) order final last
  | effect {state stages thread call reply next seen order final last}
    (waits : stages thread = .called call) (answered : spec state call reply next)
    (rest
      : Answers spec next (Function.update stages thread (.answered call reply)) seen order final
          last)
    : Answers spec state stages seen (⟨thread, call, reply⟩ :: order) final last
  | answer {state stages thread call reply seen order final last}
    (taken : stages thread = .answered call reply)
    (rest : Answers spec state (Function.update stages thread .idle) seen order final last)
    : Answers spec state stages (.answer thread reply :: seen) order final last

/-- The answers are those of a caller that is alone, by induction. -/
theorem Answers.explains {spec : τ → κ → ρ → τ → Prop} {state final : τ}
    {stages last : Nat → Stage κ ρ} {seen : List (Seen κ ρ)} {order : List (Exchange κ ρ)}
    (answers : Answers spec state stages seen order final last)
    : Machine.Explains spec state (order.map Exchange.call) (order.map Exchange.reply) final := by
  induction answers with
  | nil => exact .nil _
  | call _ _ ih | answer _ _ ih => exact ih
  | effect _ answered _ ih => exact .cons answered ih

/-- The call that the thread waits in. -/
def Stage.call? : Stage κ ρ → Option κ
  | .idle => none
  | .called call | .answered call _ => some call

/-- The exchange of a call that is answered and has yet to return. -/
def Stage.taken (thread : Nat) : Stage κ ρ → List (Exchange κ ρ)
  | .idle | .called _ => []
  | .answered call reply => [⟨thread, call, reply⟩]

/-- The calls of a thread that returned, with their replies, behind one that it waits in. -/
def dialogue (thread : Nat) : Option κ → List (Seen κ ρ) → List (Exchange κ ρ)
  | _, [] => []
  | pending, .call other call :: rest =>
      dialogue thread (if other = thread then some call else pending) rest
  | pending, .answer other reply :: rest =>
      if other = thread then
        (pending.map (⟨thread, ·, reply⟩)).toList ++ dialogue thread none rest
      else dialogue thread pending rest

/-- In the order of the answers each thread finds its own calls with the replies that it got,
and behind them at most one that has yet to return; by induction.
-/
theorem Answers.dialogue {spec : τ → κ → ρ → τ → Prop} {state final : τ}
    {stages last : Nat → Stage κ ρ} {seen : List (Seen κ ρ)} {order : List (Exchange κ ρ)}
    (answers : Answers spec state stages seen order final last) (thread : Nat)
    : (stages thread).taken thread ++ order.filter (·.thread = thread)
      = Monitor.dialogue thread (stages thread).call? seen ++ (last thread).taken thread := by
  induction answers with
  | nil => simp [Monitor.dialogue]
  | @call state stages other call seen order final last free rest ih =>
      rw [Monitor.dialogue]
      by_cases same : other = thread
      case pos =>
        subst same
        simpa [free, Stage.taken, Stage.call?] using ih
      case neg => simpa [same, Function.update_of_ne (Ne.symm same)] using ih
  | @effect state stages other call reply next seen order final last waits answered rest ih =>
      by_cases same : other = thread
      case pos =>
        subst same
        simpa [waits, Stage.taken, Stage.call?] using ih
      case neg => simpa [same, Function.update_of_ne (Ne.symm same)] using ih
  | @answer state stages other call reply seen order final last taken rest ih =>
      rw [Monitor.dialogue]
      by_cases same : other = thread
      case pos =>
        subst same
        simpa [taken, Stage.taken, Stage.call?] using ih
      case neg => simpa [same, Function.update_of_ne (Ne.symm same)] using ih

-----------------------------------------------------------------------------------------
-- Calls under the mutex take effect in one step
-----------------------------------------------------------------------------------------

section

variable (related : σ → τ → Prop) (valid : κ → Prop)

/-- A thread of the monitor is where the thread of the object is. A call is answered when it
takes the mutex: what is left of it will leave the state as the answer has.
-/
def Matches (shared : σ) (abstract : τ) : Activity σ φ κ ρ → Stage κ ρ → Prop
  | .idle, .idle => True
  | .called call, .called other => call = other ∧ valid call
  | .inside rest, .answered _ reply =>
      ∃ after, rest.alone shared = .ok (reply, after) ∧ related after abstract
  | .left reply, .answered _ other => reply = other
  | _, _ => False

/-- The monitor stands for the object: its threads are where the object's are, only the owner
of the mutex is inside, and with the mutex free the states are related.
-/
structure StandsFor (m : Monitor σ φ κ ρ) (abstract : τ) (stages : Nat → Stage κ ρ) : Prop where
  threads : ∀ thread, Matches related valid m.shared abstract (m.threads thread) (stages thread)
  owner : ∀ thread, (m.threads thread).isInside = true ↔ m.owner = some thread
  free : m.owner = none → related m.shared abstract

variable {related valid}

/-- Outside of the mutex it does not matter what the states are. -/
theorem Matches.of_outside {shared other : σ} {abstract after : τ} {activity : Activity σ φ κ ρ}
    {stage : Stage κ ρ} (h : Matches related valid shared abstract activity stage)
    (outside : activity.isInside = false)
    : Matches related valid other after activity stage := by
  cases activity with
  | inside => contradiction
  | idle | called | left | failed => cases stage <;> exact h

namespace StandsFor

variable {m : Monitor σ φ κ ρ} {abstract : τ} {stages : Nat → Stage κ ρ} {thread : Nat}

theorem create {shared : σ} (start : related shared abstract)
    : StandsFor related valid (create shared : Monitor σ φ κ ρ) abstract (fun _ => .idle) where
  threads _ := trivial
  owner _ := by simp [Monitor.create, Activity.isInside]
  free _ := start

/-- A thread that goes on outside of the mutex leaves the others where they are. -/
theorem go (h : StandsFor related valid m abstract stages) (activity : Activity σ φ κ ρ)
    (stage : Stage κ ρ) (before : (m.threads thread).isInside = false)
    (after : activity.isInside = false)
    (matched : Matches related valid m.shared abstract activity stage)
    : StandsFor related valid (m.go thread activity) abstract
        (Function.update stages thread stage) where
  threads other := by
    by_cases same : other = thread
    case pos => simpa [Monitor.go, same] using matched
    case neg => simpa [Monitor.go, same] using h.threads other
  owner other := by
    by_cases same : other = thread
    case pos =>
      subst same
      simpa [Monitor.go, after, before] using h.owner other
    case neg => simpa [Monitor.go, same] using h.owner other
  free := h.free

/-- A thread that goes on under the mutex, or takes it or gives it back, is alone there. -/
theorem change (h : StandsFor related valid m abstract stages) (activity : Activity σ φ κ ρ)
    (stage : Stage κ ρ) {shared : σ} {next : τ}
    (alone : ∀ other, other ≠ thread → (m.threads other).isInside = false)
    (matched : Matches related valid shared next activity stage)
    (free : activity.isInside = false → related shared next)
    : StandsFor related valid
        { m.go thread activity with
          shared
          owner := if activity.isInside then some thread else none }
        next (Function.update stages thread stage) where
  threads other := by
    by_cases same : other = thread
    case pos => simpa [Monitor.go, same] using matched
    case neg => simpa [Monitor.go, same] using (h.threads other).of_outside (alone other same)
  owner other := by
    by_cases same : other = thread
    case pos =>
      subst same
      simp [Monitor.go]
    case neg => simp [Monitor.go, same, Ne.symm same, alone other same]
  free unowned := free (by simpa using unowned)

/-- No two threads are inside at once. -/
theorem exclusive (h : StandsFor related valid m abstract stages) (first second : Nat)
    (inside : (m.threads first).isInside = true) (also : (m.threads second).isInside = true)
    : first = second :=
  Option.some.inj (((h.owner first).mp inside).symm.trans ((h.owner second).mp also))

/-- With the mutex free no thread is inside, and with an owner no other one is. -/
theorem alone_of_free (h : StandsFor related valid m abstract stages) (free : m.owner = none)
    (other : Nat)
    : (m.threads other).isInside = false :=
  Bool.eq_false_iff.mpr (fun inside => by simp [(h.owner other).mp inside] at free)

theorem alone_of_inside (h : StandsFor related valid m abstract stages)
    (inside : (m.threads thread).isInside = true) (other : Nat) (apart : other ≠ thread)
    : (m.threads other).isInside = false := by
  exact Bool.eq_false_iff.mpr (fun also => apart (h.exclusive other thread also inside))

/-- With all threads out of their calls the mutex is free. -/
theorem free_of_idle (h : StandsFor related valid m abstract stages)
    (idle : ∀ thread, m.threads thread = .idle)
    : m.owner = none := by
  refine Option.eq_none_iff_forall_not_mem.mpr (fun thread owner => ?_)
  have inside := (h.owner thread).mpr owner
  simp [idle thread, Activity.isInside] at inside

/-- A thread that is out of its calls is so in the object. -/
theorem stage_of_idle (h : StandsFor related valid m abstract stages)
    (idle : m.threads thread = .idle)
    : stages thread = .idle := by
  have matched := h.threads thread
  rw [idle] at matched
  cases stage : stages thread with
  | idle => rfl
  | called | answered => simp [stage, Matches] at matched

theorem not_failed (h : StandsFor related valid m abstract stages) (thread : Nat) (failure : φ)
    : m.threads thread ≠ .failed failure := by
  intro failed
  have matched := h.threads thread
  rw [failed] at matched
  cases stages thread <;> exact matched

end StandsFor

/-- Each call alone does what the specification says, from related states to related states. -/
def Meets (body : κ → Steps σ φ ρ) (spec : τ → κ → ρ → τ → Prop) (related : σ → τ → Prop)
    (valid : κ → Prop)
    : Prop :=
  ∀ {shared abstract call},
    related shared abstract
    → valid call
    → ∃ reply after next,
        (body call).alone shared = .ok (reply, after)
        ∧ spec abstract call reply next
        ∧ related after next

/-- The events only call what is valid. -/
def CallsOnly (valid : κ → Prop) (events : List (MonitorEvent κ ρ)) : Prop :=
  ∀ thread call, .invoke thread call ∈ events → valid call

/-- The idle threads stay so. -/
def KeepsIdle (m final : Monitor σ φ κ ρ) : Prop :=
  ∀ thread, m.threads thread = .idle → final.threads thread = .idle

/-- Each thread that is not in a call when another leaves its own still is in none. -/
theorem keepsIdle_of_update {m final : Monitor σ φ κ ρ} {thread : Nat}
    {activity : Activity σ φ κ ρ} (busy : m.threads thread ≠ .idle)
    (threads : final.threads = Function.update m.threads thread activity)
    : KeepsIdle m final := by
  intro other idle
  have apart : other ≠ thread := by
    rintro rfl
    exact busy idle
  rw [threads, Function.update_of_ne apart, idle]

theorem callsOnly_of_goesOn {events : List (MonitorEvent κ ρ)}
    (onward : ∀ event ∈ events, event.goesOn = true)
    : CallsOnly valid events :=
  fun thread call member => absurd (onward (.invoke thread call) member) Bool.false_ne_true

variable [DecidableEq ρ] {body : κ → Steps σ φ ρ} {spec : τ → κ → ρ → τ → Prop}

/-- A step of the monitor is a step of the object, with an answer where it takes the mutex. -/
theorem StandsFor.step {m next : Monitor σ φ κ ρ} {abstract : τ} {stages : Nat → Stage κ ρ}
    {event : MonitorEvent κ ρ} (h : StandsFor related valid m abstract stages)
    (meets : Meets body spec related valid) (called : CallsOnly valid [event])
    (stepped : Monitor.step body m event = some next)
    : ∃ after staged,
        StandsFor related valid next after staged
        ∧ ∀ {seen order final last},
            Answers spec after staged seen order final last
            → ∃ longer,
                Answers spec abstract stages ((seen? event).toList ++ seen) longer final last := by
  have taken := step_cases stepped
  cases event with
  | invoke thread call =>
      obtain ⟨idle, rfl⟩ := taken
      have may : valid call := called thread call List.mem_cons_self
      have outside : (m.threads thread).isInside = false := by simp [idle, Activity.isInside]
      refine ⟨abstract, _, h.go (.called call) (.called call) outside rfl ⟨rfl, may⟩, ?_⟩
      exact fun answers => ⟨_, .call (h.stage_of_idle idle) answers⟩
  | lock thread =>
      obtain ⟨call, waits, free, rfl⟩ := taken
      have matched := h.threads thread
      rw [waits] at matched
      cases stage : stages thread with
      | idle | answered => simp [stage, Matches] at matched
      | called other =>
          rw [stage] at matched
          obtain ⟨rfl, may⟩ := matched
          obtain ⟨reply, after, next, alone, answered, relates⟩ := meets (h.free free) may
          refine ⟨next, _, h.change (.inside (body call)) (.answered call reply)
            (fun other _ => h.alone_of_free free other) ⟨after, alone, relates⟩ (by simp
              [Activity.isInside]), ?_⟩
          exact fun answers => ⟨_, .effect stage answered answers⟩
  | access thread =>
      obtain ⟨β, action, rest, inside, took⟩ := taken
      have matched := h.threads thread
      rw [inside] at matched
      have under : (m.threads thread).isInside = true := by simp [inside, Activity.isInside]
      cases stage : stages thread with
      | idle | called => simp [stage, Matches] at matched
      | answered call reply =>
          rw [stage] at matched
          obtain ⟨after, alone, relates⟩ := matched
          rw [Steps.alone] at alone
          rcases took with ⟨failure, failed, rfl⟩ | ⟨found, shared, went, rfl⟩
          · simp [failed] at alone
          · rw [went] at alone
            have stands :=
              h.change (.inside (rest found)) (.answered call reply) (h.alone_of_inside under)
                ⟨after, alone, relates⟩ (by simp [Activity.isInside])
            rw [← stage, Function.update_eq_self] at stands
            refine ⟨abstract, stages, ?_, fun answers => ⟨_, answers⟩⟩
            simpa [Activity.isInside, Monitor.go, (h.owner thread).mp under] using stands
  | unlock thread =>
      obtain ⟨reply, inside, rfl⟩ := taken
      have matched := h.threads thread
      rw [inside] at matched
      have under : (m.threads thread).isInside = true := by simp [inside, Activity.isInside]
      cases stage : stages thread with
      | idle | called => simp [stage, Matches] at matched
      | answered call other =>
          rw [stage] at matched
          obtain ⟨after, alone, relates⟩ := matched
          obtain ⟨rfl, rfl⟩ := Prod.mk.inj (Except.ok.inj alone)
          have stands :=
            h.change (.left reply) (.answered call reply) (h.alone_of_inside under) rfl
              (fun _ => relates)
          rw [← stage, Function.update_eq_self] at stands
          exact ⟨abstract, stages, stands, fun answers => ⟨_, answers⟩⟩
  | answer thread reply =>
      obtain ⟨left, rfl⟩ := taken
      have matched := h.threads thread
      rw [left] at matched
      cases stage : stages thread with
      | idle | called => simp [stage, Matches] at matched
      | answered call other =>
          rw [stage] at matched
          obtain rfl := matched
          have outside : (m.threads thread).isInside = false := by
            simp [left, Activity.isInside]
          refine ⟨abstract, _, h.go .idle .idle outside rfl trivial, ?_⟩
          exact fun answers => ⟨_, .answer stage answers⟩

/-- Whatever the threads' steps, callers see an object that answers in one step; by induction
over the events.
-/
theorem StandsFor.run {m final : Monitor σ φ κ ρ} {abstract : τ} {stages : Nat → Stage κ ρ}
    {events : List (MonitorEvent κ ρ)} (h : StandsFor related valid m abstract stages)
    (meets : Meets body spec related valid) (called : CallsOnly valid events)
    (ran : Monitor.run body m events = some final)
    : ∃ order after last,
        Answers spec abstract stages (events.filterMap seen?) order after last
        ∧ StandsFor related valid final after last := by
  induction events generalizing m abstract stages with
  | nil =>
      obtain rfl := Option.some.inj ran
      exact ⟨[], abstract, stages, .nil _ _, h⟩
  | cons event rest ih =>
      obtain ⟨next, stepped, later⟩ := Machine.follow_cons_iff.mp ran
      have first : CallsOnly valid [event] := by
        intro thread call member
        obtain rfl := List.mem_singleton.mp member
        exact called thread call List.mem_cons_self
      obtain ⟨middle, staged, stands, lengthens⟩ := h.step meets first stepped
      obtain ⟨order, after, last, answers, ends⟩ :=
        ih stands (fun thread call member => called thread call (List.mem_cons_of_mem _ member))
          later
      obtain ⟨longer, all⟩ := lengthens answers
      refine ⟨longer, after, last, ?_, ends⟩
      cases sight : seen? event <;> simpa [sight] using all

-----------------------------------------------------------------------------------------
-- Every call can return
-----------------------------------------------------------------------------------------

/-- A thread under the mutex can go on until it has given it back, by induction over what is
left of its call.
-/
theorem inside_leaves {m : Monitor σ φ κ ρ} {thread : Nat} {rest : Steps σ φ ρ} {reply : ρ}
    {after : σ} (inside : m.threads thread = .inside rest)
    (alone : rest.alone m.shared = .ok (reply, after))
    : ∃ more final,
        (∀ event ∈ more, event.goesOn = true)
        ∧ Monitor.run body m more = some final
        ∧ final.threads = Function.update m.threads thread (.left reply)
        ∧ final.owner = none := by
  induction rest generalizing m with
  | done result =>
      obtain ⟨rfl, rfl⟩ := Prod.mk.inj (Except.ok.inj alone)
      have stepped
          : Monitor.step body m (.unlock thread)
            = some { m.go thread (.left result) with owner := none } := by
        simp only [Monitor.step, inside]
      exact ⟨[.unlock thread], _, by simp [MonitorEvent.goesOn],
        Machine.follow_cons_iff.mpr ⟨_, stepped, rfl⟩, rfl, rfl⟩
  | access action next ih =>
      rw [Steps.alone] at alone
      split at alone
      case h_1 => contradiction
      case h_2 found shared went =>
        have stepped
            : Monitor.step body m (.access thread)
              = some { m.go thread (.inside (next found)) with shared } := by
          simp only [Monitor.step, inside, went]
        have here
            : Monitor.threads { m.go thread (.inside (next found)) with shared } thread
              = .inside (next found) := by
          simp [Monitor.go]
        obtain ⟨more, final, onward, ran, threads, free⟩ := ih found here alone
        refine ⟨.access thread :: more, final, ?_, Machine.follow_cons_iff.mpr ⟨_, stepped, ran⟩,
          ?_, free⟩
        · exact List.forall_mem_cons.mpr ⟨rfl, onward⟩
        · simpa [Monitor.go] using threads

variable (body) in
/-- The mutex becomes free. -/
theorem StandsFor.exists_free {m : Monitor σ φ κ ρ} {abstract : τ} {stages : Nat → Stage κ ρ}
    (h : StandsFor related valid m abstract stages)
    : ∃ more final,
        (∀ event ∈ more, event.goesOn = true)
        ∧ Monitor.run body m more = some final
        ∧ final.owner = none
        ∧ KeepsIdle m final := by
  cases owner : m.owner with
  | none => exact ⟨[], m, by simp, rfl, owner, fun _ idle => idle⟩
  | some thread =>
      have under := (h.owner thread).mpr owner
      have matched := h.threads thread
      cases place : m.threads thread with
      | idle | called | left | failed => simp [place, Activity.isInside] at under
      | inside rest =>
          rw [place] at matched
          cases stage : stages thread with
          | idle | called => simp [stage, Matches] at matched
          | answered call reply =>
              rw [stage] at matched
              obtain ⟨after, alone, _⟩ := matched
              obtain ⟨more, final, onward, ran, threads, free⟩ := inside_leaves place alone
              exact ⟨more, final, onward, ran, free,
                keepsIdle_of_update (by simp [place]) threads⟩

/-- What a thread that has left the mutex returns. -/
theorem left_returns {m : Monitor σ φ κ ρ} {thread : Nat} {reply : ρ}
    (left : m.threads thread = .left reply)
    : Monitor.run body m [.answer thread reply] = some (m.go thread .idle) := by
  refine Machine.follow_cons_iff.mpr ⟨_, ?_, rfl⟩
  simp [Monitor.step, left]

/-- With the mutex free a thread's call can return. -/
theorem StandsFor.returns_of_free {m : Monitor σ φ κ ρ} {abstract : τ}
    {stages : Nat → Stage κ ρ} (h : StandsFor related valid m abstract stages)
    (meets : Meets body spec related valid) (free : m.owner = none) (thread : Nat)
    : ∃ more final,
        (∀ event ∈ more, event.goesOn = true)
        ∧ Monitor.run body m more = some final
        ∧ final.threads thread = .idle
        ∧ KeepsIdle m final := by
  have matched := h.threads thread
  cases place : m.threads thread with
  | idle => exact ⟨[], m, by simp, rfl, place, fun _ idle => idle⟩
  | failed failure => exact absurd place (h.not_failed thread failure)
  | inside rest =>
      have outside := h.alone_of_free free thread
      simp [place, Activity.isInside] at outside
  | left reply =>
      exact ⟨_, _, by simp [MonitorEvent.goesOn], left_returns place, by simp [Monitor.go],
        keepsIdle_of_update (by simp [place]) rfl⟩
  | called call =>
      rw [place] at matched
      cases stage : stages thread with
      | idle | answered => simp [stage, Matches] at matched
      | called other =>
          rw [stage] at matched
          obtain ⟨rfl, may⟩ := matched
          obtain ⟨reply, after, _, alone, _⟩ := meets (h.free free) may
          have locks
              : Monitor.step body m (.lock thread)
                = some { m.go thread (.inside (body call)) with owner := some thread } := by
            simp only [Monitor.step, place, free]
          have here
              : Monitor.threads
                  { m.go thread (.inside (body call)) with owner := some thread } thread
                = .inside (body call) := by
            simp [Monitor.go]
          obtain ⟨more, last, onward, ran, threads, _⟩ := inside_leaves here alone
          have left : last.threads thread = .left reply := by rw [threads, Function.update_self]
          have ends
              : (last.go thread .idle).threads = Function.update m.threads thread .idle := by
            simp [Monitor.go, threads]
          refine ⟨.lock thread :: (more ++ [.answer thread reply]), last.go thread .idle, ?_, ?_,
            by simp [Monitor.go], keepsIdle_of_update (by simp [place]) ends⟩
          · simpa [MonitorEvent.goesOn, or_imp, forall_and] using onward
          · exact Machine.follow_cons_iff.mpr ⟨_, locks,
              Machine.follow_append_iff.mpr ⟨last, ran, left_returns left⟩⟩

/-- No thread is kept in its call for ever: as long as none makes another, all can return; by
induction over the threads that may be in one.
-/
theorem StandsFor.all_return {m : Monitor σ φ κ ρ} {abstract : τ} {stages : Nat → Stage κ ρ}
    (h : StandsFor related valid m abstract stages) (meets : Meets body spec related valid)
    {busy : List Nat} (others : ∀ thread, thread ∉ busy → m.threads thread = .idle)
    : ∃ more final,
        (∀ event ∈ more, event.goesOn = true)
        ∧ Monitor.run body m more = some final
        ∧ ∀ thread, final.threads thread = .idle := by
  induction busy generalizing m abstract stages with
  | nil => exact ⟨[], m, by simp, rfl, fun thread => others thread List.not_mem_nil⟩
  | cons thread rest ih =>
      obtain ⟨leaving, middle, goes, freed, free, kept⟩ := h.exists_free body
      obtain ⟨_, _, _, _, stands⟩ := h.run meets (callsOnly_of_goesOn goes) freed
      obtain ⟨returning, next, continues, returned, idle, still⟩ :=
        stands.returns_of_free meets free thread
      obtain ⟨_, _, _, _, stands⟩ := stands.run meets (callsOnly_of_goesOn continues) returned
      have fewer : ∀ other, other ∉ rest → next.threads other = .idle := by
        intro other out
        by_cases same : other = thread
        case pos => exact same ▸ idle
        case neg => exact still other (kept other (others other (by simp [same, out])))
      obtain ⟨more, final, onward, ran, all⟩ := ih stands fewer
      refine ⟨leaving ++ (returning ++ more), final, ?_, ?_, all⟩
      · simp only [List.mem_append]
        rintro event (first | second | third)
        · exact goes event first
        · exact continues event second
        · exact onward event third
      · exact Machine.follow_append_iff.mpr ⟨middle, freed,
          Machine.follow_append_iff.mpr ⟨next, returned, ran⟩⟩

theorem step_other {m next : Monitor σ φ κ ρ} {event : MonitorEvent κ ρ} {thread : Nat}
    (stepped : Monitor.step body m event = some next) (other : thread ≠ event.thread)
    : next.threads thread = m.threads thread := by
  have taken := step_cases stepped
  cases event with
  | invoke | answer =>
      obtain ⟨_, rfl⟩ := taken
      exact Function.update_of_ne other ..
  | lock =>
      obtain ⟨_, _, _, rfl⟩ := taken
      exact Function.update_of_ne other ..
  | unlock =>
      obtain ⟨_, _, rfl⟩ := taken
      exact Function.update_of_ne other ..
  | access =>
      obtain ⟨_, _, _, _, ⟨_, _, rfl⟩ | ⟨_, _, _, rfl⟩⟩ := taken
      · exact Function.update_of_ne other ..
      · exact Function.update_of_ne other ..

/-- A thread that takes no step stays where it is, by induction over the events. -/
theorem run_other {m final : Monitor σ φ κ ρ} {events : List (MonitorEvent κ ρ)} {thread : Nat}
    (ran : Monitor.run body m events = some final)
    (other : thread ∉ events.map MonitorEvent.thread)
    : final.threads thread = m.threads thread := by
  induction events generalizing m with
  | nil =>
      obtain rfl := Option.some.inj ran
      rfl
  | cons event rest ih =>
      obtain ⟨next, stepped, later⟩ := Machine.follow_cons_iff.mp ran
      rw [List.map_cons, List.mem_cons, not_or] at other
      exact (ih later other.2).trans (step_other stepped other.1)

end

end Monitor
