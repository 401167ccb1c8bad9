import Mathlib.Data.List.Nodup
import Nbsdk.Lib.Handles
import Nbsdk.Lib.Machine

/-! The event loop of event_loop.cc with the threads that it starts.
The caller of `SyncLoop` is still in it when other threads call the loop. The work guard keeps
every `ioc_.run()` going until the context is stopped, and `Exit` goes through its joins one
by one.
-/

namespace Nbsdk.Base

open Handles (Store)

/-- Where a thread is that runs the context: waiting for a handler or in one, in
`ioc_.run()`, or back from it.
-/
inductive Phase
  | waiting
  | handling
  | returned
  deriving DecidableEq, Repr

/-- A thread that runs the context: one that the loop started, or the caller of `SyncLoop`. -/
inductive Runner
  | thread (number : Nat)
  | caller
  deriving DecidableEq, Repr

/-- What ends the process: `join` on the own thread, which throws, and the destruction of a
thread that can still be joined.
-/
inductive Fault
  | joinsItself
  | destroysJoinable
  deriving DecidableEq, Repr

/-- An `Exit` in progress: in whose handler, if in one, and the threads it has yet to visit. -/
structure Exiting where
  inside : Option Runner
  left : List Nat
  deriving DecidableEq, Repr

/-- The members, with the threads that were started so far, in their order; a thread is live
in the store until it has been joined.
-/
structure EventLoop where
  threadCount : Int
  running : Bool
  stopped : Bool
  threads : List Nat
  started : Store Unit
  phases : List Phase
  caller : Option Phase
  exiting : Option Exiting
  failed : Option Fault

/-- A call, a step of `Exit`, or a step of a thread that runs the context; `stop` is one on
`IOContext()`.
-/
inductive LoopEvent
  | loop
  | syncLoop
  | exit (inside : Option Runner)
  | stop
  | join
  | exited
  | start (runner : Runner)
  | finish (runner : Runner)
  | leave (runner : Runner)
  deriving DecidableEq, Repr

namespace EventLoop

/-- The constructor. -/
def create (threadCount : Int) : EventLoop where
  threadCount := threadCount
  running := false
  stopped := false
  threads := []
  started := .empty
  phases := []
  caller := none
  exiting := none
  failed := none

/-- `emplace_back` of a thread that runs the context. -/
def spawn (l : EventLoop) : EventLoop :=
  let (number, started) := l.started.create ()
  { l with
    threads := l.threads ++ [number], started := started, phases := l.phases ++ [.waiting] }

def spawns (l : EventLoop) : Nat → EventLoop
  | 0 => l
  | count + 1 => (l.spawn).spawns count

/-- `reset` before the threads start, which no thread may be in `ioc_.run()` for. -/
def reset (l : EventLoop) : EventLoop := { l with running := true, stopped := false }

def loop (l : EventLoop) : EventLoop :=
  if l.running then l else l.reset.spawns l.threadCount.toNat

def syncLoop (l : EventLoop) : EventLoop :=
  if l.running then l
  else { l.reset.spawns (l.threadCount - 1).toNat with caller := some .waiting }

/-- `Exit` up to its first join. -/
def exit (l : EventLoop) (inside : Option Runner) : EventLoop :=
  if !l.running then l
  else { l with stopped := true, exiting := some ⟨inside, l.threads⟩ }

def phase? (l : EventLoop) : Runner → Option Phase
  | .thread number => l.phases[number]?
  | .caller => l.caller

/-- The next thread of the loop in `Exit`; a join waits for the thread to return. -/
def join (l : EventLoop) (e : Exiting) : Option EventLoop :=
  match e.left with
  | [] => none
  | number :: rest =>
      if live : l.started.Live number then
        if e.inside = some (.thread number) then some { l with failed := some .joinsItself }
        else if l.phases[number]? = some .returned then
          some
            { l with
              started := l.started.retire number live, exiting := some { e with left := rest } }
        else none
      else some { l with exiting := some { e with left := rest } }

/-- The rest of `Exit`, behind its joins. -/
def exited (l : EventLoop) (e : Exiting) : Option EventLoop :=
  if e.left ≠ [] then none
  else if ∃ number ∈ l.threads, l.started.Live number then
    some { l with failed := some .destroysJoinable }
  else some { l with threads := [], running := false, exiting := none }

/-- A thread that runs the context enters a phase; the caller of `SyncLoop` returns from it. -/
def enter (l : EventLoop) (runner : Runner) (phase : Phase) : EventLoop :=
  match runner with
  | .thread number => { l with phases := l.phases.set number phase }
  | .caller => { l with caller := if phase = .returned then none else some phase }

/-- The members check nothing but `running_`. Two calls that they let through are not steps
here: a `Loop` or `SyncLoop` behind an `Exit` that has left an earlier `SyncLoop` in
`ioc_.run()`, where `reset` is not allowed, and an `Exit` during the joins of another one,
since both would join the same threads.
-/
def step (l : EventLoop) (event : LoopEvent) : Option EventLoop :=
  if l.failed ≠ none then none
  else
    match event with
    | .loop => if l.running = true ∨ l.caller = none then some l.loop else none
    | .syncLoop => if l.running = true ∨ l.caller = none then some l.syncLoop else none
    | .exit inside =>
        if l.exiting = none ∧ ∀ runner ∈ inside, l.phase? runner = some .handling then
          some (l.exit inside)
        else none
    | .stop => some { l with stopped := true }
    | .join => l.exiting.bind l.join
    | .exited => l.exiting.bind l.exited
    | .start runner =>
        if l.stopped = false ∧ l.phase? runner = some .waiting then
          some (l.enter runner .handling)
        else none
    | .finish runner =>
        -- a handler in which Exit was called has not returned before that
        if l.phase? runner = some .handling ∧ l.exiting.bind Exiting.inside ≠ some runner then
          some (l.enter runner .waiting)
        else none
    | .leave runner =>
        if l.stopped = true ∧ l.phase? runner = some .waiting then
          some (l.enter runner .returned)
        else none

/-- The state after these events, if each was enabled in its turn. -/
def run (l : EventLoop) (events : List LoopEvent) : Option EventLoop :=
  Machine.follow step l events

/-- What a step has found and what it has done, for each event. -/
theorem step_cases {l next : EventLoop} {event : LoopEvent} (stepped : l.step event = some next)
    : l.failed = none
      ∧ match event with
        | .loop => (l.running = true ∨ l.caller = none) ∧ l.loop = next
        | .syncLoop => (l.running = true ∨ l.caller = none) ∧ l.syncLoop = next
        | .exit inside =>
            l.exiting = none
            ∧ (∀ runner ∈ inside, l.phase? runner = some .handling)
            ∧ l.exit inside = next
        | .stop => { l with stopped := true } = next
        | .join => ∃ e, l.exiting = some e ∧ l.join e = some next
        | .exited => ∃ e, l.exiting = some e ∧ l.exited e = some next
        | .start runner =>
            l.stopped = false ∧ l.phase? runner = some .waiting ∧ l.enter runner .handling = next
        | .finish runner =>
            l.phase? runner = some .handling
            ∧ l.exiting.bind Exiting.inside ≠ some runner
            ∧ l.enter runner .waiting = next
        | .leave runner =>
            l.stopped = true
            ∧ l.phase? runner = some .waiting
            ∧ l.enter runner .returned = next := by
  simp only [step] at stepped
  split at stepped
  case isTrue => contradiction
  case isFalse going =>
    refine ⟨not_not.mp going, ?_⟩
    cases event <;>
      simpa only [Option.ite_none_right_eq_some, Option.some.injEq, Option.bind_eq_some_iff,
        and_assoc] using stepped

-----------------------------------------------------------------------------------------
-- What every step keeps
-----------------------------------------------------------------------------------------

/-- The threads that have yet to be joined: all of them, or those that `Exit` still visits. -/
def unjoined (l : EventLoop) : List Nat := (l.exiting.map Exiting.left).getD l.threads

/-- Every thread that can still be joined is one that will be, and a joined one has returned.
While the context runs there are no more threads in it than it was made for.
-/
structure Sound (l : EventLoop) : Prop where
  sized : l.phases.length = l.started.created.length
  once : l.started.released.Nodup
  back : ∀ number ∈ l.started.released, l.phases[number]? = some .returned
  joinable : ∀ number, l.started.Live number → number ∈ l.unjoined
  exiting : ∀ e, l.exiting = some e → l.running = true ∧ l.stopped = true
  inside : ∀ e, l.exiting = some e → ∀ runner ∈ e.inside, l.phase? runner = some .handling
  resting : l.running = false → l.threads = []
  few
    : l.running = true
      → l.threads.length + (if l.caller.isSome then 1 else 0) ≤ max l.threadCount.toNat 1
  joins : l.failed ≠ some .destroysJoinable

theorem sound_create (threadCount : Int) : (create threadCount).Sound where
  sized := rfl
  once := List.nodup_nil
  back := by simp [create, Store.empty]
  joinable := by simp [create, Store.empty, Store.Live]
  exiting := by simp [create]
  inside := by simp [create]
  resting _ := rfl
  few := by simp [create]
  joins := by simp [create]

/-- A loop that does not run is in no `Exit`. -/
theorem Sound.quiet {l : EventLoop} (h : l.Sound) (rests : l.running = false)
    : l.exiting = none := by
  cases exiting : l.exiting with
  | none => rfl
  | some e => exact absurd (rests.symm.trans (h.exiting e exiting).1) (by decide)

/-- No thread is left to join once the loop does not run. -/
theorem Sound.idle {l : EventLoop} (h : l.Sound) (rests : l.running = false)
    : l.started.Settled ∧ ∀ phase ∈ l.phases, phase = .returned := by
  have quiet := h.quiet rests
  have joined : ∀ number < l.started.created.length, number ∈ l.started.released := by
    intro number known
    by_contra pending
    have there := h.joinable number ⟨known, pending⟩
    simp [unjoined, quiet, h.resting rests] at there
  refine ⟨fun number known => List.count_eq_one_of_mem h.once (joined number known), ?_⟩
  intro phase member
  obtain ⟨number, found⟩ := List.mem_iff_getElem?.mp member
  have known : number < l.started.created.length :=
    h.sized ▸ (List.getElem?_eq_some_iff.mp found).1
  exact Option.some.inj (found.symm.trans (h.back number (joined number known)))

/-- What is kept while the context's threads are started: all but their number. -/
structure Starting (l : EventLoop) : Prop where
  sized : l.phases.length = l.started.created.length
  once : l.started.released.Nodup
  back : ∀ number ∈ l.started.released, l.phases[number]? = some .returned
  joinable : ∀ number, l.started.Live number → number ∈ l.threads
  exiting : l.exiting = none
  joins : l.failed ≠ some .destroysJoinable

theorem Starting.spawn {l : EventLoop} (h : l.Starting) : l.spawn.Starting where
  sized := by simp [EventLoop.spawn, h.sized]
  once := h.once
  back number joined := by
    have early : number < l.phases.length := h.sized ▸ l.started.known number joined
    exact (List.getElem?_append_left early).trans (h.back number joined)
  joinable number live := by
    simp only [EventLoop.spawn, List.mem_append, List.mem_singleton, Store.handle_create]
    have known : number < l.started.created.length + 1 := by
      simpa [EventLoop.spawn] using live.1
    rcases Nat.lt_succ_iff_lt_or_eq.mp known with earlier | new
    · exact Or.inl (h.joinable number ⟨earlier, live.2⟩)
    · exact Or.inr new
  exiting := h.exiting
  joins := h.joins

/-- Starting threads one after another, by induction over their number. -/
theorem Starting.spawns {l : EventLoop} (h : l.Starting) (count : Nat)
    : (l.spawns count).Starting
      ∧ (l.spawns count).threads.length = l.threads.length + count
      ∧ (l.spawns count).running = l.running
      ∧ (l.spawns count).caller = l.caller
      ∧ (l.spawns count).threadCount = l.threadCount := by
  induction count generalizing l with
  | zero => exact ⟨h, rfl, rfl, rfl, rfl⟩
  | succ count ih =>
      obtain ⟨kept, length, others⟩ := ih h.spawn
      refine ⟨kept, ?_, others⟩
      rw [EventLoop.spawns, length]
      simp only [EventLoop.spawn, List.length_append, List.length_singleton]
      omega

/-- A loop that does not run has nothing to start behind. -/
theorem Sound.starting {l : EventLoop} (h : l.Sound) (rests : l.running = false)
    : l.reset.Starting where
  sized := h.sized
  once := h.once
  back := h.back
  joinable number live := by simpa [unjoined, h.quiet rests] using! h.joinable number live
  exiting := h.quiet rests
  joins := h.joins

/-- Started threads and a caller within the bound are a loop that runs. -/
theorem Starting.sound {l : EventLoop} (h : l.Starting) (runs : l.running = true)
    (few : l.threads.length + (if l.caller.isSome then 1 else 0) ≤ max l.threadCount.toNat 1)
    : l.Sound where
  sized := h.sized
  once := h.once
  back := h.back
  joinable number live := by
    rw [unjoined, h.exiting]
    exact h.joinable number live
  exiting e exits := by simp [h.exiting] at exits
  inside e exits := by simp [h.exiting] at exits
  resting rests := by simp [runs] at rests
  few _ := few
  joins := h.joins

theorem Sound.loop {l : EventLoop} (h : l.Sound) (free : l.running = true ∨ l.caller = none)
    : l.loop.Sound := by
  rw [EventLoop.loop]
  split
  case isTrue => exact h
  case isFalse goes =>
    have rests : l.running = false := by simpa using goes
    have empty : l.reset.threads.length = 0 := List.length_eq_zero_iff.mpr (h.resting rests)
    have single : l.reset.caller = none := free.resolve_left goes
    obtain ⟨kept, length, runs, caller, count⟩ := (h.starting rests).spawns l.threadCount.toNat
    apply kept.sound runs
    rw [length, caller, count, empty, single, Nat.zero_add]
    exact Nat.le_max_left ..

theorem Sound.syncLoop {l : EventLoop} (h : l.Sound) : l.syncLoop.Sound := by
  rw [EventLoop.syncLoop]
  split
  case isTrue => exact h
  case isFalse goes =>
    have rests : l.running = false := by simpa using goes
    have empty : l.reset.threads.length = 0 := List.length_eq_zero_iff.mpr (h.resting rests)
    have same : l.reset.threadCount = l.threadCount := rfl
    obtain ⟨kept, length, runs, caller, count⟩ :=
      (h.starting rests).spawns (l.threadCount - 1).toNat
    refine Starting.sound
      ⟨kept.sized, kept.once, kept.back, kept.joinable, kept.exiting, kept.joins⟩ runs ?_
    change (l.reset.spawns (l.threadCount - 1).toNat).threads.length + 1
      ≤ max (l.reset.spawns (l.threadCount - 1).toNat).threadCount.toNat 1
    rw [length, count, empty, same]
    omega

theorem Sound.exit {l : EventLoop} (h : l.Sound) (quiet : l.exiting = none)
    {inside : Option Runner} (called : ∀ runner ∈ inside, l.phase? runner = some .handling)
    : (l.exit inside).Sound := by
  rw [EventLoop.exit]
  split
  case isTrue => exact h
  case isFalse runs =>
    refine ⟨h.sized, h.once, h.back, ?_, ?_, ?_, h.resting, h.few, h.joins⟩
    · simpa [unjoined, quiet] using! h.joinable
    · simpa using runs
    · intro e exits
      obtain rfl := Option.some.inj exits
      exact called

/-- `Exit` goes on with other threads to visit, as long as these are the live ones. -/
theorem Sound.visit {l : EventLoop} {e : Exiting} (h : l.Sound) (exits : l.exiting = some e)
    {started : Store Unit} {left : List Nat}
    (sized : started.created.length = l.started.created.length) (once : started.released.Nodup)
    (back : ∀ number ∈ started.released, l.phases[number]? = some .returned)
    (visits : ∀ number, started.Live number → number ∈ left)
    : Sound { l with started := started, exiting := some { e with left := left } } := by
  refine ⟨h.sized.trans sized.symm, once, back, visits, ?_, ?_, h.resting, h.few, h.joins⟩
  · exact fun _ _ => h.exiting e exits
  · intro other going
    obtain rfl := Option.some.inj going
    exact h.inside e exits

/-- A join of a returned thread, or the visit of one that was joined before. -/
theorem Sound.join {l next : EventLoop} {e : Exiting} (h : l.Sound)
    (exits : l.exiting = some e) (joined : l.join e = some next)
    : next.Sound := by
  have visits : ∀ number, l.started.Live number → number ∈ e.left := by
    simpa [unjoined, exits] using h.joinable
  rw [EventLoop.join] at joined
  split at joined
  case h_1 => contradiction
  case h_2 number rest left =>
    rw [left] at visits
    split at joined
    case isTrue live =>
      split at joined
      case isTrue =>
        obtain rfl := Option.some.inj joined
        exact ⟨h.sized, h.once, h.back, h.joinable, h.exiting, h.inside, h.resting, h.few, by simp⟩
      case isFalse =>
        split at joined
        case isFalse => contradiction
        case isTrue back =>
          obtain rfl := Option.some.inj joined
          refine h.visit exits rfl ?_ ?_ ?_
          · rw [Store.released_retire, List.nodup_append]
            refine ⟨h.once, List.nodup_singleton number, ?_⟩
            rintro other released same member rfl
            exact live.2 (List.mem_singleton.mp member ▸ released)
          · intro other released
            rcases List.mem_append.mp released with earlier | same
            · exact h.back other earlier
            · exact List.mem_singleton.mp same ▸ back
          · intro other alive
            have apart : other ≠ number := by
              rintro rfl
              exact alive.2 (by simp)
            have before : l.started.Live other := ⟨alive.1, fun old => alive.2 (by simp [old])⟩
            exact (List.mem_cons.mp (visits other before)).resolve_left apart
    case isFalse dead =>
      obtain rfl := Option.some.inj joined
      refine h.visit exits rfl h.once h.back ?_
      intro other alive
      have apart : other ≠ number := by
        rintro rfl
        exact dead alive
      exact (List.mem_cons.mp (visits other alive)).resolve_left apart

/-- Behind the joins no thread is live any more. -/
theorem Sound.exited {l next : EventLoop} {e : Exiting} (h : l.Sound)
    (exits : l.exiting = some e) (done : l.exited e = some next)
    : next.Sound ∧ next.exiting = none ∧ next.failed = l.failed := by
  rw [EventLoop.exited] at done
  split at done
  case isTrue => contradiction
  case isFalse ended =>
    have dead : ∀ number, ¬ l.started.Live number := by
      intro number live
      have there := h.joinable number live
      simp [unjoined, exits, not_not.mp ended] at there
    rw [if_neg (by rintro ⟨number, _, live⟩; exact dead number live)] at done
    obtain rfl := Option.some.inj done
    refine ⟨⟨h.sized, h.once, h.back, ?_, ?_, ?_, ?_, ?_, h.joins⟩, rfl, rfl⟩
    · exact fun number live => absurd live (dead number)
    · simp
    · simp
    · simp
    · simp

theorem phase?_enter_of_ne (l : EventLoop) {runner other : Runner} (apart : runner ≠ other)
    (phase : Phase)
    : (l.enter runner phase).phase? other = l.phase? other := by
  cases runner with
  | caller =>
      cases other with
      | caller => contradiction
      | thread => rfl
  | thread number =>
      cases other with
      | caller => rfl
      | thread different =>
          have numbers : number ≠ different := fun same => apart (congrArg Runner.thread same)
          exact List.getElem?_set_ne numbers

/-- A thread that waits for a handler is not in `Exit`. -/
theorem Sound.apart_of_waiting {l : EventLoop} (h : l.Sound) {runner : Runner}
    (waiting : l.phase? runner = some .waiting) (e : Exiting) (exits : l.exiting = some e)
    : e.inside ≠ some runner := by
  intro inside
  have handling := h.inside e exits runner inside
  simp [waiting] at handling

/-- A thread in the context that is not in `Exit` goes on. -/
theorem Sound.enter {l : EventLoop} (h : l.Sound) {runner : Runner} {old : Phase}
    (found : l.phase? runner = some old) (inContext : old ≠ .returned)
    (apart : ∀ e, l.exiting = some e → e.inside ≠ some runner) (phase : Phase)
    : (l.enter runner phase).Sound := by
  have callers
      : ∀ e, l.exiting = some e → ∀ other ∈ e.inside,
          (l.enter runner phase).phase? other = some .handling := by
    intro e exits other member
    have different : runner ≠ other := by
      rintro rfl
      exact apart e exits member
    rw [l.phase?_enter_of_ne different]
    exact h.inside e exits other member
  cases runner with
  | caller =>
      have present : l.caller = some old := found
      refine ⟨h.sized, h.once, h.back, h.joinable, h.exiting, callers, h.resting, ?_, h.joins⟩
      intro runs
      have few := h.few runs
      simp only [EventLoop.enter, present, Option.isSome_some, if_true] at few ⊢
      refine Nat.le_trans (Nat.add_le_add_left ?_ _) few
      split <;> simp
  | thread number =>
      refine ⟨?_, h.once, ?_, h.joinable, h.exiting, callers, h.resting, h.few, h.joins⟩
      · simpa [EventLoop.enter] using! h.sized
      · intro other released
        have back := h.back other released
        have different : number ≠ other := by
          rintro rfl
          exact inContext (Option.some.inj (found.symm.trans back))
        exact (List.getElem?_set_ne different).trans back

/-- Every step keeps the loop sound, by the cases of the event. -/
theorem Sound.step {l next : EventLoop} {event : LoopEvent} (h : l.Sound)
    (stepped : l.step event = some next)
    : next.Sound := by
  have taken := (step_cases stepped).2
  cases event with
  | loop =>
      obtain ⟨free, rfl⟩ := taken
      exact h.loop free
  | syncLoop =>
      obtain ⟨_, rfl⟩ := taken
      exact h.syncLoop
  | exit inside =>
      obtain ⟨quiet, called, rfl⟩ := taken
      exact h.exit quiet called
  | stop =>
      rw [← taken]
      refine ⟨h.sized, h.once, h.back, h.joinable, ?_, h.inside, h.resting, h.few, h.joins⟩
      exact fun e exits => ⟨(h.exiting e exits).1, rfl⟩
  | join =>
      obtain ⟨e, exits, joined⟩ := taken
      exact h.join exits joined
  | exited =>
      obtain ⟨e, exits, done⟩ := taken
      exact (h.exited exits done).1
  | start runner =>
      obtain ⟨_, waiting, rfl⟩ := taken
      exact h.enter waiting (by simp) (h.apart_of_waiting waiting) _
  | finish runner =>
      obtain ⟨handling, apart, rfl⟩ := taken
      refine h.enter handling (by simp) ?_ _
      intro e exits
      simpa [exits] using apart
  | leave runner =>
      obtain ⟨_, waiting, rfl⟩ := taken
      exact h.enter waiting (by simp) (h.apart_of_waiting waiting) _

theorem Sound.run {l final : EventLoop} {events : List LoopEvent} (h : l.Sound)
    (ran : l.run events = some final)
    : final.Sound :=
  Machine.follow_invariant Sound (fun sound stepped => sound.step stepped) h ran

theorem spawns_threadCount (l : EventLoop) (count : Nat)
    : (l.spawns count).threadCount = l.threadCount := by
  induction count generalizing l with
  | zero => rfl
  | succ count ih => exact ih l.spawn

/-- The number of threads is the constructor's, by the cases of the event. -/
theorem step_threadCount {l next : EventLoop} {event : LoopEvent}
    (stepped : l.step event = some next)
    : next.threadCount = l.threadCount := by
  have taken := (step_cases stepped).2
  cases event with
  | loop =>
      obtain ⟨_, rfl⟩ := taken
      rw [loop]
      split
      · rfl
      · exact spawns_threadCount ..
  | syncLoop =>
      obtain ⟨_, rfl⟩ := taken
      rw [syncLoop]
      split
      · rfl
      · exact spawns_threadCount ..
  | exit inside =>
      obtain ⟨_, _, rfl⟩ := taken
      rw [exit]
      split <;> rfl
  | stop => rw [← taken]
  | join =>
      obtain ⟨e, _, joined⟩ := taken
      rw [join] at joined
      repeat' split at joined
      all_goals first
      | contradiction
      | obtain rfl := Option.some.inj joined; rfl
  | exited =>
      obtain ⟨e, _, done⟩ := taken
      rw [exited] at done
      repeat' split at done
      all_goals first
      | contradiction
      | obtain rfl := Option.some.inj done; rfl
  | start runner | leave runner =>
      obtain ⟨_, _, rfl⟩ := taken
      cases runner <;> rfl
  | finish runner =>
      obtain ⟨_, _, rfl⟩ := taken
      cases runner <;> rfl

/-- Two threads are started, joined by an `Exit` and started again. -/
def restarted : List LoopEvent :=
  [.loop, .start (.thread 1), .exit none, .leave (.thread 0), .join, .finish (.thread 1),
    .leave (.thread 1), .join, .exited, .loop]

end EventLoop

end Nbsdk.Base
