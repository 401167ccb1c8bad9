import Nbsdk.Base.EventLoop

/-! How `Exit` in event_loop.cc comes to an end.
Behind the stop every thread of the context has at most its handler to finish, so the joins
are reached one after another. A thread of the loop that calls `Exit` itself waits for its own
return.
-/

namespace Nbsdk.Base

namespace LoopEvent

/-- A step of `Exit` or of a thread that runs the context, and no call. -/
def internal : LoopEvent → Bool
  | .loop | .syncLoop | .exit _ | .stop => false
  | .join | .exited | .start _ | .finish _ | .leave _ => true

end LoopEvent

/-- The steps that a thread has to take until it has returned. -/
def Phase.work : Phase → Nat
  | .waiting => 1
  | .handling => 2
  | .returned => 0

namespace EventLoop

/-- The steps that are left at most for the threads and for `Exit`. -/
def work (l : EventLoop) : Nat :=
  (l.phases.map Phase.work).sum + (l.caller.map Phase.work).getD 0
    + (l.exiting.map (fun e => e.left.length + 1)).getD 0
    + (l.failed.map (fun _ => 0)).getD 1

/-- The `Exit` in progress returns however the threads go on: a run without further calls has
seen it return, or it is short and can go on.
-/
def ExitReturns (l : EventLoop) : Prop :=
  ∀ more final,
    (∀ event ∈ more, event.internal = true)
    → l.run more = some final
    → (∃ before after reached,
        more = before ++ after ∧ l.run before = some reached ∧ reached.exiting = none)
      ∨ more.length + final.work ≤ l.work
        ∧ ∃ event next, event.internal = true ∧ final.step event = some next

/-- A phase in the place of another changes the work by theirs, by induction. -/
theorem sum_work_set {phases : List Phase} {number : Nat} {old : Phase}
    (found : phases[number]? = some old) (phase : Phase)
    : ((phases.set number phase).map Phase.work).sum + old.work
      = (phases.map Phase.work).sum + phase.work := by
  induction phases generalizing number with
  | nil => simp at found
  | cons first rest ih =>
      cases number with
      | zero =>
          obtain rfl := Option.some.inj found
          simp only [List.set_cons_zero, List.map_cons, List.sum_cons]
          omega
      | succ number =>
          have behind : rest[number]? = some old := by simpa using found
          have there := ih behind
          simp only [List.set_cons_succ, List.map_cons, List.sum_cons]
          omega

/-- A thread that enters a phase changes the work by what it has to do. -/
theorem work_enter {l : EventLoop} {runner : Runner} {old : Phase}
    (found : l.phase? runner = some old) (phase : Phase)
    : (l.enter runner phase).work + old.work = l.work + phase.work := by
  cases runner with
  | thread number =>
      have there : l.phases[number]? = some old := found
      have sums := sum_work_set there phase
      simp only [enter, work]
      omega
  | caller =>
      have present : l.caller = some old := found
      have entered
          : ((if phase = .returned then none else some phase).map Phase.work).getD 0
            = phase.work := by
        cases phase <;> rfl
      simp only [enter, work, present, entered, Option.map_some, Option.getD_some]
      omega

variable {l next : EventLoop} {e : Exiting}

/-- Behind the stop every step leaves less to do. -/
theorem Sound.work_lt (h : l.Sound) (exits : l.exiting = some e) {event : LoopEvent}
    (internal : event.internal = true) (stepped : l.step event = some next)
    : next.work < l.work := by
  obtain ⟨going, taken⟩ := step_cases stepped
  have stopped := (h.exiting e exits).2
  cases event with
  | loop | syncLoop | stop | exit => contradiction
  | join =>
      obtain ⟨other, same, joined⟩ := taken
      obtain rfl := Option.some.inj (exits.symm.trans same)
      rw [EventLoop.join] at joined
      repeat' split at joined
      all_goals first
      | contradiction
      | obtain rfl := Option.some.inj joined; simp [work, *]
  | exited =>
      obtain ⟨other, same, done⟩ := taken
      obtain ⟨_, quiet, unfailed⟩ := h.exited same done
      have others : next.phases = l.phases ∧ next.caller = l.caller := by
        rw [EventLoop.exited] at done
        repeat' split at done
        all_goals first
        | contradiction
        | obtain rfl := Option.some.inj done; exact ⟨rfl, rfl⟩
      simp [work, quiet, unfailed, going, exits, others]
  | start runner =>
      simp [stopped] at taken
  | finish runner =>
      obtain ⟨handling, _, rfl⟩ := taken
      have changed := work_enter handling .waiting
      simp only [Phase.work] at changed
      omega
  | leave runner =>
      obtain ⟨_, waiting, rfl⟩ := taken
      have changed := work_enter waiting .returned
      simp only [Phase.work] at changed
      omega

/-- In an `Exit` there is always a step to take: a join, or one of the thread waited for. -/
theorem Sound.exit_progress (h : l.Sound) (exits : l.exiting = some e) (going : l.failed = none)
    : ∃ event next, event.internal = true ∧ l.step event = some next := by
  have stopped := (h.exiting e exits).2
  have enabled
      : ∀ event : LoopEvent,
          event.internal = true
          → (l.step event).isSome = true
          → ∃ event next, event.internal = true ∧ l.step event = some next := by
    intro event internal possible
    obtain ⟨next, stepped⟩ := Option.isSome_iff_exists.mp possible
    exact ⟨event, next, internal, stepped⟩
  cases left : e.left with
  | nil =>
      refine enabled .exited rfl ?_
      have done : (l.exited e).isSome = true := by
        rw [EventLoop.exited, if_neg (not_not.mpr left)]
        split <;> rfl
      simpa [EventLoop.step, going, exits] using done
  | cons number rest =>
      by_cases live : l.started.Live number
      case neg =>
        refine enabled .join rfl ?_
        simp [EventLoop.step, going, exits, EventLoop.join, left, live]
      by_cases own : e.inside = some (.thread number)
      case pos =>
        refine enabled .join rfl ?_
        simp [EventLoop.step, going, exits, EventLoop.join, left, live, own]
      obtain ⟨phase, found⟩ : ∃ phase, l.phases[number]? = some phase :=
        ⟨_, List.getElem?_eq_getElem (h.sized ▸ live.1)⟩
      cases phase with
      | returned =>
          refine enabled .join rfl ?_
          simp [EventLoop.step, going, exits, EventLoop.join, left, live, own, found]
      | waiting =>
          refine enabled (.leave (.thread number)) rfl ?_
          simp [EventLoop.step, going, stopped, phase?, found]
      | handling =>
          refine enabled (.finish (.thread number)) rfl ?_
          simp [EventLoop.step, going, exits, phase?, found, own]

/-- A step leaves an `Exit` where it was called, or it is over. -/
theorem exiting_step (exits : l.exiting = some e) {event : LoopEvent}
    (internal : event.internal = true) (stepped : l.step event = some next)
    : next.exiting = none ∨ ∃ other, next.exiting = some other ∧ other.inside = e.inside := by
  have taken := (step_cases stepped).2
  cases event with
  | loop | syncLoop | stop | exit => contradiction
  | join =>
      obtain ⟨other, same, joined⟩ := taken
      obtain rfl := Option.some.inj (exits.symm.trans same)
      rw [join] at joined
      repeat' split at joined
      all_goals first
      | contradiction
      | obtain rfl := Option.some.inj joined; simp [exits]
  | exited =>
      obtain ⟨other, same, done⟩ := taken
      rw [exited] at done
      repeat' split at done
      all_goals first
      | contradiction
      | obtain rfl := Option.some.inj done; simp [exits]
  | start runner | leave runner =>
      obtain ⟨_, _, rfl⟩ := taken
      cases runner <;> exact Or.inr ⟨e, exits, rfl⟩
  | finish runner =>
      obtain ⟨_, _, rfl⟩ := taken
      cases runner <;> exact Or.inr ⟨e, exits, rfl⟩

/-- Only the join of a thread with itself fails. -/
theorem Sound.failed_step (h : l.Sound) (exits : l.exiting = some e)
    (outside : ∀ number, e.inside ≠ some (.thread number)) {event : LoopEvent}
    (internal : event.internal = true) (stepped : l.step event = some next)
    : next.failed = none := by
  obtain ⟨going, taken⟩ := step_cases stepped
  cases event with
  | loop | syncLoop | stop | exit => contradiction
  | join =>
      obtain ⟨other, same, joined⟩ := taken
      obtain rfl := Option.some.inj (exits.symm.trans same)
      rw [EventLoop.join] at joined
      repeat' split at joined
      all_goals first
      | contradiction
      | exact absurd ‹_› (outside _)
      | obtain rfl := Option.some.inj joined; exact going
  | exited =>
      obtain ⟨other, same, done⟩ := taken
      exact (h.exited same done).2.2.trans going
  | start runner | leave runner =>
      obtain ⟨_, _, rfl⟩ := taken
      cases runner <;> exact going
  | finish runner =>
      obtain ⟨_, _, rfl⟩ := taken
      cases runner <;> exact going

/-- A thread of the loop that is in `Exit` is one that it still has to join. -/
theorem Sound.own_left (h : l.Sound) (exits : l.exiting = some e) {number : Nat}
    (own : e.inside = some (.thread number))
    : number ∈ e.left := by
  have handling : l.phases[number]? = some .handling := h.inside e exits _ own
  have known := h.sized ▸ (List.getElem?_eq_some_iff.mp handling).1
  have pending : number ∉ l.started.released := by
    intro released
    have back := h.back number released
    simp [handling] at back
  simpa [unjoined, exits] using h.joinable number ⟨known, pending⟩

-----------------------------------------------------------------------------------------
-- From where Exit returns
-----------------------------------------------------------------------------------------

/-- A sound loop without a fault, whose `Exit`, if there is one, no thread of it called. -/
structure Leaving (l : EventLoop) : Prop where
  sound : l.Sound
  going : l.failed = none
  outside : ∀ e, l.exiting = some e → ∀ number, e.inside ≠ some (.thread number)

/-- Until `Exit` has returned, every step leaves less to do. -/
theorem Leaving.step (h : l.Leaving) (lasts : l.exiting ≠ none) {event : LoopEvent}
    (internal : event.internal = true) (stepped : l.step event = some next)
    : next.Leaving ∧ next.work < l.work := by
  obtain ⟨e, there⟩ := Option.ne_none_iff_exists'.mp lasts
  have outside := h.outside e there
  refine ⟨⟨h.sound.step stepped, ?_, ?_⟩, h.sound.work_lt there internal stepped⟩
  · exact h.sound.failed_step there outside internal stepped
  · intro later found
    rcases exiting_step there internal stepped with ended | ⟨same, goes, kept⟩
    · simp [ended] at found
    · rw [Option.some.inj (found.symm.trans goes), kept]
      exact outside

theorem Leaving.progress (h : l.Leaving) (lasts : l.exiting ≠ none)
    : ∃ event next, event.internal = true ∧ l.step event = some next := by
  obtain ⟨e, there⟩ := Option.ne_none_iff_exists'.mp lasts
  exact h.sound.exit_progress there h.going

/-- Called outside of the loop's own threads, `Exit` returns. -/
theorem Leaving.exit_returns (h : l.Leaving) : l.ExitReturns :=
  fun _ _ internal ran =>
    Machine.follow_finishes Leaving (fun l => l.exiting = none)
      (fun event : LoopEvent => event.internal = true) work
      (fun h lasts internal stepped => h.step lasts internal stepped) Leaving.progress h internal
      ran

theorem Leaving.reaches_end (h : l.Leaving)
    : ∃ more final,
        (∀ event ∈ more, event.internal = true)
        ∧ l.run more = some final
        ∧ final.Leaving
        ∧ final.exiting = none := by
  obtain ⟨more, final, internal, ran, well, ended, _⟩ :=
    Machine.exists_follow_done Leaving (fun l => l.exiting = none)
      (fun event : LoopEvent => event.internal = true) work
      (fun h lasts internal stepped => h.step lasts internal stepped) Leaving.progress h
  exact ⟨more, final, internal, ran, well, ended⟩

/-- A sound loop in an `Exit` that was called there. -/
def InExitOf (inside : Option Runner) (l : EventLoop) : Prop :=
  l.Sound ∧ ∃ e, l.exiting = some e ∧ e.inside = inside

/-- An `Exit` in a thread of the loop lasts, since that thread is left to join. -/
theorem InExitOf.step {number : Nat} (h : l.InExitOf (some (.thread number)))
    {event : LoopEvent} (internal : event.internal = true) (stepped : l.step event = some next)
    : next.InExitOf (some (.thread number)) := by
  obtain ⟨sound, e, there, own⟩ := h
  refine ⟨sound.step stepped, ?_⟩
  rcases exiting_step there internal stepped with ended | ⟨later, goes, kept⟩
  case inr => exact ⟨later, goes, kept.trans own⟩
  have left := sound.own_left there own
  have taken := (step_cases stepped).2
  cases event with
  | loop | syncLoop | stop | exit => contradiction
  | join =>
      obtain ⟨_, _, joined⟩ := taken
      rw [join] at joined
      repeat' split at joined
      all_goals first
      | contradiction
      | obtain rfl := Option.some.inj joined; simp [there] at ended
  | exited =>
      obtain ⟨_, again, done⟩ := taken
      obtain rfl := Option.some.inj (there.symm.trans again)
      have unfinished : e.left ≠ [] := List.ne_nil_of_mem left
      rw [exited, if_pos unfinished] at done
      contradiction
  | start runner | leave runner =>
      obtain ⟨_, _, rfl⟩ := taken
      cases runner <;> exact absurd (there.symm.trans ended) (by simp)
  | finish runner =>
      obtain ⟨_, _, rfl⟩ := taken
      cases runner <;> exact absurd (there.symm.trans ended) (by simp)

theorem InExitOf.work_lt {inside : Option Runner} (h : l.InExitOf inside) {event : LoopEvent}
    (internal : event.internal = true) (stepped : l.step event = some next)
    : next.work < l.work := by
  obtain ⟨sound, e, there, _⟩ := h
  exact sound.work_lt there internal stepped

theorem InExitOf.progress {inside : Option Runner} (h : l.InExitOf inside)
    (going : l.failed = none)
    : ∃ event next, event.internal = true ∧ l.step event = some next := by
  obtain ⟨sound, e, there, _⟩ := h
  exact sound.exit_progress there going

/-- In a thread of the loop `Exit` can go on until that thread joins itself. -/
theorem InExitOf.reaches_fault {number : Nat} (h : l.InExitOf (some (.thread number)))
    : ∃ more final,
        (∀ event ∈ more, event.internal = true)
        ∧ l.run more = some final
        ∧ final.InExitOf (some (.thread number))
        ∧ final.failed ≠ none := by
  obtain ⟨more, final, internal, ran, lasts, failed, _⟩ :=
    Machine.exists_follow_done (InExitOf (some (.thread number))) (fun l => l.failed ≠ none)
      (fun event : LoopEvent => event.internal = true) work
      (fun kept _ internal stepped => ⟨kept.step internal stepped, kept.work_lt internal stepped⟩)
      (fun kept fine => kept.progress (not_not.mp fine)) h
  exact ⟨more, final, internal, ran, lasts, failed⟩

theorem InExitOf.never_returns {number : Nat} (h : l.InExitOf (some (.thread number)))
    : ¬ l.ExitReturns := by
  intro returns
  obtain ⟨more, final, internal, ran, _, failed⟩ := h.reaches_fault
  rcases returns more final internal ran with ⟨before, after, reached, split, there, ended⟩ | onward
  · have steps
        : ∀ first (event : LoopEvent) rest middle,
            before = first ++ event :: rest → l.run first = some middle
            → event.internal = true := by
      rintro first event rest _ parts _
      exact internal event (by simp [split, parts])
    obtain ⟨_, e, goes, _⟩ :=
      Machine.follow_allowed (fun _ event => event.internal = true)
        (InExitOf (some (.thread number))) (fun kept may stepped => kept.step may stepped) h steps
        there
    simp [ended] at goes
  · obtain ⟨event, next, _, stepped⟩ := onward.2
    exact failed (step_cases stepped).1

/-- Outside of `Exit` the threads go through their handlers, and nothing else changes. -/
theorem internal_cases (quiet : l.exiting = none) {event : LoopEvent}
    (internal : event.internal = true) (stepped : l.step event = some next)
    : ∃ runner old phase,
        l.phase? runner = some old
        ∧ old ≠ .returned
        ∧ (l.stopped = false → phase ≠ .returned)
        ∧ l.enter runner phase = next := by
  have taken := (step_cases stepped).2
  cases event with
  | loop | syncLoop | stop | exit => contradiction
  | join | exited => simp [quiet] at taken
  | start runner =>
      obtain ⟨_, waiting, entered⟩ := taken
      exact ⟨runner, _, _, waiting, by simp, by simp, entered⟩
  | finish runner =>
      obtain ⟨handling, _, entered⟩ := taken
      exact ⟨runner, _, _, handling, by simp, by simp, entered⟩
  | leave runner =>
      obtain ⟨stopped, waiting, entered⟩ := taken
      exact ⟨runner, _, _, waiting, by simp, by simp [stopped], entered⟩

/-- Entering a phase leaves the loop's flags. -/
theorem flags_enter (l : EventLoop) (runner : Runner) (phase : Phase)
    : (l.enter runner phase).running = l.running
      ∧ (l.enter runner phase).stopped = l.stopped
      ∧ (l.enter runner phase).exiting = l.exiting
      ∧ (l.enter runner phase).failed = l.failed := by
  cases runner <;> exact ⟨rfl, rfl, rfl, rfl⟩

/-- The end of an `Exit` is the only step that a loop stops running in. -/
theorem runs_step {event : LoopEvent} (internal : event.internal = true)
    (stepped : l.step event = some next) (runs : l.exiting = none → l.running = false)
    : next.exiting = none → next.running = false := by
  intro quiet
  have taken := (step_cases stepped).2
  cases event with
  | loop | syncLoop | stop | exit => contradiction
  | join =>
      obtain ⟨_, there, joined⟩ := taken
      rw [join] at joined
      repeat' split at joined
      all_goals first
      | contradiction
      | obtain rfl := Option.some.inj joined; simp [there] at quiet
  | exited =>
      obtain ⟨_, there, done⟩ := taken
      rw [exited] at done
      repeat' split at done
      all_goals first
      | contradiction
      | obtain rfl := Option.some.inj done; first | rfl | simp [there] at quiet
  | start runner | leave runner =>
      obtain ⟨_, _, rfl⟩ := taken
      obtain ⟨same, _, exits, _⟩ := l.flags_enter runner _
      rw [same]
      exact runs (exits.symm.trans quiet)
  | finish runner =>
      obtain ⟨_, _, rfl⟩ := taken
      obtain ⟨same, _, exits, _⟩ := l.flags_enter runner _
      rw [same]
      exact runs (exits.symm.trans quiet)

theorem Leaving.internal_step (h : l.Leaving) {event : LoopEvent}
    (internal : event.internal = true) (stepped : l.step event = some next)
    : next.Leaving := by
  cases exits : l.exiting with
  | some e => exact (h.step (by simp [exits]) internal stepped).1
  | none =>
      obtain ⟨runner, old, phase, _, _, _, rfl⟩ := internal_cases exits internal stepped
      obtain ⟨_, _, same, failed⟩ := l.flags_enter runner phase
      exact ⟨h.sound.step stepped, failed.trans h.going, fun e there => h.outside e (same ▸ there)⟩

/-- The loop runs and is not being stopped, with a thread of its own in the context. -/
structure Serving (l : EventLoop) : Prop where
  sound : l.Sound
  running : l.running = true
  stopped : l.stopped = false
  exiting : l.exiting = none
  going : l.failed = none
  thread : ∃ (number : Nat) (phase : Phase), l.phases[number]? = some phase ∧ phase ≠ .returned

theorem Serving.internal_step (h : l.Serving) {event : LoopEvent}
    (internal : event.internal = true) (stepped : l.step event = some next)
    : next.Serving := by
  have sound := h.sound.step stepped
  obtain ⟨runner, old, phase, found, _, stays, rfl⟩ := internal_cases h.exiting internal stepped
  obtain ⟨running, stopped, exiting, failed⟩ := l.flags_enter runner phase
  refine ⟨sound, running.trans h.running, stopped.trans h.stopped, exiting.trans h.exiting,
    failed.trans h.going, ?_⟩
  obtain ⟨number, there, held, inContext⟩ := h.thread
  cases runner with
  | caller => exact ⟨number, there, held, inContext⟩
  | thread other =>
      by_cases same : other = number
      case neg => exact ⟨number, there, (List.getElem?_set_ne same).trans held, inContext⟩
      case pos =>
        have known : other < l.phases.length := (List.getElem?_eq_some_iff.mp found).1
        exact ⟨other, phase, List.getElem?_set_self known, stays h.stopped⟩

/-- A loop that serves is in an `Exit` as soon as it is called. -/
theorem Serving.exit (h : l.Serving) {inside : Option Runner}
    (exits : l.step (.exit inside) = some next)
    : next.InExitOf inside ∧ next.failed = none := by
  obtain ⟨_, _, _, made⟩ := step_cases exits
  have sound := h.sound.step exits
  rw [EventLoop.exit, if_neg (by simp [h.running])] at made
  subst made
  exact ⟨⟨sound, _, rfl, rfl⟩, h.going⟩

/-- Outside of the loop's own threads it then leaves. -/
theorem InExitOf.leaving (h : l.InExitOf none) (going : l.failed = none) : l.Leaving := by
  obtain ⟨sound, e, exits, own⟩ := h
  refine ⟨sound, going, fun other there number => ?_⟩
  obtain rfl := Option.some.inj (exits.symm.trans there)
  simp [own]

/-- The phases of threads that were just started. -/
theorem spawns_phases (l : EventLoop) (count : Nat)
    : (l.spawns count).phases = l.phases ++ List.replicate count .waiting := by
  induction count generalizing l with
  | zero => simp [spawns]
  | succ count ih =>
      rw [spawns, ih]
      simp [spawn, List.replicate_succ]

/-- A new loop that runs at least one thread serves. -/
theorem serving_create {threadCount : Int} (threads : 1 ≤ threadCount)
    : (create threadCount).loop.Serving := by
  have sound := (sound_create threadCount).loop (.inr rfl)
  obtain ⟨kept, _, running, _, _⟩ :=
    ((sound_create threadCount).starting rfl).spawns threadCount.toNat
  have made : (create threadCount).loop = (create threadCount).reset.spawns threadCount.toNat := rfl
  have stopped : ∀ (count : Nat) (l : EventLoop), l.stopped = false → l.failed = none →
      (l.spawns count).stopped = false ∧ (l.spawns count).failed = none := by
    intro count
    induction count with
    | zero => exact fun l stays goes => ⟨stays, goes⟩
    | succ count ih => exact fun l stays goes => ih l.spawn stays goes
  obtain ⟨stays, goes⟩ := stopped threadCount.toNat (create threadCount).reset rfl rfl
  refine ⟨sound, running, stays, kept.exiting, goes, 0, .waiting, ?_, by simp⟩
  rw [made, spawns_phases]
  simp [create, reset, List.getElem?_replicate]
  omega

end EventLoop

end Nbsdk.Base
