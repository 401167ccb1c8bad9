import Nbsdk.Base.Exit
import Nbsdk.Messenger.Agreement
import Nbsdk.Messenger.Closing
import Nbsdk.Messenger.Destruction

/-! The end of a messenger, with its event loop and its session.
The destructor of websocket_messenger.cc closes the session and stops the loop, while the
threads of the loop may still be in handlers. The callbacks know the messenger by its address,
and by then `shared_from_this()` throws in it.
-/

namespace Nbsdk.Messenger

open Base (EventLoop LoopEvent Runner Phase)

/-- How far the destructor has come, and in which thread's handler it runs, if in one. -/
inductive Stage
  | alive
  | closed (inside : Option Nat)
  | exiting
  | destroyed
  deriving DecidableEq, Repr

/-- A messenger with its event loop; an exception that leaves a handler or a destructor ends
the process.
-/
structure Application where
  loop : EventLoop
  system : MessengerSystem
  stage : Stage
  threw : Bool

/-- A call or another event outside of the loop, a handler in one of its threads, a step of
its threads, or one of the destructor: `Close`, `Exit` and the members' destructors.
-/
inductive ApplicationEvent
  | outside (event : MessengerEvent)
  | handler (number : Nat) (event : MessengerEvent)
  | loop (event : LoopEvent)
  | release (inside : Option Nat)
  | exit
  | destroy
  deriving DecidableEq, Repr

/-- The event is not a handler of the messenger's loop. -/
def MessengerEvent.isOutside : MessengerEvent → Bool
  | .user _ | .listener _ | .timerExpires => true
  | _ => false

/-- The event reaches a live listener, which gets a reference to the messenger. -/
def MessengerSystem.notifies (w : MessengerSystem) (event : MessengerEvent) : Bool :=
  w.owner.listening
    && ((event.notice? w.session).bind WebsocketMessenger.notification?).isSome

namespace Application

/-- The constructor. -/
def create (listening : Bool) (threadCount : Int) : Application where
  loop := (EventLoop.create threadCount).loop
  system := .create listening
  stage := .alive
  threw := false

def terminated (a : Application) : Bool := a.threw || a.loop.failed.isSome

/-- The thread in whose handler the destructor runs. -/
def occupied (a : Application) : Option Runner :=
  match a.stage with
  | .closed inside => inside.map Runner.thread
  | _ => a.loop.exiting.bind Base.Exiting.inside

/-- What the destructor leaves to others: the listener may die and the timer expire. -/
def AllowsOutside (a : Application) (event : MessengerEvent) : Prop :=
  event.isOutside = true ∧ (a.stage = .alive ∨ event = .listener false ∨ event = .timerExpires)

instance (a : Application) (event : MessengerEvent) : Decidable (a.AllowsOutside event) :=
  inferInstanceAs (Decidable (_ ∧ _))

/-- A handler runs in a thread that is in one and that the destructor does not occupy. -/
def AllowsHandler (a : Application) (number : Nat) (event : MessengerEvent) : Prop :=
  event.isOutside = false
  ∧ a.loop.phase? (.thread number) = some .handling
  ∧ a.occupied ≠ some (.thread number)

instance (a : Application) (number : Nat) (event : MessengerEvent)
    : Decidable (a.AllowsHandler number event) :=
  inferInstanceAs (Decidable (_ ∧ _ ∧ _))

def AllowsLoop (a : Application) (event : LoopEvent) : Prop :=
  event.internal = true ∧ ∀ runner ∈ a.occupied, event ≠ .finish runner

instance (a : Application) (event : LoopEvent) : Decidable (a.AllowsLoop event) :=
  inferInstanceAs (Decidable (_ ∧ _))

def step (a : Application) (event : ApplicationEvent) : Option Application :=
  if a.terminated then none
  else
    match event with
    | .outside event =>
        if a.AllowsOutside event then
          (a.system.step event).map (fun system => { a with system })
        else none
    | .handler number event =>
        if a.AllowsHandler number event then
          -- without a reference left, shared_from_this() throws
          (a.system.step event).map (fun system =>
            { a with system, threw := a.stage ≠ .alive && a.system.notifies event })
        else none
    | .loop event =>
        if a.AllowsLoop event then (a.loop.step event).map (fun loop => { a with loop })
        else none
    | .release inside =>
        if a.stage = .alive
            ∧ ∀ number ∈ inside, a.loop.phase? (.thread number) = some .handling then
          (a.system.step (.user .close)).map (fun system =>
            { a with system, stage := .closed inside })
        else none
    | .exit =>
        match a.stage with
        | .closed inside =>
            (a.loop.step (.exit (inside.map Runner.thread))).map (fun loop =>
              { a with loop, stage := .exiting })
        | _ => none
    | .destroy =>
        if a.stage = .exiting ∧ a.loop.exiting = none then
          some
            { a with
              stage := .destroyed
              threw :=
                match a.system.session.destroy with
                | .ok _ => false
                | .error _ => true }
        else none

/-- The state after these events, if each was enabled in its turn. -/
def run (a : Application) (events : List ApplicationEvent) : Option Application :=
  Machine.follow step a events

/-- What a step has found and what it has done, for each event. -/
theorem step_cases {a next : Application} {event : ApplicationEvent}
    (stepped : a.step event = some next)
    : a.terminated = false
      ∧ match event with
        | .outside event =>
            a.AllowsOutside event
            ∧ ∃ system, a.system.step event = some system ∧ { a with system } = next
        | .handler number event =>
            a.AllowsHandler number event
            ∧ ∃ system,
                a.system.step event = some system
                ∧ { a with system, threw := a.stage ≠ .alive && a.system.notifies event } = next
        | .loop event =>
            a.AllowsLoop event ∧ ∃ loop, a.loop.step event = some loop ∧ { a with loop } = next
        | .release inside =>
            (a.stage = .alive
              ∧ ∀ number ∈ inside, a.loop.phase? (.thread number) = some .handling)
            ∧ ∃ system,
                a.system.step (.user .close) = some system
                ∧ { a with system, stage := .closed inside } = next
        | .exit =>
            ∃ inside loop,
              a.stage = .closed inside
              ∧ a.loop.step (.exit (inside.map Runner.thread)) = some loop
              ∧ { a with loop, stage := .exiting } = next
        | .destroy =>
            (a.stage = .exiting ∧ a.loop.exiting = none)
            ∧ { a with
                  stage := .destroyed
                  threw :=
                    match a.system.session.destroy with
                    | .ok _ => false
                    | .error _ => true } = next := by
  simp only [step] at stepped
  split at stepped
  case isTrue => contradiction
  case isFalse going =>
    refine ⟨by simpa using going, ?_⟩
    cases event with
    | exit =>
        cases stage : a.stage with
        | closed inside =>
            simp only [stage, Option.map_eq_some_iff] at stepped
            obtain ⟨loop, exits, made⟩ := stepped
            exact ⟨inside, loop, rfl, exits, made⟩
        | alive | exiting | destroyed => simp [stage] at stepped
    | outside | handler | loop | release | destroy =>
        simpa only [Option.ite_none_right_eq_some, Option.map_eq_some_iff, Option.some.injEq]
          using stepped

-----------------------------------------------------------------------------------------
-- No callback behind the destructor
-----------------------------------------------------------------------------------------

/-- The loop runs until the destructor has called `Exit` and it has returned. -/
structure Ordered (a : Application) : Prop where
  sound : a.loop.Sound
  agree : Agree a.system.session.state a.system.owner.state
  before
    : a.stage ≠ .exiting → a.stage ≠ .destroyed
      → a.loop.running = true ∧ a.loop.exiting = none
  leaving : a.stage = .exiting → a.loop.exiting = none → a.loop.running = false
  behind : a.stage = .destroyed → a.loop.exiting = none ∧ a.loop.running = false

theorem ordered_create (listening : Bool) (threadCount : Int)
    : (create listening threadCount).Ordered := by
  have sound := (EventLoop.sound_create threadCount).loop (.inr rfl)
  obtain ⟨kept, _, running, _, _⟩ :=
    ((EventLoop.sound_create threadCount).starting rfl).spawns threadCount.toNat
  exact ⟨sound, agree_closed, fun _ _ => ⟨running, kept.exiting⟩, by simp [create],
    by simp [create]⟩

/-- Only the destructor changes the stage, and it goes through its stages in their order. -/
theorem Ordered.step {a next : Application} {event : ApplicationEvent} (h : a.Ordered)
    (stepped : a.step event = some next)
    : next.Ordered := by
  have taken := (step_cases stepped).2
  cases event with
  | outside event =>
      obtain ⟨_, system, moved, rfl⟩ := taken
      exact ⟨h.sound, MessengerSystem.step_agree moved h.agree, h.before, h.leaving, h.behind⟩
  | handler number event =>
      obtain ⟨_, system, moved, rfl⟩ := taken
      exact ⟨h.sound, MessengerSystem.step_agree moved h.agree, h.before, h.leaving, h.behind⟩
  | loop event =>
      obtain ⟨⟨internal, _⟩, loop, moved, rfl⟩ := taken
      have kept
          : a.loop.exiting = none →
              loop.running = a.loop.running ∧ loop.exiting = none := by
        intro quiet
        obtain ⟨runner, _, phase, _, _, _, rfl⟩ := EventLoop.internal_cases quiet internal moved
        obtain ⟨running, _, exiting, _⟩ := a.loop.flags_enter runner phase
        exact ⟨running, exiting.trans quiet⟩
      refine ⟨h.sound.step moved, h.agree, ?_, ?_, ?_⟩
      · intro first second
        obtain ⟨running, quiet⟩ := h.before first second
        exact ⟨(kept quiet).1.trans running, (kept quiet).2⟩
      · exact fun stage => EventLoop.runs_step internal moved (h.leaving stage)
      · intro stage
        obtain ⟨quiet, rests⟩ := h.behind stage
        exact ⟨(kept quiet).2, (kept quiet).1.trans rests⟩
  | release inside =>
      obtain ⟨⟨alive, _⟩, system, moved, rfl⟩ := taken
      refine ⟨h.sound, MessengerSystem.step_agree moved h.agree, ?_, by simp, by simp⟩
      exact fun _ _ => h.before (by simp [alive]) (by simp [alive])
  | exit =>
      obtain ⟨inside, loop, stage, exits, rfl⟩ := taken
      obtain ⟨running, quiet⟩ := h.before (by simp [stage]) (by simp [stage])
      obtain ⟨_, _, _, made⟩ := EventLoop.step_cases exits
      have left : loop.exiting ≠ none := by
        rw [← made]
        simp [EventLoop.exit, running]
      exact ⟨h.sound.step exits, h.agree, by simp, fun _ ended => absurd ended left, by simp⟩
  | destroy =>
      obtain ⟨⟨stage, quiet⟩, rfl⟩ := taken
      exact ⟨h.sound, h.agree, by simp, by simp, fun _ => ⟨quiet, h.leaving stage quiet⟩⟩

/-- Once the destructor's `Exit` has returned, and behind the destructor, no handler runs: none
finds the messenger gone.
-/
theorem no_callback_behind_exit {listening : Bool} {threadCount : Int}
    {events : List ApplicationEvent} {a : Application}
    (ran : (create listening threadCount).run events = some a)
    (returned : a.stage = .destroyed ∨ a.stage = .exiting ∧ a.loop.exiting = none) (number : Nat)
    (event : MessengerEvent)
    : a.step (.handler number event) = none := by
  have ordered : a.Ordered :=
    Machine.follow_invariant Ordered (fun kept stepped => kept.step stepped)
      (ordered_create listening threadCount) ran
  have rests : a.loop.running = false := by
    rcases returned with destroyed | ⟨exiting, quiet⟩
    · exact (ordered.behind destroyed).2
    · exact ordered.leaving exiting quiet
  rw [Option.eq_none_iff_forall_not_mem]
  intro next stepped
  obtain ⟨⟨_, handling, _⟩, _⟩ := (step_cases stepped).2
  have member : Phase.handling ∈ a.loop.phases := List.mem_of_getElem? handling
  exact absurd ((ordered.sound.idle rests).2 _ member) (by decide)

/-- The messenger is released while its host is still being resolved. -/
def releasedResolving : List ApplicationEvent :=
  [.outside (.user .open), .release none, .exit, .loop (.leave (.thread 0)), .loop .join,
    .loop .exited]

/-- The resolve stays in flight, and its handler does not run. -/
theorem no_callback_behind_exit_resolving
    : ∃ a,
        (create true 1).run releasedResolving = some a
        ∧ .resolve ∈ a.system.session.operations
        ∧ ∀ ec reaction, a.step (.handler 0 (.resolved ec reaction)) = none := by
  obtain ⟨a, ran⟩ : ∃ a, (create true 1).run releasedResolving = some a := ⟨_, rfl⟩
  have left
      : (a.stage = .exiting ∧ a.loop.exiting = none) ∧ .resolve ∈ a.system.session.operations := by
    obtain rfl := Option.some.inj ran
    exact ⟨⟨rfl, rfl⟩, by decide⟩
  exact ⟨a, ran, left.2, fun ec reaction =>
    no_callback_behind_exit ran (Or.inr left.1) 0 (.resolved ec reaction)⟩

end Application

-----------------------------------------------------------------------------------------
-- What can still go wrong
-----------------------------------------------------------------------------------------

/-- The session is disconnected and nothing can change that: no operation is in flight, and
the posted sends, if there are any, wait behind a message that no write will take.
-/
structure WebsocketSession.Idle (s : WebsocketSession) : Prop where
  state : s.state = .kDisconnected
  operations : s.operations = []
  posted : s.posted = [] ∨ s.sendMsgQueue ≠ []

/-- Behind another message a sent one only waits. -/
theorem WebsocketSession.sendDataInner_of_waiting {s : WebsocketSession}
    (waiting : s.sendMsgQueue ≠ []) (data : Message)
    : s.sendDataInner data = { s with sendMsgQueue := s.sendMsgQueue ++ [data] } := by
  have longer : (s.sendMsgQueue ++ [data]).length > 1 := by
    have positive := List.length_pos_of_ne_nil waiting
    rw [List.length_append, List.length_singleton]
    omega
  rw [sendDataInner, if_pos longer]

/-- The operation completes with an error, and a listener that is told does nothing. -/
def Operation.failure : Operation → MessengerEvent
  | .resolve => .resolved (some reset) []
  | .connect => .connected (some reset) []
  | .handshake => .handshaken (some reset) []
  | .close => .closed (some reset) []
  | .write data => .written data (some reset) []
  | .read => .read [] (some reset) []

namespace MessengerSystem

/-- A posted send that finds no message before it starts its write. -/
theorem step_sendPosted {w : MessengerSystem} {data : Message} {rest : List Message}
    (posted : w.session.posted = data :: rest) (first : ¬ w.session.sendMsgQueue ≠ [])
    : ∃ next, w.step .sendPosted = some next ∧ .write data ∈ next.session.operations := by
  have empty : w.session.sendMsgQueue = [] := not_not.mp first
  have stepped : w.step .sendPosted = Hosted.step w .sendPosted := rfl
  simp only [stepped, Hosted.step, posted]
  refine ⟨_, rfl, ?_⟩
  simp [Hosted.onSession, WebsocketSession.sendDataInner, WebsocketSession.record, empty,
    WebsocketSession.writeFront, WebsocketSession.start]

theorem failure_quiet (operation : Operation) : operation.failure.Quiet := by
  constructor
  · cases operation <;> simp [Operation.failure, MessengerEvent.userCalls, MessengerEvent.reaction]
  · cases operation <;> simp [Operation.failure]

/-- Behind an event that connects nothing the session is in the state it called back in. -/
theorem quiet_state {w next : MessengerSystem} {event : MessengerEvent} (quiet : event.Quiet)
    (stepped : w.step event = some next)
    : next.session.state = (w.session.dial.atCalls event.toSession).state := by
  have silent : w.connectsIn event.toSession = false := by
    simpa [Hosted.connectsIn] using quiet.noConnect w
  have advanced := Hosted.step_dial (step_session stepped)
  rw [Dial.advance_eq, silent] at advanced
  exact congrArg Dial.state advanced

/-- Any operation in flight can fail, and then the session is in error. -/
theorem step_failure {w : MessengerSystem} {operation : Operation}
    (flying : operation ∈ w.session.operations)
    : ∃ next, w.step operation.failure = some next ∧ next.session.state = .kError := by
  have enabled : ∃ next, w.step operation.failure = some next := by
    cases operation <;> exact ⟨_, by simp [step, Operation.failure, MessengerEvent.Enabled,
      MessengerEvent.toSession, Hosted.step, Hosted.complete, flying]; rfl⟩
  obtain ⟨next, stepped⟩ := enabled
  refine ⟨next, stepped, (quiet_state (failure_quiet operation) stepped).trans ?_⟩
  cases operation <;> rfl

/-- In an idle session only posted sends and waits are left, and neither starts anything. -/
theorem idle_step {w next : MessengerSystem} {event : MessengerEvent}
    (stepped : w.step event = some next) (handler : event.isOutside = false)
    (idle : w.session.Idle) (closed : w.owner.state = .kMessengerClosed)
    : next.session.Idle
      ∧ next.owner.state = .kMessengerClosed
      ∧ event.notice? w.session = none := by
  have taken := step_session stepped
  cases event with
  | user | listener | timerExpires => contradiction
  | runWait result =>
      obtain rfl := Option.some.inj taken
      have rested
          : (WebsocketMessenger.onRecoveryWait result w.owner).1 = []
            ∧ (WebsocketMessenger.onRecoveryWait result w.owner).2.state = .kMessengerClosed := by
        simp [WebsocketMessenger.onRecoveryWait, closed]
      simp only [Hosted.act, rested.1]
      exact ⟨idle, rested.2, rfl⟩
  | sendPosted =>
      simp only [MessengerEvent.toSession, Hosted.step] at taken
      split at taken
      case h_1 => contradiction
      case h_2 data rest posted =>
        obtain rfl := Option.some.inj taken
        have waiting : w.session.sendMsgQueue ≠ [] :=
          idle.posted.resolve_left (by simp [posted])
        have queued :=
          WebsocketSession.sendDataInner_of_waiting
            (s := { w.session with posted := rest }.record (.handed data)) waiting data
        refine ⟨?_, closed, rfl⟩
        simp only [Hosted.onSession]
        rw [queued]
        exact ⟨idle.state, idle.operations, Or.inr (by simp [WebsocketSession.record])⟩
  | resolved | connected | handshaken | closed | written | read =>
      simp [MessengerEvent.toSession, Hosted.step, Hosted.complete, idle.operations] at taken

end MessengerSystem

namespace Application

/-- The process can still be ended by an exception. -/
def Doomed (a : Application) : Prop :=
  ∃ more final, a.run more = some final ∧ final.terminated = true

/-- A step towards doom. -/
theorem Doomed.of_run {a next : Application} {events : List ApplicationEvent}
    (ran : a.run events = some next) (doomed : next.Doomed)
    : a.Doomed := by
  obtain ⟨more, final, later, ended⟩ := doomed
  exact ⟨events ++ more, final, Machine.follow_append_iff.mpr ⟨next, ran, later⟩, ended⟩

/-- The destructor has closed the session outside of the loop, which still serves. -/
structure Closing (a : Application) : Prop where
  stage : a.stage = .closed none
  threw : a.threw = false
  serving : a.loop.Serving

theorem Closing.terminated {a : Application} (h : a.Closing) : a.terminated = false := by
  simp [Application.terminated, h.threw, h.serving.going]

/-- In the stage of `Exit` the loop goes on as it does alone, by induction over its steps. -/
theorem run_loop {a : Application} (stage : a.stage = .exiting) (threw : a.threw = false)
    {events : List LoopEvent} {loop : EventLoop}
    (internal : ∀ event ∈ events, event.internal = true) (ran : a.loop.run events = some loop)
    : a.run (events.map ApplicationEvent.loop) = some { a with loop } := by
  induction events generalizing a with
  | nil =>
      obtain rfl := Option.some.inj ran
      rfl
  | cons event rest ih =>
      obtain ⟨next, stepped, later⟩ := Machine.follow_cons_iff.mp ran
      obtain ⟨going, taken⟩ := EventLoop.step_cases stepped
      have allowed : a.AllowsLoop event := by
        refine ⟨internal event List.mem_cons_self, ?_⟩
        rintro runner busy rfl
        have inExit : a.loop.exiting.bind Base.Exiting.inside = some runner := by
          simpa [occupied, stage] using busy
        exact taken.2.1 inExit
      have first : a.step (.loop event) = some { a with loop := next } := by
        simp [step, terminated, threw, going, allowed, stepped]
      refine Machine.follow_cons_iff.mpr ⟨_, first, ?_⟩
      exact ih stage threw (fun other member => internal other (List.mem_cons_of_mem event member))
        later

/-- The destructor calls `Exit`, and the loop goes on as it does alone. -/
theorem run_exit {a : Application} {inside : Option Nat} {left final : EventLoop}
    {more : List LoopEvent} (stage : a.stage = .closed inside) (threw : a.threw = false)
    (going : a.loop.failed = none)
    (exits : a.loop.step (.exit (inside.map Runner.thread)) = some left)
    (internal : ∀ event ∈ more, event.internal = true) (ran : left.run more = some final)
    : a.run (.exit :: more.map ApplicationEvent.loop)
      = some { a with loop := final, stage := .exiting } := by
  have first : a.step .exit = some { a with loop := left, stage := .exiting } := by
    simp [step, terminated, threw, going, stage, exits]
  refine Machine.follow_cons_iff.mpr ⟨_, first, ?_⟩
  exact run_loop (a := { a with loop := left, stage := .exiting }) rfl threw internal ran

/-- The destructor can run to its end, where an exception leaves it with a session that is
not disconnected.
-/
theorem Closing.reaches_destroyed {a : Application} (h : a.Closing)
    : ∃ more final,
        a.run more = some final
        ∧ final.stage = .destroyed
        ∧ final.terminated = decide (a.system.session.state ≠ .kDisconnected) := by
  obtain ⟨left, exits⟩ : ∃ left, a.loop.step (.exit none) = some left := by
    simp [EventLoop.step, h.serving.going, h.serving.exiting]
  obtain ⟨inExit, going⟩ := h.serving.exit exits
  obtain ⟨more, final, internal, ran, left_well, ended⟩ := (inExit.leaving going).reaches_end
  have leaves := run_exit h.stage h.threw h.serving.going exits internal ran
  obtain ⟨destroyed, last, stage, terminated⟩
      : ∃ destroyed,
          Application.step { a with loop := final, stage := .exiting } .destroy = some destroyed
          ∧ destroyed.stage = .destroyed
          ∧ destroyed.terminated = decide (a.system.session.state ≠ .kDisconnected) := by
    have going : Application.terminated { a with loop := final, stage := .exiting } = false := by
      simp [Application.terminated, h.threw, left_well.going]
    refine ⟨_, by simp only [Application.step, going, ended]; rfl, rfl, ?_⟩
    simp only [Application.terminated, left_well.going, WebsocketSession.destroy]
    by_cases down : a.system.session.state = .kDisconnected <;> simp [down]
  exact ⟨_, destroyed, Machine.follow_concat_iff.mpr ⟨_, leaves, last⟩, stage, terminated⟩

theorem Closing.doomed {a : Application} (h : a.Closing)
    (up : a.system.session.state ≠ .kDisconnected)
    : a.Doomed := by
  obtain ⟨more, final, ran, _, terminated⟩ := h.reaches_destroyed
  exact ⟨more, final, ran, terminated.trans (decide_eq_true up)⟩

/-- A thread that is in a handler goes on, and one that waits enters one. -/
theorem exists_handling {a : Application} (serving : a.loop.Serving) (threw : a.threw = false)
    (free : a.occupied = none)
    : ∃ before loop,
        before.length ≤ 1
        ∧ (∀ event ∈ before, ∃ internal, event = .loop internal)
        ∧ a.run before = some { a with loop }
        ∧ loop.Serving
        ∧ ∃ number, loop.phase? (.thread number) = some .handling := by
  obtain ⟨number, phase, found, inContext⟩ := serving.thread
  cases phase with
  | returned => contradiction
  | handling => exact ⟨[], a.loop, by simp, by simp, rfl, serving, number, found⟩
  | waiting =>
      have started
          : a.loop.step (.start (.thread number))
            = some (a.loop.enter (.thread number) .handling) := by
        simp [EventLoop.step, serving.going, serving.stopped, EventLoop.phase?, found]
      have known : number < a.loop.phases.length := (List.getElem?_eq_some_iff.mp found).1
      refine ⟨[.loop (.start (.thread number))], _, by simp, by simp, ?_,
        serving.internal_step rfl started, number, List.getElem?_set_self known⟩
      refine Machine.follow_cons_iff.mpr ⟨_, ?_, rfl⟩
      simp [step, terminated, threw, serving.going, AllowsLoop, LoopEvent.internal, free, started]

/-- A handler that can run still finds a thread to run in. -/
theorem Closing.handler {a : Application} (h : a.Closing) {event : MessengerEvent}
    (isHandler : event.isOutside = false) {system : MessengerSystem}
    (moved : a.system.step event = some system)
    : ∃ more mid,
        a.run more = some mid
        ∧ mid.system = system
        ∧ (mid.terminated = true ∨ mid.Closing)
        ∧ mid.threw = a.system.notifies event := by
  have free : a.occupied = none := by simp [occupied, h.stage]
  obtain ⟨before, loop, _, _, ran, serving, number, handling⟩ :=
    exists_handling h.serving h.threw free
  have runs
      : Application.step { a with loop := loop } (.handler number event)
        = some { a with loop := loop, system := system, threw := a.system.notifies event } := by
    have going : Application.terminated { a with loop := loop } = false := by
      simp [Application.terminated, h.threw, serving.going]
    have allowed : AllowsHandler { a with loop := loop } number event := by
      refine ⟨isHandler, handling, ?_⟩
      simp [occupied, h.stage]
    have behind : a.stage ≠ .alive := by simp [h.stage]
    simp only [Application.step, going, allowed, moved]
    simp [behind]
  refine ⟨before ++ [.handler number event], _,
    Machine.follow_concat_iff.mpr ⟨_, ran, runs⟩, rfl, ?_, rfl⟩
  cases threw : a.system.notifies event with
  | true => exact Or.inl (by simp [Application.terminated])
  | false => exact Or.inr ⟨h.stage, rfl, serving⟩

/-- An operation in flight fails, and the session is not disconnected any more. -/
theorem Closing.doomed_of_flying {a : Application} (h : a.Closing) {operation : Operation}
    (flying : operation ∈ a.system.session.operations)
    : a.Doomed := by
  obtain ⟨system, moved, error⟩ := MessengerSystem.step_failure flying
  have isHandler : operation.failure.isOutside = false := by cases operation <;> rfl
  obtain ⟨more, mid, ran, rfl, ended | closing, _⟩ := h.handler isHandler moved
  · exact ⟨more, mid, ran, ended⟩
  · exact (closing.doomed (by simp [error])).of_run ran

/-- Unless the session is idle, the process can still be ended. -/
theorem Closing.doomed_of_not_idle {a : Application} (h : a.Closing)
    (busy : ¬ a.system.session.Idle)
    : a.Doomed := by
  by_cases up : a.system.session.state = .kDisconnected
  case neg => exact h.doomed up
  cases operations : a.system.session.operations with
  | cons operation rest =>
      have flying : operation ∈ a.system.session.operations := by simp [operations]
      exact h.doomed_of_flying flying
  | nil =>
      -- What is posted is written at once, and the write can fail.
      have waits : ¬(a.system.session.posted = [] ∨ a.system.session.sendMsgQueue ≠ []) :=
        fun fine => busy ⟨up, operations, fine⟩
      obtain ⟨some_posted, no_queue⟩ := not_or.mp waits
      obtain ⟨data, rest, posted⟩ := List.exists_cons_of_ne_nil some_posted
      obtain ⟨system, moved, written⟩ := MessengerSystem.step_sendPosted posted no_queue
      obtain ⟨more, mid, ran, rfl, ended | closing, _⟩ := h.handler rfl moved
      · exact ⟨more, mid, ran, ended⟩
      · exact (closing.doomed_of_flying written).of_run ran

/-- The destructor runs in a handler, in which the `Exit` that follows joins its own thread. -/
theorem doomed_of_inside {a : Application} {number : Nat} (stage : a.stage = .closed (some number))
    (threw : a.threw = false) (serving : a.loop.Serving)
    (handling : a.loop.phase? (.thread number) = some .handling)
    : a.Doomed := by
  obtain ⟨left, exits⟩ : ∃ left, a.loop.step (.exit (some (.thread number))) = some left := by
    simp [EventLoop.step, serving.going, serving.exiting, handling]
  obtain ⟨inExit, _⟩ := serving.exit exits
  obtain ⟨more, final, internal, ran, _, failed⟩ := inExit.reaches_fault
  refine ⟨_, _, run_exit stage threw serving.going exits internal ran, ?_⟩
  simp [terminated, Option.isSome_iff_ne_none, failed]

-----------------------------------------------------------------------------------------
-- When the shutdown is safe
-----------------------------------------------------------------------------------------

/-- Until the destructor runs, the loop serves. -/
structure Serves (a : Application) : Prop where
  loop : a.loop.Serving
  threw : a.threw = false

theorem serves_step {a next : Application} {event : ApplicationEvent}
    (before : a.stage = .alive → a.Serves) (stepped : a.step event = some next)
    : next.stage = .alive → next.Serves := by
  have taken := (step_cases stepped).2
  intro alive
  cases event with
  | outside event =>
      obtain ⟨_, system, _, rfl⟩ := taken
      exact ⟨(before alive).loop, (before alive).threw⟩
  | handler number event =>
      obtain ⟨_, system, _, rfl⟩ := taken
      have here : a.stage = .alive := alive
      exact ⟨(before alive).loop, by simp [here]⟩
  | loop event =>
      obtain ⟨⟨internal, _⟩, loop, moved, rfl⟩ := taken
      exact ⟨(before alive).loop.internal_step internal moved, (before alive).threw⟩
  | release inside =>
      obtain ⟨_, system, _, rfl⟩ := taken
      contradiction
  | exit =>
      obtain ⟨_, loop, _, _, rfl⟩ := taken
      contradiction
  | destroy =>
      obtain ⟨_, rfl⟩ := taken
      contradiction

/-- Outside of the loop the destructor has closed a session that then rests. -/
structure Resting (a : Application) : Prop where
  outside : a.stage ≠ .alive ∧ ∀ number, a.stage ≠ .closed (some number)
  threw : a.threw = false
  loop : a.loop.Leaving
  idle : a.system.session.Idle
  closed : a.system.owner.state = .kMessengerClosed

theorem Resting.not_terminated {a : Application} (h : a.Resting) : a.terminated = false := by
  simp [Application.terminated, h.threw, h.loop.going]

/-- No step wakes the session, so that no callback finds the messenger gone. -/
theorem Resting.step {a next : Application} {event : ApplicationEvent} (h : a.Resting)
    (stepped : a.step event = some next)
    : next.Resting := by
  have taken := (step_cases stepped).2
  cases event with
  | outside event =>
      obtain ⟨⟨_, left⟩, system, moved, rfl⟩ := taken
      have session := MessengerSystem.step_session moved
      rcases left with alive | rfl | rfl
      · exact absurd alive h.outside.1
      · obtain rfl := Option.some.inj session
        exact ⟨h.outside, h.threw, h.loop, h.idle, h.closed⟩
      · obtain rfl := Option.some.inj session
        exact ⟨h.outside, h.threw, h.loop, h.idle, h.closed⟩
  | handler number event =>
      obtain ⟨⟨handler, _⟩, system, moved, rfl⟩ := taken
      obtain ⟨idle, closed, quiet⟩ := MessengerSystem.idle_step moved handler h.idle h.closed
      have silent : a.system.notifies event = false := by simp [MessengerSystem.notifies, quiet]
      exact ⟨h.outside, by simp [silent], h.loop, idle, closed⟩
  | loop event =>
      obtain ⟨⟨internal, _⟩, loop, moved, rfl⟩ := taken
      exact ⟨h.outside, h.threw, h.loop.internal_step internal moved, h.idle, h.closed⟩
  | release inside =>
      exact absurd taken.1.1 h.outside.1
  | exit =>
      obtain ⟨inside, loop, stage, exits, rfl⟩ := taken
      cases inside with
      | some number => exact absurd stage (h.outside.2 number)
      | none =>
          obtain ⟨_, _, _, made⟩ := EventLoop.step_cases exits
          have sound := h.loop.sound.step exits
          refine ⟨by simp, h.threw, ⟨sound, ?_, ?_⟩, h.idle, h.closed⟩
          · rw [← made, EventLoop.exit]
            split <;> exact h.loop.going
          · intro e there number
            rw [← made, EventLoop.exit] at there
            split at there
            · exact h.loop.outside e there number
            · obtain rfl := Option.some.inj there
              simp
  | destroy =>
      obtain ⟨_, rfl⟩ := taken
      refine ⟨by simp, ?_, h.loop, h.idle, h.closed⟩
      simp [WebsocketSession.destroy, h.idle.state]

/-- `Close` starts nothing exactly on a disconnected session. -/
theorem close_idle {w closed : MessengerSystem} (moved : w.step (.user .close) = some closed)
    : (closed.session.Idle ↔ w.session.Idle)
      ∧ closed.owner.state = w.owner.state := by
  obtain rfl := Option.some.inj (MessengerSystem.step_session moved)
  refine ⟨?_, rfl⟩
  change w.session.disconnect.Idle ↔ w.session.Idle
  rw [WebsocketSession.disconnect]
  split
  case isFalse => rfl
  case isTrue up =>
    refine iff_of_false (fun idle => ?_) (fun idle => up idle.state)
    simpa [WebsocketSession.start, WebsocketSession.record] using idle.operations

/-- A destructor that finds the session idle outside of the loop leaves all at rest. -/
theorem Serves.resting {a : Application} (h : a.Serves) {system : MessengerSystem}
    (idle : system.session.Idle) (closed : system.owner.state = .kMessengerClosed)
    : Resting { a with system, stage := .closed none } := by
  refine ⟨by simp, h.threw, ⟨h.loop.sound, h.loop.going, ?_⟩, idle, closed⟩
  intro e there
  simp [h.loop.exiting] at there

/-- All that can follow leaves the process alive. -/
theorem Resting.safe {a final : Application} {events : List ApplicationEvent} (h : a.Resting)
    (ran : a.run events = some final)
    : final.terminated = false :=
  (Machine.follow_invariant Resting (fun kept stepped => kept.step stepped) h
    ran).not_terminated

/-- The destructor and all that can follow leave the process alive exactly if it does not run
in a handler of the loop and finds the session idle: disconnected, without an operation in
flight, and with no posted message that would be written.
-/
theorem shutdown_safe_iff {listening : Bool} {threadCount : Int} (threads : 1 ≤ threadCount)
    {events : List ApplicationEvent} {a next : Application} {inside : Option Nat}
    (ran : (create listening threadCount).run events = some a)
    (released : a.step (.release inside) = some next)
    : (∀ more final, next.run more = some final → final.terminated = false)
      ↔ inside = none ∧ a.system.session.Idle := by
  have ordered : a.Ordered :=
    Machine.follow_invariant Ordered (fun kept stepped => kept.step stepped)
      (ordered_create listening threadCount) ran
  have serves : a.stage = .alive → a.Serves :=
    Machine.follow_invariant (fun a => a.stage = .alive → a.Serves)
      (fun kept stepped => serves_step kept stepped)
      (fun _ => ⟨EventLoop.serving_create threads, rfl⟩) ran
  obtain ⟨⟨alive, handling⟩, system, moved, rfl⟩ := (step_cases released).2
  obtain ⟨idle_iff, same⟩ := close_idle moved
  have serving := serves alive
  constructor
  · intro safe
    have saved : ¬ Doomed { a with system, stage := .closed inside } := by
      rintro ⟨more, final, later, ended⟩
      simp [safe more final later] at ended
    cases inside with
    | some number =>
        have doomed : Doomed { a with system, stage := .closed (some number) } :=
          doomed_of_inside (a := { a with system, stage := .closed (some number) }) rfl
            serving.threw serving.loop (handling number rfl)
        exact absurd doomed saved
    | none =>
        refine ⟨rfl, not_not.mp (fun busy => saved ?_)⟩
        have closing : Closing { a with system, stage := .closed none } :=
          ⟨rfl, serving.threw, serving.loop⟩
        exact closing.doomed_of_not_idle (fun idle => busy (idle_iff.mp idle))
  · rintro ⟨rfl, idle⟩ more final later
    have closed := same.trans (ordered.agree.disconnected idle.state)
    exact (serving.resting (idle_iff.mpr idle) closed).safe later

/-- The messenger connects and is closed, and the read of the connection ends. -/
def openedAndClosed : List ApplicationEvent :=
  [.outside (.user .open), .loop (.start (.thread 0)), .handler 0 (.resolved none []),
    .handler 0 (.connected none []), .handler 0 (.handshaken none []), .outside (.user .close),
    .handler 0 (.closed none []),
    .handler 0 (.read [] (some ⟨.operationCanceled, "Operation canceled"⟩) [])]

/-- A messenger that was connected and closed is destroyed outside of the loop. -/
theorem shutdown_safe_iff_closed
    : ∃ a next,
        (create true 2).run openedAndClosed = some a
        ∧ .entered .kConnected ∈ a.system.session.log
        ∧ a.step (.release none) = some next
        ∧ ∀ more final, next.run more = some final → final.terminated = false := by
  obtain ⟨a, ran⟩ : ∃ a, (create true 2).run openedAndClosed = some a := ⟨_, rfl⟩
  obtain ⟨next, released⟩ : ∃ next, a.step (.release none) = some next := by
    obtain rfl := Option.some.inj ran
    exact ⟨_, rfl⟩
  have idle
      : a.system.session.Idle ∧ .entered .kConnected ∈ a.system.session.log := by
    obtain rfl := Option.some.inj ran
    exact ⟨⟨rfl, rfl, Or.inl rfl⟩, by decide⟩
  exact ⟨a, next, ran, idle.2, released,
    (shutdown_safe_iff (by decide) ran released).mpr ⟨rfl, idle.1⟩⟩

end Application

end Nbsdk.Messenger
