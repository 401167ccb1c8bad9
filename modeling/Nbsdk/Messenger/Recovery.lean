import Nbsdk.Messenger.Notifications

/-! Which waits the recovery handler connects for.
The handler looks at the messenger's state and neither at the error of its wait nor at
`try_to_recovery_`, so a wait that was called off connects unless the state stops it. The
state is what the session reported last, and `try_to_recovery_` what the user called last.
-/

namespace Nbsdk.Messenger

-----------------------------------------------------------------------------------------
-- What the events alone tell
-----------------------------------------------------------------------------------------

/-- `Open` turns the recovery on and `Close` turns it off. -/
def UserCall.recovers? : UserCall → Option Bool
  | .open => some true
  | .close => some false
  | .sendMessage _ => none

/-- The recovery is on behind these calls: `Open` was the last of the two calls, or neither
was made and it was on before.
-/
def UserCall.recovering (before : Bool) (userCalls : List UserCall) : Bool :=
  (userCalls.filterMap recovers?).getLast?.getD before

/-- Calls behind others start from what those left. -/
theorem UserCall.recovering_append (before : Bool) (first second : List UserCall)
    : recovering before (first ++ second) = recovering (recovering before first) second := by
  simp only [recovering, List.filterMap_append, List.getLast?_append]
  cases (second.filterMap recovers?).getLast? <;> rfl

namespace MessengerEvent

/-- The event calls the listener, if it is alive. -/
def notifies : MessengerEvent → Bool
  | .handshaken _ _ | .closed none _ | .read _ none _ => true
  | .resolved (some _) _ | .connected (some _) _ | .written _ (some _) _ => true
  | .read _ (some ec) _ => ec.kind = .other
  | .resolved none _ | .connected none _ | .written _ none _ | .closed (some _) _
  | .user _ | .listener _ | .timerExpires | .runWait _ | .sendPosted => false

/-- The listener is alive behind the event. -/
def listens (listening : Bool) : MessengerEvent → Bool
  | .listener alive => alive
  | _ => listening

/-- The calls that the user makes in the event: from outside, or as a live listener. -/
def made (listening : Bool) : MessengerEvent → List UserCall
  | .user call => [call]
  | event => if listening ∧ event.notifies then event.reaction else []

/-- The calls that the user makes in these events, the listener being alive at first or not. -/
def callsMade (listening : Bool) : List MessengerEvent → List UserCall
  | [] => []
  | event :: rest => event.made listening ++ callsMade (event.listens listening) rest

/-- The listener is alive behind these events. -/
def listensAfter (listening : Bool) (events : List MessengerEvent) : Bool :=
  events.foldl listens listening

theorem callsMade_concat (listening : Bool) (events : List MessengerEvent)
    (event : MessengerEvent)
    : callsMade listening (events ++ [event])
      = callsMade listening events ++ event.made (listensAfter listening events) := by
  induction events generalizing listening with
  | nil => simp [callsMade, listensAfter]
  | cons first rest ih => simp [callsMade, listensAfter, ih (first.listens listening)]

/-- `Open` rather than `Close` was called last in these events, or neither was called. -/
def OpenedLast (listening : Bool) (events : List MessengerEvent) : Prop :=
  UserCall.recovering true (callsMade listening events) = true

/-- The session reported last in these events that it closed, or it reported nothing. -/
def ClosedLast (events : List MessengerEvent) : Prop :=
  ∀ report ∈ (reports events).getLast?, report = .closed

/-- An event calls the listener exactly where its callback passes a notification on. -/
theorem notifies_eq (s : WebsocketSession) (event : MessengerEvent)
    : ((event.notice? s).bind WebsocketMessenger.notification?).isSome = event.notifies := by
  cases event with
  | user | listener | timerExpires | runWait | sendPosted => rfl
  | resolved ec reaction | connected ec reaction | handshaken ec reaction
  | closed ec reaction | written data ec reaction =>
      cases ec <;> rfl
  | read bytes ec reaction =>
      cases ec with
      | none => rfl
      | some ec =>
          obtain ⟨kind, message⟩ := ec
          cases kind <;> rfl

end MessengerEvent

-----------------------------------------------------------------------------------------
-- The messenger follows them
-----------------------------------------------------------------------------------------

namespace WebsocketMessenger

/-- The user's calls turn the recovery on and off, by induction over them. -/
theorem calls_tryToRecovery (userCalls : List UserCall) (m : WebsocketMessenger)
    : (calls userCalls m).2.tryToRecovery = UserCall.recovering m.tryToRecovery userCalls := by
  induction userCalls generalizing m with
  | nil => rfl
  | cons first rest ih =>
      rw [← List.singleton_append, UserCall.recovering_append]
      refine (ih (call first m).2).trans (congrArg (UserCall.recovering · rest) ?_)
      cases first <;> rfl

/-- A notification lets a live listener call. -/
theorem notify_tryToRecovery (notification : Notification) (reaction : List UserCall)
    (m : WebsocketMessenger)
    : (notify notification reaction m).2.tryToRecovery
      = UserCall.recovering m.tryToRecovery (if m.listening then reaction else []) := by
  simp only [notify]
  split
  · exact calls_tryToRecovery ..
  · rfl

/-- A callback that passes a notification on lets a live listener call. -/
theorem callbacks_tryToRecovery (reaction : List UserCall) (notice : Notice)
    (m : WebsocketMessenger)
    : (callbacks reaction notice m).2.tryToRecovery
      = UserCall.recovering m.tryToRecovery
          (if m.listening ∧ (notification? notice).isSome then reaction else []) := by
  cases notice with
  | connected | closed | received =>
      refine (notify_tryToRecovery ..).trans ?_
      simp [notification?]
  | error error reason =>
      have arms
          : ∀ m : WebsocketMessenger,
              (if error.needRestore ∧ m.tryToRecovery then m.armRecovery else m).tryToRecovery
              = m.tryToRecovery := by
        intro m
        split <;> rfl
      have passed : (notification? (.error error reason)).isSome = error.code?.isSome :=
        Option.isSome_map
      simp only [callbacks, onErrorCallback, passed]
      refine (arms _).trans ?_
      cases error.code? with
      | none => simp [UserCall.recovering]
      | some code =>
          refine (notify_tryToRecovery ..).trans ?_
          simp

/-- A callback leaves the listener alive or not as it was. -/
theorem callbacks_listening (reaction : List UserCall) (notice : Notice)
    (m : WebsocketMessenger)
    : (callbacks reaction notice m).2.listening = m.listening := by
  refine callbacks_preserve (fun next => next.listening = m.listening) ?_ ?_ ?_ ?_ rfl
  · exact fun _ same => same
  · exact fun _ _ same => same
  · intro m userCall _ same
    cases userCall <;> exact same
  · exact fun _ same => same

/-- A callback issues no recovery; it may arm the timer. -/
theorem callbacks_recoveries (m : WebsocketMessenger) (notice : Notice)
    (reaction : List UserCall)
    : (callbacks reaction notice m).2.recoveries = m.recoveries := by
  refine callbacks_preserve (fun next => next.recoveries = m.recoveries) ?_ ?_ ?_ ?_ rfl
  · exact fun _ same => same
  · exact fun _ _ same => same
  · intro m userCall _ same
    cases userCall <;> exact same
  · exact fun _ same => same

/-- The recovery that an event issues. -/
def recovered (m : WebsocketMessenger) : MessengerEvent → List Recovery
  | .runWait result =>
      if m.state ≠ .kMessengerClosed then [⟨result, m.tryToRecovery⟩] else []
  | _ => []

end WebsocketMessenger

namespace MessengerSystem

/-- A step issues the recovery of its event, by the cases of the event. -/
theorem step_recoveries {w next : MessengerSystem} {event : MessengerEvent}
    (stepped : w.step event = some next)
    : next.owner.recoveries = w.owner.recoveries ++ w.owner.recovered event := by
  rw [step_owner stepped]
  cases event with
  | user call => cases call <;> simp [ownerAfter, WebsocketMessenger.call,
      WebsocketMessenger.recovered]
  | listener | timerExpires => simp [ownerAfter, WebsocketMessenger.recovered]
  | runWait result =>
      simp only [ownerAfter, WebsocketMessenger.onRecoveryWait, WebsocketMessenger.recovered]
      split
      · rfl
      · exact (List.append_nil _).symm
  | sendPosted | resolved | connected | handshaken | closed | written | read =>
      simp only [ownerAfter, WebsocketMessenger.recovered, List.append_nil]
      split
      · rfl
      · exact WebsocketMessenger.callbacks_recoveries ..

/-- What a messenger is behind these events: its state is what was reported last, and the
recovery is on unless `Close` was called last.
-/
structure Standing (listening : Bool) (events : List MessengerEvent) (m : WebsocketMessenger)
    : Prop where
  alive : m.listening = MessengerEvent.listensAfter listening events
  recovery
    : m.tryToRecovery
      = UserCall.recovering true (MessengerEvent.callsMade listening events)
  state
    : m.state
      = ((MessengerEvent.reports events).getLast?.map Report.state).getD .kMessengerClosed

/-- One more event that hands on what it tells. -/
theorem Standing.concat {listening : Bool} {events : List MessengerEvent}
    {event : MessengerEvent} {m after : WebsocketMessenger} (h : Standing listening events m)
    (alive : after.listening = event.listens m.listening)
    (recovery
      : after.tryToRecovery = UserCall.recovering m.tryToRecovery (event.made m.listening))
    (state : after.state = (event.report?.map Report.state).getD m.state)
    : Standing listening (events ++ [event]) after where
  alive := by
    rw [alive, h.alive, MessengerEvent.listensAfter, MessengerEvent.listensAfter,
      List.foldl_append]
    rfl
  recovery := by
    rw [recovery, h.recovery, h.alive, MessengerEvent.callsMade_concat,
      UserCall.recovering_append]
  state := by
    rw [state, h.state, MessengerEvent.reports_concat]
    cases event.report? <;> simp

/-- Every step hands on what its event tells; a completion does so through its callback. -/
theorem step_standing {w next : MessengerSystem} {event : MessengerEvent} {listening : Bool}
    {events : List MessengerEvent} (stepped : w.step event = some next)
    (h : Standing listening events w.owner)
    : Standing listening (events ++ [event]) next.owner := by
  rw [step_owner stepped]
  cases event with
  | user call => cases call <;> exact h.concat rfl rfl rfl
  | listener | timerExpires | sendPosted =>
      refine h.concat rfl ?_ rfl
      simp [MessengerEvent.made, MessengerEvent.notifies, UserCall.recovering, ownerAfter,
        MessengerEvent.notice?, MessengerEvent.toSession, SessionEvent.notice?]
  | runWait result =>
      simp only [ownerAfter, WebsocketMessenger.onRecoveryWait]
      have quiet
          : UserCall.recovering w.owner.tryToRecovery
              (MessengerEvent.made w.owner.listening (.runWait result))
            = w.owner.tryToRecovery := by
        simp [MessengerEvent.made, MessengerEvent.notifies, UserCall.recovering]
      split <;> exact h.concat rfl quiet.symm rfl
  | resolved ec reaction | connected ec reaction | handshaken ec reaction
  | closed ec reaction | written data ec reaction | read bytes ec reaction =>
      apply h.concat
      · simp only [ownerAfter]
        split
        · rfl
        · exact WebsocketMessenger.callbacks_listening ..
      · simp only [ownerAfter, MessengerEvent.made, ← MessengerEvent.notifies_eq w.session]
        split
        case h_1 quiet => simp [quiet, UserCall.recovering]
        case h_2 notice told =>
          rw [told, Option.bind_some]
          exact WebsocketMessenger.callbacks_tryToRecovery ..
      · rw [← MessengerEvent.report?_eq w.session]
        simp only [ownerAfter]
        split
        case h_1 quiet => simp [quiet]
        case h_2 notice told =>
          rw [told, Option.bind_some, ← WebsocketMessenger.entered?_eq]
          exact WebsocketMessenger.callbacks_state ..

/-- A messenger is behind a run what the events tell, by induction over them. -/
theorem run_standing {listening : Bool} {events : List MessengerEvent}
    {final : MessengerSystem} (ran : (create listening).run events = some final)
    : Standing listening events final.owner :=
  Machine.follow_history (fun events w => Standing listening events w.owner)
    (fun h stepped => step_standing stepped h) ⟨rfl, rfl, rfl⟩ ran

/-- A messenger is closed exactly behind a report of a completed close, or behind none. -/
theorem Standing.closed_iff {listening : Bool} {events : List MessengerEvent}
    {m : WebsocketMessenger} (h : Standing listening events m)
    : m.state = .kMessengerClosed ↔ MessengerEvent.ClosedLast events := by
  rw [h.state, MessengerEvent.ClosedLast]
  cases (MessengerEvent.reports events).getLast? with
  | none => simp
  | some report => cases report <;> simp [Report.state]

end MessengerSystem

-----------------------------------------------------------------------------------------
-- Genuine recoveries
-----------------------------------------------------------------------------------------

/-- The recovery was issued by a wait that expired, with no `Close` since the last `Open`. -/
def Recovery.Genuine (r : Recovery) : Prop := r.result = .noError ∧ r.tryToRecovery = true

/-- An event issues genuine recoveries only, by the state in which its handler runs. -/
theorem WebsocketMessenger.recovered_genuine_iff (m : WebsocketMessenger)
    (event : MessengerEvent)
    : (∀ recovery ∈ m.recovered event, recovery.Genuine)
      ↔ ∀ result,
          event = .runWait result
          → (result = .noError ∧ m.tryToRecovery = true) ∨ m.state = .kMessengerClosed := by
  cases event with
  | runWait result =>
      simp only [recovered, MessengerEvent.runWait.injEq, forall_eq']
      by_cases closed : m.state = .kMessengerClosed
      · simp [closed]
      · simp [closed, Recovery.Genuine]
  | user | listener | timerExpires | sendPosted | resolved | connected | handshaken
  | closed | written | read =>
      simp [recovered]

/-- In a run every `Connect` of the recovery handler comes from a wait that expired, with
no `Close` since the last `Open`, exactly when every wait handler that runs has expired with
`Open` called last before it, or runs when the session's last report was a completed close.
-/
theorem MessengerSystem.recoveries_genuine_iff (listening : Bool)
    (events : List MessengerEvent) (final : MessengerSystem)
    (ran : (create listening).run events = some final)
    : (∀ recovery ∈ final.owner.recoveries, recovery.Genuine)
      ↔ ∀ before result after,
          events = before ++ .runWait result :: after
          → (result = .noError ∧ MessengerEvent.OpenedLast listening before)
            ∨ MessengerEvent.ClosedLast before := by
  have guarded_iff
      : ∀ {before reached}, (create listening).run before = some reached →
          ∀ result : WaitResult,
            ((result = .noError ∧ reached.owner.tryToRecovery = true)
              ∨ reached.owner.state = .kMessengerClosed)
            ↔ ((result = .noError ∧ MessengerEvent.OpenedLast listening before)
              ∨ MessengerEvent.ClosedLast before) := by
    intro before reached there result
    have standing := run_standing there
    rw [standing.closed_iff, standing.recovery, MessengerEvent.OpenedLast]
  rw [Machine.follow_iff (fun w : MessengerSystem => ∀ recovery ∈ w.owner.recoveries,
    recovery.Genuine) (fun w event => ∀ recovery ∈ w.owner.recovered event, recovery.Genuine)
    ?_ ?_ ran]
  · simp only [WebsocketMessenger.recovered_genuine_iff]
    constructor
    · intro guarded before result after split
      obtain ⟨reached, there, _⟩ := Machine.follow_append_iff.mp (split ▸ ran)
      exact (guarded_iff there result).mp (guarded before _ after reached split there result rfl)
    · rintro restrained before event after reached split there result rfl
      exact (guarded_iff there result).mpr (restrained before result after split)
  · intro state event next stepped
    rw [step_recoveries stepped]
    simp only [List.mem_append, or_imp, forall_and]
  · intro recovery member
    exact absurd member List.not_mem_nil

/-- A name that cannot be resolved. -/
def hostNotFound : ErrorCode := ⟨.other, "Host not found"⟩

/-- The name cannot be resolved, and the recovery wait expires. The name still cannot be
resolved, the user closes, and the second wait's handler runs when the session is closed.
-/
def recoveredOnce : List MessengerEvent :=
  [.user .open, .resolved (some hostNotFound) [], .timerExpires, .runWait .noError,
    .resolved (some hostNotFound) [], .user .close, .closed none [],
    .runWait .operationAborted]

/-- The equivalence at a run in which one wait expires and one is cancelled. -/
theorem MessengerSystem.recoveries_genuine_iff_expired
    : ∃ final,
        (create true).run recoveredOnce = some final
        ∧ final.owner.recoveries = [⟨.noError, true⟩]
        ∧ ∀ before result after,
            recoveredOnce = before ++ .runWait result :: after
            → (result = .noError ∧ MessengerEvent.OpenedLast true before)
              ∨ MessengerEvent.ClosedLast before := by
  refine ⟨_, rfl, rfl, (recoveries_genuine_iff true recoveredOnce _ rfl).mp ?_⟩
  intro recovery member
  obtain rfl : recovery = ⟨.noError, true⟩ := List.mem_singleton.mp member
  exact ⟨rfl, rfl⟩

/-- The name cannot be resolved, and the user closes before the wait expires. -/
def closedThenRecovered : List MessengerEvent :=
  [.user .open, .resolved (some hostNotFound) [], .user .close,
    .runWait .operationAborted]

/-- The cancelled wait connects after the close. -/
theorem MessengerSystem.cancelled_wait_connects
    : ¬ ∀ (events : List MessengerEvent) (final : MessengerSystem),
        (create true).run events = some final
        → ∀ recovery ∈ final.owner.recoveries, recovery.Genuine := by
  intro claim
  have genuine : Recovery.Genuine ⟨.operationAborted, false⟩ :=
    claim closedThenRecovered _ rfl _ (List.mem_singleton.mpr rfl)
  exact absurd genuine.2 Bool.false_ne_true

end Nbsdk.Messenger
