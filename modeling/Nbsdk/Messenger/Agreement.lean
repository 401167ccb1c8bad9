import Nbsdk.Messenger.Attempts
import Nbsdk.Messenger.Messenger

/-! The messenger's state agrees with the state of its session.
Each handler updates the session's state before it calls back, and the callback updates the
messenger's before the listener can call into the session again.
-/

namespace Nbsdk.Messenger

/-- The messenger's states that go with a state of the session. -/
structure Agree (session : SessionState) (messenger : MessengerState) : Prop where
  disconnected : session = .kDisconnected → messenger = .kMessengerClosed
  connected : session = .kConnected → messenger = .kMessengerOpened
  error : session = .kError → messenger = .kMessengerError
  connecting
    : session = .kConnecting
      → messenger = .kMessengerClosed ∨ messenger = .kMessengerError
  known : session ≠ .kUnknown ∧ messenger ≠ .kUnknownState

/-- The states that the handlers enter with their callbacks. -/
theorem agree_closed : Agree .kDisconnected .kMessengerClosed := by
  constructor <;> simp

theorem agree_opened : Agree .kConnected .kMessengerOpened := by
  constructor <;> simp

theorem agree_error : Agree .kError .kMessengerError := by
  constructor <;> simp

/-- A `Connect` that takes effect leaves the messenger closed or in error. -/
theorem Agree.calls {d : Dial} {messenger : MessengerState} (h : Agree d.state messenger)
    (connects : Bool)
    : Agree (d.calls connects).state messenger := by
  cases connects with
  | false => exact h
  | true =>
      simp only [Dial.calls, if_true, Dial.connect]
      split
      case isFalse => exact h
      case isTrue down =>
        have left : messenger = .kMessengerClosed ∨ messenger = .kMessengerError :=
          down.imp h.disconnected h.error
        constructor
        case connecting => exact fun _ => left
        case known => exact ⟨by simp, h.known.2⟩
        all_goals simp

namespace WebsocketMessenger

theorem calls_state (userCalls : List UserCall) (m : WebsocketMessenger)
    : (calls userCalls m).2.state = m.state := by
  apply calls_preserve (fun next => next.state = m.state)
  · intro m userCall _ same
    cases userCall <;> exact same
  · rfl

theorem notify_state (notification : Notification) (reaction : List UserCall)
    (m : WebsocketMessenger)
    : (notify notification reaction m).2.state = m.state := by
  simp only [notify]
  split
  · exact calls_state ..
  · rfl

/-- The state that a callback enters, if it enters one. -/
def entered? : Notice → Option MessengerState
  | .connected => some .kMessengerOpened
  | .closed => some .kMessengerClosed
  | .error _ _ => some .kMessengerError
  | .received _ => none

/-- A callback enters its state, which the listener's calls keep. -/
theorem callbacks_state (reaction : List UserCall) (notice : Notice) (m : WebsocketMessenger)
    : (callbacks reaction notice m).2.state = (entered? notice).getD m.state := by
  cases notice with
  | connected | closed | received => exact notify_state ..
  | error error reason =>
      have arms
          : ∀ m : WebsocketMessenger, m.state = .kMessengerError →
              (if error.needRestore ∧ m.tryToRecovery then m.armRecovery else m).state
              = .kMessengerError := by
        intro m entered
        split <;> exact entered
      simp only [callbacks, onErrorCallback]
      cases error.code? with
      | none => exact arms _ rfl
      | some code => exact arms _ (notify_state ..)

/-- A state of the session that goes with what a callback enters goes with its result. -/
theorem callbacks_agree {session : SessionState} {reaction : List UserCall} {notice : Notice}
    {m : WebsocketMessenger} (h : Agree session ((entered? notice).getD m.state))
    : Agree session (callbacks reaction notice m).2.state := by
  rw [callbacks_state]
  exact h

end WebsocketMessenger

namespace MessengerSystem

/-- Every step keeps the states in agreement, by the cases of the event. -/
theorem step_agree {w next : MessengerSystem} {event : MessengerEvent}
    (stepped : w.step event = some next) (h : Agree w.session.state w.owner.state)
    : Agree next.session.state next.owner.state := by
  have session
      : next.session.state
        = ((w.session.dial.atCalls event.toSession).calls
            (w.connectsIn event.toSession)).state := by
    apply (congrArg Dial.state (Hosted.step_dial (step_session stepped))).trans
    rw [Dial.advance_eq]
  rw [session, step_owner stepped]
  apply Agree.calls
  cases event with
  | user call => cases call <;> exact h
  | listener | timerExpires | sendPosted => exact h
  | runWait result =>
      simp only [ownerAfter, WebsocketMessenger.onRecoveryWait]
      split <;> exact h
  | resolved ec reaction | connected ec reaction | written data ec reaction =>
      cases ec with
      | none => exact h
      | some ec => exact WebsocketMessenger.callbacks_agree agree_error
  | handshaken ec reaction =>
      cases ec with
      | none => exact WebsocketMessenger.callbacks_agree agree_opened
      | some ec => exact WebsocketMessenger.callbacks_agree agree_error
  | closed ec reaction =>
      cases ec with
      | none => exact WebsocketMessenger.callbacks_agree agree_closed
      | some ec => exact WebsocketMessenger.callbacks_agree agree_error
  | read bytes ec reaction =>
      cases ec with
      | none => exact WebsocketMessenger.callbacks_agree h
      | some ec =>
          obtain ⟨kind, message⟩ := ec
          cases kind with
          | operationCanceled => exact h
          | closed | other => exact WebsocketMessenger.callbacks_agree agree_error

/-- The states of messenger and session agree after every run, whatever the listener calls
when it is notified, by induction over the steps.
-/
theorem states_agree {listening : Bool} {events : List MessengerEvent}
    {final : MessengerSystem} (ran : (create listening).run events = some final)
    : Agree final.session.state final.owner.state :=
  Machine.follow_invariant (fun w => Agree w.session.state w.owner.state)
    (fun agree stepped => step_agree stepped agree) agree_closed ran

/-- The listener opens again when it is told of an error and closes as soon as it is
connected, and the recovery of the error runs late.
-/
def reentrant : List MessengerEvent :=
  [.user .open, .resolved (some reset) [.open], .timerExpires, .resolved none [],
    .connected none [], .handshaken none [.close, .open], .runWait .noError,
    .closed none [.open]]

theorem states_agree_reentrant
    : ∃ final,
        (create true).run reentrant = some final
        ∧ final.session.state = .kConnecting
        ∧ (final.owner.state = .kMessengerClosed ∨ final.owner.state = .kMessengerError) := by
  obtain ⟨final, ran⟩ : ∃ final, (create true).run reentrant = some final := ⟨_, rfl⟩
  have connecting : final.session.state = .kConnecting := by
    obtain rfl := Option.some.inj ran
    rfl
  exact ⟨final, ran, connecting, (states_agree ran).connecting connecting⟩

end MessengerSystem

end Nbsdk.Messenger
