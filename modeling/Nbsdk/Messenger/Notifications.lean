import Mathlib.Data.List.Chain
import Mathlib.Data.List.Infix
import Nbsdk.Messenger.Agreement
import Nbsdk.Messenger.SingleAttempt

/-! What the listener's notifications tell about the messenger's state.
The error callback passes on three kinds of errors and keeps two to itself: a close that
failed and a connection that the peer closed. The reports are the notifications about the
state together with these silent errors.
-/

namespace Nbsdk.Messenger

/-- What a callback says about the messenger's state. -/
inductive Report
  | opened
  | closed
  | error
  | silentError
  deriving DecidableEq, Repr

namespace Report

/-- The state that goes with a report. -/
def state : Report → MessengerState
  | .opened => .kMessengerOpened
  | .closed => .kMessengerClosed
  | .error | .silentError => .kMessengerError

/-- The listener is told. -/
def told (report : Report) : Bool := report ≠ .silentError

end Report

def Notification.report? : Notification → Option Report
  | .onOpened => some .opened
  | .onClosed => some .closed
  | .onMessengerError _ _ => some .error
  | .onMessage _ => none

/-- The state that the last notification tells; before any it is closed. -/
def lastTold (notifications : List Notification) : MessengerState :=
  ((notifications.filterMap Notification.report?).getLast?.map Report.state).getD
    .kMessengerClosed

def Notice.report? : Notice → Option Report
  | .connected => some .opened
  | .closed => some .closed
  | .error kind _ => some (if kind.code?.isSome then .error else .silentError)
  | .received _ => none

namespace MessengerEvent

/-- What an event reports. -/
def report? : MessengerEvent → Option Report
  | .handshaken none _ => some .opened
  | .closed none _ => some .closed
  | .resolved (some _) _ | .connected (some _) _ | .handshaken (some _) _
  | .written _ (some _) _ => some .error
  | .closed (some _) _ => some .silentError
  | .read _ (some ec) _ =>
      match ec.kind with
      | .operationCanceled => none
      | .closed => some .silentError
      | .other => some .error
  | .resolved none _ | .connected none _ | .written _ none _ | .read _ none _
  | .user _ | .listener _ | .timerExpires | .runWait _ | .sendPosted => none

def reports (events : List MessengerEvent) : List Report := events.filterMap report?

/-- An event reports what its callback does. -/
theorem report?_eq (s : WebsocketSession) (event : MessengerEvent)
    : (event.notice? s).bind Notice.report? = event.report? := by
  cases event with
  | user | listener | timerExpires | runWait | sendPosted => rfl
  | resolved ec reaction | connected ec reaction | handshaken ec reaction
  | closed ec reaction | written data ec reaction =>
      cases ec <;> rfl
  | read bytes ec reaction =>
      cases ec with
      | none => rfl
      | some ec =>
          obtain ⟨kind, message⟩ := ec
          cases kind <;> rfl

@[simp] theorem reports_concat (events : List MessengerEvent) (event : MessengerEvent)
    : reports (events ++ [event]) = reports events ++ event.report?.toList := by
  cases reported : event.report? <;> simp [reports, reported]

end MessengerEvent

-----------------------------------------------------------------------------------------
-- What a live listener hears
-----------------------------------------------------------------------------------------

namespace WebsocketMessenger

/-- The user's calls tell the listener nothing and leave it as it is. -/
theorem calls_unheard (userCalls : List UserCall) (m : WebsocketMessenger)
    : (calls userCalls m).2.notifications = m.notifications
      ∧ (calls userCalls m).2.listening = m.listening := by
  apply calls_preserve (fun next =>
    next.notifications = m.notifications ∧ next.listening = m.listening)
  · intro m userCall _ same
    cases userCall <;> exact same
  · exact ⟨rfl, rfl⟩

/-- A live listener hears its notification and stays alive. -/
theorem notify_heard (notification : Notification) (reaction : List UserCall)
    {m : WebsocketMessenger} (live : m.listening = true)
    : (notify notification reaction m).2.notifications = m.notifications ++ [notification]
      ∧ (notify notification reaction m).2.listening = true := by
  rw [notify, if_pos live]
  obtain ⟨heard, alive⟩ :=
    calls_unheard reaction { m with notifications := m.notifications ++ [notification] }
  exact ⟨heard, alive.trans live⟩

/-- A live listener hears what a callback passes on, and stays alive. -/
theorem callbacks_heard (reaction : List UserCall) (notice : Notice)
    {m : WebsocketMessenger} (live : m.listening = true)
    : (callbacks reaction notice m).2.notifications
        = m.notifications ++ (notification? notice).toList
      ∧ (callbacks reaction notice m).2.listening = true := by
  cases notice with
  | connected => exact notify_heard .onOpened reaction live
  | closed => exact notify_heard .onClosed reaction live
  | received msg => exact notify_heard (.onMessage msg) reaction live
  | error error reason =>
      have arms
          : ∀ {heard : List Notification} {m : WebsocketMessenger},
              m.notifications = heard ∧ m.listening = true →
              (if error.needRestore ∧ m.tryToRecovery then m.armRecovery else m).notifications
                = heard
              ∧ (if error.needRestore ∧ m.tryToRecovery then m.armRecovery else m).listening
                = true := by
        intro heard m held
        split <;> exact held
      simp only [callbacks, onErrorCallback, notification?]
      cases error.code? with
      | none => exact arms ⟨(List.append_nil _).symm, live⟩
      | some code => exact arms (notify_heard (.onMessengerError code reason) reaction live)

/-- A callback tells the listener its report, unless the report is silent. -/
theorem reports_notification (notice : Notice)
    : (notification? notice).toList.filterMap Notification.report?
      = notice.report?.toList.filter Report.told := by
  cases notice with
  | connected | closed | received => rfl
  | error error reason => cases error <;> rfl

/-- A callback enters the state that goes with its report. -/
theorem entered?_eq (notice : Notice) : entered? notice = notice.report?.map Report.state := by
  cases notice with
  | connected | closed | received => rfl
  | error error reason => cases error <;> rfl

/-- What becomes of a messenger with a live listener when something is reported. -/
structure Hears (m : WebsocketMessenger) (report : Option Report) (after : WebsocketMessenger)
    : Prop where
  listening : after.listening = true
  notifications
    : after.notifications.filterMap Notification.report?
      = m.notifications.filterMap Notification.report? ++ report.toList.filter Report.told
  state : after.state = (report.map Report.state).getD m.state

/-- Nothing is reported where neither notifications nor state change. -/
theorem hears_nothing {m after : WebsocketMessenger} (listening : after.listening = true)
    (notifications : after.notifications = m.notifications) (state : after.state = m.state)
    : m.Hears none after :=
  ⟨listening, by simp [notifications], state⟩

/-- An event that may lead to a callback reports what the callback does. -/
theorem hears_callback {m : WebsocketMessenger} (live : m.listening = true)
    (reaction : List UserCall) (notice : Option Notice)
    : m.Hears (notice.bind Notice.report?)
        (match notice with
        | none => m
        | some notice => (callbacks reaction notice m).2) := by
  cases notice with
  | none => exact hears_nothing live rfl rfl
  | some notice =>
      obtain ⟨heard, alive⟩ := callbacks_heard reaction notice live
      refine ⟨alive, ?_, ?_⟩
      · simp only [Option.bind_some]
        rw [heard, List.filterMap_append, reports_notification]
      · simp only [Option.bind_some]
        rw [callbacks_state, entered?_eq]

end WebsocketMessenger

namespace MessengerSystem

/-- Every step with a live listener is heard as its event reports it. -/
theorem step_hears {w next : MessengerSystem} {event : MessengerEvent}
    (stepped : w.step event = some next) (live : w.owner.listening = true)
    (kept : event ≠ .listener false)
    : w.owner.Hears event.report? next.owner := by
  rw [step_owner stepped]
  cases event with
  | user call => cases call <;> exact WebsocketMessenger.hears_nothing live rfl rfl
  | listener alive =>
      cases alive with
      | false => contradiction
      | true => exact WebsocketMessenger.hears_nothing rfl rfl rfl
  | timerExpires | sendPosted => exact WebsocketMessenger.hears_nothing live rfl rfl
  | runWait result =>
      simp only [ownerAfter, WebsocketMessenger.onRecoveryWait]
      split <;> exact WebsocketMessenger.hears_nothing live rfl rfl
  | resolved ec reaction | connected ec reaction | handshaken ec reaction
  | closed ec reaction | written data ec reaction | read bytes ec reaction =>
      rw [← MessengerEvent.report?_eq w.session]
      exact WebsocketMessenger.hears_callback live reaction _

/-- The listener has heard the reports that are told, and the last report gives the state. -/
structure Hearing (events : List MessengerEvent) (m : WebsocketMessenger) : Prop where
  listening : m.listening = true
  notifications
    : m.notifications.filterMap Notification.report?
      = (MessengerEvent.reports events).filter Report.told
  state
    : m.state
      = ((MessengerEvent.reports events).getLast?.map Report.state).getD .kMessengerClosed

/-- One more event is heard. -/
theorem Hearing.concat {events : List MessengerEvent} {event : MessengerEvent}
    {m after : WebsocketMessenger} (h : Hearing events m) (heard : m.Hears event.report? after)
    : Hearing (events ++ [event]) after := by
  refine ⟨heard.listening, ?_, ?_⟩
  · rw [heard.notifications, h.notifications, MessengerEvent.reports_concat,
      List.filter_append]
  · rw [heard.state, MessengerEvent.reports_concat, h.state]
    cases event.report? <;> simp

/-- Where the last report is told, the last notification tells the state. -/
theorem Hearing.lastTold {events : List MessengerEvent} {m : WebsocketMessenger}
    (h : Hearing events m)
    : m.state
      = if (MessengerEvent.reports events).getLast? = some .silentError then .kMessengerError
        else lastTold m.notifications := by
  rw [h.state, Messenger.lastTold, h.notifications]
  rcases List.eq_nil_or_concat (MessengerEvent.reports events) with none | ⟨front, last, some⟩
  · simp [none]
  · rw [some, List.concat_eq_append, List.getLast?_concat, List.filter_append]
    cases last <;> simp [Report.told, Report.state]

-----------------------------------------------------------------------------------------
-- What comes between two openings
-----------------------------------------------------------------------------------------

/-- The connection is up and no attempt is in progress. -/
def Idle (d : Dial) : Prop := d.state = .kConnected ∧ d.attempts = 0

/-- A `Connect` does nothing on a connection that is up. -/
theorem Idle.calls {d : Dial} (h : Idle d) (connects : Bool) : Idle (d.calls connects) := by
  have up : ¬(d.state = .kDisconnected ∨ d.state = .kError) := by simp [h.1]
  cases connects with
  | false => exact h
  | true => rwa [Dial.calls, if_pos rfl, Dial.connect, if_neg up]

/-- Two openings do not follow each other. -/
def Apart (reports : List Report) : Prop :=
  reports.IsChain (fun earlier later => later = .opened → earlier ≠ .opened)

/-- Something else is reported between any two openings that are apart. -/
theorem Apart.between {before between after : List Report}
    (apart : Apart (before ++ .opened :: between ++ .opened :: after))
    : ∃ report ∈ between, report ≠ .opened := by
  rw [List.append_assoc, Apart, List.isChain_append, List.cons_append, List.isChain_cons]
    at apart
  obtain ⟨_, ⟨linked, _⟩, _⟩ := apart
  cases between with
  | nil => exact absurd rfl (linked .opened rfl rfl)
  | cons report rest =>
      refine ⟨report, List.mem_cons_self, fun same => ?_⟩
      exact linked report rfl same rfl

/-- Every state of the run has at most one attempt in progress. -/
def SingleAttempts (w : MessengerSystem) (events : List MessengerEvent) : Prop :=
  ∀ before after reached,
    events = before ++ after → w.run before = some reached → reached.session.attempts ≤ 1

/-- The reports of a run: openings are apart, and behind one the connection is idle. -/
structure Parted (events : List MessengerEvent) (w : MessengerSystem) : Prop where
  apart : Apart (MessengerEvent.reports events)
  idle : (MessengerEvent.reports events).getLast? = some .opened → Idle w.session.dial

/-- An event that reports nothing enters no state and ends no attempt. -/
theorem atCalls_quiet (d : Dial) {event : MessengerEvent} (quiet : event.report? = none)
    : (d.atCalls event.toSession).state = d.state
      ∧ (d.atCalls event.toSession).attempts = d.attempts := by
  cases event with
  | user | listener | timerExpires | runWait | sendPosted => exact ⟨rfl, rfl⟩
  | resolved ec reaction | connected ec reaction | written data ec reaction =>
      cases ec with
      | none => exact ⟨rfl, rfl⟩
      | some ec => contradiction
  | handshaken ec reaction | closed ec reaction =>
      cases ec <;> contradiction
  | read bytes ec reaction =>
      cases ec with
      | none => exact ⟨rfl, rfl⟩
      | some ec =>
          obtain ⟨kind, message⟩ := ec
          cases kind with
          | operationCanceled => exact ⟨rfl, rfl⟩
          | closed | other => contradiction

/-- Only a handshake reports an opening. -/
theorem eq_handshaken_of_opened {event : MessengerEvent} (opened : event.report? = some .opened)
    : ∃ reaction, event = .handshaken none reaction := by
  cases event with
  | user | listener | timerExpires | runWait | sendPosted => contradiction
  | resolved ec reaction | connected ec reaction | written data ec reaction
  | closed ec reaction =>
      cases ec <;> simp [MessengerEvent.report?] at opened
  | handshaken ec reaction =>
      cases ec with
      | none => exact ⟨reaction, rfl⟩
      | some ec => simp [MessengerEvent.report?] at opened
  | read bytes ec reaction =>
      cases ec with
      | none => contradiction
      | some ec =>
          obtain ⟨kind, message⟩ := ec
          cases kind <;> simp [MessengerEvent.report?] at opened

/-- One more event keeps the openings apart: it reports nothing and the connection stays
idle, or an opening, which needs an attempt, or something else.
-/
theorem Parted.concat {events : List MessengerEvent} {event : MessengerEvent}
    {w next : MessengerSystem} (h : Parted events w) (single : w.session.attempts ≤ 1)
    (stepped : w.step event = some next)
    : Parted (events ++ [event]) next := by
  have moved := step_session stepped
  have dial := Hosted.step_dial moved
  rw [Dial.advance_eq] at dial
  have rests
      : Idle (w.session.dial.atCalls event.toSession) → Idle next.session.dial := by
    intro idle
    rw [dial]
    exact idle.calls _
  cases reported : event.report? with
  | none =>
      have same : MessengerEvent.reports (events ++ [event]) = MessengerEvent.reports events := by
        rw [MessengerEvent.reports_concat, reported]
        exact List.append_nil _
      refine ⟨same ▸ h.apart, fun last => rests ?_⟩
      rw [same] at last
      obtain ⟨state, attempts⟩ := atCalls_quiet w.session.dial reported
      exact ⟨state.trans (h.idle last).1, attempts.trans (h.idle last).2⟩
  | some report =>
      have more
          : MessengerEvent.reports (events ++ [event])
            = MessengerEvent.reports events ++ [report] := by
        rw [MessengerEvent.reports_concat, reported]
        rfl
      refine ⟨?_, fun last => rests ?_⟩
      · rw [more, Apart, List.isChain_append]
        refine ⟨h.apart, List.isChain_singleton _, ?_⟩
        intro earlier before later same opened was
        obtain rfl := Option.some.inj same
        obtain ⟨reaction, rfl⟩ := eq_handshaken_of_opened (reported.trans (congrArg some opened))
        have flying : 0 < w.session.attempts := Hosted.step_enabled moved
        have idle : w.session.attempts = 0 := (h.idle (was ▸ before)).2
        omega
      · rw [more, List.getLast?_concat] at last
        obtain ⟨reaction, rfl⟩ := eq_handshaken_of_opened (reported.trans last)
        exact ⟨rfl, Nat.sub_eq_zero_of_le single⟩

-----------------------------------------------------------------------------------------
-- Whole runs
-----------------------------------------------------------------------------------------

/-- A run with a live listener is heard, by induction over its events. -/
theorem run_hearing {events : List MessengerEvent} {final : MessengerSystem}
    (ran : (create true).run events = some final)
    (live : ∀ event ∈ events, event ≠ .listener false)
    : Hearing events final.owner := by
  refine Machine.follow_history
    (fun events w => (∀ event ∈ events, event ≠ .listener false) → Hearing events w.owner)
    ?_ (fun _ => ⟨rfl, rfl, rfl⟩) ran live
  intro events event w next heard stepped live
  have earlier := heard (fun event member => live event (List.mem_append_left _ member))
  exact earlier.concat (step_hears stepped earlier.listening (live event (by simp)))

/-- A run with single attempts keeps its openings apart, by induction over its events. -/
theorem run_parted {events : List MessengerEvent} {final : MessengerSystem}
    (ran : (create true).run events = some final)
    (single : SingleAttempts (create true) events)
    : Parted events final := by
  refine (Machine.follow_history
    (fun events w =>
      (create true).run events = some w
      ∧ (SingleAttempts (create true) events → Parted events w)) ?_ ?_ ran).2 single
  · rintro events event w next ⟨reached, parted⟩ stepped
    refine ⟨Machine.follow_concat_iff.mpr ⟨w, reached, stepped⟩, fun single => ?_⟩
    refine (parted ?_).concat (single events [event] w rfl reached) stepped
    intro before after middle split there
    exact single before (after ++ [event]) middle (by rw [split, List.append_assoc]) there
  · exact ⟨rfl, fun _ => ⟨List.isChain_nil, by simp [MessengerEvent.reports]⟩⟩

/-- After every run with a live listener the last notification tells the messenger's state,
unless a silent error was reported behind it, and then the state is kMessengerError. As long
as attempts are single, a closing or an error is reported between any two openings.
-/
theorem notifications_tell {events : List MessengerEvent} {final : MessengerSystem}
    (ran : (create true).run events = some final)
    (live : ∀ event ∈ events, event ≠ .listener false)
    : final.owner.notifications.filterMap Notification.report?
        = (MessengerEvent.reports events).filter Report.told
      ∧ final.owner.state
        = (if (MessengerEvent.reports events).getLast? = some .silentError then
            .kMessengerError
          else lastTold final.owner.notifications)
      ∧ (SingleAttempts (create true) events
        → ∀ before between after,
            MessengerEvent.reports events = before ++ .opened :: between ++ .opened :: after
            → ∃ report ∈ between, report ≠ .opened) := by
  have hearing := run_hearing ran live
  refine ⟨hearing.notifications, hearing.lastTold, ?_⟩
  intro single before between after split
  exact Apart.between (split ▸ (run_parted ran single).apart)

/-- The peer closes the connection, and the messenger recovers it. -/
def recovered : List MessengerEvent :=
  [.user .open, .resolved none [], .connected none [], .handshaken none [],
    .read [] (some ⟨.closed, "The WebSocket stream was gracefully closed at both endpoints"⟩) [],
    .timerExpires, .runWait .noError, .resolved none [], .connected none [],
    .handshaken none [.sendMessage [1]]]

/-- Its two attempts are made one after the other. -/
theorem singleAttempts_recovered : SingleAttempts (create true) recovered := by
  have single
      : ∀ before ∈ recovered.inits, ∀ reached ∈ (create true).run before,
          reached.session.attempts ≤ 1 := by
    decide
  intro before after reached split ran
  exact single before ((List.mem_inits _ _).mpr ⟨after, split.symm⟩) reached ran

theorem notifications_tell_recovered
    : ∃ final,
        (create true).run recovered = some final
        ∧ final.owner.state = lastTold final.owner.notifications
        ∧ final.owner.notifications.filterMap Notification.report? = [.opened, .opened]
        ∧ ∃ between,
            MessengerEvent.reports recovered = .opened :: between ++ [.opened]
            ∧ ∃ report ∈ between, report ≠ .opened := by
  obtain ⟨final, ran⟩ : ∃ final, (create true).run recovered = some final := ⟨_, rfl⟩
  obtain ⟨heard, state, parted⟩ := notifications_tell ran (by decide)
  have split : MessengerEvent.reports recovered = [] ++ .opened :: [.silentError] ++ [.opened] := by
    decide
  exact ⟨final, ran, state.trans (if_neg (by decide)), heard.trans (by decide), _, split,
    parted singleAttempts_recovered [] [.silentError] [] split⟩

/-- The listener is told of the opening alone while the state is kMessengerError, and after
the recovery it is told of a second opening.
-/
theorem silent_error_untold
    : ∃ middle final,
        (create true).run (recovered.take 5) = some middle
        ∧ middle.owner.state = .kMessengerError
        ∧ lastTold middle.owner.notifications = .kMessengerOpened
        ∧ middle.run (recovered.drop 5) = some final
        ∧ final.owner.notifications = [.onOpened, .onOpened] := by
  exact ⟨_, _, rfl, rfl, rfl, rfl, rfl⟩

end MessengerSystem

end Nbsdk.Messenger
