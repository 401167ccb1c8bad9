import Nbsdk.Messenger.Session

/-! The messenger of websocket_messenger.cc, which owns a session and recovers it.
The user calls it from outside or from within a notification; the recovery timer runs each
wait handler once. The session underneath takes exactly the steps of its own machine.
-/

namespace Nbsdk.Messenger

inductive MessengerErrorCode
  | kNoError
  | kOpenError
  | kSendError
  | kReceiveError
  deriving DecidableEq, Repr

inductive MessengerState
  | kUnknownState
  | kMessengerClosed
  | kMessengerOpened
  | kMessengerError
  deriving DecidableEq, Repr

/-- A call of the listener. -/
inductive Notification
  | onOpened
  | onClosed
  | onMessage (msg : Message)
  | onMessengerError (code : MessengerErrorCode) (reason : String)
  deriving DecidableEq, Repr

/-- A call of the messenger's interface. -/
inductive UserCall
  | open
  | close
  | sendMessage (msg : Message)
  deriving DecidableEq, Repr

/-- The error that a wait handler runs with. -/
inductive WaitResult
  | noError
  | operationAborted
  deriving DecidableEq, Repr

/-- A `deadline_timer`: the waits still pending and the handlers ready to run. -/
structure DeadlineTimer where
  pending : Nat
  ready : List WaitResult
  deriving DecidableEq, Repr

namespace DeadlineTimer

/-- All pending waits complete with this result. -/
def complete (t : DeadlineTimer) (result : WaitResult) : DeadlineTimer where
  pending := 0
  ready := t.ready ++ List.replicate t.pending result

def cancel (t : DeadlineTimer) : DeadlineTimer := t.complete .operationAborted

/-- A new expiry time cancels the waits for the old one. -/
def expiresFromNow (t : DeadlineTimer) : DeadlineTimer := t.cancel

def asyncWait (t : DeadlineTimer) : DeadlineTimer := { t with pending := t.pending + 1 }

end DeadlineTimer

-----------------------------------------------------------------------------------------
-- The messenger
-----------------------------------------------------------------------------------------

/-- A `Connect` that the recovery handler issued: the error its wait ended with and the
value of `try_to_recovery_` at that moment.
-/
structure Recovery where
  result : WaitResult
  tryToRecovery : Bool
  deriving DecidableEq, Repr

/-- The members that the callbacks read and write; `listening` tells whether the listener
is still alive. `notifications` and `recoveries` are only observed.
-/
structure WebsocketMessenger where
  state : MessengerState
  tryToRecovery : Bool
  listening : Bool
  recoveryTimer : DeadlineTimer
  notifications : List Notification
  recoveries : List Recovery
  deriving DecidableEq, Repr

/-- What a call does to the messenger, with the session calls it makes. -/
abbrev Action := WebsocketMessenger → List SessionCall × WebsocketMessenger

namespace WebsocketMessenger

/-- The constructor, with a listener set or not. -/
def create (listening : Bool) : WebsocketMessenger where
  state := .kMessengerClosed
  tryToRecovery := true
  listening := listening
  recoveryTimer := ⟨0, []⟩
  notifications := []
  recoveries := []

def call : UserCall → Action
  | .open, m => ([.connect], { m with tryToRecovery := true })
  | .close, m =>
      ([.disconnect],
        { m with tryToRecovery := false, recoveryTimer := m.recoveryTimer.cancel })
  | .sendMessage msg, m => ([.sendData msg], m)

def calls : List UserCall → Action
  | [], m => ([], m)
  | first :: rest, m =>
      let (sessionCalls, m) := call first m
      let (more, m) := calls rest m
      (sessionCalls ++ more, m)

/-- Notifies the listener, if it is alive, which makes these calls before it returns. -/
def notify (notification : Notification) (reaction : List UserCall) : Action := fun m =>
  if m.listening then
    calls reaction { m with notifications := m.notifications ++ [notification] }
  else ([], m)

def onConnectedCallback (reaction : List UserCall) : Action := fun m =>
  notify .onOpened reaction { m with state := .kMessengerOpened }

def onClosedCallback (reaction : List UserCall) : Action := fun m =>
  notify .onClosed reaction { m with state := .kMessengerClosed }

end WebsocketMessenger

/-- The errors after which the messenger recovers. -/
def SessionError.needRestore : SessionError → Bool
  | .kConnectError | .kReceiveError | .kDisconnectError => true
  | .kSendError | .kCloseError | .kUnknownError => false

/-- The error code that the listener gets, if it gets one. -/
def SessionError.code? : SessionError → Option MessengerErrorCode
  | .kConnectError => some .kOpenError
  | .kSendError => some .kSendError
  | .kReceiveError => some .kReceiveError
  | .kCloseError | .kDisconnectError | .kUnknownError => none

namespace WebsocketMessenger

def armRecovery (m : WebsocketMessenger) : WebsocketMessenger :=
  { m with recoveryTimer := m.recoveryTimer.expiresFromNow.asyncWait }

def onErrorCallback (error : SessionError) (reason : String) (reaction : List UserCall)
    : Action := fun m =>
  let m := { m with state := .kMessengerError }
  let (sessionCalls, m) :=
    match error.code? with
    | some code => notify (.onMessengerError code reason) reaction m
    | none => ([], m)
  -- the listener may have called Open or Close
  (sessionCalls, if error.needRestore ∧ m.tryToRecovery then m.armRecovery else m)

def onReceiveMsgCallback (msg : Message) (reaction : List UserCall) : Action :=
  notify (.onMessage msg) reaction

/-- The four callbacks, with a listener that makes these calls when it is notified. -/
def callbacks (reaction : List UserCall) : Callbacks WebsocketMessenger
  | .connected => onConnectedCallback reaction
  | .closed => onClosedCallback reaction
  | .error error reason => onErrorCallback error reason reaction
  | .received msg => onReceiveMsgCallback msg reaction

/-- The handler of a recovery wait, which does not look at its error. -/
def onRecoveryWait (result : WaitResult) : Action := fun m =>
  let m :=
    { m with
      recoveryTimer := { m.recoveryTimer with ready := m.recoveryTimer.ready.erase result } }
  if m.state ≠ .kMessengerClosed then
    ([.connect], { m with recoveries := m.recoveries ++ [⟨result, m.tryToRecovery⟩] })
  else ([], m)

-----------------------------------------------------------------------------------------
-- What the callbacks preserve
-----------------------------------------------------------------------------------------

/-- What each of the user's calls preserves, all of them preserve, by induction. -/
theorem calls_preserve (holds : WebsocketMessenger → Prop) {userCalls : List UserCall}
    (called : ∀ {m} userCall, userCall ∈ userCalls → holds m → holds (call userCall m).2)
    {m : WebsocketMessenger} (start : holds m)
    : holds (calls userCalls m).2 := by
  induction userCalls generalizing m with
  | nil => exact start
  | cons first rest ih =>
      refine ih ?_ (called first List.mem_cons_self start)
      intro m userCall member held
      exact called userCall (List.mem_cons_of_mem first member) held

/-- The notification that a callback passes on, if it passes one on. -/
def notification? : Notice → Option Notification
  | .connected => some .onOpened
  | .closed => some .onClosed
  | .error error reason => error.code?.map (.onMessengerError · reason)
  | .received msg => some (.onMessage msg)

/-- A callback enters a state, notifies, lets the listener call and arms the timer while
`try_to_recovery_` is set; what each of these preserves, the callback preserves.
-/
theorem callbacks_preserve (holds : WebsocketMessenger → Prop) {notice : Notice}
    {reaction : List UserCall}
    (entered : ∀ {m : WebsocketMessenger} state, holds m → holds { m with state := state })
    (notified
      : ∀ {m : WebsocketMessenger} notification,
          notification? notice = some notification
          → holds m
          → holds { m with notifications := m.notifications ++ [notification] })
    (called : ∀ {m} userCall, userCall ∈ reaction → holds m → holds (call userCall m).2)
    (armed
      : ∀ {m : WebsocketMessenger}, m.tryToRecovery = true → holds m → holds m.armRecovery)
    {m : WebsocketMessenger} (start : holds m)
    : holds (callbacks reaction notice m).2 := by
  have notifies
      : ∀ {m notification}, notification? notice = some notification → holds m
        → holds (notify notification reaction m).2 := by
    intro m notification passed held
    simp only [notify]
    split
    · exact calls_preserve holds called (notified notification passed held)
    · exact held
  cases notice with
  | connected => exact notifies rfl (entered _ start)
  | closed => exact notifies rfl (entered _ start)
  | received msg => exact notifies rfl start
  | error error reason =>
      have arms
          : ∀ {m : WebsocketMessenger}, holds m
            → holds (if error.needRestore ∧ m.tryToRecovery then m.armRecovery else m) := by
        intro m held
        split
        case isTrue restores => exact armed restores.2 held
        case isFalse => exact held
      simp only [callbacks, onErrorCallback]
      cases passed : error.code? with
      | none => exact arms (entered _ start)
      | some code =>
          refine arms (notifies ?_ (entered _ start))
          simp [notification?, passed]

end WebsocketMessenger

/-- One step: the user calls from outside, the listener is replaced or dies, the recovery
timer expires, a ready wait handler runs, or the session takes a step, in which the
listener makes the calls of `reaction` if it is notified.
-/
inductive MessengerEvent
  | user (call : UserCall)
  | listener (alive : Bool)
  | timerExpires
  | runWait (result : WaitResult)
  | sendPosted
  | resolved (ec : Option ErrorCode) (reaction : List UserCall)
  | connected (ec : Option ErrorCode) (reaction : List UserCall)
  | handshaken (ec : Option ErrorCode) (reaction : List UserCall)
  | closed (ec : Option ErrorCode) (reaction : List UserCall)
  | written (data : Message) (ec : Option ErrorCode) (reaction : List UserCall)
  | read (bytes : List UInt8) (ec : Option ErrorCode) (reaction : List UserCall)
  deriving DecidableEq, Repr

namespace MessengerEvent

/-- A timer event needs a wait; the session decides about its own events. -/
def Enabled (m : WebsocketMessenger) : MessengerEvent → Prop
  | .timerExpires => 0 < m.recoveryTimer.pending
  | .runWait result => result ∈ m.recoveryTimer.ready
  | _ => True

instance (m : WebsocketMessenger) (event : MessengerEvent) : Decidable (event.Enabled m) := by
  cases event <;> unfold Enabled <;> infer_instance

/-- The event as the session sees it. -/
def toSession : MessengerEvent → SessionEvent WebsocketMessenger
  | .user call => .outside (WebsocketMessenger.call call)
  | .listener alive => .outside (fun m => ([], { m with listening := alive }))
  | .timerExpires =>
      .outside (fun m => ([], { m with recoveryTimer := m.recoveryTimer.complete .noError }))
  | .runWait result => .outside (WebsocketMessenger.onRecoveryWait result)
  | .sendPosted => .sendPosted
  | .resolved ec reaction => .resolved ec (WebsocketMessenger.callbacks reaction)
  | .connected ec reaction => .connected ec (WebsocketMessenger.callbacks reaction)
  | .handshaken ec reaction => .handshaken ec (WebsocketMessenger.callbacks reaction)
  | .closed ec reaction => .closed ec (WebsocketMessenger.callbacks reaction)
  | .written data ec reaction => .written data ec (WebsocketMessenger.callbacks reaction)
  | .read bytes ec reaction => .read bytes ec (WebsocketMessenger.callbacks reaction)

/-- The calls that the listener makes if it is notified. -/
def reaction : MessengerEvent → List UserCall
  | .user _ | .listener _ | .timerExpires | .runWait _ | .sendPosted => []
  | .resolved _ reaction | .connected _ reaction | .handshaken _ reaction
  | .closed _ reaction | .written _ _ reaction | .read _ _ reaction => reaction

/-- The calls that the user makes in the event, from outside or as the listener. -/
def userCalls : MessengerEvent → List UserCall
  | .user call => [call]
  | event => event.reaction

/-- The callback that the event leads to, if it leads to one. -/
def notice? (s : WebsocketSession) (event : MessengerEvent) : Option Notice :=
  (event.toSession.notice? s).map Prod.fst

end MessengerEvent

/-- A messenger with its session. -/
abbrev MessengerSystem := Hosted WebsocketMessenger

namespace MessengerSystem

def create (listening : Bool) : MessengerSystem := Hosted.create (.create listening)

def step (w : MessengerSystem) (event : MessengerEvent) : Option MessengerSystem :=
  if event.Enabled w.owner then Hosted.step w event.toSession else none

/-- The state after these events, if each was enabled in its turn. -/
def run (w : MessengerSystem) (events : List MessengerEvent) : Option MessengerSystem :=
  Machine.follow step w events

/-- A step of a messenger is a step of its session machine. -/
theorem step_session {w next : MessengerSystem} {event : MessengerEvent}
    (stepped : w.step event = some next)
    : Hosted.step w event.toSession = some next := by
  simp only [step] at stepped
  split at stepped
  · exact stepped
  · contradiction

/-- What an event does to the messenger itself. -/
def ownerAfter (w : MessengerSystem) : MessengerEvent → WebsocketMessenger
  | .user call => (WebsocketMessenger.call call w.owner).2
  | .listener alive => { w.owner with listening := alive }
  | .timerExpires =>
      { w.owner with recoveryTimer := w.owner.recoveryTimer.complete .noError }
  | .runWait result => (WebsocketMessenger.onRecoveryWait result w.owner).2
  | event =>
      match event.notice? w.session with
      | none => w.owner
      | some notice => (WebsocketMessenger.callbacks event.reaction notice w.owner).2

/-- A step changes the messenger by its event, by the cases of the event. -/
theorem step_owner {w next : MessengerSystem} {event : MessengerEvent}
    (stepped : w.step event = some next)
    : next.owner = w.ownerAfter event := by
  apply (Hosted.step_owner (step_session stepped)).trans
  cases event with
  | user | listener | timerExpires | runWait | sendPosted => rfl
  | resolved ec reaction | connected ec reaction | handshaken ec reaction
  | closed ec reaction | written data ec reaction =>
      cases ec <;> rfl
  | read bytes ec reaction =>
      cases ec with
      | none => rfl
      | some ec =>
          obtain ⟨kind, message⟩ := ec
          cases kind <;> rfl

end MessengerSystem

end Nbsdk.Messenger
