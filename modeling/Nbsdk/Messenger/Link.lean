import Nbsdk.Messenger.Session

/-! The link that a session sees: its connections and what arrives on them.
The link is a machine of its own, without operations, queue or owner. A session's link is
the link machine's state after the session's events, whatever its owner does.
-/

namespace Nbsdk.Messenger

/-- Whether the session is connected, how often it became so, the connection's number, the
bytes in the receive buffer, and the messages that the peer completed and that were
delivered, each with the number of the connection current at that moment.
-/
structure Link where
  connected : Bool
  entries : Nat
  connection : Nat
  buffer : List UInt8
  completed : List (Nat × Message)
  delivered : List (Nat × Message)
  deriving DecidableEq, Repr

namespace Link

def initial : Link where
  connected := false
  entries := 0
  connection := 0
  buffer := []
  completed := []
  delivered := []

/-- A handshake completed. -/
def establish (l : Link) : Link :=
  { l with connected := true, entries := l.entries + 1, connection := l.connection + 1 }

/-- The session gave the connection up. -/
def lose (l : Link) : Link := { l with connected := false }

/-- Bytes arrived without completing a message. -/
def append (l : Link) (bytes : List UInt8) : Link :=
  { l with buffer := l.buffer ++ bytes }

/-- Bytes arrived and completed a message; the buffer is delivered and cleared. -/
def deliver (l : Link) (bytes : List UInt8) : Link :=
  { l with
    buffer := []
    completed := l.completed ++ [(l.connection, bytes)]
    delivered := l.delivered ++ [(l.connection, l.buffer ++ bytes)] }

/-- What an event of the session is to its link. -/
def advance {σ : Type} (l : Link) : SessionEvent σ → Link
  | .outside _ | .sendPosted => l
  | .resolved none _ | .connected none _ | .written _ none _ => l
  | .handshaken none _ => l.establish
  | .read bytes none _ => l.deliver bytes
  | .read bytes (some ec) _ =>
      if ec.kind = .operationCanceled then l.append bytes else (l.append bytes).lose
  | .closed _ _ => l.lose
  | .resolved (some _) _ | .connected (some _) _ | .handshaken (some _) _
  | .written _ (some _) _ => l.lose

/-- The link after these events. -/
def after {σ : Type} (events : List (SessionEvent σ)) : Link :=
  events.foldl advance initial

/-- One more event advances the link. -/
theorem after_concat {σ : Type} (events : List (SessionEvent σ)) (event : SessionEvent σ)
    : after (events ++ [event]) = (after events).advance event := by
  simp [after]

end Link

/-- A handshake completes successfully. -/
def SessionEvent.connects {σ : Type} : SessionEvent σ → Bool
  | .handshaken none _ => true
  | _ => false

/-- Exactly a successful handshake enters the connected state. -/
theorem Link.entries_advance {σ : Type} (l : Link) (event : SessionEvent σ)
    : (l.advance event).entries = l.entries + event.connects.toNat := by
  cases event with
  | outside | sendPosted | closed => rfl
  | resolved ec callbacks | connected ec callbacks | handshaken ec callbacks
  | written data ec callbacks =>
      cases ec <;> rfl
  | read bytes ec callbacks =>
      cases ec with
      | none => rfl
      | some ec =>
          simp only [advance]
          split <;> rfl

def Effect.completed? : Effect → Option (Nat × Message)
  | .completed connection payload => some (connection, payload)
  | _ => none

def Effect.delivered? : Effect → Option (Nat × Message)
  | .called connection (.received msg) => some (connection, msg)
  | _ => none

/-- The effect shows in the link. -/
def Effect.onLink : Effect → Bool
  | .entered .kConnected | .completed _ _ | .called _ (.received _) => true
  | _ => false

/-- An effect off the link is none of the three that it shows, by its cases. -/
theorem Effect.fields_of_not_onLink {effect : Effect} (off : effect.onLink = false)
    : effect ≠ .entered .kConnected
      ∧ effect.completed? = none
      ∧ effect.delivered? = none := by
  refine ⟨?_, ?_, ?_⟩
  · intro same
    subst same
    contradiction
  · cases effect with
    | completed => contradiction
    | entered | started | handed | written | called => rfl
  · cases effect with
    | called connection notice =>
        cases notice with
        | received => contradiction
        | connected | closed | error => rfl
    | entered | started | handed | written | completed => rfl

def SessionState.isConnected : SessionState → Bool
  | .kConnected => true
  | _ => false

namespace WebsocketSession

def link (s : WebsocketSession) : Link where
  connected := s.state.isConnected
  entries := s.log.count (.entered .kConnected)
  connection := s.connection
  buffer := s.buffer
  completed := s.log.filterMap Effect.completed?
  delivered := s.log.filterMap Effect.delivered?

theorem link_connected_iff {s : WebsocketSession}
    : s.link.connected = true ↔ s.state = .kConnected := by
  simp only [link]
  cases s.state <;> simp [SessionState.isConnected]

/-- An effect that is not about the link does not show in it. -/
theorem link_record {s : WebsocketSession} {effect : Effect}
    (off : effect.onLink = false)
    : (s.record effect).link = s.link := by
  obtain ⟨entered, completed, delivered⟩ := Effect.fields_of_not_onLink off
  unfold link record
  congr 1
  · simp [List.count_append, entered]
  · simp [completed]
  · simp [delivered]

/-- A completed message shows with its connection. -/
theorem link_record_completed (s : WebsocketSession) (connection : Nat) (payload : Message)
    : (s.record (.completed connection payload)).link
      = { s.link with completed := s.link.completed ++ [(connection, payload)] } := by
  simp [link, record, Effect.completed?, Effect.delivered?]

/-- A delivered message shows with its connection. -/
theorem link_record_received (s : WebsocketSession) (connection : Nat) (msg : Message)
    : (s.record (.called connection (.received msg))).link
      = { s.link with delivered := s.link.delivered ++ [(connection, msg)] } := by
  simp [link, record, Effect.completed?, Effect.delivered?]

@[simp] theorem link_start (s : WebsocketSession) (operation : Operation)
    : (s.start operation).link = s.link :=
  link_record rfl

@[simp] theorem link_writeFront (s : WebsocketSession) : s.writeFront.link = s.link := by
  cases waiting : s.sendMsgQueue with
  | nil => simp [writeFront, waiting]
  | cons front rest => simp [writeFront, waiting]

@[simp] theorem link_sendDataInner (s : WebsocketSession) (data : Message)
    : (s.sendDataInner data).link = s.link := by
  simp only [sendDataInner]
  split
  · rfl
  · exact link_writeFront ..

/-- Leaving the connected state loses the link. -/
theorem link_updateState_lose {s : WebsocketSession} {state : SessionState}
    (left : state ≠ .kConnected)
    : (s.updateState state).link = s.link.lose := by
  refine (link_record ?_).trans ?_
  · cases state <;> simp_all [Effect.onLink]
  · cases state <;> simp_all [link, Link.lose, SessionState.isConnected]

/-- The public calls leave the link alone; connecting starts from a lost link. -/
theorem link_call (s : WebsocketSession) (call : SessionCall)
    : (s.call call).link = s.link := by
  cases call with
  | connect =>
      simp only [WebsocketSession.call, connect]
      split
      case isTrue down =>
        rw [link_start, link_updateState_lose (by decide)]
        rcases down with down | down <;>
          simp [link, Link.lose, down, SessionState.isConnected]
      case isFalse => rfl
  | disconnect =>
      simp only [WebsocketSession.call, disconnect]
      split
      · exact link_start ..
      · rfl
  | sendData data =>
      simp only [WebsocketSession.call, sendData]
      split <;> rfl

@[simp] theorem link_calls (s : WebsocketSession) (calls : List SessionCall)
    : (s.calls calls).link = s.link :=
  view_calls link_call s calls

end WebsocketSession

namespace Hosted

variable {σ : Type}

/-- A callback shows in the link by its call alone; the owner's calls do not. -/
theorem link_callback (w : Hosted σ) (callbacks : Callbacks σ) (notice : Notice)
    : (w.callback callbacks notice).session.link
      = (w.session.record (.called w.session.connection notice)).link := by
  simp only [callback, act, onSession, WebsocketSession.link_calls]

@[simp] theorem link_fail (w : Hosted σ) (callbacks : Callbacks σ) (error : SessionError)
    (ec : ErrorCode)
    : (w.fail callbacks error ec).session.link = w.session.link.lose :=
  calc
    (w.fail callbacks error ec).session.link
      = (w.session.updateState .kError).link :=
          (link_callback ..).trans (WebsocketSession.link_record rfl)
    _ = w.session.link.lose := WebsocketSession.link_updateState_lose (by decide)

@[simp] theorem link_countWritten (w : Hosted σ) (data : Message)
    (ec : Option ErrorCode)
    : (w.countWritten data ec).session.link = w.session.link := by
  cases ec with
  | none => exact WebsocketSession.link_record rfl
  | some ec => rfl

/-- A completed handshake establishes the link, and the callback keeps it. -/
theorem link_onHandshake (w : Hosted σ) (callbacks : Callbacks σ)
    : ((w.countConnection none).onHandshake callbacks none).session.link
      = w.session.link.establish := by
  simp only [onHandshake]
  apply (WebsocketSession.link_start ..).trans
  apply ((link_callback ..).trans (WebsocketSession.link_record rfl)).trans
  simp [WebsocketSession.link, WebsocketSession.updateState, WebsocketSession.record,
    countConnection, onSession, Link.establish, SessionState.isConnected,
    Effect.completed?, Effect.delivered?]

/-- A successful read delivers what the buffer then holds. -/
theorem link_onRead (w : Hosted σ) (callbacks : Callbacks σ) (bytes : List UInt8)
    : ((w.appendRead bytes none).onRead callbacks none).session.link
      = w.session.link.deliver bytes := by
  simp only [onRead]
  apply (WebsocketSession.link_start ..).trans
  have called := link_callback (w.appendRead bytes none) callbacks
    (.received (w.session.buffer ++ bytes))
  rw [WebsocketSession.link_record_received] at called
  refine (congrArg (fun l : Link => { l with buffer := [] }) called).trans ?_
  simp only [appendRead, onSession, WebsocketSession.link_record_completed]
  rfl

/-- Every step advances the link by its event; the cases are the events. -/
theorem step_link {w next : Hosted σ} {event : SessionEvent σ}
    (stepped : w.step event = some next)
    : next.session.link = w.session.link.advance event := by
  cases event with
  | outside action =>
      simp only [step, Option.some.injEq] at stepped
      simp [Link.advance, ← stepped, act]
  | sendPosted =>
      simp only [step] at stepped
      split at stepped
      case h_1 => contradiction
      case h_2 data rest waiting =>
        simp only [Option.some.injEq] at stepped
        rw [← stepped]
        apply (WebsocketSession.link_sendDataInner ..).trans
        refine (WebsocketSession.link_record ?_).trans rfl
        rfl
  | resolved ec callbacks | connected ec callbacks =>
      simp only [step, complete_eq_some] at stepped
      obtain ⟨_, rfl⟩ := stepped
      cases ec with
      | none => exact WebsocketSession.link_start ..
      | some ec => exact link_fail ..
  | handshaken ec callbacks =>
      simp only [step, complete_eq_some] at stepped
      obtain ⟨_, rfl⟩ := stepped
      cases ec with
      | none => exact link_onHandshake ..
      | some ec => exact link_fail ..
  | closed ec callbacks =>
      simp only [step, complete_eq_some] at stepped
      obtain ⟨_, rfl⟩ := stepped
      cases ec with
      | none =>
          apply ((link_callback ..).trans (WebsocketSession.link_record rfl)).trans
          exact WebsocketSession.link_updateState_lose (by decide)
      | some ec => exact link_fail ..
  | written data ec callbacks =>
      simp only [step, complete_eq_some] at stepped
      obtain ⟨flying, rfl⟩ := stepped
      cases ec with
      | none =>
          apply (WebsocketSession.link_writeFront _).trans
          exact link_countWritten (w.onSession (·.finish (.write data))) data none
      | some ec => exact link_fail ..
  | read bytes ec callbacks =>
      simp only [step, complete_eq_some] at stepped
      obtain ⟨_, rfl⟩ := stepped
      cases ec with
      | none => exact link_onRead ..
      | some ec =>
          obtain ⟨kind, message⟩ := ec
          cases kind with
          | operationCanceled => rfl
          | closed | other => exact link_fail ..

/-- A session's link is the link machine's state after the session's events. -/
theorem run_link {owner : σ} {events : List (SessionEvent σ)} {final : Hosted σ}
    (ran : (create owner).run events = some final)
    : final.session.link = Link.after events :=
  Machine.follow_foldl (fun w : Hosted σ => w.session.link) Link.advance step_link ran

end Hosted

end Nbsdk.Messenger
