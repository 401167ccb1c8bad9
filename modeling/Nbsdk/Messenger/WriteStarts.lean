import Nbsdk.Messenger.Link

/-! When the session starts its writes.
A write starts where the strand hands a message to an empty queue, and where a write succeeds
with another message behind it. Neither place looks at the state.
-/

namespace Nbsdk.Messenger

variable {σ : Type}

/-- The number of messages in the queue, and the states in which writes were started. -/
structure WriteStarts where
  waiting : Nat
  states : List SessionState
  deriving DecidableEq, Repr

namespace SessionEvent

/-- The number of messages in the queue after an event. -/
def queued (waiting : Nat) : SessionEvent σ → Nat
  | .sendPosted => waiting + 1
  | .written _ none _ => waiting - 1
  | _ => waiting

/-- The event starts a write when it finds this many messages in the queue. -/
def startsWrite (waiting : Nat) : SessionEvent σ → Bool
  | .sendPosted => waiting = 0
  | .written _ none _ => 1 < waiting
  | _ => false

/-- The number of messages that these events leave in the queue. -/
def queuedAfter (events : List (SessionEvent σ)) : Nat := events.foldl queued 0

end SessionEvent

/-- What an event is to the starts of writes, in this state. -/
def WriteStarts.advance (t : WriteStarts) (state : SessionState) (event : SessionEvent σ)
    : WriteStarts where
  waiting := event.queued t.waiting
  states := if event.startsWrite t.waiting then t.states ++ [state] else t.states

/-- The state in which a write was started. -/
def Effect.writeStart? : Effect → Option SessionState
  | .started (.write _) state => some state
  | _ => none

namespace WebsocketSession

def writeStarts (s : WebsocketSession) : WriteStarts where
  waiting := s.sendMsgQueue.length
  states := s.log.filterMap Effect.writeStart?

/-- Every write was started in the connected state. -/
def WritesOpen (s : WebsocketSession) : Prop :=
  ∀ data state, .started (.write data) state ∈ s.log → state = .kConnected

theorem writesOpen_iff {s : WebsocketSession}
    : s.WritesOpen ↔ ∀ state ∈ s.writeStarts.states, state = .kConnected := by
  constructor
  · intro opened state member
    obtain ⟨effect, logged, shown⟩ := List.mem_filterMap.mp member
    cases effect with
    | started operation entered =>
        cases operation with
        | write data =>
            obtain rfl := Option.some.inj shown
            exact opened data entered logged
        | resolve | connect | handshake | close | read => contradiction
    | entered | handed | written | completed | called => contradiction
  · intro opened data state logged
    exact opened state (List.mem_filterMap.mpr ⟨_, logged, rfl⟩)

/-- An effect other than the start of a write does not show. -/
theorem writeStarts_record {s : WebsocketSession} {effect : Effect}
    (other : effect.writeStart? = none)
    : (s.record effect).writeStarts = s.writeStarts := by
  simp [writeStarts, record, other]

theorem writeStarts_start {s : WebsocketSession} {operation : Operation}
    (other : ∀ data, operation ≠ .write data)
    : (s.start operation).writeStarts = s.writeStarts := by
  refine writeStarts_record ?_
  cases operation with
  | write data => exact absurd rfl (other data)
  | resolve | connect | handshake | close | read => rfl

/-- Writing the front starts a write if there is a front. -/
theorem writeStarts_writeFront (s : WebsocketSession)
    : s.writeFront.writeStarts
      = { s.writeStarts with
          states :=
            if 0 < s.sendMsgQueue.length then s.writeStarts.states ++ [s.state]
            else s.writeStarts.states } := by
  cases waiting : s.sendMsgQueue with
  | nil => simp [writeFront, waiting]
  | cons front rest =>
      simp [writeFront, waiting, writeStarts, start, record, Effect.writeStart?]

theorem writeStarts_sendDataInner (s : WebsocketSession) (data : Message)
    : (s.sendDataInner data).writeStarts
      = s.writeStarts.advance s.state (.sendPosted : SessionEvent σ) := by
  cases waiting : s.sendMsgQueue with
  | nil =>
      simp [sendDataInner, waiting, writeFront, writeStarts, start, record,
        Effect.writeStart?, WriteStarts.advance, SessionEvent.queued, SessionEvent.startsWrite]
  | cons front rest =>
      simp [sendDataInner, waiting, writeStarts, WriteStarts.advance, SessionEvent.queued,
        SessionEvent.startsWrite]

/-- The message behind the one written is written next. -/
theorem writeStarts_next (s : WebsocketSession) (data : Message) (callbacks : Callbacks σ)
    : { s with sendMsgQueue := s.sendMsgQueue.tail }.writeFront.writeStarts
      = s.writeStarts.advance s.state (.written data none callbacks) := by
  apply (writeStarts_writeFront _).trans
  simp only [List.length_tail, Nat.sub_pos_iff_lt]
  by_cases more : 1 < s.sendMsgQueue.length <;>
    simp [writeStarts, WriteStarts.advance, SessionEvent.queued, SessionEvent.startsWrite, more]

/-- The public calls start no write; a send is only posted. -/
theorem writeStarts_call (s : WebsocketSession) (call : SessionCall)
    : (s.call call).writeStarts = s.writeStarts := by
  cases call with
  | connect =>
      simp only [WebsocketSession.call, connect]
      split
      · exact (writeStarts_start (by simp)).trans (writeStarts_record rfl)
      · rfl
  | disconnect =>
      simp only [WebsocketSession.call, disconnect]
      split
      · exact writeStarts_start (by simp)
      · rfl
  | sendData data =>
      simp only [WebsocketSession.call, sendData]
      split <;> rfl

end WebsocketSession

namespace Hosted

theorem writeStarts_callback (w : Hosted σ) (callbacks : Callbacks σ) (notice : Notice)
    : (w.callback callbacks notice).session.writeStarts = w.session.writeStarts := by
  simp only [callback, act]
  rw [WebsocketSession.view_calls WebsocketSession.writeStarts_call]
  exact WebsocketSession.writeStarts_record rfl

theorem writeStarts_fail (w : Hosted σ) (callbacks : Callbacks σ) (error : SessionError)
    (ec : ErrorCode)
    : (w.fail callbacks error ec).session.writeStarts = w.session.writeStarts :=
  (writeStarts_callback ..).trans (WebsocketSession.writeStarts_record rfl)

/-- Every step advances the starts by its event and the state that it finds; the cases are
the events.
-/
theorem step_writeStarts {w next : Hosted σ} {event : SessionEvent σ}
    (stepped : w.step event = some next)
    : next.session.writeStarts = w.session.writeStarts.advance w.session.state event := by
  cases event with
  | outside action =>
      obtain rfl := Option.some.inj stepped
      exact WebsocketSession.view_calls WebsocketSession.writeStarts_call ..
  | sendPosted =>
      simp only [step] at stepped
      split at stepped
      case h_1 => contradiction
      case h_2 data rest waiting =>
        obtain rfl := Option.some.inj stepped
        apply (WebsocketSession.writeStarts_sendDataInner (σ := σ) ..).trans
        have other : (Effect.handed data).writeStart? = none := rfl
        exact congrArg (WriteStarts.advance · w.session.state .sendPosted)
          (WebsocketSession.writeStarts_record other)
  | resolved ec callbacks | connected ec callbacks =>
      simp only [step, complete_eq_some] at stepped
      obtain ⟨_, rfl⟩ := stepped
      cases ec with
      | none => exact WebsocketSession.writeStarts_start (by simp)
      | some ec => exact writeStarts_fail ..
  | handshaken ec callbacks =>
      simp only [step, complete_eq_some] at stepped
      obtain ⟨_, rfl⟩ := stepped
      cases ec with
      | none =>
          apply (WebsocketSession.writeStarts_start (by simp)).trans
          apply (writeStarts_callback ..).trans
          exact WebsocketSession.writeStarts_record rfl
      | some ec => exact writeStarts_fail ..
  | closed ec callbacks =>
      simp only [step, complete_eq_some] at stepped
      obtain ⟨_, rfl⟩ := stepped
      cases ec with
      | none => exact (writeStarts_callback ..).trans (WebsocketSession.writeStarts_record rfl)
      | some ec => exact writeStarts_fail ..
  | written data ec callbacks =>
      simp only [step, complete_eq_some] at stepped
      obtain ⟨flying, rfl⟩ := stepped
      cases ec with
      | none =>
          apply (WebsocketSession.writeStarts_next _ data callbacks).trans
          have other : (Effect.written data).writeStart? = none := rfl
          exact congrArg
            (WriteStarts.advance · w.session.state (.written data none callbacks))
            (WebsocketSession.writeStarts_record other)
      | some ec => exact writeStarts_fail ..
  | read bytes ec callbacks =>
      simp only [step, complete_eq_some] at stepped
      obtain ⟨_, rfl⟩ := stepped
      cases ec with
      | none =>
          apply (WebsocketSession.writeStarts_start (by simp)).trans
          apply (writeStarts_callback ..).trans
          exact WebsocketSession.writeStarts_record rfl
      | some ec =>
          obtain ⟨kind, message⟩ := ec
          cases kind with
          | operationCanceled => rfl
          | closed | other => exact writeStarts_fail ..

/-- The events tell how many messages are in the queue. -/
theorem run_waiting {owner : σ} {events : List (SessionEvent σ)} {final : Hosted σ}
    (ran : (create owner).run events = some final)
    : final.session.writeStarts.waiting = SessionEvent.queuedAfter events :=
  Machine.follow_foldl (fun w : Hosted σ => w.session.writeStarts.waiting)
    SessionEvent.queued
    (fun stepped => congrArg WriteStarts.waiting (step_writeStarts stepped)) ran

/-- A step keeps the writes open exactly if it starts none or finds the session connected. -/
theorem step_writesOpen_iff {w next : Hosted σ} {event : SessionEvent σ}
    (stepped : w.step event = some next)
    : next.session.WritesOpen
      ↔ w.session.WritesOpen
        ∧ (event.startsWrite w.session.writeStarts.waiting = true
          → w.session.state = .kConnected) := by
  rw [WebsocketSession.writesOpen_iff, WebsocketSession.writesOpen_iff,
    step_writeStarts stepped, WriteStarts.advance]
  split
  case isTrue starts => simp [starts, or_imp, forall_and]
  case isFalse silent => simp [silent]

/-- In every run all writes are started in the connected state exactly if each message handed
to an empty queue, and each write that succeeds with another message behind it, comes when the
last handshake succeeded and no error or close was reported behind it.
-/
theorem writes_open_iff {owner : σ} {events : List (SessionEvent σ)} {final : Hosted σ}
    (ran : (create owner).run events = some final)
    : final.session.WritesOpen
      ↔ ∀ before event after,
          events = before ++ event :: after
          → event.startsWrite (SessionEvent.queuedAfter before) = true
          → (Link.after before).connected = true := by
  have start : (create owner).session.WritesOpen := by
    intro data state logged
    contradiction
  rw [Machine.follow_iff (fun w : Hosted σ => w.session.WritesOpen) _ step_writesOpen_iff
    start ran]
  have read
      : ∀ {before} {reached : Hosted σ},
          (create owner).run before = some reached →
            reached.session.writeStarts.waiting = SessionEvent.queuedAfter before
            ∧ (reached.session.state = .kConnected ↔ (Link.after before).connected = true) := by
    intro before reached there
    refine ⟨run_waiting there, ?_⟩
    rw [← run_link there]
    exact WebsocketSession.link_connected_iff.symm
  constructor
  · intro fine before event after split starts
    obtain ⟨reached, there, _⟩ := Machine.follow_append_iff.mp (split ▸ ran)
    obtain ⟨waiting, connected⟩ := read there
    exact connected.mp (fine before event after reached split there (waiting ▸ starts))
  · intro opened before event after reached split there starts
    obtain ⟨waiting, connected⟩ := read there
    exact connected.mpr (opened before event after split (waiting ▸ starts))

/-- Two messages are sent on an open connection, and the first is written. -/
def chained : List (SessionEvent Unit) :=
  [outsideCalls [.connect], .resolved none silent, .connected none silent,
    .handshaken none silent, outsideCalls [.sendData [1], .sendData [2]], .sendPosted,
    .sendPosted, .written [1] none silent, outsideCalls [.disconnect], .closed none silent,
    .written [2] none silent]

theorem writes_open_iff_chained
    : ∃ final,
        (create ()).run chained = some final
        ∧ ∀ before event after,
            chained = before ++ event :: after
            → event.startsWrite (SessionEvent.queuedAfter before) = true
            → (Link.after before).connected = true := by
  obtain ⟨final, ran⟩ : ∃ final, (create ()).run chained = some final := ⟨_, rfl⟩
  refine ⟨final, ran, (writes_open_iff ran).mp ?_⟩
  obtain rfl := Option.some.inj ran
  exact WebsocketSession.writesOpen_iff.mpr (by decide)

/-- A message that is sent during an attempt is written before the connection is there. -/
theorem write_starts_connecting
    : ¬∀ (events : List (SessionEvent Unit)) (final : Hosted Unit),
        (create ()).run events = some final → final.session.WritesOpen := by
  intro claim
  have opened := claim [outsideCalls [.connect, .sendData [1]], .sendPosted] _ rfl
  have connecting : SessionState.kConnecting = .kConnected := opened [1] _ (by decide)
  contradiction

end Hosted

end Nbsdk.Messenger
