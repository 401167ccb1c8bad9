import Nbsdk.Lib.Machine

/-! The websocket session of websocket_session.cc on its strand.
The resolver and the stream appear as the operations they have in flight and the strand as
the handlers posted to it. Each handler is one step; each operation in flight completes
once, at any later step, with any result.
-/

namespace Nbsdk.Messenger

/-- A `std::string` that is sent or received. -/
abbrev Message := List UInt8

inductive SessionError
  | kUnknownError
  | kConnectError
  | kSendError
  | kReceiveError
  | kCloseError
  | kDisconnectError
  deriving DecidableEq, Repr

inductive SessionState
  | kUnknown
  | kDisconnected
  | kConnecting
  | kConnected
  | kError
  deriving DecidableEq, Repr

/-- The error values that the handlers tell apart. -/
inductive ErrorKind
  | operationCanceled
  | closed
  | other
  deriving DecidableEq, Repr

/-- A `boost::system::error_code` that reports an error; success is `none`. -/
structure ErrorCode where
  kind : ErrorKind
  message : String
  deriving DecidableEq, Repr

/-- An asynchronous operation on the resolver or the stream. -/
inductive Operation
  | resolve
  | connect
  | handshake
  | close
  | write (data : Message)
  | read
  deriving DecidableEq, Repr

/-- A call of one of the four callbacks, which are all set. -/
inductive Notice
  | connected
  | closed
  | error (error : SessionError) (reason : String)
  | received (msg : Message)
  deriving DecidableEq, Repr

/-- A call of the public interface. -/
inductive SessionCall
  | connect
  | disconnect
  | sendData (data : Message)
  deriving DecidableEq, Repr

/-- What a run records of the session, for the properties of whole runs: values given to
`state_`, operations started and in which state, messages handed to `SendDataInner`,
messages whose write succeeded, messages the peer completed, and callbacks. The last two
carry the number of the connection that was current.
-/
inductive Effect
  | entered (state : SessionState)
  | started (operation : Operation) (state : SessionState)
  | handed (data : Message)
  | written (data : Message)
  | completed (connection : Nat) (payload : Message)
  | called (connection : Nat) (notice : Notice)
  deriving DecidableEq, Repr

/-- The members that the handlers read and write, with the operations of `resolver_` and
`ws_` in flight and the `SendDataInner` handlers posted to `strand_`. `connection` counts
the completed handshakes; it and `log` are only observed.
-/
structure WebsocketSession where
  state : SessionState
  buffer : List UInt8
  sendMsgQueue : List Message
  operations : List Operation
  posted : List Message
  connection : Nat
  log : List Effect
  deriving DecidableEq, Repr

namespace WebsocketSession

/-- The constructor. -/
def create : WebsocketSession where
  state := .kDisconnected
  buffer := []
  sendMsgQueue := []
  operations := []
  posted := []
  connection := 0
  log := []

def record (s : WebsocketSession) (effect : Effect) : WebsocketSession :=
  { s with log := s.log ++ [effect] }

/-- Starts an asynchronous operation. -/
def start (s : WebsocketSession) (operation : Operation) : WebsocketSession :=
  { s with operations := s.operations ++ [operation] }.record (.started operation s.state)

/-- An asynchronous operation is no longer in flight. -/
def finish (s : WebsocketSession) (operation : Operation) : WebsocketSession :=
  { s with operations := s.operations.erase operation }

def updateState (s : WebsocketSession) (state : SessionState) : WebsocketSession :=
  { s with state }.record (.entered state)

def connect (s : WebsocketSession) : WebsocketSession :=
  if s.state = .kDisconnected ∨ s.state = .kError then
    (s.updateState .kConnecting).start .resolve
  else s

def disconnect (s : WebsocketSession) : WebsocketSession :=
  if s.state ≠ .kDisconnected then s.start .close else s

def sendData (s : WebsocketSession) (data : Message) : WebsocketSession :=
  if s.state = .kDisconnected ∨ s.state = .kError then s
  else { s with posted := s.posted ++ [data] }

/-- `async_write` of the queue's front, which both callers have just found present. -/
def writeFront (s : WebsocketSession) : WebsocketSession :=
  match s.sendMsgQueue with
  | [] => s
  | front :: _ => s.start (.write front)

def sendDataInner (s : WebsocketSession) (data : Message) : WebsocketSession :=
  let s := { s with sendMsgQueue := s.sendMsgQueue ++ [data] }
  if s.sendMsgQueue.length > 1 then s else s.writeFront

def doRead (s : WebsocketSession) : WebsocketSession := s.start .read

def call (s : WebsocketSession) : SessionCall → WebsocketSession
  | .connect => s.connect
  | .disconnect => s.disconnect
  | .sendData data => s.sendData data

def calls (s : WebsocketSession) (calls : List SessionCall) : WebsocketSession :=
  calls.foldl call s

/-- What every call leaves alone, any calls leave alone, by induction over them. -/
theorem view_calls {α : Type} {view : WebsocketSession → α}
    (kept : ∀ s call, view (s.call call) = view s) (s : WebsocketSession)
    (calls : List SessionCall)
    : view (s.calls calls) = view s := by
  induction calls generalizing s with
  | nil => rfl
  | cons call rest ih => exact (ih (s.call call)).trans (kept s call)

end WebsocketSession

-----------------------------------------------------------------------------------------
-- Handlers, with the session's owner behind the callbacks
-----------------------------------------------------------------------------------------

/-- A session and whoever set its callbacks, with a state of its own. -/
structure Hosted (σ : Type) where
  session : WebsocketSession
  owner : σ

/-- What the callbacks do: each may change the owner and call back into the session. -/
abbrev Callbacks (σ : Type) := Notice → σ → List SessionCall × σ

namespace Hosted

variable {σ : Type}

/-- A step of the session alone. -/
def onSession (w : Hosted σ) (change : WebsocketSession → WebsocketSession) : Hosted σ :=
  { w with session := change w.session }

/-- The owner acts and calls into the session. -/
def act (w : Hosted σ) (action : σ → List SessionCall × σ) : Hosted σ where
  session := w.session.calls (action w.owner).1
  owner := (action w.owner).2

/-- Calls a callback. -/
def callback (w : Hosted σ) (callbacks : Callbacks σ) (notice : Notice) : Hosted σ :=
  (w.onSession (fun s => s.record (.called s.connection notice))).act (callbacks notice)

/-- The error exit that the handlers share. -/
def fail (w : Hosted σ) (callbacks : Callbacks σ) (error : SessionError) (ec : ErrorCode)
    : Hosted σ :=
  (w.onSession (·.updateState .kError)).callback callbacks (.error error ec.message)

def onResolve (w : Hosted σ) (callbacks : Callbacks σ) (ec : Option ErrorCode)
    : Hosted σ :=
  match ec with
  | some ec => w.fail callbacks .kConnectError ec
  | none => w.onSession (·.start .connect)

def onConnect (w : Hosted σ) (callbacks : Callbacks σ) (ec : Option ErrorCode)
    : Hosted σ :=
  match ec with
  | some ec => w.fail callbacks .kConnectError ec
  | none => w.onSession (·.start .handshake)

def onHandshake (w : Hosted σ) (callbacks : Callbacks σ) (ec : Option ErrorCode)
    : Hosted σ :=
  match ec with
  | some ec => w.fail callbacks .kConnectError ec
  | none =>
      ((w.onSession (·.updateState .kConnected)).callback callbacks .connected).onSession
        (·.doRead)

def onClosed (w : Hosted σ) (callbacks : Callbacks σ) (ec : Option ErrorCode)
    : Hosted σ :=
  match ec with
  | some ec => w.fail callbacks .kCloseError ec
  | none => (w.onSession (·.updateState .kDisconnected)).callback callbacks .closed

def onDisconnected (w : Hosted σ) (callbacks : Callbacks σ) (ec : ErrorCode) : Hosted σ :=
  w.fail callbacks .kDisconnectError ec

def onWrite (w : Hosted σ) (callbacks : Callbacks σ) (ec : Option ErrorCode) : Hosted σ :=
  match ec with
  | some ec => w.fail callbacks .kSendError ec
  | none =>
      -- with an empty queue left, there is no front to write
      w.onSession (fun s => { s with sendMsgQueue := s.sendMsgQueue.tail }.writeFront)

def onRead (w : Hosted σ) (callbacks : Callbacks σ) (ec : Option ErrorCode) : Hosted σ :=
  match ec with
  | some ec =>
      match ec.kind with
      | .operationCanceled => w
      | .closed => w.onDisconnected callbacks ec
      | .other => w.fail callbacks .kReceiveError ec
  | none =>
      (w.callback callbacks (.received w.session.buffer)).onSession
        (fun s => { s with buffer := [] }.doRead)

end Hosted

/-- One step: the owner acts outside the strand, the strand runs the next posted send, or
an operation in flight completes and its handler runs. A read also brings the bytes that
it appended to the buffer: one whole message, or with an error any part of one.
-/
inductive SessionEvent (σ : Type)
  | outside (action : σ → List SessionCall × σ)
  | sendPosted
  | resolved (ec : Option ErrorCode) (callbacks : Callbacks σ)
  | connected (ec : Option ErrorCode) (callbacks : Callbacks σ)
  | handshaken (ec : Option ErrorCode) (callbacks : Callbacks σ)
  | closed (ec : Option ErrorCode) (callbacks : Callbacks σ)
  | written (data : Message) (ec : Option ErrorCode) (callbacks : Callbacks σ)
  | read (bytes : List UInt8) (ec : Option ErrorCode) (callbacks : Callbacks σ)

namespace Hosted

variable {σ : Type}

/-- Completes an operation in flight by running its handler. -/
def complete (w : Hosted σ) (operation : Operation) (handler : Hosted σ → Hosted σ)
    : Option (Hosted σ) :=
  if operation ∈ w.session.operations then
    some (handler (w.onSession (·.finish operation)))
  else none

/-- A completion runs its handler after taking an operation in flight away. -/
theorem complete_eq_some {w next : Hosted σ} {operation : Operation}
    {handler : Hosted σ → Hosted σ}
    : w.complete operation handler = some next
      ↔ operation ∈ w.session.operations
        ∧ handler (w.onSession (·.finish operation)) = next := by
  simp [complete]

/-- A completed handshake makes a new connection the current one. -/
def countConnection (w : Hosted σ) (ec : Option ErrorCode) : Hosted σ :=
  w.onSession (fun s =>
    match ec with
    | some _ => s
    | none => { s with connection := s.connection + 1 })

/-- A successful write is recorded. -/
def countWritten (w : Hosted σ) (data : Message) (ec : Option ErrorCode) : Hosted σ :=
  w.onSession (fun s =>
    match ec with
    | some _ => s
    | none => s.record (.written data))

/-- The bytes of a read are in the buffer; without an error they are a message that the
peer completed on the current connection. In `Streaming` they arrive before, and a read has
its own connection; without reads that overlap the two are the same.
-/
def appendRead (w : Hosted σ) (bytes : List UInt8) (ec : Option ErrorCode) : Hosted σ :=
  w.onSession (fun s =>
    let s := { s with buffer := s.buffer ++ bytes }
    match ec with
    | some _ => s
    | none => s.record (.completed s.connection bytes))

def step (w : Hosted σ) : SessionEvent σ → Option (Hosted σ)
  | .outside action => some (w.act action)
  | .sendPosted =>
      match w.session.posted with
      | [] => none
      | data :: rest =>
          some (w.onSession (fun s =>
            ({ s with posted := rest }.record (.handed data)).sendDataInner data))
  | .resolved ec callbacks => w.complete .resolve (·.onResolve callbacks ec)
  | .connected ec callbacks => w.complete .connect (·.onConnect callbacks ec)
  | .handshaken ec callbacks =>
      w.complete .handshake (fun w => (w.countConnection ec).onHandshake callbacks ec)
  | .closed ec callbacks => w.complete .close (·.onClosed callbacks ec)
  | .written data ec callbacks =>
      w.complete (.write data) (fun w => (w.countWritten data ec).onWrite callbacks ec)
  | .read bytes ec callbacks =>
      w.complete .read (fun w => (w.appendRead bytes ec).onRead callbacks ec)

/-- A new session with its owner. -/
def create (owner : σ) : Hosted σ := ⟨.create, owner⟩

/-- The state after these events, if each was enabled in its turn. -/
def run (w : Hosted σ) (events : List (SessionEvent σ)) : Option (Hosted σ) :=
  Machine.follow step w events

end Hosted

/-- The callback that a completion leads to, if it leads to one. -/
def SessionEvent.notice? {σ : Type} (s : WebsocketSession)
    : SessionEvent σ → Option (Notice × Callbacks σ)
  | .outside _ | .sendPosted => none
  | .resolved none _ | .connected none _ | .written _ none _ => none
  | .resolved (some ec) callbacks | .connected (some ec) callbacks
  | .handshaken (some ec) callbacks => some (.error .kConnectError ec.message, callbacks)
  | .handshaken none callbacks => some (.connected, callbacks)
  | .closed (some ec) callbacks => some (.error .kCloseError ec.message, callbacks)
  | .closed none callbacks => some (.closed, callbacks)
  | .written _ (some ec) callbacks => some (.error .kSendError ec.message, callbacks)
  | .read bytes none callbacks => some (.received (s.buffer ++ bytes), callbacks)
  | .read _ (some ec) callbacks =>
      match ec.kind with
      | .operationCanceled => none
      | .closed => some (.error .kDisconnectError ec.message, callbacks)
      | .other => some (.error .kReceiveError ec.message, callbacks)

/-- What a step does to the owner: the action from outside, or the one callback. -/
def SessionEvent.ownerAfter {σ : Type} (w : Hosted σ) : SessionEvent σ → σ
  | .outside action => (action w.owner).2
  | event =>
      match event.notice? w.session with
      | none => w.owner
      | some (notice, callbacks) => (callbacks notice w.owner).2

/-- The session calls that the owner makes in a step. -/
def SessionEvent.callsMade {σ : Type} (w : Hosted σ) : SessionEvent σ → List SessionCall
  | .outside action => (action w.owner).1
  | event =>
      match event.notice? w.session with
      | none => []
      | some (notice, callbacks) => (callbacks notice w.owner).1

/-- A step changes the owner by its action or its one callback, by its cases. -/
theorem Hosted.step_owner {σ : Type} {w next : Hosted σ} {event : SessionEvent σ}
    (stepped : w.step event = some next)
    : next.owner = event.ownerAfter w := by
  cases event with
  | outside action =>
      obtain rfl := Option.some.inj stepped
      rfl
  | sendPosted =>
      simp only [step] at stepped
      split at stepped
      · contradiction
      · obtain rfl := Option.some.inj stepped
        rfl
  | resolved ec callbacks | connected ec callbacks | handshaken ec callbacks
  | closed ec callbacks | written data ec callbacks =>
      simp only [step, complete_eq_some] at stepped
      obtain ⟨_, rfl⟩ := stepped
      cases ec <;> rfl
  | read bytes ec callbacks =>
      simp only [step, complete_eq_some] at stepped
      obtain ⟨_, rfl⟩ := stepped
      cases ec with
      | none => rfl
      | some ec =>
          obtain ⟨kind, message⟩ := ec
          cases kind <;> rfl

/-- An owner that has no state and ignores the callbacks. -/
def silent : Callbacks Unit := fun _ owner => ([], owner)

/-- The owner makes these calls outside the strand. -/
def outsideCalls (calls : List SessionCall) : SessionEvent Unit :=
  .outside (fun owner => (calls, owner))

/-- A broken connection. -/
def reset : ErrorCode := ⟨.other, "Connection reset by peer"⟩

end Nbsdk.Messenger
