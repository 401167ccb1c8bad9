import Nbsdk.Messenger.Link

/-! The connection attempts of a session that are in progress.
An attempt is a resolve, a TCP connect or a handshake in flight. Only `Connect` begins one,
and a successful handshake ends one and starts to read. The session's state, its attempts
and its reads are a machine of their own, the dial.
-/

namespace Nbsdk.Messenger

/-- The operation is a stage of a connection attempt. -/
def Operation.isAttempt : Operation → Bool
  | .resolve | .connect | .handshake => true
  | .close | .write _ | .read => false

/-- The session's state, the attempts in progress, the attempts begun so far, and the reads
in flight.
-/
structure Dial where
  state : SessionState
  attempts : Nat
  begun : Nat
  reads : Nat
  deriving DecidableEq, Repr

namespace Dial

def enter (d : Dial) (state : SessionState) : Dial := { d with state }

/-- `Connect` begins an attempt in two of the states. -/
def connect (d : Dial) : Dial :=
  if d.state = .kDisconnected ∨ d.state = .kError then
    { d with state := .kConnecting, attempts := d.attempts + 1, begun := d.begun + 1 }
  else d

/-- The owner makes its calls, with a `Connect` among them or not. -/
def calls (d : Dial) (connects : Bool) : Dial := if connects then d.connect else d

def endAttempt (d : Dial) : Dial := { d with attempts := d.attempts - 1 }

def startRead (d : Dial) : Dial := { d with reads := d.reads + 1 }

def endRead (d : Dial) : Dial := { d with reads := d.reads - 1 }

/-- The dial in which the owner makes the calls of an event. -/
def atCalls {σ : Type} (d : Dial) : SessionEvent σ → Dial
  | .outside _ | .sendPosted | .resolved none _ | .connected none _ | .written _ none _ => d
  | .resolved (some _) _ | .connected (some _) _ | .handshaken (some _) _ =>
      d.endAttempt.enter .kError
  | .handshaken none _ => d.endAttempt.enter .kConnected
  | .closed none _ => d.enter .kDisconnected
  | .closed (some _) _ | .written _ (some _) _ => d.enter .kError
  | .read _ none _ => d.endRead
  | .read _ (some ec) _ =>
      if ec.kind = .operationCanceled then d.endRead else d.endRead.enter .kError

/-- The event leads to another read. -/
def readsOn {σ : Type} : SessionEvent σ → Bool
  | .handshaken none _ | .read _ none _ => true
  | _ => false

/-- What an event of the session is to its dial. -/
def advance {σ : Type} (d : Dial) (connects : Bool) (event : SessionEvent σ) : Dial :=
  let called := (d.atCalls event).calls connects
  if readsOn event then called.startRead else called

/-- A second `Connect` finds the first one connecting. -/
@[simp] theorem connect_connect (d : Dial) : d.connect.connect = d.connect := by
  simp only [connect]
  split <;> simp_all

@[simp] theorem reads_calls (d : Dial) (connects : Bool)
    : (d.calls connects).reads = d.reads := by
  simp only [calls, connect]
  split
  · split <;> rfl
  · rfl

/-- An event changes the dial before its calls, and behind them it may start a read. -/
theorem advance_eq {σ : Type} (d : Dial) (connects : Bool) (event : SessionEvent σ)
    : d.advance connects event
      = { (d.atCalls event).calls connects with
          reads := (d.atCalls event).reads + (readsOn event).toNat } := by
  simp only [advance]
  rw [← reads_calls (d.atCalls event) connects]
  cases readsOn event <;> rfl

end Dial

namespace WebsocketSession

/-- The number of attempts in progress. -/
def attempts (s : WebsocketSession) : Nat := s.operations.countP Operation.isAttempt

/-- The number of reads in flight. -/
def reads (s : WebsocketSession) : Nat := s.operations.count .read

def dial (s : WebsocketSession) : Dial where
  state := s.state
  attempts := s.attempts
  begun := s.log.count (.started .resolve .kConnecting)
  reads := s.reads

/-- An effect other than a resolve does not show in the dial. -/
theorem dial_record {s : WebsocketSession} {effect : Effect}
    (other : effect ≠ .started .resolve .kConnecting)
    : (s.record effect).dial = s.dial := by
  simp [dial, record, attempts, reads, other]

@[simp] theorem dial_updateState (s : WebsocketSession) (state : SessionState)
    : (s.updateState state).dial = s.dial.enter state :=
  dial_record (by simp)

/-- Starting a close or a write does not show in the dial. -/
theorem dial_start {s : WebsocketSession} {operation : Operation}
    (noAttempt : operation.isAttempt = false) (noRead : operation ≠ .read)
    : (s.start operation).dial = s.dial := by
  have other : Effect.started operation s.state ≠ .started .resolve .kConnecting := by
    intro same
    obtain ⟨rfl, _⟩ := Effect.started.inj same
    contradiction
  refine (dial_record other).trans ?_
  simp [dial, attempts, reads, noAttempt, noRead]

@[simp] theorem dial_doRead (s : WebsocketSession) : s.doRead.dial = s.dial.startRead := by
  refine (dial_record (by simp)).trans ?_
  simp [dial, attempts, reads, Dial.startRead, Operation.isAttempt]

@[simp] theorem attempts_start (s : WebsocketSession) (operation : Operation)
    : (s.start operation).attempts = s.attempts + operation.isAttempt.toNat := by
  cases operation <;> simp [attempts, start, record, Operation.isAttempt]

theorem reads_start {s : WebsocketSession} {operation : Operation}
    (noRead : operation ≠ .read)
    : (s.start operation).reads = s.reads := by
  simp [reads, start, record, noRead]

/-- Finishing a stage of an attempt leaves one attempt less. -/
theorem attempts_finish {s : WebsocketSession} {operation : Operation}
    (flying : operation ∈ s.operations)
    : (s.finish operation).attempts + operation.isAttempt.toNat = s.attempts := by
  have split := (List.perm_cons_erase flying).countP_eq Operation.isAttempt
  rw [List.countP_cons] at split
  simp only [attempts, finish, split]
  cases operation <;> rfl

/-- Finishing anything but a read leaves the reads. -/
theorem reads_finish {s : WebsocketSession} {operation : Operation}
    (noRead : operation ≠ .read)
    : (s.finish operation).reads = s.reads :=
  List.count_erase_of_ne noRead.symm

/-- Finishing a close or a write does not show in the dial. -/
theorem dial_finish {s : WebsocketSession} {operation : Operation}
    (flying : operation ∈ s.operations) (noAttempt : operation.isAttempt = false)
    (noRead : operation ≠ .read)
    : (s.finish operation).dial = s.dial := by
  have attempts := attempts_finish flying
  rw [noAttempt] at attempts
  unfold dial
  rw [reads_finish noRead, ← attempts]
  rfl

theorem dial_finish_stage {s : WebsocketSession} {stage : Operation}
    (flying : stage ∈ s.operations) (isStage : stage.isAttempt = true)
    : (s.finish stage).dial = s.dial.endAttempt := by
  have attempts := attempts_finish flying
  rw [isStage] at attempts
  have noRead : stage ≠ .read := by
    intro same
    subst same
    contradiction
  unfold dial
  rw [reads_finish noRead, ← attempts]
  rfl

theorem dial_finish_read {s : WebsocketSession} (flying : .read ∈ s.operations)
    : (s.finish .read).dial = s.dial.endRead := by
  have attempts := attempts_finish flying
  unfold dial
  rw [← attempts]
  simp [finish, reads, Dial.endRead, Operation.isAttempt]

/-- The next stage of an attempt takes the place of the one that completed. -/
theorem dial_nextStage {s : WebsocketSession} {stage next : Operation}
    (flying : stage ∈ s.operations) (isStage : stage.isAttempt = true)
    (isNext : next = .connect ∨ next = .handshake)
    : ((s.finish stage).start next).dial = s.dial := by
  have attempts := attempts_finish flying
  rw [isStage] at attempts
  have noRead : stage ≠ .read := by
    intro same
    subst same
    contradiction
  rcases isNext with rfl | rfl
  · unfold dial
    rw [attempts_start, reads_start (by simp), reads_finish noRead, ← attempts]
    simp [start, record, finish, Operation.isAttempt]
  · unfold dial
    rw [attempts_start, reads_start (by simp), reads_finish noRead, ← attempts]
    simp [start, record, finish, Operation.isAttempt]

@[simp] theorem dial_writeFront (s : WebsocketSession) : s.writeFront.dial = s.dial := by
  cases waiting : s.sendMsgQueue with
  | nil => simp [writeFront, waiting]
  | cons front rest =>
      simp only [writeFront, waiting]
      exact dial_start rfl (by simp)

@[simp] theorem dial_sendDataInner (s : WebsocketSession) (data : Message)
    : (s.sendDataInner data).dial = s.dial := by
  simp only [sendDataInner]
  split
  · rfl
  · exact dial_writeFront ..

theorem dial_connect (s : WebsocketSession) : s.connect.dial = s.dial.connect := by
  have guard : s.dial.state = s.state := rfl
  simp only [connect, Dial.connect, guard]
  split
  case isTrue =>
    simp [dial, start, updateState, record, attempts, reads, Operation.isAttempt]
  case isFalse => rfl

/-- The owner's calls show by whether a `Connect` is among them, by induction over them. -/
theorem dial_calls (s : WebsocketSession) (calls : List SessionCall)
    : (s.calls calls).dial = s.dial.calls (calls.contains .connect) := by
  induction calls generalizing s with
  | nil => rfl
  | cons call rest ih =>
      apply (ih (s.call call)).trans
      cases call with
      | connect =>
          simp only [WebsocketSession.call, dial_connect, Dial.calls]
          split <;> simp
      | disconnect =>
          have same : s.disconnect.dial = s.dial := by
            simp only [disconnect]
            split
            · exact dial_start rfl (by simp)
            · rfl
          simp [WebsocketSession.call, same]
      | sendData data =>
          have same : (s.sendData data).dial = s.dial := by
            simp only [sendData]
            split <;> rfl
          simp [WebsocketSession.call, same]

end WebsocketSession

namespace Hosted

variable {σ : Type}

/-- The owner makes a `Connect` in the event. -/
def connectsIn (w : Hosted σ) (event : SessionEvent σ) : Bool :=
  (event.callsMade w).contains .connect

/-- A callback shows in the dial by the owner's calls alone. -/
theorem dial_callback (w : Hosted σ) (callbacks : Callbacks σ) (notice : Notice)
    : (w.callback callbacks notice).session.dial
      = w.session.dial.calls ((callbacks notice w.owner).1.contains .connect) := by
  simp only [callback, act, onSession, WebsocketSession.dial_calls]
  rw [WebsocketSession.dial_record (by simp)]

theorem dial_fail (w : Hosted σ) (callbacks : Callbacks σ) (error : SessionError)
    (ec : ErrorCode)
    : (w.fail callbacks error ec).session.dial
      = (w.session.dial.enter .kError).calls
          ((callbacks (.error error ec.message) w.owner).1.contains .connect) := by
  refine (dial_callback ..).trans ?_
  simp [onSession]

@[simp] theorem dial_countConnection (w : Hosted σ) (ec : Option ErrorCode)
    : (w.countConnection ec).session.dial = w.session.dial := by
  cases ec <;> rfl

@[simp] theorem dial_countWritten (w : Hosted σ) (data : Message) (ec : Option ErrorCode)
    : (w.countWritten data ec).session.dial = w.session.dial := by
  cases ec with
  | none => exact WebsocketSession.dial_record (by simp)
  | some ec => rfl

@[simp] theorem dial_appendRead (w : Hosted σ) (bytes : List UInt8) (ec : Option ErrorCode)
    : (w.appendRead bytes ec).session.dial = w.session.dial := by
  cases ec with
  | none => exact WebsocketSession.dial_record (by simp)
  | some ec => rfl

/-- Every step advances the dial by its event; the cases are the events. -/
theorem step_dial {w next : Hosted σ} {event : SessionEvent σ}
    (stepped : w.step event = some next)
    : next.session.dial = w.session.dial.advance (w.connectsIn event) event := by
  cases event with
  | outside action =>
      obtain rfl := Option.some.inj stepped
      exact WebsocketSession.dial_calls ..
  | sendPosted =>
      simp only [step] at stepped
      split at stepped
      case h_1 => contradiction
      case h_2 data rest waiting =>
        obtain rfl := Option.some.inj stepped
        refine (WebsocketSession.dial_sendDataInner ..).trans ?_
        exact WebsocketSession.dial_record (by simp)
  | resolved ec callbacks | connected ec callbacks =>
      simp only [step, complete_eq_some] at stepped
      obtain ⟨flying, rfl⟩ := stepped
      cases ec with
      | none => exact WebsocketSession.dial_nextStage flying rfl (by simp)
      | some ec =>
          refine (dial_fail ..).trans ?_
          rw [onSession, WebsocketSession.dial_finish_stage flying rfl]
          rfl
  | handshaken ec callbacks =>
      simp only [step, complete_eq_some] at stepped
      obtain ⟨flying, rfl⟩ := stepped
      have taken := WebsocketSession.dial_finish_stage flying rfl
      cases ec with
      | none =>
          apply (WebsocketSession.dial_doRead _).trans
          apply (congrArg Dial.startRead (dial_callback ..)).trans
          simp only [onSession, WebsocketSession.dial_updateState, dial_countConnection,
            taken]
          rfl
      | some ec =>
          apply (dial_fail ..).trans
          simp only [onSession, dial_countConnection, taken]
          rfl
  | closed ec callbacks =>
      simp only [step, complete_eq_some] at stepped
      obtain ⟨flying, rfl⟩ := stepped
      have taken := WebsocketSession.dial_finish flying rfl (by simp)
      cases ec with
      | none =>
          apply (dial_callback ..).trans
          simp only [onSession, WebsocketSession.dial_updateState, taken]
          rfl
      | some ec =>
          apply (dial_fail ..).trans
          simp only [onSession, taken]
          rfl
  | written data ec callbacks =>
      simp only [step, complete_eq_some] at stepped
      obtain ⟨flying, rfl⟩ := stepped
      have taken := WebsocketSession.dial_finish flying rfl (by simp)
      cases ec with
      | none =>
          apply (WebsocketSession.dial_writeFront _).trans
          exact (dial_countWritten (w.onSession (·.finish (.write data))) data none).trans taken
      | some ec =>
          apply (dial_fail ..).trans
          simp only [onSession, dial_countWritten, taken]
          rfl
  | read bytes ec callbacks =>
      simp only [step, complete_eq_some] at stepped
      obtain ⟨flying, rfl⟩ := stepped
      have taken := WebsocketSession.dial_finish_read flying
      cases ec with
      | none =>
          apply (WebsocketSession.dial_doRead _).trans
          apply (congrArg Dial.startRead (dial_callback ..)).trans
          simp only [dial_appendRead, onSession, taken]
          rfl
      | some ec =>
          obtain ⟨kind, message⟩ := ec
          cases kind with
          | operationCanceled => exact (dial_appendRead ..).trans taken
          | closed | other =>
              apply (dial_fail ..).trans
              simp only [dial_appendRead, onSession, taken]
              rfl

/-- Without a `Connect` a step turns attempts into connections one by one and begins none;
the cases are the events.
-/
theorem step_attempts {w next : Hosted σ} {event : SessionEvent σ}
    (stepped : w.step event = some next) (noConnect : .connect ∉ event.callsMade w)
    : next.session.attempts + event.connects.toNat ≤ w.session.attempts := by
  have silent : w.connectsIn event = false := by simpa [connectsIn] using noConnect
  have advanced : next.session.attempts = (w.session.dial.advance false event).attempts := by
    rw [← silent, ← step_dial stepped]
    rfl
  rw [advanced]
  cases event with
  | outside | sendPosted => exact Nat.le_refl _
  | resolved ec callbacks | connected ec callbacks =>
      cases ec with
      | none => exact Nat.le_refl _
      | some ec => exact Nat.sub_le ..
  | handshaken ec callbacks =>
      cases ec with
      | none =>
          simp only [step, complete_eq_some] at stepped
          have flying : 1 ≤ w.session.attempts := by
            rw [← WebsocketSession.attempts_finish stepped.1]
            exact Nat.le_add_left _ _
          exact Nat.le_of_eq (Nat.sub_add_cancel flying)
      | some ec => exact Nat.sub_le ..
  | closed ec callbacks | written data ec callbacks =>
      cases ec <;> exact Nat.le_refl _
  | read bytes ec callbacks =>
      cases ec with
      | none => exact Nat.le_refl _
      | some ec =>
          obtain ⟨kind, message⟩ := ec
          cases kind <;> exact Nat.le_refl _

end Hosted

end Nbsdk.Messenger
