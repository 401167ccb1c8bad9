import Nbsdk.Messenger.Attempts

/-! When a session can be destroyed.
Each operation in flight and each posted send holds a reference to the session. Where none is
left, the destructor runs `Disconnect`, which needs one in every state but one.
-/

namespace Nbsdk.Messenger

variable {σ : Type}

/-- The exception of `shared_from_this()` when no reference is left. -/
structure BadWeakPtr
  deriving DecidableEq, Repr

namespace WebsocketSession

/-- Nothing holds a reference to the session. -/
structure Quiescent (s : WebsocketSession) : Prop where
  operations : s.operations = []
  posted : s.posted = []

/-- The destructor: a `Disconnect` when no reference is left. -/
def destroy (s : WebsocketSession) : Except BadWeakPtr WebsocketSession :=
  if s.state ≠ .kDisconnected then .error ⟨⟩ else .ok s

theorem destroy_iff {s : WebsocketSession} : s.destroy = .ok s ↔ s.state = .kDisconnected := by
  simp only [destroy]
  split
  case isTrue up => exact iff_of_false (fun made => by contradiction) up
  case isFalse down => exact iff_of_true rfl (not_not.mp down)

end WebsocketSession

namespace SessionEvent

/-- A close completes successfully. -/
def disconnects : SessionEvent σ → Bool
  | .closed none _ => true
  | _ => false

/-- An error is reported or a handshake completes successfully. -/
def unsettles : SessionEvent σ → Bool
  | .resolved (some _) _ | .connected (some _) _ | .handshaken _ _ | .closed (some _) _
  | .written _ (some _) _ => true
  | .read _ (some ec) _ => ec.kind ≠ .operationCanceled
  | _ => false

end SessionEvent

/-- Unless an attempt keeps the session connecting, it is disconnected as told. -/
def Dial.Settles (d : Dial) (disconnected : Prop) : Prop :=
  d.state = .kConnecting ∧ 0 < d.attempts ∨ (d.state = .kDisconnected ↔ disconnected)

namespace Dial

variable {d : Dial} {disconnected : Prop}

/-- A state that is neither kConnecting nor kDisconnected. -/
theorem settles_of_up {state : SessionState} (up : state ≠ .kDisconnected)
    (told : ¬ disconnected)
    : (d.enter state).Settles disconnected :=
  Or.inr (iff_of_false up told)

/-- A completion settles the dial anew, or leaves it as it was; the cases are the events. -/
theorem Settles.atCalls (h : d.Settles disconnected) (event : SessionEvent σ)
    : (d.atCalls event).Settles
        (event.unsettles = false ∧ (event.disconnects = true ∨ disconnected)) := by
  have same : d.Settles (false = false ∧ (false = true ∨ disconnected)) := by simpa using h
  have failed
      : ∀ {d : Dial} {closes : Bool},
          (d.enter .kError).Settles (true = false ∧ (closes = true ∨ disconnected)) := by
    intro d closes
    exact settles_of_up (by simp) (by simp)
  cases event with
  | outside | sendPosted => exact same
  | resolved ec callbacks | connected ec callbacks | written data ec callbacks =>
      cases ec with
      | none => exact same
      | some ec => exact failed
  | handshaken ec callbacks =>
      cases ec with
      | none => exact settles_of_up (by simp) (by simp [SessionEvent.unsettles])
      | some ec => exact failed
  | closed ec callbacks =>
      cases ec with
      | none => exact Or.inr (iff_of_true rfl ⟨rfl, Or.inl rfl⟩)
      | some ec => exact failed
  | read bytes ec callbacks =>
      cases ec with
      | none => exact same
      | some ec =>
          obtain ⟨kind, message⟩ := ec
          cases kind with
          | operationCanceled => exact same
          | closed | other => exact failed

/-- A `Connect` that takes effect keeps the session connecting by its attempt. -/
theorem Settles.calls (h : d.Settles disconnected) (connects : Bool)
    : (d.calls connects).Settles disconnected := by
  cases connects with
  | false => exact h
  | true =>
      simp only [Dial.calls, if_true, connect]
      split
      case isTrue => exact Or.inl ⟨rfl, Nat.succ_pos _⟩
      case isFalse => exact h

theorem Settles.advance (h : d.Settles disconnected) (connects : Bool) (event : SessionEvent σ)
    : (d.advance connects event).Settles
        (event.unsettles = false ∧ (event.disconnects = true ∨ disconnected)) := by
  rw [advance_eq]
  exact (h.atCalls event).calls connects

end Dial

namespace Hosted

/-- After a run the session is disconnected if every event that unsettled it was followed by a
close, unless an attempt keeps it connecting.
-/
theorem run_settles {owner : σ} {events : List (SessionEvent σ)} {final : Hosted σ}
    (ran : (create owner).run events = some final)
    : final.session.dial.Settles
        (Machine.Followed SessionEvent.unsettles SessionEvent.disconnects events) := by
  refine Machine.follow_history
    (fun events w => w.session.dial.Settles
      (Machine.Followed SessionEvent.unsettles SessionEvent.disconnects events)) ?_ ?_ ran
  · intro events event w next settles stepped
    rw [step_dial stepped, Machine.followed_concat]
    exact settles.advance _ event
  · exact Or.inr (iff_of_true rfl trivial)

/-- When nothing holds a reference to the session any more, it can be destroyed exactly if
every error reported and every handshake completed was followed by a successful close.
-/
theorem destroyed_iff {owner : σ} {events : List (SessionEvent σ)} {final : Hosted σ}
    (ran : (create owner).run events = some final) (quiescent : final.session.Quiescent)
    : final.session.destroy = .ok final.session
      ↔ Machine.Followed SessionEvent.unsettles SessionEvent.disconnects events := by
  rw [WebsocketSession.destroy_iff]
  rcases run_settles ran with ⟨_, trying⟩ | settled
  · have idle : final.session.dial.attempts = 0 := by
      simp [WebsocketSession.dial, WebsocketSession.attempts, quiescent.operations]
    omega
  · exact settled

/-- A handshake, a failed read and a close behind them. -/
def closedBehind : List (SessionEvent Unit) :=
  [outsideCalls [.connect], .resolved none silent, .connected none silent,
    .handshaken none silent, .read [] (some reset) silent, outsideCalls [.disconnect],
    .closed none silent]

theorem destroyed_iff_closedBehind
    : ∃ final,
        (create ()).run closedBehind = some final
        ∧ final.session.destroy = .ok final.session := by
  obtain ⟨final, ran⟩ : ∃ final, (create ()).run closedBehind = some final := ⟨_, rfl⟩
  have quiescent : final.session.Quiescent := by
    obtain rfl := Option.some.inj ran
    exact ⟨rfl, rfl⟩
  exact ⟨final, ran, (destroyed_iff ran quiescent).mpr (by decide)⟩

/-- After a resolve that fails nothing is in flight, and the session is in error. -/
theorem destruction_throws
    : ¬∀ (events : List (SessionEvent Unit)) (final : Hosted Unit),
        (create ()).run events = some final
        → final.session.Quiescent
        → final.session.state = .kDisconnected := by
  intro claim
  have down := claim [outsideCalls [.connect], .resolved (some reset) silent] _ rfl ⟨rfl, rfl⟩
  contradiction

end Hosted

end Nbsdk.Messenger
