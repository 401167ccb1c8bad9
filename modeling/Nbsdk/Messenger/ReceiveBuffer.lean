import Nbsdk.Messenger.Link

/-! Message boundaries in the receive buffer that all connections of a session share.
Only a successful read clears the buffer, so part of a message that broke off is delivered
in front of the next message that completes. No step but the completion of a read looks at
the buffer.
-/

namespace Nbsdk.Messenger

open Machine (NoneAfter)

variable {σ : Type}

/-- A read fails after part of a message has reached the buffer. -/
def SessionEvent.breaksMessage : SessionEvent σ → Bool
  | .read bytes (some _) _ => !bytes.isEmpty
  | _ => false

/-- A read completes a message. -/
def SessionEvent.completesMessage : SessionEvent σ → Bool
  | .read _ none _ => true
  | _ => false

/-- Only a successful read completes a message, by the cases of the event. -/
theorem SessionEvent.eq_read_of_completes {event : SessionEvent σ}
    (completes : event.completesMessage = true)
    : ∃ bytes callbacks, event = .read bytes none callbacks := by
  cases event with
  | read bytes ec callbacks =>
      cases ec with
      | none => exact ⟨bytes, callbacks, rfl⟩
      | some ec => contradiction
  | outside | sendPosted | resolved | connected | handshaken | closed | written =>
      contradiction

namespace Link

/-- Every message was delivered as it was completed. -/
def Faithful (l : Link) : Prop := l.delivered = l.completed

/-- A delivery is faithful exactly from a faithful link with an empty buffer. -/
theorem deliver_faithful_iff {l : Link} {bytes : List UInt8}
    : (l.deliver bytes).Faithful ↔ l.Faithful ∧ l.buffer = [] := by
  simp only [Faithful, deliver]
  constructor
  · intro same
    obtain ⟨earlier, last⟩ := List.append_inj' same rfl
    exact ⟨earlier, by simpa using last⟩
  · intro held
    rcases held with ⟨same, clear⟩
    rw [same, clear, List.nil_append]

/-- Any other event leaves the deliveries alone; the buffer then grows by what broke off. -/
theorem advance_other {l : Link} {event : SessionEvent σ}
    (other : event.completesMessage = false)
    : ((l.advance event).Faithful ↔ l.Faithful)
      ∧ ((l.advance event).buffer = [] ↔ l.buffer = [] ∧ event.breaksMessage = false) := by
  cases event with
  | outside | sendPosted | closed =>
      simp [advance, lose, Faithful, SessionEvent.breaksMessage]
  | resolved ec callbacks | connected ec callbacks | handshaken ec callbacks
  | written data ec callbacks =>
      cases ec <;> simp [advance, establish, lose, Faithful, SessionEvent.breaksMessage]
  | read bytes ec callbacks =>
      cases ec with
      | none => contradiction
      | some ec =>
          simp only [advance]
          split <;>
            simp [append, lose, Faithful, SessionEvent.breaksMessage]

/-- The link is faithful exactly when no read succeeded after a broken message, and the
buffer is then clear exactly when no message broke, by induction over the events.
-/
theorem after_faithful_iff (events : List (SessionEvent σ))
    : ((after events).Faithful
        ↔ NoneAfter SessionEvent.breaksMessage SessionEvent.completesMessage events)
      ∧ (NoneAfter SessionEvent.breaksMessage SessionEvent.completesMessage events
        → ((after events).buffer = [] ↔ ∀ event ∈ events, event.breaksMessage = false)) := by
  induction events using List.reverseRecOn with
  | nil =>
      refine ⟨⟨fun _ => List.Pairwise.nil, fun _ => rfl⟩, fun _ => ⟨?_, fun _ => rfl⟩⟩
      intro _ event member
      exact absurd member List.not_mem_nil
  | append_singleton events event ih =>
      obtain ⟨faithful, clear⟩ := ih
      rw [after_concat, Machine.noneAfter_concat]
      cases kind : event.completesMessage with
      | true =>
          obtain ⟨bytes, callbacks, rfl⟩ := SessionEvent.eq_read_of_completes kind
          simp only [true_imp_iff, advance, deliver_faithful_iff, faithful]
          refine ⟨and_congr_right clear, ?_⟩
          intro held
          rcases held with ⟨_, unbroken⟩
          refine ⟨fun _ => ?_, fun _ => rfl⟩
          intro event member
          rcases List.mem_append.mp member with earlier | now
          · exact unbroken event earlier
          · rw [List.mem_singleton.mp now]
            rfl
      | false =>
          obtain ⟨same, grows⟩ := advance_other (l := after events) kind
          refine ⟨by simpa using same.trans faithful, ?_⟩
          intro held
          rcases held with ⟨apart, _⟩
          rw [grows, clear apart]
          simp [or_imp, forall_and]

end Link

-----------------------------------------------------------------------------------------
-- Steps that do not look at the buffer
-----------------------------------------------------------------------------------------

def SessionEvent.isRead : SessionEvent σ → Bool
  | .read _ _ _ => true
  | _ => false

namespace WebsocketSession

def withBuffer (s : WebsocketSession) (buffer : List UInt8) : WebsocketSession :=
  { s with buffer }

/-- No call looks at the buffer. -/
theorem call_withBuffer (s : WebsocketSession) (buffer : List UInt8) (call : SessionCall)
    : (s.withBuffer buffer).call call = (s.call call).withBuffer buffer := by
  cases call with
  | connect =>
      simp only [WebsocketSession.call, connect, apply_ite (withBuffer · buffer)]
      rfl
  | disconnect =>
      simp only [WebsocketSession.call, disconnect, apply_ite (withBuffer · buffer)]
      rfl
  | sendData data =>
      simp only [WebsocketSession.call, sendData, apply_ite (withBuffer · buffer)]
      rfl

theorem calls_withBuffer (s : WebsocketSession) (buffer : List UInt8)
    (sessionCalls : List SessionCall)
    : (s.withBuffer buffer).calls sessionCalls = (s.calls sessionCalls).withBuffer buffer := by
  induction sessionCalls generalizing s with
  | nil => rfl
  | cons call rest ih =>
      have first := s.call_withBuffer buffer call
      exact (congrArg (WebsocketSession.calls · rest) first).trans (ih (s.call call))

theorem writeFront_withBuffer (s : WebsocketSession) (buffer : List UInt8)
    : (s.withBuffer buffer).writeFront = s.writeFront.withBuffer buffer := by
  obtain ⟨_, _, queue, _, _, _, _⟩ := s
  cases queue <;> rfl

theorem sendDataInner_withBuffer (s : WebsocketSession) (buffer : List UInt8) (data : Message)
    : (s.withBuffer buffer).sendDataInner data = (s.sendDataInner data).withBuffer buffer := by
  simp only [sendDataInner, apply_ite (withBuffer · buffer), ← writeFront_withBuffer]
  rfl

end WebsocketSession

namespace Hosted

def withBuffer (w : Hosted σ) (buffer : List UInt8) : Hosted σ :=
  w.onSession (·.withBuffer buffer)

theorem callback_withBuffer (w : Hosted σ) (buffer : List UInt8) (callbacks : Callbacks σ)
    (notice : Notice)
    : (w.withBuffer buffer).callback callbacks notice
      = (w.callback callbacks notice).withBuffer buffer :=
  congrArg (Hosted.mk · (callbacks notice w.owner).2)
    ((w.session.record (.called w.session.connection notice)).calls_withBuffer buffer
      (callbacks notice w.owner).1)

theorem fail_withBuffer (w : Hosted σ) (buffer : List UInt8) (callbacks : Callbacks σ)
    (error : SessionError) (ec : ErrorCode)
    : (w.withBuffer buffer).fail callbacks error ec
      = (w.fail callbacks error ec).withBuffer buffer :=
  callback_withBuffer (w.onSession (·.updateState .kError)) buffer callbacks _

/-- A completion whose handler does not look at the buffer. -/
theorem complete_withBuffer {w next : Hosted σ} {buffer : List UInt8} {operation : Operation}
    {handler : Hosted σ → Hosted σ}
    (blind : ∀ w : Hosted σ, handler (w.withBuffer buffer) = (handler w).withBuffer buffer)
    (completed : w.complete operation handler = some next)
    : (w.withBuffer buffer).complete operation handler = some (next.withBuffer buffer) := by
  obtain ⟨flying, rfl⟩ := complete_eq_some.mp completed
  exact complete_eq_some.mpr ⟨flying, blind (w.onSession (·.finish operation))⟩

/-- A step that completes no read does the same whatever is in the buffer, by the cases of the
event.
-/
theorem step_withBuffer {w next : Hosted σ} {event : SessionEvent σ}
    (noRead : event.isRead = false) (stepped : w.step event = some next) (buffer : List UInt8)
    : (w.withBuffer buffer).step event = some (next.withBuffer buffer) := by
  cases event with
  | outside action =>
      obtain rfl := Option.some.inj stepped
      exact congrArg (fun session => some (Hosted.mk session (action w.owner).2))
        (w.session.calls_withBuffer buffer (action w.owner).1)
  | sendPosted =>
      simp only [step] at stepped ⊢
      split at stepped
      case h_1 => contradiction
      case h_2 data rest posted =>
        obtain rfl := Option.some.inj stepped
        have same : (w.withBuffer buffer).session.posted = data :: rest := posted
        rw [same]
        exact congrArg (fun session => some (Hosted.mk session w.owner))
          (({ w.session with posted := rest }.record (.handed data)).sendDataInner_withBuffer
            buffer data)
  | resolved ec callbacks | connected ec callbacks =>
      simp only [step] at stepped ⊢
      refine complete_withBuffer (fun w => ?_) stepped
      cases ec with
      | none => rfl
      | some ec => exact fail_withBuffer ..
  | handshaken ec callbacks =>
      simp only [step] at stepped ⊢
      refine complete_withBuffer (fun w => ?_) stepped
      cases ec with
      | none =>
          exact congrArg (Hosted.onSession · (·.doRead))
            (callback_withBuffer ((w.countConnection none).onSession (·.updateState .kConnected))
              buffer callbacks .connected)
      | some ec => exact fail_withBuffer ..
  | closed ec callbacks =>
      simp only [step] at stepped ⊢
      refine complete_withBuffer (fun w => ?_) stepped
      cases ec with
      | none =>
          exact callback_withBuffer (w.onSession (·.updateState .kDisconnected)) buffer callbacks
            .closed
      | some ec => exact fail_withBuffer ..
  | written data ec callbacks =>
      simp only [step] at stepped ⊢
      refine complete_withBuffer (fun w => ?_) stepped
      cases ec with
      | none =>
          let counted := (w.countWritten data none).session
          exact congrArg (Hosted.mk · w.owner)
            ({ counted with sendMsgQueue := counted.sendMsgQueue.tail }.writeFront_withBuffer
              buffer)
      | some ec => exact fail_withBuffer ..
  | read => contradiction

/-- Such a step leaves the buffer alone, and only a handshake makes another connection. -/
theorem step_unread {w next : Hosted σ} {event : SessionEvent σ}
    (noRead : event.isRead = false) (stepped : w.step event = some next)
    : next.session.connection = w.session.connection + event.connects.toNat
      ∧ next.session.buffer = w.session.buffer := by
  have advanced
      : (w.session.link.advance event).connection
          = w.session.link.connection + event.connects.toNat
        ∧ (w.session.link.advance event).buffer = w.session.link.buffer := by
    cases event with
    | outside | sendPosted | closed => exact ⟨rfl, rfl⟩
    | resolved ec callbacks | connected ec callbacks | handshaken ec callbacks
    | written data ec callbacks =>
        cases ec <;> exact ⟨rfl, rfl⟩
    | read => contradiction
  rw [← step_link stepped] at advanced
  exact advanced

end Hosted

end Nbsdk.Messenger
