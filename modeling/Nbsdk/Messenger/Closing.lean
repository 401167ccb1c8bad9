import Nbsdk.Messenger.Attempts
import Nbsdk.Messenger.Messenger

/-! What happens to the connection attempts that are in progress when the user closes.
Nothing tells the stages of an attempt that they were abandoned. After a close no attempt
begins and no recovery is armed, and those in progress connect unless they fail.
-/

namespace Nbsdk.Messenger

namespace WebsocketMessenger

/-- Without `Open` the user's calls make no `Connect`, by induction over the calls. -/
theorem calls_noConnect {m : WebsocketMessenger} {userCalls : List UserCall}
    (noOpen : .open ∉ userCalls)
    : .connect ∉ (calls userCalls m).1 := by
  induction userCalls generalizing m with
  | nil => exact List.not_mem_nil
  | cons first rest ih =>
      rw [List.mem_cons, not_or] at noOpen
      simp only [calls, List.mem_append, not_or]
      refine ⟨?_, ih noOpen.2⟩
      cases first with
      | «open» => exact absurd rfl noOpen.1
      | close | sendMessage => simp [call]

theorem notify_noConnect {m : WebsocketMessenger} {notification : Notification}
    {reaction : List UserCall} (noOpen : .open ∉ reaction)
    : .connect ∉ (notify notification reaction m).1 := by
  simp only [notify]
  split
  · exact calls_noConnect noOpen
  · exact List.not_mem_nil

/-- A callback makes no `Connect` unless the listener calls `Open` in it. -/
theorem callbacks_noConnect {m : WebsocketMessenger} {notice : Notice}
    {reaction : List UserCall} (noOpen : .open ∉ reaction)
    : .connect ∉ (callbacks reaction notice m).1 := by
  cases notice with
  | connected | closed | received => exact notify_noConnect noOpen
  | error error reason =>
      simp only [callbacks, onErrorCallback]
      cases error.code? with
      | none => exact List.not_mem_nil
      | some code => exact notify_noConnect noOpen

/-- No `Open` since the last `Close`, and at most this many recovery waits pending. -/
structure Unarmed (m : WebsocketMessenger) (waits : Nat) : Prop where
  closed : m.tryToRecovery = false
  pending : m.recoveryTimer.pending ≤ waits

/-- A callback arms nothing after a `Close` unless the listener calls `Open` in it. -/
theorem Unarmed.callbacks {m : WebsocketMessenger} {waits : Nat} (h : m.Unarmed waits)
    {notice : Notice} {reaction : List UserCall} (noOpen : .open ∉ reaction)
    : (callbacks reaction notice m).2.Unarmed waits := by
  refine callbacks_preserve (fun next => next.Unarmed waits) ?_ ?_ ?_ ?_ h
  · exact fun _ unarmed => ⟨unarmed.closed, unarmed.pending⟩
  · exact fun _ _ unarmed => ⟨unarmed.closed, unarmed.pending⟩
  · intro m userCall member unarmed
    cases userCall with
    | «open» => exact absurd member noOpen
    | close => exact ⟨rfl, Nat.zero_le _⟩
    | sendMessage => exact unarmed
  · intro m recovering unarmed
    rw [unarmed.closed] at recovering
    contradiction

/-- How often the listener was told that the messenger opened. -/
def opened (m : WebsocketMessenger) : Nat := m.notifications.count .onOpened

/-- Only the connected callback notifies `OnOpened`. -/
theorem callbacks_opened {m : WebsocketMessenger} {notice : Notice}
    {reaction : List UserCall} (other : notice ≠ .connected)
    : (callbacks reaction notice m).2.opened = m.opened := by
  refine callbacks_preserve (fun next => next.opened = m.opened) ?_ ?_ ?_ ?_ rfl
  · exact fun _ same => same
  · intro m notification passed same
    have unopened : notification ≠ .onOpened := by
      intro same
      subst same
      cases notice <;> simp_all [notification?]
    simp only [opened, List.count_append, List.count_singleton]
    rw [if_neg (by simpa using unopened)]
    exact same
  · intro m userCall _ same
    cases userCall <;> exact same
  · exact fun _ same => same

end WebsocketMessenger

namespace MessengerEvent

/-- A handshake completes successfully. -/
def connects (event : MessengerEvent) : Bool := event.toSession.connects

/-- The user does not call `Open` in the event, and no recovery wait fires. -/
structure Quiet (event : MessengerEvent) : Prop where
  noOpen : .open ∉ event.userCalls
  noWait : ∀ result, event ≠ .runWait result

/-- A quiet event makes no `Connect`, by the cases of the event. -/
theorem Quiet.noConnect {event : MessengerEvent} (quiet : event.Quiet) (w : MessengerSystem)
    : .connect ∉ event.toSession.callsMade w := by
  cases event with
  | user userCall =>
      cases userCall with
      | «open» => exact absurd (List.mem_singleton.mpr rfl) quiet.noOpen
      | close | sendMessage =>
          simp [toSession, SessionEvent.callsMade, WebsocketMessenger.call]
  | listener | timerExpires | sendPosted => exact List.not_mem_nil
  | runWait result => exact absurd rfl (quiet.noWait result)
  | resolved ec reaction | connected ec reaction | written data ec reaction =>
      cases ec with
      | none => exact List.not_mem_nil
      | some ec => exact WebsocketMessenger.callbacks_noConnect quiet.noOpen
  | handshaken ec reaction | closed ec reaction =>
      cases ec <;> exact WebsocketMessenger.callbacks_noConnect quiet.noOpen
  | read bytes ec reaction =>
      cases ec with
      | none => exact WebsocketMessenger.callbacks_noConnect quiet.noOpen
      | some ec =>
          obtain ⟨kind, message⟩ := ec
          cases kind with
          | operationCanceled => exact List.not_mem_nil
          | closed | other => exact WebsocketMessenger.callbacks_noConnect quiet.noOpen

/-- Only a successful handshake leads to the connected callback. -/
theorem notice?_connected {s : WebsocketSession} {event : MessengerEvent}
    (found : event.notice? s = some .connected)
    : event.connects = true := by
  cases event with
  | user | listener | timerExpires | runWait | sendPosted => contradiction
  | handshaken ec reaction =>
      cases ec with
      | none => rfl
      | some ec => simp [notice?, toSession, SessionEvent.notice?] at found
  | resolved ec reaction | connected ec reaction | closed ec reaction
  | written data ec reaction =>
      cases ec <;> simp [notice?, toSession, SessionEvent.notice?] at found
  | read bytes ec reaction =>
      cases ec with
      | none => simp [notice?, toSession, SessionEvent.notice?] at found
      | some ec =>
          obtain ⟨kind, message⟩ := ec
          cases kind <;> simp [notice?, toSession, SessionEvent.notice?] at found

end MessengerEvent

namespace MessengerSystem

/-- How often the session became connected. -/
def entries (w : MessengerSystem) : Nat := w.session.log.count (.entered .kConnected)

/-- From the first state, in which the user has closed, to the second the attempts in
progress turned into this many connections; none began and no recovery was armed.
-/
structure Aftermath (w next : MessengerSystem) (connections : Nat) : Prop where
  unarmed : next.owner.Unarmed w.owner.recoveryTimer.pending
  attempts : next.session.attempts + connections ≤ w.session.attempts
  entries : next.entries = w.entries + connections
  opened : connections = 0 → next.owner.opened = w.owner.opened

theorem Aftermath.refl {w : MessengerSystem} (closed : w.owner.tryToRecovery = false)
    : Aftermath w w 0 where
  unarmed := ⟨closed, Nat.le_refl _⟩
  attempts := Nat.le_refl _
  entries := rfl
  opened := fun _ => rfl

theorem Aftermath.trans {w middle next : MessengerSystem} {first second : Nat}
    (earlier : Aftermath w middle first) (later : Aftermath middle next second)
    : Aftermath w next (first + second) where
  unarmed :=
    ⟨later.unarmed.closed, Nat.le_trans later.unarmed.pending earlier.unarmed.pending⟩
  attempts := by
    have := earlier.attempts
    have := later.attempts
    omega
  entries := by rw [later.entries, earlier.entries, Nat.add_assoc]
  opened := by
    intro none
    obtain ⟨noFirst, noSecond⟩ := Nat.add_eq_zero_iff.mp none
    rw [later.opened noSecond, earlier.opened noFirst]

/-- A quiet event arms no recovery after a close, by the cases of the event. -/
theorem ownerAfter_unarmed {w : MessengerSystem} {waits : Nat} {event : MessengerEvent}
    (quiet : event.Quiet) (unarmed : w.owner.Unarmed waits)
    : (w.ownerAfter event).Unarmed waits := by
  cases event with
  | user userCall =>
      cases userCall with
      | «open» => exact absurd (List.mem_singleton.mpr rfl) quiet.noOpen
      | close => exact ⟨rfl, Nat.zero_le _⟩
      | sendMessage => exact unarmed
  | listener => exact ⟨unarmed.closed, unarmed.pending⟩
  | timerExpires => exact ⟨unarmed.closed, Nat.zero_le _⟩
  | runWait result => exact absurd rfl (quiet.noWait result)
  | sendPosted | resolved | connected | handshaken | closed | written | read =>
      simp only [ownerAfter]
      split
      · exact unarmed
      · exact unarmed.callbacks quiet.noOpen

/-- A quiet event that does not connect notifies no `OnOpened`. -/
theorem ownerAfter_opened {w : MessengerSystem} {event : MessengerEvent}
    (quiet : event.Quiet) (other : event.connects = false)
    : (w.ownerAfter event).opened = w.owner.opened := by
  cases event with
  | user userCall => cases userCall <;> rfl
  | listener | timerExpires => rfl
  | runWait result => exact absurd rfl (quiet.noWait result)
  | sendPosted | resolved | connected | handshaken | closed | written | read =>
      simp only [ownerAfter]
      split
      case h_1 => rfl
      case h_2 notice found =>
        apply WebsocketMessenger.callbacks_opened
        intro same
        subst same
        rw [MessengerEvent.notice?_connected found] at other
        contradiction

/-- A quiet step after a close connects what completes its handshake, and nothing else. -/
theorem step_aftermath {w next : MessengerSystem} {event : MessengerEvent}
    (stepped : w.step event = some next) (closed : w.owner.tryToRecovery = false)
    (quiet : event.Quiet)
    : Aftermath w next event.connects.toNat where
  unarmed := by
    rw [step_owner stepped]
    exact ownerAfter_unarmed quiet ⟨closed, Nat.le_refl _⟩
  attempts := Hosted.step_attempts (step_session stepped) (quiet.noConnect w)
  entries := by
    have linked := congrArg Link.entries (Hosted.step_link (step_session stepped))
    rw [Link.entries_advance] at linked
    exact linked
  opened := by
    intro none
    rw [step_owner stepped]
    apply ownerAfter_opened quiet
    cases kind : event.connects <;> simp_all

/-- A quiet run after a close connects what completes its handshake, by induction. -/
theorem run_aftermath {w final : MessengerSystem} {events : List MessengerEvent}
    (ran : w.run events = some final) (closed : w.owner.tryToRecovery = false)
    (quiet : ∀ event ∈ events, event.Quiet)
    : Aftermath w final (events.countP MessengerEvent.connects) := by
  induction events generalizing w with
  | nil =>
      obtain rfl := Option.some.inj ran
      exact Aftermath.refl closed
  | cons event rest ih =>
      obtain ⟨next, stepped, later⟩ := Machine.follow_cons_iff.mp ran
      have first := step_aftermath stepped closed (quiet event List.mem_cons_self)
      have others := ih later first.unarmed.closed
        (fun other member => quiet other (List.mem_cons_of_mem event member))
      have both := first.trans others
      rw [List.countP_cons]
      cases kind : event.connects <;> simpa [kind, Nat.add_comm] using both

/-- From a state in which the user has called `Close` and not `Open` since, as long as the
user does not open again and no recovery wait fires: at most the attempts that were in
progress connect, and the session never enters kConnected and the listener never gets
`OnOpened` exactly when no handshake completes successfully.
-/
theorem close_wins_iff {closed final : MessengerSystem} {after : List MessengerEvent}
    (closing : closed.owner.tryToRecovery = false) (ran : closed.run after = some final)
    (quiet : ∀ event ∈ after, event.Quiet)
    : after.countP MessengerEvent.connects ≤ closed.session.attempts
      ∧ ((final.entries = closed.entries ∧ final.owner.opened = closed.owner.opened)
        ↔ ∀ event ∈ after, event.connects = false) := by
  have aftermath := run_aftermath ran closing quiet
  refine ⟨Nat.le_trans (Nat.le_add_left _ _) aftermath.attempts, ?_⟩
  have unconnected
      : after.countP MessengerEvent.connects = 0
        ↔ ∀ event ∈ after, event.connects = false := by
    simp [List.countP_eq_zero]
  rw [← unconnected]
  constructor
  · intro held
    rcases held with ⟨sameEntries, _⟩
    have entries := aftermath.entries
    omega
  · intro none
    refine ⟨?_, aftermath.opened none⟩
    rw [aftermath.entries, none, Nat.add_zero]

/-- The close fails, since the stream is not open, and so does the resolve. -/
def resolveFails : List MessengerEvent :=
  [.closed (some ⟨.operationCanceled, "Operation canceled"⟩) [],
    .resolved (some ⟨.operationCanceled, "Operation canceled"⟩) []]

/-- The equivalence at an attempt that fails by itself. -/
theorem close_wins_iff_failing
    : ∃ closed final,
        (create true).run [.user .open, .user .close] = some closed
        ∧ closed.run resolveFails = some final
        ∧ final.entries = closed.entries
        ∧ final.owner.opened = closed.owner.opened := by
  have quiet : ∀ event ∈ resolveFails, event.Quiet := by
    intro event member
    simp only [resolveFails, List.mem_cons, List.not_mem_nil, or_false] at member
    rcases member with rfl | rfl <;> exact ⟨List.not_mem_nil, by simp⟩
  refine ⟨_, _, rfl, rfl, (close_wins_iff rfl rfl quiet).2.mpr ?_⟩
  simp [resolveFails, MessengerEvent.connects, MessengerEvent.toSession,
    SessionEvent.connects]

/-- The close fails, since the stream is not open, and the attempt goes on. -/
def attemptGoesOn : List MessengerEvent :=
  [.closed (some ⟨.operationCanceled, "Operation canceled"⟩) [], .resolved none [],
    .connected none [], .handshaken none []]

/-- An attempt that was resolving when the user closed connects and notifies. -/
theorem attempt_survives_close
    : ¬ ∀ (before after : List MessengerEvent) (closed final : MessengerSystem),
        (create true).run (before ++ [.user .close]) = some closed
        → 0 < closed.session.attempts
        → closed.run after = some final
        → (∀ event ∈ after, event.Quiet)
        → final.entries = closed.entries ∧ final.owner.opened = closed.owner.opened := by
  intro claim
  have quiet : ∀ event ∈ attemptGoesOn, event.Quiet := by
    intro event member
    simp only [attemptGoesOn, List.mem_cons, List.not_mem_nil, or_false] at member
    rcases member with rfl | rfl | rfl | rfl <;> exact ⟨List.not_mem_nil, by simp⟩
  have entered : (1 : Nat) = 0 :=
    (claim [.user .open] attemptGoesOn _ _ rfl Nat.zero_lt_one rfl quiet).1
  contradiction

end MessengerSystem

end Nbsdk.Messenger
