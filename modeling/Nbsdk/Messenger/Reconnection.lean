import Nbsdk.Messenger.Agreement

/-! The waits of the recovery timer, from the errors that arm it to the handlers that run.
A wait is called off only in name: it becomes ready with an error that its handler does not
look at. So each error that recovery answers leads to one handler, which leaves the session
in an attempt unless the user has closed.
-/

namespace Nbsdk.Messenger

namespace DeadlineTimer

/-- The waits whose handlers have yet to run. -/
def waits (t : DeadlineTimer) : Nat := t.pending + t.ready.length

@[simp] theorem waits_complete (t : DeadlineTimer) (result : WaitResult)
    : (t.complete result).waits = t.waits := by
  simp [waits, complete, Nat.add_comm]

@[simp] theorem waits_cancel (t : DeadlineTimer) : t.cancel.waits = t.waits :=
  t.waits_complete .operationAborted

theorem waits_arm (t : DeadlineTimer) : t.expiresFromNow.asyncWait.waits = t.waits + 1 := by
  have later : t.expiresFromNow.asyncWait.waits = t.expiresFromNow.waits + 1 :=
    Nat.add_right_comm ..
  exact later.trans (congrArg (· + 1) t.waits_cancel)

end DeadlineTimer

/-- The event runs the handler of a recovery wait. -/
def MessengerEvent.runsWait : MessengerEvent → Bool
  | .runWait _ => true
  | _ => false

/-- The callback is one that recovery answers if it is on when the listener has returned. -/
def Notice.restores : Notice → Bool
  | .error cause _ => cause.needRestore
  | .connected | .closed | .received _ => false

namespace WebsocketMessenger

/-- The waits of the messenger's timer. -/
def waits (m : WebsocketMessenger) : Nat := m.recoveryTimer.waits

/-- The user's calls leave every wait there, and with `Close` pending ones are ready. -/
theorem calls_waits (userCalls : List UserCall) (m : WebsocketMessenger)
    : (calls userCalls m).2.waits = m.waits := by
  refine calls_preserve (fun next => next.waits = m.waits) ?_ rfl
  intro next userCall _ same
  cases userCall with
  | «open» | sendMessage => exact same
  | close => exact (next.recoveryTimer.waits_cancel).trans same

theorem notify_waits (notification : Notification) (reaction : List UserCall)
    (m : WebsocketMessenger)
    : (notify notification reaction m).2.waits = m.waits := by
  simp only [notify]
  split
  · exact calls_waits ..
  · rfl

/-- A callback adds a wait if it is to be answered and recovery is on behind it. -/
theorem callbacks_waits (reaction : List UserCall) (notice : Notice) (m : WebsocketMessenger)
    : (callbacks reaction notice m).2.waits
      = m.waits + (notice.restores && (callbacks reaction notice m).2.tryToRecovery).toNat := by
  cases notice with
  | connected | closed | received =>
      simp only [Notice.restores, Bool.false_and, Bool.toNat_false, Nat.add_zero]
      exact notify_waits ..
  | error error reason =>
      have arms
          : ∀ next : WebsocketMessenger, next.waits = m.waits →
              (if error.needRestore ∧ next.tryToRecovery then next.armRecovery else next).waits
                = m.waits
                  + (error.needRestore
                    && (if error.needRestore ∧ next.tryToRecovery then next.armRecovery
                      else next).tryToRecovery).toNat := by
        intro next same
        split
        case isTrue restores =>
          have armed : next.armRecovery.waits = next.waits + 1 := next.recoveryTimer.waits_arm
          have on : next.armRecovery.tryToRecovery = true := restores.2
          simp [armed, on, restores.1, same]
        case isFalse stays =>
          have off : (error.needRestore && next.tryToRecovery) = false := by
            simpa [Bool.and_eq_false_iff] using stays
          simp [off, same]
      simp only [callbacks, onErrorCallback, Notice.restores]
      cases error.code? with
      | none => exact arms _ rfl
      | some code => exact arms _ (notify_waits ..)

/-- The timer never has two waits pending, since a new expiry time ends the older. -/
theorem callbacks_pending {reaction : List UserCall} {notice : Notice} {m : WebsocketMessenger}
    (few : m.recoveryTimer.pending ≤ 1)
    : (callbacks reaction notice m).2.recoveryTimer.pending ≤ 1 := by
  refine callbacks_preserve (fun next => next.recoveryTimer.pending ≤ 1) ?_ ?_ ?_ ?_ few
  · exact fun _ held => held
  · exact fun _ _ held => held
  · intro next userCall _ held
    cases userCall with
    | «open» | sendMessage => exact held
    | close => exact Nat.zero_le 1
  · exact fun _ _ => Nat.le_refl 1

end WebsocketMessenger

namespace MessengerSystem

/-- The event is an error that recovery answers. -/
def arms (w : MessengerSystem) (event : MessengerEvent) : Bool :=
  ((event.notice? w.session).map Notice.restores).getD false
    && (w.ownerAfter event).tryToRecovery

theorem step_enabled {w next : MessengerSystem} {event : MessengerEvent}
    (stepped : w.step event = some next)
    : event.Enabled w.owner := by
  rw [step, Option.ite_none_right_eq_some] at stepped
  exact stepped.1

/-- Every step keeps the balance of the waits, by the cases of the event. -/
theorem step_waits {w next : MessengerSystem} {event : MessengerEvent}
    (stepped : w.step event = some next)
    : next.owner.waits + event.runsWait.toNat = w.owner.waits + (w.arms event).toNat := by
  rw [step_owner stepped]
  cases event with
  | user call =>
      cases call with
      | «open» | sendMessage => rfl
      | close => exact w.owner.recoveryTimer.waits_cancel
  | listener alive => rfl
  | timerExpires => exact w.owner.recoveryTimer.waits_complete .noError
  | runWait result =>
      have ready : result ∈ w.owner.recoveryTimer.ready := step_enabled stepped
      have length := List.length_erase_of_mem ready
      have positive := List.length_pos_of_mem ready
      have fewer
          : (w.ownerAfter (.runWait result)).waits + 1 = w.owner.waits := by
        simp only [ownerAfter, WebsocketMessenger.onRecoveryWait]
        split <;> simp only [WebsocketMessenger.waits, DeadlineTimer.waits] <;> omega
      exact fewer
  | sendPosted | resolved | connected | handshaken | closed | written | read =>
      simp only [arms, ownerAfter, MessengerEvent.runsWait]
      split
      case h_1 quiet => simp [quiet]
      case h_2 notice found =>
        simpa [found] using WebsocketMessenger.callbacks_waits ..

theorem step_pending {w next : MessengerSystem} {event : MessengerEvent}
    (stepped : w.step event = some next) (few : w.owner.recoveryTimer.pending ≤ 1)
    : next.owner.recoveryTimer.pending ≤ 1 := by
  rw [step_owner stepped]
  cases event with
  | user call =>
      cases call with
      | «open» | sendMessage => exact few
      | close => exact Nat.zero_le 1
  | listener alive => exact few
  | timerExpires => exact Nat.zero_le 1
  | runWait result =>
      simp only [ownerAfter, WebsocketMessenger.onRecoveryWait]
      split <;> exact few
  | sendPosted | resolved | connected | handshaken | closed | written | read =>
      simp only [ownerAfter]
      split
      · exact few
      · exact WebsocketMessenger.callbacks_pending few

-----------------------------------------------------------------------------------------
-- Whole runs
-----------------------------------------------------------------------------------------

/-- Neither `Close` nor a new error drops or doubles a wait: at most one is pending, and those
that have yet to run and those that ran are as many as the errors that recovery answered.
-/
theorem waits_balanced {listening : Bool} {events : List MessengerEvent} {final : MessengerSystem}
    (ran : (create listening).run events = some final)
    : final.owner.recoveryTimer.pending ≤ 1
      ∧ final.owner.waits + events.countP MessengerEvent.runsWait
        = Machine.tally step (fun w event => (w.arms event).toNat) (create listening) events := by
  have few : final.owner.recoveryTimer.pending ≤ 1 :=
    Machine.follow_invariant (fun w => w.owner.recoveryTimer.pending ≤ 1)
      (fun held stepped => step_pending stepped held) (Nat.zero_le 1) ran
  have balance :=
    Machine.follow_balanced (fun w => w.owner.waits) (fun w event => (w.arms event).toNat)
      (fun _ event => event.runsWait.toNat) step_waits ran
  have none : (create listening).owner.waits = 0 := rfl
  rw [Machine.tally_of_events MessengerEvent.runsWait ran, none, Nat.zero_add] at balance
  exact ⟨few, balance⟩

/-- A second error with the wait of the first one pending. -/
theorem waits_balanced_twice
    : ∃ final,
        (create true).run
            [.user .open, .resolved (some reset) [], .user .open, .resolved (some reset) [],
              .runWait .operationAborted]
          = some final
        ∧ final.owner.recoveryTimer.pending ≤ 1 := by
  obtain ⟨final, ran⟩
      : ∃ final,
          (create true).run
              [.user .open, .resolved (some reset) [], .user .open, .resolved (some reset) [],
                .runWait .operationAborted]
            = some final :=
    ⟨_, rfl⟩
  exact ⟨final, ran, (waits_balanced ran).1⟩

/-- The handler of a wait leaves no error behind: it connects, unless the user has closed. -/
theorem runWait_answers {w next : MessengerSystem} {result : WaitResult}
    (stepped : w.step (.runWait result) = some next)
    (agree : Agree w.session.state w.owner.state)
    : next.session.state ≠ .kError := by
  obtain rfl := Option.some.inj (step_session stepped)
  simp only [Hosted.act, WebsocketMessenger.onRecoveryWait]
  by_cases closed : w.owner.state = .kMessengerClosed
  case pos =>
    rw [if_neg (not_not.mpr closed)]
    intro error
    simp [agree.error error] at closed
  case neg =>
    rw [if_pos closed]
    change w.session.connect.state ≠ .kError
    rw [WebsocketSession.connect]
    split
    case isTrue => simp [WebsocketSession.updateState, WebsocketSession.start,
      WebsocketSession.record]
    case isFalse up => exact fun error => up (Or.inr error)

/-- A wait that has yet to run can do so, at once or when the timer has expired. -/
theorem exists_runWait {w : MessengerSystem} (waiting : 0 < w.owner.waits)
    (agree : Agree w.session.state w.owner.state)
    : ∃ more healed,
        more.length ≤ 2
        ∧ (∀ event ∈ more, event = .timerExpires ∨ event.runsWait = true)
        ∧ (∃ event ∈ more, event.runsWait = true)
        ∧ w.run more = some healed
        ∧ healed.session.state ≠ .kError := by
  have run_ready
      : ∀ {w : MessengerSystem} {result : WaitResult}, result ∈ w.owner.recoveryTimer.ready
        → ∃ next, w.step (.runWait result) = some next := by
    intro w result ready
    exact ⟨_, if_pos ready⟩
  cases ready : w.owner.recoveryTimer.ready with
  | cons result rest =>
      have member : result ∈ w.owner.recoveryTimer.ready := by simp [ready]
      obtain ⟨next, stepped⟩ := run_ready member
      refine ⟨[.runWait result], next, by simp, by simp [MessengerEvent.runsWait],
        by simp [MessengerEvent.runsWait], ?_, runWait_answers stepped agree⟩
      exact Machine.follow_cons_iff.mpr ⟨next, stepped, rfl⟩
  | nil =>
      have pending : 0 < w.owner.recoveryTimer.pending := by
        simpa [WebsocketMessenger.waits, DeadlineTimer.waits, ready] using waiting
      obtain ⟨expired, expires⟩ : ∃ expired, w.step .timerExpires = some expired :=
        ⟨_, if_pos pending⟩
      have member : .noError ∈ expired.owner.recoveryTimer.ready := by
        rw [step_owner expires]
        exact List.mem_append_right _ (List.mem_replicate.mpr ⟨Nat.ne_of_gt pending, rfl⟩)
      obtain ⟨next, stepped⟩ := run_ready member
      refine ⟨[.timerExpires, .runWait .noError], next, by simp, by simp [MessengerEvent.runsWait],
        by simp [MessengerEvent.runsWait], ?_,
        runWait_answers stepped (step_agree expires agree)⟩
      exact Machine.follow_cons_iff.mpr ⟨expired, expires,
        Machine.follow_cons_iff.mpr ⟨next, stepped, rfl⟩⟩

/-- Until a handler of a wait runs, no wait is lost. -/
theorem waits_kept {w final : MessengerSystem} {events : List MessengerEvent}
    (ran : w.run events = some final)
    (none : ∀ event ∈ events, event.runsWait = false)
    : w.owner.waits ≤ final.owner.waits := by
  have balance :=
    Machine.follow_balanced (fun w => w.owner.waits) (fun w event => (w.arms event).toNat)
      (fun _ event => event.runsWait.toNat) step_waits ran
  rw [Machine.tally_of_events MessengerEvent.runsWait ran, List.countP_eq_zero.mpr] at balance
  · omega
  · intro event member
    simp [none event member]

/-- An error that recovery answers is never forgotten, whatever happens behind it: a handler
of a wait has left the session without an error since, or a wait is still outstanding and
within two steps of the timer its handler can.
-/
theorem recovery_never_lost {listening : Bool} {before after : List MessengerEvent}
    {error : MessengerEvent} {erring next final : MessengerSystem}
    (ran : (create listening).run before = some erring)
    (stepped : erring.step error = some next) (armed : erring.arms error = true)
    (later : next.run after = some final)
    : (∃ first result rest reached answered,
          after = first ++ .runWait result :: rest
          ∧ next.run first = some reached
          ∧ reached.step (.runWait result) = some answered
          ∧ answered.session.state ≠ .kError)
      ∨ 0 < final.owner.waits
        ∧ ∃ more healed,
            more.length ≤ 2
            ∧ (∀ event ∈ more, event = .timerExpires ∨ event.runsWait = true)
            ∧ (∃ event ∈ more, event.runsWait = true)
            ∧ final.run more = some healed
            ∧ healed.session.state ≠ .kError := by
  have agreeing
      : ∀ {w last : MessengerSystem} {events : List MessengerEvent},
          Agree w.session.state w.owner.state → w.run events = some last
          → Agree last.session.state last.owner.state :=
    fun start went =>
      Machine.follow_invariant (fun w : MessengerSystem => Agree w.session.state w.owner.state)
        (fun held moved => step_agree moved held) start went
  have agree : Agree next.session.state next.owner.state :=
    step_agree stepped (agreeing agree_closed ran)
  by_cases none : ∀ event ∈ after, event.runsWait = false
  case pos =>
    right
    have balance := step_waits stepped
    rw [armed, Bool.toNat_true] at balance
    have kept := waits_kept later none
    have quiet : error.runsWait = false := by
      cases error <;> first | rfl | simp [arms, MessengerEvent.notice?,
        MessengerEvent.toSession, SessionEvent.notice?] at armed
    rw [quiet, Bool.toNat_false] at balance
    have waiting : 0 < final.owner.waits := by omega
    exact ⟨waiting, exists_runWait waiting (agreeing agree later)⟩
  case neg =>
    left
    simp only [not_forall] at none
    obtain ⟨event, member, runs⟩ := none
    obtain ⟨first, rest, split⟩ := List.append_of_mem member
    rw [split] at later
    obtain ⟨reached, there, onward⟩ := Machine.follow_append_iff.mp later
    obtain ⟨answered, answers, _⟩ := Machine.follow_cons_iff.mp onward
    cases event with
    | runWait result =>
        exact ⟨first, result, rest, reached, answered, split, there, answers,
          runWait_answers answers (agreeing agree there)⟩
    | user | listener | timerExpires | sendPosted | resolved | connected | handshaken
    | closed | written | read =>
        exact absurd rfl runs

/-- The user closes behind the error, which calls the wait off, but the close fails. -/
theorem recovery_never_lost_unclosed
    : ∃ erring next final,
        (create true).run [.user .open] = some erring
        ∧ erring.step (.resolved (some reset) []) = some next
        ∧ next.run [.user .close, .closed (some reset) []] = some final
        ∧ final.session.state = .kError
        ∧ 0 < final.owner.waits
        ∧ ∃ more healed, final.run more = some healed ∧ healed.session.state ≠ .kError := by
  obtain ⟨erring, ran⟩ : ∃ erring, (create true).run [.user .open] = some erring := ⟨_, rfl⟩
  obtain ⟨next, stepped⟩ : ∃ next, erring.step (.resolved (some reset) []) = some next := by
    obtain rfl := Option.some.inj ran
    exact ⟨_, rfl⟩
  have armed : erring.arms (.resolved (some reset) []) = true := by
    obtain rfl := Option.some.inj ran
    rfl
  obtain ⟨final, later, failed⟩
      : ∃ final,
          next.run [.user .close, .closed (some reset) []] = some final
          ∧ final.session.state = .kError := by
    obtain rfl := Option.some.inj ran
    obtain rfl := Option.some.inj stepped
    exact ⟨_, rfl, rfl⟩
  refine ⟨erring, next, final, ran, stepped, later, failed, ?_⟩
  rcases recovery_never_lost ran stepped armed later
    with ⟨first, result, rest, _, _, split, _⟩ | ⟨waiting, more, healed, _, _, _, heals, well⟩
  · have member : .runWait result ∈ first ++ .runWait result :: rest := by simp
    rw [← split] at member
    simp at member
  · exact ⟨waiting, more, healed, heals, well⟩

end MessengerSystem

end Nbsdk.Messenger
