import Nbsdk.Messenger.Attempts

/-! When a session has one connection attempt and one read at a time.
`Connect` looks at the state only, and a close, a read or a write that completes during an
attempt takes the state away from it. A watch follows these completions through a run.
-/

namespace Nbsdk.Messenger

variable {σ : Type}

namespace SessionEvent

/-- The session enters another state, although no attempt ends. -/
def overtakes : SessionEvent σ → Bool
  | .closed _ _ | .written _ (some _) _ => true
  | .read _ (some ec) _ => ec.kind ≠ .operationCanceled
  | _ => false

/-- A stage of an attempt completes and no other stage follows. -/
def endsAttempt : SessionEvent σ → Bool
  | .resolved (some _) _ | .connected (some _) _ | .handshaken _ _ => true
  | _ => false

/-- A read completes and no other read follows. -/
def endsRead : SessionEvent σ → Bool
  | .read _ (some _) _ => true
  | _ => false

end SessionEvent

/-- Whether the attempt in progress was overtaken, and whether the last successful handshake
is still followed by reads.
-/
structure Watch where
  overtaken : Bool
  reading : Bool
  deriving DecidableEq, Repr

/-- The watch after an event that finds this many attempts in progress. -/
def Watch.advance (v : Watch) (attempts : Nat) (event : SessionEvent σ) : Watch where
  overtaken :=
    (v.overtaken && !event.endsAttempt) || (event.overtakes && decide (0 < attempts))
  reading := event.connects || (v.reading && !event.endsRead)

namespace Watch

variable {v : Watch} {attempts : Nat} {event : SessionEvent σ}

theorem overtaken_kept (goesOn : event.endsAttempt = false) (stays : event.overtakes = false)
    : (v.advance attempts event).overtaken = v.overtaken := by
  simp [advance, goesOn, stays]

theorem overtaken_ended (ends : event.endsAttempt = true) (stays : event.overtakes = false)
    : (v.advance attempts event).overtaken = false := by
  simp [advance, ends, stays]

theorem overtaken_left (goesOn : event.endsAttempt = false) (leaves : event.overtakes = true)
    : (v.advance attempts event).overtaken = (v.overtaken || decide (0 < attempts)) := by
  simp [advance, goesOn, leaves]

end Watch

-----------------------------------------------------------------------------------------
-- The dial under watch
-----------------------------------------------------------------------------------------

/-- The dial has at most one attempt, which keeps the session connecting until it is
overtaken.
-/
structure Dial.Tells (d : Dial) (overtaken : Bool) : Prop where
  attempts : d.attempts ≤ 1
  idle : d.attempts = 0 → overtaken = false
  connecting : d.attempts = 1 → overtaken = false → d.state = .kConnecting
  entered : overtaken = true → d.state = .kDisconnected ∨ d.state = .kError

namespace Dial

variable {d : Dial} {overtaken : Bool}

/-- Leaving the connection overtakes an attempt in progress. -/
theorem Tells.leave (h : d.Tells overtaken) {state : SessionState}
    (left : state = .kDisconnected ∨ state = .kError)
    : (d.enter state).Tells (overtaken || decide (0 < d.attempts)) where
  attempts := h.attempts
  idle := by
    intro none
    have none : d.attempts = 0 := none
    simp [h.idle none, none]
  connecting := by
    intro one unmarked
    have one : d.attempts = 1 := one
    simp [one] at unmarked
  entered := fun _ => left

/-- The end of the attempt leaves none. -/
theorem Tells.finish (h : d.Tells overtaken) (state : SessionState)
    : (d.endAttempt.enter state).Tells false where
  attempts := Nat.le_trans (Nat.sub_le ..) h.attempts
  idle := fun _ => rfl
  connecting := by
    intro one
    have one : d.attempts - 1 = 1 := one
    have := h.attempts
    omega
  entered := fun marked => absurd marked Bool.false_ne_true

/-- Another number of reads is not told. -/
theorem Tells.reads (h : d.Tells overtaken) {other : Dial}
    (state : other.state = d.state) (attempts : other.attempts = d.attempts)
    : other.Tells overtaken := by
  obtain ⟨bounded, idle, connecting, entered⟩ := h
  rw [← attempts] at bounded idle connecting
  rw [← state] at connecting entered
  exact ⟨bounded, idle, connecting, entered⟩

/-- The calls keep one attempt exactly if no `Connect` is among them while the attempt is
overtaken.
-/
theorem Tells.calls_iff (h : d.Tells overtaken) (connects : Bool)
    : ((d.calls connects).attempts ≤ 1 ↔ (overtaken = true → connects = false))
      ∧ ((d.calls connects).attempts ≤ 1 → (d.calls connects).Tells overtaken) := by
  cases connects with
  | false => exact ⟨iff_of_true h.attempts (fun _ => rfl), fun _ => h⟩
  | true =>
      simp only [calls, if_true, connect]
      split
      case isTrue down =>
        cases marked : overtaken with
        | true =>
            have some : d.attempts ≠ 0 := by
              intro none
              rw [h.idle none] at marked
              contradiction
            have two : ¬d.attempts + 1 ≤ 1 := by omega
            exact ⟨iff_of_false two (by simp), fun one => absurd one two⟩
        | false =>
            have none : d.attempts = 0 := by
              have bounded := h.attempts
              by_contra some
              have connecting := h.connecting (by omega) marked
              rw [connecting] at down
              simp at down
            refine ⟨iff_of_true (by simp [none]) (fun _ => by contradiction), fun one => ?_⟩
            exact ⟨one, by simp, fun _ _ => rfl, fun _ => by contradiction⟩
      case isFalse up =>
        refine ⟨iff_of_true h.attempts ?_, fun _ => h⟩
        exact fun marked => absurd (h.entered marked) up

/-- An operation of the event's kind is in flight. -/
def Enabled (d : Dial) : SessionEvent σ → Prop
  | .resolved _ _ | .connected _ _ | .handshaken _ _ => 0 < d.attempts
  | .read _ _ _ => 0 < d.reads
  | _ => True

/-- The watch tells of the dial in which an event's calls are made, by the event's cases. -/
theorem Tells.atCalls {v : Watch} (h : d.Tells v.overtaken) (event : SessionEvent σ)
    : (d.atCalls event).Tells (v.advance d.attempts event).overtaken := by
  cases event with
  | outside | sendPosted => exact Eq.substr (Watch.overtaken_kept rfl rfl) h
  | resolved ec callbacks | connected ec callbacks =>
      cases ec with
      | none => exact Eq.substr (Watch.overtaken_kept rfl rfl) h
      | some ec => exact Eq.substr (Watch.overtaken_ended rfl rfl) (h.finish .kError)
  | handshaken ec callbacks =>
      cases ec with
      | none => exact Eq.substr (Watch.overtaken_ended rfl rfl) (h.finish .kConnected)
      | some ec => exact Eq.substr (Watch.overtaken_ended rfl rfl) (h.finish .kError)
  | closed ec callbacks =>
      cases ec with
      | none => exact Eq.substr (Watch.overtaken_left rfl rfl) (h.leave (Or.inl rfl))
      | some ec => exact Eq.substr (Watch.overtaken_left rfl rfl) (h.leave (Or.inr rfl))
  | written data ec callbacks =>
      cases ec with
      | none => exact Eq.substr (Watch.overtaken_kept rfl rfl) h
      | some ec => exact Eq.substr (Watch.overtaken_left rfl rfl) (h.leave (Or.inr rfl))
  | read bytes ec callbacks =>
      cases ec with
      | none => exact Eq.substr (Watch.overtaken_kept rfl rfl) (h.reads rfl rfl)
      | some ec =>
          obtain ⟨kind, message⟩ := ec
          cases kind with
          | operationCanceled =>
              exact Eq.substr (Watch.overtaken_kept rfl rfl) (h.reads rfl rfl)
          | closed | other =>
              have left : (d.enter .kError).Tells _ := h.leave (Or.inr rfl)
              exact Eq.substr (Watch.overtaken_left rfl rfl) (left.reads rfl rfl)

/-- The read behind the calls does not show in what is told. -/
theorem Tells.advance_iff {connects : Bool} {event : SessionEvent σ}
    : (d.advance connects event).Tells overtaken
      ↔ ((d.atCalls event).calls connects).Tells overtaken := by
  rw [advance_eq]
  exact ⟨fun h => h.reads rfl rfl, fun h => h.reads rfl rfl⟩

theorem reads_advance (d : Dial) (connects : Bool) (event : SessionEvent σ)
    : (d.advance connects event).reads = (d.atCalls event).reads + (readsOn event).toNat :=
  congrArg reads (advance_eq ..)

/-- The calls begin an attempt only by leaving it in progress. -/
theorem attempts_pos_of_begun {connects : Bool} (begins : d.begun < (d.calls connects).begun)
    : 0 < (d.calls connects).attempts := by
  cases connects with
  | false => exact absurd begins (Nat.lt_irrefl _)
  | true =>
      revert begins
      simp only [calls, if_true, connect]
      split
      case isTrue => exact fun _ => Nat.succ_pos _
      case isFalse => exact fun begins => absurd begins (Nat.lt_irrefl _)

/-- What an event does to the dial before its calls begins no attempt, by its cases. -/
@[simp] theorem begun_atCalls (d : Dial) (event : SessionEvent σ)
    : (d.atCalls event).begun = d.begun := by
  cases event with
  | outside | sendPosted => rfl
  | resolved ec callbacks | connected ec callbacks | handshaken ec callbacks
  | closed ec callbacks | written data ec callbacks =>
      cases ec <;> rfl
  | read bytes ec callbacks =>
      cases ec with
      | none => rfl
      | some ec =>
          simp only [atCalls]
          split <;> rfl

/-- The reads are told as long as no handshake succeeds while one is in flight; the cases
are the events.
-/
theorem reads_told {v : Watch} (told : d.reads = v.reading.toNat) (connects : Bool)
    {event : SessionEvent σ} (enabled : d.Enabled event)
    : ((d.advance connects event).reads ≤ 1 ↔ (event.connects = true → v.reading = false))
      ∧ ((d.advance connects event).reads ≤ 1
        → (d.advance connects event).reads = (v.advance d.attempts event).reading.toNat) := by
  have bounded : d.reads ≤ 1 := told ▸ Bool.toNat_le v.reading
  have unchanged
      : (d.advance connects event).reads = d.reads
        → event.connects = false
        → (v.advance d.attempts event).reading = v.reading
        → ((d.advance connects event).reads ≤ 1
            ↔ (event.connects = true → v.reading = false))
          ∧ ((d.advance connects event).reads ≤ 1
            → (d.advance connects event).reads
              = (v.advance d.attempts event).reading.toNat) := by
    intro same unconnected kept
    rw [same, unconnected, kept]
    exact ⟨iff_of_true bounded (fun connects => by contradiction), fun _ => told⟩
  cases event with
  | outside | sendPosted =>
      apply unchanged
      · exact reads_advance ..
      · rfl
      · simp [Watch.advance, SessionEvent.connects, SessionEvent.endsRead]
  | resolved ec callbacks | connected ec callbacks | closed ec callbacks
  | written data ec callbacks =>
      apply unchanged
      · cases ec <;> exact reads_advance ..
      · rfl
      · simp [Watch.advance, SessionEvent.connects, SessionEvent.endsRead]
  | handshaken ec callbacks =>
      cases ec with
      | some ec =>
          exact unchanged (reads_advance ..) rfl
            (by simp [Watch.advance, SessionEvent.connects, SessionEvent.endsRead])
      | none =>
          have another : (d.advance connects (.handshaken none callbacks)).reads = d.reads + 1 :=
            reads_advance ..
          rw [another, told]
          cases reading : v.reading <;> simp [Watch.advance, SessionEvent.connects]
  | read bytes ec callbacks =>
      have flying : 0 < d.reads := enabled
      have reading : v.reading = true := by
        cases reading : v.reading with
        | true => rfl
        | false =>
            rw [told, reading] at flying
            contradiction
      cases ec with
      | none =>
          apply unchanged
          · apply (reads_advance ..).trans
            exact Nat.sub_add_cancel flying
          · rfl
          · simp [Watch.advance, SessionEvent.connects, SessionEvent.endsRead]
      | some ec =>
          have fewer : (d.advance connects (.read bytes (some ec) callbacks)).reads = 0 := by
            apply (reads_advance ..).trans
            have last : d.reads - 1 = 0 := by omega
            simp only [atCalls]
            split <;> exact last
          rw [fewer]
          exact ⟨iff_of_true (Nat.zero_le 1) (fun connects => by contradiction),
            fun _ => by simp [Watch.advance, SessionEvent.connects, SessionEvent.endsRead]⟩

end Dial

/-- The event's operation was in flight before the step. -/
theorem Hosted.step_enabled {w next : Hosted σ} {event : SessionEvent σ}
    (stepped : w.step event = some next)
    : w.session.dial.Enabled event := by
  have attempt
      : ∀ {stage : Operation}, stage ∈ w.session.operations → stage.isAttempt = true →
          0 < w.session.attempts := by
    intro stage flying isStage
    exact List.countP_pos_iff.mpr ⟨stage, flying, isStage⟩
  cases event with
  | outside | sendPosted | closed | written => trivial
  | resolved | connected | handshaken =>
      simp only [step, complete_eq_some] at stepped
      exact attempt stepped.1 rfl
  | read =>
      simp only [step, complete_eq_some] at stepped
      exact List.count_pos_iff.mpr stepped.1

-----------------------------------------------------------------------------------------
-- Runs under watch
-----------------------------------------------------------------------------------------

/-- A session with its owner under watch. -/
structure Watched (σ : Type) where
  world : Hosted σ
  watch : Watch

namespace Watched

def create (owner : σ) : Watched σ := ⟨.create owner, ⟨false, false⟩⟩

def step (v : Watched σ) (event : SessionEvent σ) : Option (Watched σ) :=
  (v.world.step event).map (⟨·, v.watch.advance v.world.session.attempts event⟩)

/-- In the event the owner makes no `Connect` while an attempt goes on that was overtaken, and
no handshake succeeds after one whose reads still go on.
-/
def Orderly (v : Watched σ) (event : SessionEvent σ) : Prop :=
  ((v.watch.advance v.world.session.attempts event).overtaken = true
    → v.world.connectsIn event = false)
  ∧ (event.connects = true → v.watch.reading = false)

instance (v : Watched σ) (event : SessionEvent σ) : Decidable (v.Orderly event) :=
  inferInstanceAs (Decidable ((_ → _) ∧ (_ → _)))

/-- The watch tells how the session stands. -/
structure Told (v : Watched σ) : Prop where
  attempt : v.world.session.dial.Tells v.watch.overtaken
  read : v.world.session.reads = v.watch.reading.toNat

theorem told_create (owner : σ) : (create owner).Told where
  attempt := ⟨Nat.zero_le 1, fun _ => rfl, fun one => by contradiction, fun _ => .inl rfl⟩
  read := rfl

theorem world_step (v : Watched σ) (event : SessionEvent σ)
    : v.world.step event = (v.step event).map world := by
  simp only [step, Option.map_map]
  exact Option.map_id'.symm

end Watched

/-- At most one connection attempt is in progress, and at most one read. -/
def Hosted.Single (w : Hosted σ) : Prop := w.session.attempts ≤ 1 ∧ w.session.reads ≤ 1

/-- A step from where the watch tells leaves at most one attempt and at most one read exactly
if it is orderly, and then the watch tells again.
-/
theorem Watched.step_single {v next : Watched σ} {event : SessionEvent σ} (told : v.Told)
    (stepped : v.step event = some next)
    : (next.world.Single ↔ v.Orderly event) ∧ (next.world.Single → next.Told) := by
  obtain ⟨world, moved, rfl⟩ := Option.map_eq_some_iff.mp stepped
  have dial := Hosted.step_dial moved
  have attempt := (told.attempt.atCalls event).calls_iff (v.world.connectsIn event)
  have read := Dial.reads_told told.read (v.world.connectsIn event) (Hosted.step_enabled moved)
  have attempts := congrArg Dial.attempts (Dial.advance_eq v.world.session.dial
    (v.world.connectsIn event) event)
  rw [← Dial.Tells.advance_iff, ← attempts, ← dial] at attempt
  rw [← dial] at read
  refine ⟨and_congr attempt.1 read.1, fun single => ?_⟩
  exact ⟨attempt.2 single.1, read.2 single.2⟩

/-- A step that begins an attempt leaves one in progress. -/
theorem Hosted.step_begins {w next : Hosted σ} {event : SessionEvent σ}
    (stepped : w.step event = some next)
    (begins : w.session.dial.begun < next.session.dial.begun)
    : 0 < next.session.attempts := by
  have dial := step_dial stepped
  rw [Dial.advance_eq] at dial
  have attempts : next.session.attempts = _ := congrArg Dial.attempts dial
  rw [dial, ← Dial.begun_atCalls w.session.dial event] at begins
  rw [attempts]
  exact Dial.attempts_pos_of_begun begins

/-- One connection at a time, over a whole run: every state has at most one attempt in
progress and at most one read in flight, and an attempt that a step begins is the only one.
-/
structure Hosted.OneAtATime (w : Hosted σ) (events : List (SessionEvent σ)) : Prop where
  single
    : ∀ before after reached,
        events = before ++ after → w.run before = some reached → reached.Single
  alone
    : ∀ before event after reached next,
        events = before ++ event :: after
        → w.run before = some reached
        → reached.step event = some next
        → reached.session.dial.begun < next.session.dial.begun
        → next.session.attempts = 1

/-- The attempts that steps begin are the only ones as long as no state has two. -/
theorem Hosted.oneAtATime_iff {w : Hosted σ} {events : List (SessionEvent σ)}
    : w.OneAtATime events
      ↔ ∀ before after reached,
          events = before ++ after → w.run before = some reached → reached.Single := by
  refine ⟨OneAtATime.single, fun single => ⟨single, ?_⟩⟩
  intro before event after reached next split there stepped begins
  have ran : w.run (before ++ [event]) = some next :=
    Machine.follow_concat_iff.mpr ⟨reached, there, stepped⟩
  have bounded := (single (before ++ [event]) after next (by rw [split]; simp) ran).1
  have some := step_begins stepped begins
  omega

namespace Watched

variable {owner : σ} {events : List (SessionEvent σ)}

theorem run_create (owner : σ) (events : List (SessionEvent σ))
    : (Hosted.create owner).run events = (Machine.follow step (create owner) events).map world :=
  Machine.follow_map world_step (create owner) events

/-- Every state of a run under watch has at most one attempt and one read exactly if the run
is orderly throughout.
-/
theorem single_iff {final : Watched σ}
    (ran : Machine.follow step (create owner) events = some final)
    : (∀ before after reached,
        events = before ++ after
        → Machine.follow step (create owner) before = some reached
        → reached.world.Single)
      ↔ Machine.Throughout step Orderly (create owner) events :=
  Machine.follow_always_iff Told (fun v => v.world.Single) Orderly
    (fun told stepped => step_single told stepped) (told_create owner)
    ⟨Nat.zero_le 1, Nat.zero_le 1⟩ ran

end Watched

namespace Hosted

/-- A session goes through a run with one connection at a time exactly if its owner never
makes a `Connect` while an attempt goes on that was overtaken by a close, a read or a write,
and no handshake succeeds while the reads of an earlier one go on.
-/
theorem one_connection_iff {owner : σ} {events : List (SessionEvent σ)} {final : Hosted σ}
    (ran : (create owner).run events = some final)
    : (create owner).OneAtATime events
      ↔ Machine.Throughout Watched.step Watched.Orderly (Watched.create owner) events := by
  rw [Watched.run_create, Option.map_eq_some_iff] at ran
  obtain ⟨watched, ran, rfl⟩ := ran
  rw [oneAtATime_iff, ← Watched.single_iff ran]
  constructor
  · intro single before after reached split there
    apply single before after reached.world split
    rw [Watched.run_create, there]
    rfl
  · intro single before after reached split there
    rw [Watched.run_create, Option.map_eq_some_iff] at there
    obtain ⟨watched, there, rfl⟩ := there
    exact single before after watched split there

/-- A `Connect` after each other attempt is over; a close completes during the first. -/
def settled : List (SessionEvent Unit) :=
  [outsideCalls [.connect, .disconnect], .closed none silent, .resolved (some reset) silent,
    outsideCalls [.connect], .resolved none silent, .connected none silent,
    .handshaken none silent]

theorem one_connection_iff_settled : (create ()).OneAtATime settled := by
  obtain ⟨final, ran⟩ : ∃ final, (create ()).run settled = some final := ⟨_, rfl⟩
  exact (one_connection_iff ran).mpr (by decide)

/-- The close that `Disconnect` starts fails while the resolve is in flight, and the owner
calls `Connect` again.
-/
def crowded : List (SessionEvent Unit) :=
  [outsideCalls [.connect, .disconnect], .closed (some reset) silent,
    outsideCalls [.connect], .resolved none silent, .connected none silent,
    .handshaken none silent, .resolved none silent, .connected none silent,
    .handshaken none silent]

/-- Two resolves are in flight together, and in the end two reads. -/
theorem two_connections
    : ∃ final,
        (create ()).run crowded = some final
        ∧ final.session.reads = 2
        ∧ ¬ (create ()).OneAtATime crowded := by
  refine ⟨_, rfl, by decide, fun held => ?_⟩
  have two := (held.single (crowded.take 3) (crowded.drop 3) _ rfl rfl).1
  revert two
  decide

end Hosted

end Nbsdk.Messenger
