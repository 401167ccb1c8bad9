import Nbsdk.Messenger.ReceiveBuffer
import Nbsdk.Messenger.SingleAttempt

/-! Reads whose bytes reach the buffer as they arrive.
A read appends to the buffer bit by bit and belongs to the connection that it was started on.
While reads do not overlap, the session does what it does when each read appends all its bytes
at its completion, and so its messages are the ones of that session.
-/

namespace Nbsdk.Messenger

open Machine (NoneAfter)

variable {σ : Type}

/-- A read in flight: the number of the connection that it was started on, and the bytes that
it has appended to the buffer so far.
-/
structure Reading where
  connection : Nat
  arrived : List UInt8
  deriving DecidableEq, Repr

/-- A session whose reads append to the buffer bit by bit, with its reads in flight. -/
structure Streaming (σ : Type) where
  world : Hosted σ
  readings : List Reading

/-- One step: the session takes a step that completes no read, bytes of one of the reads in
flight arrive, or this read completes with its last bytes.
-/
inductive StreamEvent (σ : Type)
  | session (event : SessionEvent σ)
  | arrive (index : Nat) (bytes : List UInt8)
  | finish (index : Nat) (bytes : List UInt8) (ec : Option ErrorCode)
    (callbacks : Callbacks σ)

/-- The last bytes of a read are in the buffer; without an error all its bytes are a message
that the peer completed on the connection of the read.
-/
def Hosted.appendLast (w : Hosted σ) (reading : Reading) (bytes : List UInt8)
    (ec : Option ErrorCode)
    : Hosted σ :=
  w.onSession (fun s =>
    let s := { s with buffer := s.buffer ++ bytes }
    match ec with
    | some _ => s
    | none => s.record (.completed reading.connection (reading.arrived ++ bytes)))

namespace Streaming

def create (owner : σ) : Streaming σ where
  world := .create owner
  readings := []

/-- The messages that the peer completed, each with the connection of its read. -/
def completed (v : Streaming σ) : List (Nat × Message) :=
  v.world.session.log.filterMap Effect.completed?

/-- The messages given to the callback, each with the connection current at that moment. -/
def delivered (v : Streaming σ) : List (Nat × Message) :=
  v.world.session.log.filterMap Effect.delivered?

/-- A read is started on the current connection of the session. -/
def startReading (v : Streaming σ) : Streaming σ :=
  { v with readings := v.readings ++ [⟨v.world.session.connection, []⟩] }

/-- The session takes a step, which starts a read if it completes a handshake. -/
def advance (v : Streaming σ) (event : SessionEvent σ) (world : Hosted σ) : Streaming σ :=
  if event.connects then { v with world }.startReading else { v with world }

/-- Bytes of a read in flight reach the buffer. -/
def arrive (v : Streaming σ) (index : Nat) (reading : Reading) (bytes : List UInt8)
    : Streaming σ where
  world := v.world.onSession (fun s => { s with buffer := s.buffer ++ bytes })
  readings := v.readings.set index { reading with arrived := reading.arrived ++ bytes }

/-- A read is no longer in flight; behind a message its handler has started the next one. -/
def finish (v : Streaming σ) (index : Nat) (ec : Option ErrorCode) (world : Hosted σ)
    : Streaming σ :=
  let v : Streaming σ := { world, readings := v.readings.eraseIdx index }
  match ec with
  | some _ => v
  | none => v.startReading

def step (v : Streaming σ) : StreamEvent σ → Option (Streaming σ)
  | .session event =>
      if event.isRead then none else (v.world.step event).map (v.advance event)
  | .arrive index bytes =>
      v.readings[index]?.map (fun reading => v.arrive index reading bytes)
  | .finish index bytes ec callbacks =>
      v.readings[index]?.bind (fun reading =>
        (v.world.complete .read
          (fun w => (w.appendLast reading bytes ec).onRead callbacks ec)).map
          (v.finish index ec))

/-- The state after these events, if each was enabled in its turn. -/
def run (v : Streaming σ) (events : List (StreamEvent σ)) : Option (Streaming σ) :=
  Machine.follow step v events

end Streaming

/-- The handler of a read starts another one behind a message. -/
theorem Hosted.reads_onRead (w : Hosted σ) (callbacks : Callbacks σ) (ec : Option ErrorCode)
    : (w.onRead callbacks ec).session.reads = w.session.reads + ec.isNone.toNat := by
  cases ec with
  | none =>
      apply (congrArg Dial.reads (WebsocketSession.dial_doRead _)).trans
      apply congrArg (· + 1)
      exact (congrArg Dial.reads (dial_callback ..)).trans (Dial.reads_calls ..)
  | some ec =>
      obtain ⟨kind, message⟩ := ec
      cases kind with
      | operationCanceled => rfl
      | closed | other => exact (congrArg Dial.reads (dial_fail ..)).trans (Dial.reads_calls ..)

/-- The readings are the reads that the session has in flight, over every step. -/
theorem Streaming.step_readings {v next : Streaming σ} {event : StreamEvent σ}
    (same : v.readings.length = v.world.session.reads) (stepped : v.step event = some next)
    : next.readings.length = next.world.session.reads := by
  cases event with
  | session event =>
      simp only [step] at stepped
      split at stepped
      case isTrue => contradiction
      case isFalse noRead =>
        obtain ⟨world, moved, rfl⟩ := Option.map_eq_some_iff.mp stepped
        have reads
            : world.session.reads = v.world.session.reads + event.connects.toNat := by
          apply (congrArg Dial.reads (Hosted.step_dial moved)).trans
          rw [Dial.reads_advance]
          cases event with
          | read => exact absurd rfl noRead
          | outside | sendPosted => rfl
          | resolved ec callbacks | connected ec callbacks | handshaken ec callbacks
          | closed ec callbacks | written data ec callbacks =>
              cases ec <;> rfl
        simp only [advance]
        cases connects : event.connects <;> simp [startReading, same, reads, connects]
  | arrive index bytes =>
      obtain ⟨found, _, rfl⟩ := Option.map_eq_some_iff.mp stepped
      exact List.length_set.trans same
  | finish index bytes ec callbacks =>
      obtain ⟨found, there, completed⟩ := Option.bind_eq_some_iff.mp stepped
      obtain ⟨world, moved, rfl⟩ := Option.map_eq_some_iff.mp completed
      obtain ⟨_, rfl⟩ := Hosted.complete_eq_some.mp moved
      have flying : index < v.readings.length := (List.getElem?_eq_some_iff.mp there).1
      have appended
          : ((v.world.onSession (·.finish .read)).appendLast found bytes ec).session.reads
            = v.world.session.reads - 1 := by
        cases ec <;> exact List.count_erase_self
      have reads := Hosted.reads_onRead
        ((v.world.onSession (·.finish .read)).appendLast found bytes ec) callbacks ec
      rw [appended] at reads
      cases ec with
      | none =>
          simp only [finish, startReading, List.length_append, List.length_singleton,
            List.length_eraseIdx_of_lt flying, reads, same]
          rfl
      | some ec =>
          simp only [finish, List.length_eraseIdx_of_lt flying, reads, same]
          rfl

/-- After every run the readings are the session's reads in flight. -/
theorem Streaming.run_readings {owner : σ} {events : List (StreamEvent σ)}
    {final : Streaming σ} (ran : (create owner).run events = some final)
    : final.readings.length = final.world.session.reads :=
  Machine.follow_invariant (fun v => v.readings.length = v.world.session.reads)
    step_readings rfl ran

-----------------------------------------------------------------------------------------
-- Reads that do not overlap
-----------------------------------------------------------------------------------------

namespace StreamEvent

/-- A handshake completes successfully. -/
def connects : StreamEvent σ → Bool
  | .session event => event.connects
  | .arrive _ _ | .finish _ _ _ _ => false

/-- A read fails, and no other read follows. -/
def endsRead : StreamEvent σ → Bool
  | .finish _ _ (some _) _ => true
  | .session _ | .arrive _ _ | .finish _ _ none _ => false

/-- Reads go on from a successful handshake until one of them fails. -/
def goesOn (reading : Bool) (event : StreamEvent σ) : Bool :=
  event.connects || (reading && !event.endsRead)

/-- Reads go on behind these events. -/
def reading (events : List (StreamEvent σ)) : Bool := events.foldl goesOn false

/-- No handshake succeeds while the reads behind an earlier one go on. -/
def ReadsApart (events : List (StreamEvent σ)) : Prop :=
  Machine.Throughout (Machine.total goesOn)
    (fun reading event => event.connects = true → reading = false) false events

instance (events : List (StreamEvent σ)) : Decidable (ReadsApart events) :=
  inferInstanceAs (Decidable (Machine.Throughout _ _ _ _))

/-- Events whose reads append all their bytes when they complete, and the bytes that have
arrived for a read in flight.
-/
structure Merged (σ : Type) where
  events : List (SessionEvent σ)
  pending : List UInt8

/-- One more event; the bytes that arrive wait for the completion of their read. -/
def Merged.add (m : Merged σ) : StreamEvent σ → Merged σ
  | .session event => { m with events := m.events ++ [event] }
  | .arrive _ bytes => { m with pending := m.pending ++ bytes }
  | .finish _ bytes ec callbacks =>
      ⟨m.events ++ [.read (m.pending ++ bytes) ec callbacks], []⟩

/-- The events with the bytes of a read merged into its completion. -/
def merged (events : List (StreamEvent σ)) : Merged σ := events.foldl Merged.add ⟨[], []⟩

/-- One more event is added to the merged ones. -/
theorem merged_concat (events : List (StreamEvent σ)) (event : StreamEvent σ)
    : merged (events ++ [event]) = (merged events).add event := by
  simp [merged]

theorem reading_concat (events : List (StreamEvent σ)) (event : StreamEvent σ)
    : reading (events ++ [event]) = event.goesOn (reading events) := by
  simp [reading]

/-- A step of the session starts reads or leaves them as they are. -/
theorem reading_session (events : List (StreamEvent σ)) (event : SessionEvent σ)
    : reading (events ++ [.session event]) = (event.connects || reading events) := by
  simp [reading_concat, goesOn, connects, endsRead]

end StreamEvent

namespace Streaming

open StreamEvent (merged reading ReadsApart merged_concat reading_concat reading_session)

/-- A session behind events whose reads do not overlap, and one behind the merged events. They
are the same, but for the bytes of the read in flight, which the first has in its buffer; this
read belongs to the current connection.
-/
structure Merges (owner : σ) (events : List (StreamEvent σ)) (v : Streaming σ) (w : Hosted σ)
    : Prop where
  ran : (Hosted.create owner).run (merged events).events = some w
  world : v.world = w.withBuffer (w.session.buffer ++ (merged events).pending)
  readings
    : v.readings
      = if reading events then [⟨w.session.connection, (merged events).pending⟩] else []
  idle : reading events = false → (merged events).pending = []

variable {owner : σ} {events : List (StreamEvent σ)} {v : Streaming σ} {w : Hosted σ}

/-- The one read in flight, if reads go on, is the one that bytes or a completion are of. -/
theorem Merges.reading_of (h : Merges owner events v w) {index : Nat} {found : Reading}
    (there : v.readings[index]? = some found)
    : index = 0
      ∧ reading events = true
      ∧ found = ⟨w.session.connection, (merged events).pending⟩ := by
  rw [h.readings] at there
  cases goes : reading events with
  | false => simp [goes] at there
  | true =>
      rw [goes, if_pos rfl] at there
      cases index with
      | zero => exact ⟨rfl, rfl, (Option.some.inj there).symm⟩
      | succ index => simp at there

/-- A step that completes no read is one of the merged run; a handshake finds no read going on
and starts one on the connection that it has just made.
-/
theorem Merges.session {world : Hosted σ} {event : SessionEvent σ} (h : Merges owner events v w)
    (noRead : event.isRead = false) (stepped : v.world.step event = some world)
    (apart : event.connects = true → reading events = false)
    : ∃ next, Merges owner (events ++ [.session event]) (v.advance event world) next := by
  have alone : v.world.withBuffer w.session.buffer = w := by rw [h.world]; rfl
  have moved := Hosted.step_withBuffer noRead stepped w.session.buffer
  rw [alone] at moved
  obtain ⟨connection, buffer⟩ := Hosted.step_unread noRead stepped
  rw [h.world] at connection buffer
  have counted : world.session.connection = w.session.connection + event.connects.toNat :=
    connection
  have kept : world.session.buffer = w.session.buffer ++ (merged events).pending := buffer
  have same
      : world
        = (world.withBuffer w.session.buffer).withBuffer
            (w.session.buffer ++ (merged events).pending) := by
    rw [← kept]
    rfl
  refine ⟨world.withBuffer w.session.buffer, ?_, ?_, ?_, ?_⟩
  · rw [merged_concat]
    exact Machine.follow_concat_iff.mpr ⟨w, h.ran, moved⟩
  · rw [merged_concat]
    refine Eq.trans ?_ same
    simp only [advance]
    split <;> rfl
  · rw [merged_concat, reading_session]
    cases connects : event.connects with
    | true =>
        have resting := apart connects
        have none : v.readings = [] := by simp [h.readings, resting]
        simp only [advance, connects, if_true, startReading, none, Bool.true_or,
          StreamEvent.Merged.add, h.idle resting]
        rfl
    | false =>
        have same : w.session.connection = world.session.connection := by
          rw [counted, connects]
          rfl
        simp only [advance, connects, Bool.false_eq_true, if_false, h.readings, Bool.false_or,
          StreamEvent.Merged.add, same]
        rfl
  · intro rests
    rw [reading_session, Bool.or_eq_false_iff] at rests
    rw [merged_concat]
    exact h.idle rests.2

/-- Bytes that arrive wait behind the others of their read. -/
theorem Merges.arrive {index : Nat} {found : Reading} (h : Merges owner events v w)
    (there : v.readings[index]? = some found) (bytes : List UInt8)
    : Merges owner (events ++ [.arrive index bytes]) (v.arrive index found bytes) w := by
  obtain ⟨rfl, going, rfl⟩ := h.reading_of there
  have goes : reading (events ++ [.arrive 0 bytes]) = true := by
    rw [reading_concat, going]
    rfl
  refine ⟨?_, ?_, ?_, ?_⟩
  · rw [merged_concat]
    exact h.ran
  · rw [merged_concat, Streaming.arrive, h.world, StreamEvent.Merged.add, ← List.append_assoc]
    rfl
  · rw [merged_concat, goes, Streaming.arrive, h.readings, going]
    rfl
  · rw [goes]
    exact fun off => by contradiction

/-- A read that completes is the merged read, with the bytes that arrived before. -/
theorem Merges.finish {world : Hosted σ} {index : Nat} {found : Reading} {bytes : List UInt8}
    {ec : Option ErrorCode} {callbacks : Callbacks σ} (h : Merges owner events v w)
    (there : v.readings[index]? = some found)
    (completed
      : v.world.complete .read (fun w => (w.appendLast found bytes ec).onRead callbacks ec)
        = some world)
    : Merges owner (events ++ [.finish index bytes ec callbacks]) (v.finish index ec world)
        world := by
  obtain ⟨rfl, going, rfl⟩ := h.reading_of there
  obtain ⟨flying, handled⟩ := Hosted.complete_eq_some.mp completed
  have appended
      : (v.world.onSession (·.finish .read)).appendLast
            ⟨w.session.connection, (merged events).pending⟩ bytes ec
        = (w.onSession (·.finish .read)).appendRead ((merged events).pending ++ bytes) ec := by
    rw [h.world]
    cases ec <;>
      simp only [Hosted.appendLast, Hosted.appendRead, Hosted.withBuffer, Hosted.onSession,
        WebsocketSession.withBuffer, WebsocketSession.finish, List.append_assoc]
  have moved
      : w.step (.read ((merged events).pending ++ bytes) ec callbacks) = some world := by
    rw [appended] at handled
    rw [h.world] at flying
    simp only [Hosted.step]
    exact Hosted.complete_eq_some.mpr ⟨flying, handled⟩
  have taken : v.readings.eraseIdx 0 = [] := by simp [h.readings, going]
  have goes
      : reading (events ++ [.finish 0 bytes ec callbacks]) = ec.isNone := by
    rw [reading_concat, going]
    cases ec <;> rfl
  refine ⟨?_, ?_, ?_, ?_⟩
  · rw [merged_concat]
    exact Machine.follow_concat_iff.mpr ⟨w, h.ran, moved⟩
  · rw [merged_concat]
    simp only [StreamEvent.Merged.add, List.append_nil]
    cases ec <;> rfl
  · rw [merged_concat, goes]
    cases ec with
    | none =>
        simp only [Streaming.finish, startReading, taken]
        rfl
    | some ec => exact taken
  · intro _
    rw [merged_concat]
    rfl

/-- Every step keeps to the merged run as long as reads do not overlap, by the cases of the
event.
-/
theorem Merges.step {next : Streaming σ} {event : StreamEvent σ} (h : Merges owner events v w)
    (stepped : v.step event = some next)
    (apart : event.connects = true → reading events = false)
    : ∃ after, Merges owner (events ++ [event]) next after := by
  cases event with
  | session event =>
      simp only [Streaming.step] at stepped
      split at stepped
      · contradiction
      · next noRead =>
        obtain ⟨world, moved, rfl⟩ := Option.map_eq_some_iff.mp stepped
        exact h.session (Bool.eq_false_iff.mpr noRead) moved apart
  | arrive index bytes =>
      obtain ⟨found, there, rfl⟩ := Option.map_eq_some_iff.mp stepped
      exact ⟨w, h.arrive there bytes⟩
  | finish index bytes ec callbacks =>
      obtain ⟨found, there, completes⟩ := Option.bind_eq_some_iff.mp stepped
      obtain ⟨world, completed, rfl⟩ := Option.map_eq_some_iff.mp completes
      exact ⟨world, h.finish there completed⟩

/-- A run whose reads do not overlap is the merged run, by induction over its events. -/
theorem run_merged {final : Streaming σ} (ran : (create owner).run events = some final)
    (apart : ReadsApart events)
    : ∃ w, Merges owner events final w := by
  refine Machine.follow_history
    (fun events v => ReadsApart events → ∃ w, Merges owner events v w) ?_ ?_ ran apart
  · intro events event v next merges stepped apart
    obtain ⟨before, late⟩ := Machine.throughout_total_concat_iff.mp apart
    obtain ⟨w, h⟩ := merges before
    exact h.step stepped late
  · exact fun _ => ⟨.create owner, rfl, rfl, rfl, fun _ => rfl⟩

/-- In a run whose reads do not overlap, the messages given to the callback are the messages
that the peer completed, each on the connection current at that moment and in the order of
completion, exactly when no read succeeded after one that failed with part of a message in
the buffer.
-/
theorem messages_delivered_iff (owner : σ) (events : List (StreamEvent σ))
    (final : Streaming σ) (ran : (create owner).run events = some final)
    (apart : ReadsApart events)
    : final.delivered = final.completed
      ↔ NoneAfter SessionEvent.breaksMessage SessionEvent.completesMessage
          (merged events).events := by
  obtain ⟨w, h⟩ := run_merged ran apart
  have link := Hosted.run_link h.ran
  have delivered : final.delivered = (Link.after (merged events).events).delivered := by
    rw [← link, Streaming.delivered, h.world]
    rfl
  have completed : final.completed = (Link.after (merged events).events).completed := by
    rw [← link, Streaming.completed, h.world]
    rfl
  rw [← (Link.after_faithful_iff (merged events).events).1, delivered, completed, Link.Faithful]

/-- Two messages arrive on one connection, the second one in two parts. -/
def receivedTwice : List (StreamEvent Unit) :=
  [.session (outsideCalls [.connect]), .session (.resolved none silent),
    .session (.connected none silent), .session (.handshaken none silent),
    .finish 0 [1] none silent, .arrive 0 [2], .finish 0 [3] none silent]

/-- The equivalence at a run without a broken message. -/
theorem messages_delivered_iff_received
    : ∃ final,
        (create ()).run receivedTwice = some final
        ∧ final.delivered = final.completed
        ∧ final.delivered = [(1, [1]), (1, [2, 3])] := by
  refine ⟨_, rfl, (messages_delivered_iff () receivedTwice _ rfl ?_).mpr ?_, rfl⟩
  · decide
  · decide

/-- A connection breaks inside a message, and the next one brings a whole message. -/
def brokenThenReceived : List (StreamEvent Unit) :=
  [.session (outsideCalls [.connect]), .session (.resolved none silent),
    .session (.connected none silent), .session (.handshaken none silent),
    .arrive 0 [1], .finish 0 [] (some reset) silent,
    .session (outsideCalls [.connect]), .session (.resolved none silent),
    .session (.connected none silent), .session (.handshaken none silent),
    .finish 0 [2, 3] none silent]

/-- The message of the second connection is delivered behind the part left over. -/
theorem broken_message_delivered
    : ¬ ∀ (events : List (StreamEvent Unit)) (final : Streaming Unit),
        (create ()).run events = some final → final.delivered = final.completed := by
  intro claim
  have same : ([(2, [1, 2, 3])] : List (Nat × Message)) = [(2, [2, 3])] :=
    claim brokenThenReceived _ rfl
  simp at same

end Streaming

end Nbsdk.Messenger
