import Nbsdk.Messenger.Link
import Nbsdk.Messenger.SendQueue

/-! When the send queue moves on, over runs with any number of connections.
A failed write leaves its message in front of the queue with no write in flight, and no
later step starts one. The session is then connected again exactly by a later handshake.
-/

namespace Nbsdk.Messenger

open Machine (NoneAfter)

variable {σ : Type}

/-- A write fails. -/
def SessionEvent.failsWrite : SessionEvent σ → Bool
  | .written _ (some _) _ => true
  | _ => false

/-- After a handshake the link is connected. -/
theorem Link.connected_of_connects {l : Link} {event : SessionEvent σ}
    (connects : event.connects = true)
    : (l.advance event).connected = true := by
  cases event with
  | handshaken ec callbacks =>
      cases ec with
      | none => rfl
      | some ec => contradiction
  | outside | sendPosted | resolved | connected | closed | written | read => contradiction

/-- Any other event at most keeps the link connected, and a failed write does not. -/
theorem Link.connected_before {l : Link} {event : SessionEvent σ}
    (other : event.connects = false) (connected : (l.advance event).connected = true)
    : l.connected = true ∧ event.failsWrite = false := by
  cases event with
  | outside | sendPosted => exact ⟨connected, rfl⟩
  | resolved ec callbacks | connected ec callbacks | written data ec callbacks =>
      cases ec with
      | none => exact ⟨connected, rfl⟩
      | some ec => exact absurd connected Bool.false_ne_true
  | handshaken ec callbacks =>
      cases ec with
      | none => contradiction
      | some ec => exact absurd connected Bool.false_ne_true
  | closed ec callbacks => exact absurd connected Bool.false_ne_true
  | read bytes ec callbacks =>
      cases ec with
      | none => exact ⟨connected, rfl⟩
      | some ec =>
          refine ⟨?_, rfl⟩
          simp only [advance] at connected
          split at connected
          · exact connected
          · exact absurd connected Bool.false_ne_true

/-- Without a handshake after a failed write, a connected link has seen no failed write,
by induction over the events.
-/
theorem Link.no_failed_write {events : List (SessionEvent σ)}
    (apart : NoneAfter SessionEvent.failsWrite SessionEvent.connects events)
    (connected : (Link.after events).connected = true)
    : ∀ event ∈ events, event.failsWrite = false := by
  induction events using List.reverseRecOn with
  | nil =>
      intro event member
      exact absurd member List.not_mem_nil
  | append_singleton events last ih =>
      obtain ⟨before, late⟩ := Machine.noneAfter_concat.mp apart
      rw [Link.after_concat] at connected
      intro event member
      cases connects : last.connects with
      | true =>
          rcases List.mem_append.mp member with earlier | now
          · exact late connects event earlier
          · rw [List.mem_singleton.mp now]
            revert connects
            cases last <;> simp [SessionEvent.connects, SessionEvent.failsWrite]
      | false =>
          obtain ⟨still, sound⟩ := Link.connected_before connects connected
          rcases List.mem_append.mp member with earlier | now
          · exact ih before still event earlier
          · rw [List.mem_singleton.mp now]
            exact sound

namespace Pipeline

/-- With a write of a known message in flight nothing is stuck. -/
theorem not_stuck_of_mem {p : Pipeline} {data : Message} (flying : data ∈ p.writes)
    : ¬ p.Stuck := by
  intro held
  rcases held with ⟨_, none⟩
  rw [none] at flying
  exact List.not_mem_nil flying

/-- Handing a message over sticks a pipeline only if it was stuck. -/
theorem hand_stuck_iff {p : Pipeline} {data : Message} : (p.hand data).Stuck ↔ p.Stuck := by
  constructor
  · intro held
    rcases held with ⟨_, none⟩
    simp only [hand] at none
    by_cases idle : p.queue = []
    · rw [if_pos idle] at none
      simp at none
    · rw [if_neg idle] at none
      exact ⟨idle, none⟩
  · exact fun stuck => stuck.hand data

/-- A successful write leaves nothing stuck, since the next message is written. -/
theorem Ordered.succeed_not_stuck {p : Pipeline} (h : p.Ordered) {data : Message}
    (flying : data ∈ p.writes)
    : ¬ (p.succeed data).Stuck := by
  intro held
  rcases held with ⟨waiting, none⟩
  have single := (h.front flying).1
  simp only [Pipeline.succeed, single] at waiting none
  cases rest : p.queue.tail with
  | nil => contradiction
  | cons next later =>
      rw [rest] at none
      simp [fronts] at none

end Pipeline

/-- A step sticks the pipeline exactly by a failed write, and nothing frees it. -/
theorem PipelineStep.stuck_iff {before after : Pipeline} {event : SessionEvent σ}
    (taken : PipelineStep before after event) (ordered : before.Ordered)
    : after.Stuck ↔ before.Stuck ∨ event.failsWrite = true := by
  cases event with
  | sendPosted =>
      obtain ⟨data, rfl⟩ := taken
      simpa [SessionEvent.failsWrite] using Pipeline.hand_stuck_iff
  | written data ec callbacks =>
      cases ec with
      | none =>
          obtain ⟨flying, rfl⟩ := taken
          simp [SessionEvent.failsWrite, ordered.succeed_not_stuck flying,
            Pipeline.not_stuck_of_mem flying]
      | some ec =>
          obtain ⟨flying, rfl⟩ := taken
          simp [SessionEvent.failsWrite, ordered.fail_stuck flying]
  | outside | resolved | connected | handshaken | closed | read =>
      obtain rfl : after = before := taken
      simp [SessionEvent.failsWrite]

namespace Hosted

/-- A run ends stuck exactly when one of its writes failed, by induction over the run. -/
theorem run_stuck_iff {owner : σ} {events : List (SessionEvent σ)} {final : Hosted σ}
    (ran : (create owner).run events = some final)
    : final.session.pipeline.Stuck ↔ ∃ event ∈ events, event.failsWrite = true := by
  induction events using List.reverseRecOn generalizing final with
  | nil =>
      obtain rfl := Option.some.inj ran
      simp [Pipeline.Stuck, WebsocketSession.pipeline, create, WebsocketSession.create]
  | append_singleton events event ih =>
      obtain ⟨last, earlier, stepped⟩ := Machine.follow_concat_iff.mp ran
      rw [(step_pipeline stepped).stuck_iff (run_ordered earlier), ih earlier]
      simp [or_and_right, exists_or]

end Hosted

/-- A connected session with messages waiting is writing the front one. -/
def WebsocketSession.Moving (s : WebsocketSession) : Prop :=
  s.state = .kConnected
  → s.sendMsgQueue ≠ []
  → ∃ front, s.sendMsgQueue.head? = some front ∧ .write front ∈ s.operations

/-- An ordered session moves unless it is connected and stuck. -/
theorem WebsocketSession.moving_iff {s : WebsocketSession} (ordered : s.pipeline.Ordered)
    : s.Moving ↔ ¬ (s.link.connected = true ∧ s.pipeline.Stuck) := by
  constructor
  · rintro moving ⟨up, waiting, none⟩
    obtain ⟨front, _, flying⟩ := moving (link_connected_iff.mp up) waiting
    exact Pipeline.not_stuck_of_mem (mem_pipeline_writes.mpr flying) ⟨waiting, none⟩
  · intro apart up waiting
    rcases ordered.single with none | front
    · exact absurd ⟨link_connected_iff.mpr up, waiting, none⟩ apart
    · cases queued : s.sendMsgQueue with
      | nil => contradiction
      | cons first rest =>
          refine ⟨first, rfl, mem_pipeline_writes.mp ?_⟩
          rw [front]
          simp [Pipeline.fronts, pipeline, queued]

/-- The session moves in every state of a run exactly when no handshake completes after a
write has failed.
-/
theorem Hosted.sending_never_stalls_iff (owner : σ) (events : List (SessionEvent σ))
    (final : Hosted σ) (ran : (create owner).run events = some final)
    : (∀ before after reached,
        events = before ++ after
        → (create owner).run before = some reached
        → reached.session.Moving)
      ↔ NoneAfter SessionEvent.failsWrite SessionEvent.connects events := by
  constructor
  · intro moving
    by_contra broken
    obtain ⟨before, event, after, split, connects, failed, member, fails⟩ :=
      Machine.exists_of_not_noneAfter broken
    have split' : events = (before ++ [event]) ++ after := by simp [split]
    rw [split'] at ran
    obtain ⟨reached, there, _⟩ := Machine.follow_append_iff.mp ran
    refine (WebsocketSession.moving_iff (run_ordered there)).mp
      (moving _ after reached split' there) ⟨?_, ?_⟩
    · rw [run_link there, Link.after_concat]
      exact Link.connected_of_connects connects
    · exact (run_stuck_iff there).mpr ⟨failed, List.mem_append_left _ member, fails⟩
  · intro apart before after reached split there
    apply (WebsocketSession.moving_iff (run_ordered there)).mpr
    intro held
    rcases held with ⟨connected, stuck⟩
    rw [run_link there] at connected
    obtain ⟨failed, member, fails⟩ := (run_stuck_iff there).mp stuck
    rw [split] at apart
    rw [Link.no_failed_write apart.of_append connected failed member] at fails
    exact Bool.false_ne_true fails

/-- A write and the read fail on one connection, and the session reconnects. -/
def reconnectedAfterFailure : List (SessionEvent Unit) :=
  [outsideCalls [.connect], .resolved none silent, .connected none silent,
    .handshaken none silent, outsideCalls [.sendData [1]], .sendPosted,
    .written [1] (some reset) silent, .read [] (some reset) silent,
    outsideCalls [.connect], .resolved none silent, .connected none silent,
    .handshaken none silent, outsideCalls [.sendData [2]], .sendPosted]

/-- A message is sent and written on one connection. -/
def writtenOnce : List (SessionEvent Unit) :=
  [outsideCalls [.connect], .resolved none silent, .connected none silent,
    .handshaken none silent, outsideCalls [.sendData [1]], .sendPosted,
    .written [1] none silent]

/-- The equivalence at a run without a failed write. -/
theorem Hosted.sending_never_stalls_iff_written
    : NoneAfter SessionEvent.failsWrite SessionEvent.connects writtenOnce
      ∧ ∀ before after reached,
          writtenOnce = before ++ after
          → (create ()).run before = some reached
          → reached.session.Moving :=
  ⟨by decide, (sending_never_stalls_iff () writtenOnce _ rfl).mpr (by decide)⟩

/-- After a failed write and a reconnect, both messages wait with no write in flight. -/
theorem Hosted.sending_stalls_after_failure
    : ¬ ∀ (events : List (SessionEvent Unit)) (final : Hosted Unit),
        (create ()).run events = some final → final.session.Moving := by
  intro claim
  obtain ⟨front, _, flying⟩ :=
    claim reconnectedAfterFailure _ rfl rfl (List.cons_ne_nil [1] [[2]])
  have reading : Operation.write front ∈ [Operation.read] := flying
  simp at reading

end Nbsdk.Messenger
