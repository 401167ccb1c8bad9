import Nbsdk.Messenger.Session

/-! Sending through the queue: order, exactly-once writing, and when the queue moves on.
The queue, the writes in flight and the two histories are a pipeline of their own. Every
step of a session takes at most one step of its pipeline.
-/

namespace Nbsdk.Messenger

/-- The messages waiting, those of the writes in flight, those written and all those
handed over, each in its order.
-/
structure Pipeline where
  queue : List Message
  writes : List Message
  written : List Message
  handed : List Message

namespace Pipeline

/-- The write that is started when `queue` has just got a new front. -/
def fronts (queue : List Message) : List Message := queue.head?.toList

/-- A message is handed over; only an idle pipeline starts a write. -/
def hand (p : Pipeline) (data : Message) : Pipeline where
  queue := p.queue ++ [data]
  writes := if p.queue = [] then p.writes ++ [data] else p.writes
  written := p.written
  handed := p.handed ++ [data]

/-- A write succeeds, its message leaves the queue and the next write starts. -/
def succeed (p : Pipeline) (data : Message) : Pipeline where
  queue := p.queue.tail
  writes := p.writes.erase data ++ fronts p.queue.tail
  written := p.written ++ [data]
  handed := p.handed

/-- A write fails. -/
def fail (p : Pipeline) (data : Message) : Pipeline :=
  { p with writes := p.writes.erase data }

/-- At most one write is in flight, it is of the queue's front, and the written messages
followed by the queue are the messages handed over.
-/
structure Ordered (p : Pipeline) : Prop where
  single : p.writes = [] ∨ p.writes = fronts p.queue
  history : p.written ++ p.queue = p.handed

/-- A write in flight is of the front. -/
theorem Ordered.front {p : Pipeline} (h : p.Ordered) {data : Message}
    (flying : data ∈ p.writes)
    : p.writes = [data] ∧ p.queue.head? = some data := by
  rcases h.single with none | front
  · simp [none] at flying
  · rw [front, fronts, Option.mem_toList] at flying
    exact ⟨by rw [front, fronts, flying]; rfl, flying⟩

/-- At most one write is in flight. -/
theorem Ordered.length_writes {p : Pipeline} (h : p.Ordered) : p.writes.length ≤ 1 := by
  rcases h.single with none | front
  · simp [none]
  · rw [front, fronts]
    cases p.queue <;> simp

theorem Ordered.hand {p : Pipeline} (h : p.Ordered) (data : Message)
    : (p.hand data).Ordered where
  single := by
    simp only [Pipeline.hand]
    by_cases idle : p.queue = []
    · have none : p.writes = [] := by
        rcases h.single with none | front
        · exact none
        · simpa [idle, fronts] using front
      simp [idle, none, fronts]
    · rw [if_neg idle]
      rcases h.single with none | front
      · exact Or.inl none
      · refine Or.inr (front.trans ?_)
        cases waiting : p.queue with
        | nil => contradiction
        | cons _ _ => rfl
  history := by
    simp only [Pipeline.hand, ← List.append_assoc, h.history]

theorem Ordered.succeed {p : Pipeline} (h : p.Ordered) {data : Message}
    (flying : data ∈ p.writes)
    : (p.succeed data).Ordered := by
  obtain ⟨single, front⟩ := h.front flying
  constructor
  · exact Or.inr (by simp [Pipeline.succeed, single])
  · have history := h.history
    cases waiting : p.queue with
    | nil => simp [waiting] at front
    | cons first rest =>
        have same : first = data := by simpa [waiting] using front
        simpa [Pipeline.succeed, waiting, same] using history

theorem Ordered.fail {p : Pipeline} (h : p.Ordered) {data : Message}
    (flying : data ∈ p.writes)
    : (p.fail data).Ordered where
  single := Or.inl (by simp [Pipeline.fail, (h.front flying).1])
  history := h.history

/-- A waiting message without a write in flight: nothing will take it from the queue. -/
def Stuck (p : Pipeline) : Prop := p.queue ≠ [] ∧ p.writes = []

/-- A failed write sticks the pipeline, since its message stays in front. -/
theorem Ordered.fail_stuck {p : Pipeline} (h : p.Ordered) {data : Message}
    (flying : data ∈ p.writes)
    : (p.fail data).Stuck := by
  obtain ⟨single, front⟩ := h.front flying
  refine ⟨?_, by simp [Pipeline.fail, single]⟩
  intro none
  simp only [Pipeline.fail] at none
  simp [none] at front

theorem Stuck.hand {p : Pipeline} (h : p.Stuck) (data : Message) : (p.hand data).Stuck := by
  refine ⟨by simp [Pipeline.hand], ?_⟩
  simp only [Pipeline.hand, if_neg h.1]
  exact h.2

end Pipeline

/-- The message of a write. -/
def Operation.message? : Operation → Option Message
  | .write data => some data
  | _ => none

def Effect.handed? : Effect → Option Message
  | .handed data => some data
  | _ => none

def Effect.written? : Effect → Option Message
  | .written data => some data
  | _ => none

namespace WebsocketSession

def pipeline (s : WebsocketSession) : Pipeline where
  queue := s.sendMsgQueue
  writes := s.operations.filterMap Operation.message?
  written := s.log.filterMap Effect.written?
  handed := s.log.filterMap Effect.handed?

/-- An effect that is not about sending does not show in the pipeline. -/
theorem pipeline_record {s : WebsocketSession} {effect : Effect}
    (notHanded : effect.handed? = none) (notWritten : effect.written? = none)
    : (s.record effect).pipeline = s.pipeline := by
  simp [pipeline, record, notHanded, notWritten]

@[simp] theorem pipeline_updateState (s : WebsocketSession) (state : SessionState)
    : (s.updateState state).pipeline = s.pipeline :=
  pipeline_record rfl rfl

/-- Starting anything but a write does not show in the pipeline. -/
theorem pipeline_start {s : WebsocketSession} {operation : Operation}
    (notWrite : operation.message? = none)
    : (s.start operation).pipeline = s.pipeline := by
  apply (pipeline_record rfl rfl).trans
  simp [pipeline, notWrite]

/-- Starting a write adds its message to the writes in flight. -/
theorem pipeline_start_write (s : WebsocketSession) (data : Message)
    : (s.start (.write data)).pipeline
      = { s.pipeline with writes := s.pipeline.writes ++ [data] } := by
  apply (pipeline_record rfl rfl).trans
  simp [pipeline, Operation.message?]

/-- Writing the front starts the write of the front, if there is one. -/
theorem pipeline_writeFront (s : WebsocketSession)
    : s.writeFront.pipeline
      = { s.pipeline with writes := s.pipeline.writes ++ Pipeline.fronts s.sendMsgQueue } := by
  cases waiting : s.sendMsgQueue with
  | nil => simp [writeFront, waiting, Pipeline.fronts]
  | cons front rest =>
      simp only [writeFront, waiting, pipeline_start_write]
      rfl

/-- The public calls leave the pipeline alone; a send is only posted. -/
theorem pipeline_call (s : WebsocketSession) (call : SessionCall)
    : (s.call call).pipeline = s.pipeline := by
  cases call with
  | connect =>
      simp only [WebsocketSession.call, connect]
      split
      · rw [pipeline_start rfl, pipeline_updateState]
      · rfl
  | disconnect =>
      simp only [WebsocketSession.call, disconnect]
      split
      · exact pipeline_start rfl
      · rfl
  | sendData data =>
      simp only [WebsocketSession.call, sendData]
      split <;> rfl

@[simp] theorem pipeline_calls (s : WebsocketSession) (calls : List SessionCall)
    : (s.calls calls).pipeline = s.pipeline :=
  view_calls pipeline_call s calls

end WebsocketSession

namespace Hosted

variable {σ : Type}

@[simp] theorem pipeline_callback (w : Hosted σ) (callbacks : Callbacks σ) (notice : Notice)
    : (w.callback callbacks notice).session.pipeline = w.session.pipeline := by
  simp only [callback, act, onSession, WebsocketSession.pipeline_calls]
  exact WebsocketSession.pipeline_record rfl rfl

@[simp] theorem pipeline_fail (w : Hosted σ) (callbacks : Callbacks σ)
    (error : SessionError) (ec : ErrorCode)
    : (w.fail callbacks error ec).session.pipeline = w.session.pipeline := by
  simp [fail, onSession]

@[simp] theorem pipeline_countConnection (w : Hosted σ) (ec : Option ErrorCode)
    : (w.countConnection ec).session.pipeline = w.session.pipeline := by
  cases ec <;> rfl

@[simp] theorem pipeline_appendRead (w : Hosted σ) (bytes : List UInt8)
    (ec : Option ErrorCode)
    : (w.appendRead bytes ec).session.pipeline = w.session.pipeline := by
  cases ec with
  | none => exact WebsocketSession.pipeline_record rfl rfl
  | some ec => rfl

end Hosted

/-- Completing anything but a write does not show in the writes in flight. -/
theorem filterMap_erase_other {operations : List Operation} {operation : Operation}
    (notWrite : operation.message? = none)
    : (operations.erase operation).filterMap Operation.message?
      = operations.filterMap Operation.message? := by
  induction operations with
  | nil => rfl
  | cons first rest ih =>
      rw [List.erase_cons]
      split
      case isTrue same =>
        rw [beq_iff_eq.mp same, List.filterMap_cons_none notWrite]
      case isFalse other =>
        rw [List.filterMap_cons, List.filterMap_cons, ih]

/-- Completing a write takes its message out of the writes in flight. -/
theorem filterMap_erase_write (operations : List Operation) (data : Message)
    : (operations.erase (.write data)).filterMap Operation.message?
      = (operations.filterMap Operation.message?).erase data := by
  induction operations with
  | nil => rfl
  | cons first rest ih =>
      cases first with
      | write other =>
          by_cases same : other = data
          · subst same
            simp [Operation.message?]
          · simp [Operation.message?, same, ih]
      | resolve | connect | handshake | close | read =>
          simpa [List.filterMap_cons, Operation.message?] using ih

/-- A message is in a write in flight exactly when the pipeline says so. -/
theorem WebsocketSession.mem_pipeline_writes {s : WebsocketSession} {data : Message}
    : data ∈ s.pipeline.writes ↔ .write data ∈ s.operations := by
  simp only [pipeline, List.mem_filterMap]
  constructor
  · intro held
    rcases held with ⟨operation, flying, found⟩
    cases operation <;> simp_all [Operation.message?]
  · intro flying
    exact ⟨.write data, flying, rfl⟩

/-- Finishing anything but a write does not show in the pipeline. -/
theorem WebsocketSession.pipeline_finish {s : WebsocketSession} {operation : Operation}
    (notWrite : operation.message? = none)
    : (s.finish operation).pipeline = s.pipeline := by
  simp [pipeline, finish, filterMap_erase_other notWrite]

/-- Finishing a write takes its message out of the writes in flight. -/
theorem WebsocketSession.pipeline_finish_write (s : WebsocketSession) (data : Message)
    : (s.finish (.write data)).pipeline = s.pipeline.fail data := by
  simp [pipeline, finish, Pipeline.fail, filterMap_erase_write]

-----------------------------------------------------------------------------------------
-- What one step does to the pipeline
-----------------------------------------------------------------------------------------

/-- The pipeline after a step from this pipeline. -/
def PipelineStep {σ : Type} (before : Pipeline) (after : Pipeline)
    : SessionEvent σ → Prop
  | .sendPosted => ∃ data, after = before.hand data
  | .written data none _ => data ∈ before.writes ∧ after = before.succeed data
  | .written data (some _) _ => data ∈ before.writes ∧ after = before.fail data
  | _ => after = before

namespace Hosted

variable {σ : Type}

/-- Every step takes the pipeline's step of its event; the cases are the events. -/
theorem step_pipeline {w next : Hosted σ} {event : SessionEvent σ}
    (stepped : w.step event = some next)
    : PipelineStep w.session.pipeline next.session.pipeline event := by
  cases event with
  | outside action =>
      simp only [step, Option.some.injEq] at stepped
      simp [PipelineStep, ← stepped, act]
  | sendPosted =>
      simp only [step] at stepped
      split at stepped
      case h_1 => contradiction
      case h_2 data rest waiting =>
        refine ⟨data, ?_⟩
        simp only [Option.some.injEq] at stepped
        rw [← stepped]
        simp only [onSession, WebsocketSession.sendDataInner]
        by_cases idle : w.session.sendMsgQueue = []
        · rw [if_neg (by simp [WebsocketSession.record, idle]),
            WebsocketSession.pipeline_writeFront]
          simp [WebsocketSession.pipeline, WebsocketSession.record, Pipeline.hand,
            Pipeline.fronts, idle, Effect.handed?, Effect.written?]
        · have more : 1 < (w.session.sendMsgQueue ++ [data]).length := by
            have := List.length_pos_of_ne_nil idle
            simpa using this
          rw [if_pos (by simpa [WebsocketSession.record] using more)]
          simp [WebsocketSession.pipeline, WebsocketSession.record, Pipeline.hand, idle,
            Effect.handed?, Effect.written?]
  | resolved ec callbacks | connected ec callbacks =>
      simp only [step, complete_eq_some] at stepped
      obtain ⟨_, rfl⟩ := stepped
      cases ec with
      | none =>
          apply (WebsocketSession.pipeline_start rfl).trans
          exact WebsocketSession.pipeline_finish rfl
      | some ec =>
          exact (pipeline_fail ..).trans (WebsocketSession.pipeline_finish rfl)
  | handshaken ec callbacks =>
      simp only [step, complete_eq_some] at stepped
      obtain ⟨_, rfl⟩ := stepped
      cases ec with
      | none =>
          apply (WebsocketSession.pipeline_start rfl).trans
          apply (pipeline_callback ..).trans
          apply (WebsocketSession.pipeline_updateState ..).trans
          exact (pipeline_countConnection ..).trans (WebsocketSession.pipeline_finish rfl)
      | some ec =>
          apply (pipeline_fail ..).trans
          exact (pipeline_countConnection ..).trans (WebsocketSession.pipeline_finish rfl)
  | closed ec callbacks =>
      simp only [step, complete_eq_some] at stepped
      obtain ⟨_, rfl⟩ := stepped
      cases ec with
      | none =>
          apply (pipeline_callback ..).trans
          apply (WebsocketSession.pipeline_updateState ..).trans
          exact WebsocketSession.pipeline_finish rfl
      | some ec =>
          exact (pipeline_fail ..).trans (WebsocketSession.pipeline_finish rfl)
  | written data ec callbacks =>
      simp only [step, complete_eq_some] at stepped
      obtain ⟨flying, rfl⟩ := stepped
      cases ec with
      | none =>
          refine ⟨WebsocketSession.mem_pipeline_writes.mpr flying, ?_⟩
          apply (WebsocketSession.pipeline_writeFront _).trans
          simp [WebsocketSession.pipeline, WebsocketSession.record, countWritten, onSession,
            WebsocketSession.finish, Pipeline.succeed, filterMap_erase_write,
            Effect.handed?, Effect.written?]
      | some ec =>
          refine ⟨WebsocketSession.mem_pipeline_writes.mpr flying, ?_⟩
          exact (pipeline_fail ..).trans (WebsocketSession.pipeline_finish_write ..)
  | read bytes ec callbacks =>
      simp only [step, complete_eq_some] at stepped
      obtain ⟨_, rfl⟩ := stepped
      have taken
          : ((w.onSession (·.finish .read)).appendRead bytes ec).session.pipeline
            = w.session.pipeline :=
        (pipeline_appendRead ..).trans (WebsocketSession.pipeline_finish rfl)
      cases ec with
      | none =>
          apply (WebsocketSession.pipeline_start rfl).trans
          exact (pipeline_callback ..).trans taken
      | some ec =>
          simp only [PipelineStep, onRead]
          split
          · exact taken
          · exact (pipeline_fail ..).trans taken
          · exact (pipeline_fail ..).trans taken

end Hosted

/-- A pipeline step keeps the order; a failed write leaves its message in front. -/
theorem PipelineStep.ordered {σ : Type} {before after : Pipeline} {event : SessionEvent σ}
    (taken : PipelineStep before after event) (h : before.Ordered)
    : after.Ordered := by
  cases event with
  | sendPosted =>
      obtain ⟨data, rfl⟩ := taken
      exact h.hand data
  | written data ec callbacks =>
      cases ec with
      | none =>
          obtain ⟨flying, rfl⟩ := taken
          exact h.succeed flying
      | some ec =>
          obtain ⟨flying, rfl⟩ := taken
          exact h.fail flying
  | outside | resolved | connected | handshaken | closed | read =>
      exact Eq.substr (taken : after = before) h

/-- The pipeline is ordered after every run, by induction over its steps. -/
theorem Hosted.run_ordered {σ : Type} {owner : σ} {events : List (SessionEvent σ)}
    {final : Hosted σ} (ran : (Hosted.create owner).run events = some final)
    : final.session.pipeline.Ordered :=
  Machine.follow_invariant (fun w => w.session.pipeline.Ordered)
    (fun ordered stepped => (step_pipeline stepped).ordered ordered)
    ⟨Or.inl rfl, rfl⟩ ran

/-- Sending is ordered and exactly once, whatever the order of sends, completions, closes
and reconnects: at most one write is in flight, its message is the front of the queue, and
the messages written followed by those waiting are the messages handed over.
-/
theorem Hosted.sending_ordered_exactly_once {σ : Type} (owner : σ)
    (events : List (SessionEvent σ)) (final : Hosted σ)
    (ran : (Hosted.create owner).run events = some final)
    : (final.session.operations.filterMap Operation.message?).length ≤ 1
      ∧ (∀ data,
          .write data ∈ final.session.operations
          → final.session.sendMsgQueue.head? = some data)
      ∧ final.session.log.filterMap Effect.written? ++ final.session.sendMsgQueue
        = final.session.log.filterMap Effect.handed? := by
  have ordered := run_ordered ran
  refine ⟨ordered.length_writes, ?_, ordered.history⟩
  intro data flying
  exact (ordered.front (WebsocketSession.mem_pipeline_writes.mpr flying)).2

/-- The first of two messages is written and the second fails. -/
def secondWriteFails : List (SessionEvent Unit) :=
  [outsideCalls [.connect], .resolved none silent, .connected none silent,
    .handshaken none silent, outsideCalls [.sendData [1], .sendData [2]], .sendPosted,
    .sendPosted, .written [1] none silent, .written [2] (some reset) silent]

/-- The ordering at a run in which a write succeeds and the next one fails. -/
theorem Hosted.sending_ordered_exactly_once_failing
    : ∃ final,
        (Hosted.create ()).run secondWriteFails = some final
        ∧ (final.session.operations.filterMap Operation.message?).length ≤ 1
        ∧ final.session.log.filterMap Effect.written? ++ final.session.sendMsgQueue
          = [[1], [2]] := by
  obtain ⟨final, ran⟩ : ∃ final, (Hosted.create ()).run secondWriteFails = some final :=
    ⟨_, rfl⟩
  have sent := sending_ordered_exactly_once () secondWriteFails final ran
  refine ⟨final, ran, sent.1, sent.2.2.trans ?_⟩
  obtain rfl := Option.some.inj ran
  rfl

end Nbsdk.Messenger
