import Nbsdk.Messenger.Shutdown

/-! No state of a messenger is a dead end.
A session that is connecting has an attempt in progress, so that a connection can still be
made. Whatever is in flight can fail, after which the session can be closed, and then the
messenger can be destroyed.
-/

namespace Nbsdk.Messenger

open Base (EventLoop)

-----------------------------------------------------------------------------------------
-- A connection can be made
-----------------------------------------------------------------------------------------

/-- A dial that is connecting has an attempt to wait for. -/
def Dial.Tries (d : Dial) : Prop := d.state = .kConnecting → 0 < d.attempts

/-- `Connect` begins the attempt, and an attempt that ends leaves another state. -/
theorem Dial.Tries.advance {σ : Type} {d : Dial} (h : d.Tries) (connects : Bool)
    (event : SessionEvent σ)
    : (d.advance connects event).Tries := by
  have called : (d.atCalls event).Tries := by
    cases event with
    | outside | sendPosted => exact h
    | resolved ec | connected ec | written _ ec =>
        cases ec with
        | none => exact h
        | some ec => exact fun connecting => absurd connecting (by simp [atCalls, enter])
    | handshaken ec | closed ec =>
        cases ec <;> exact fun connecting => absurd connecting (by simp [atCalls, enter])
    | read bytes ec =>
        cases ec with
        | none => exact h
        | some ec =>
            simp only [atCalls]
            split
            · exact h
            · exact fun connecting => absurd connecting (by simp [enter])
  have behind : ((d.atCalls event).calls connects).Tries := by
    cases connects with
    | false => exact called
    | true =>
        simp only [calls, if_true, connect]
        split
        · exact fun _ => Nat.succ_pos _
        · exact called
  rw [advance_eq]
  exact behind

/-- The user opens, and the attempt goes through. -/
def opening : List MessengerEvent :=
  [.user .open, .resolved none [], .connected none [], .handshaken none []]

namespace MessengerSystem

theorem step_tries {w next : MessengerSystem} {event : MessengerEvent}
    (stepped : w.step event = some next) (h : w.session.dial.Tries)
    : next.session.dial.Tries := by
  rw [Hosted.step_dial (step_session stepped)]
  exact Dial.Tries.advance h _ _

/-- A successful handshake connects, if the listener makes no call. -/
theorem handshake_connects {w : MessengerSystem} (flying : .handshake ∈ w.session.operations)
    : ∃ connected,
        w.run [.handshaken none []] = some connected ∧ connected.session.state = .kConnected := by
  obtain ⟨next, stepped⟩ : ∃ next, w.step (.handshaken none []) = some next :=
    ⟨_, if_pos flying⟩
  have quiet : MessengerEvent.Quiet (.handshaken none []) := by
    constructor <;> simp [MessengerEvent.userCalls, MessengerEvent.reaction]
  exact ⟨next, Machine.follow_cons_iff.mpr ⟨next, stepped, rfl⟩, quiet_state quiet stepped⟩

/-- Each stage of an attempt starts the one behind it. -/
theorem connect_connects {w : MessengerSystem} (flying : .connect ∈ w.session.operations)
    : ∃ connected,
        w.run [.connected none [], .handshaken none []] = some connected
        ∧ connected.session.state = .kConnected := by
  obtain ⟨next, stepped, flies⟩
      : ∃ next,
          w.step (.connected none []) = some next ∧ .handshake ∈ next.session.operations :=
    ⟨_, if_pos flying, List.mem_append_right _ List.mem_cons_self⟩
  obtain ⟨final, ran, connected⟩ := handshake_connects flies
  exact ⟨final, Machine.follow_cons_iff.mpr ⟨next, stepped, ran⟩, connected⟩

theorem resolve_connects {w : MessengerSystem} (flying : .resolve ∈ w.session.operations)
    : ∃ connected,
        w.run opening.tail = some connected ∧ connected.session.state = .kConnected := by
  obtain ⟨next, stepped, flies⟩
      : ∃ next, w.step (.resolved none []) = some next ∧ .connect ∈ next.session.operations :=
    ⟨_, if_pos flying, List.mem_append_right _ List.mem_cons_self⟩
  obtain ⟨final, ran, connected⟩ := connect_connects flies
  exact ⟨final, Machine.follow_cons_iff.mpr ⟨next, stepped, ran⟩, connected⟩

/-- `Open` starts an attempt when the session is disconnected or in error. -/
theorem open_connects {w : MessengerSystem}
    (down : w.session.state = .kDisconnected ∨ w.session.state = .kError)
    : ∃ connected, w.run opening = some connected ∧ connected.session.state = .kConnected := by
  obtain ⟨next, stepped, flies⟩
      : ∃ next, w.step (.user .open) = some next ∧ .resolve ∈ next.session.operations := by
    refine ⟨_, rfl, ?_⟩
    change .resolve ∈ w.session.connect.operations
    rw [WebsocketSession.connect, if_pos down]
    exact List.mem_append_right _ List.mem_cons_self
  obtain ⟨final, ran, connected⟩ := resolve_connects flies
  exact ⟨final, Machine.follow_cons_iff.mpr ⟨next, stepped, ran⟩, connected⟩

/-- What is left of an attempt can go through, by the stage that it is in. -/
theorem attempt_connects {w : MessengerSystem} {operation : Operation}
    (attempt : operation.isAttempt = true) (flying : operation ∈ w.session.operations)
    : ∃ more connected,
        more <:+ opening
        ∧ w.run more = some connected
        ∧ connected.session.state = .kConnected := by
  cases operation with
  | close | write | read => contradiction
  | handshake =>
      obtain ⟨final, connected⟩ := handshake_connects flying
      exact ⟨_, final, ⟨opening.take 3, rfl⟩, connected⟩
  | connect =>
      obtain ⟨final, connected⟩ := connect_connects flying
      exact ⟨_, final, ⟨opening.take 2, rfl⟩, connected⟩
  | resolve =>
      obtain ⟨final, connected⟩ := resolve_connects flying
      exact ⟨_, final, List.tail_suffix opening, connected⟩

/-- In every state that a messenger can reach, what is left of opening it leads to a
connection that its owner knows of: a lost attempt never leaves it waiting.
-/
theorem can_connect {listening : Bool} {events : List MessengerEvent} {w : MessengerSystem}
    (ran : (create listening).run events = some w)
    : ∃ more connected,
        more <:+ opening
        ∧ w.run more = some connected
        ∧ connected.session.state = .kConnected
        ∧ connected.owner.state = .kMessengerOpened := by
  have agreeing
      : ∀ {w last : MessengerSystem} {events : List MessengerEvent},
          Agree w.session.state w.owner.state → w.run events = some last
          → Agree last.session.state last.owner.state :=
    fun start went =>
      Machine.follow_invariant (fun w : MessengerSystem => Agree w.session.state w.owner.state)
        (fun held moved => step_agree moved held) start went
  have agree : Agree w.session.state w.owner.state := agreeing agree_closed ran
  have tries : w.session.dial.Tries :=
    Machine.follow_invariant (fun w : MessengerSystem => w.session.dial.Tries)
      (fun held moved => step_tries moved held) (by simp [Dial.Tries, create, Hosted.create,
        WebsocketSession.dial, WebsocketSession.create]) ran
  obtain ⟨more, connected, suffix, goes, up⟩
      : ∃ more connected,
          more <:+ opening
          ∧ w.run more = some connected
          ∧ connected.session.state = .kConnected := by
    cases state : w.session.state with
    | kUnknown => exact absurd state agree.known.1
    | kConnected => exact ⟨[], w, List.nil_suffix, rfl, state⟩
    | kDisconnected =>
        obtain ⟨final, connected⟩ := open_connects (Or.inl state)
        exact ⟨opening, final, List.suffix_rfl, connected⟩
    | kError =>
        obtain ⟨final, connected⟩ := open_connects (Or.inr state)
        exact ⟨opening, final, List.suffix_rfl, connected⟩
    | kConnecting =>
        obtain ⟨operation, flying, attempt⟩ := List.countP_pos_iff.mp (tries state)
        exact attempt_connects attempt flying
  exact ⟨more, connected, suffix, goes, up, (agreeing agree goes).connected up⟩

/-- The attempt of the first `Open` fails behind the second one. -/
theorem can_connect_overtaken
    : ∃ w more connected,
        (create true).run
            [.user .open, .resolved (some reset) [.open], .resolved (some reset) []]
          = some w
        ∧ w.run more = some connected
        ∧ connected.session.state = .kConnected := by
  obtain ⟨w, ran⟩
      : ∃ w,
          (create true).run
              [.user .open, .resolved (some reset) [.open], .resolved (some reset) []]
            = some w :=
    ⟨_, rfl⟩
  obtain ⟨more, connected, _, goes, up, _⟩ := can_connect ran
  exact ⟨w, more, connected, ran, goes, up⟩

end MessengerSystem

-----------------------------------------------------------------------------------------
-- The session can come to rest
-----------------------------------------------------------------------------------------

/-- The operations in flight, and twice the posted sends, since each may start a write. -/
def WebsocketSession.load (s : WebsocketSession) : Nat :=
  s.operations.length + 2 * s.posted.length

/-- A posted send runs, or an operation in flight fails. -/
def MessengerEvent.Drains (event : MessengerEvent) : Prop :=
  event = .sendPosted ∨ ∃ operation : Operation, event = operation.failure

/-- A close completes without an error. -/
def MessengerEvent.closes : MessengerEvent → Bool
  | .closed none _ => true
  | _ => false

/-- A read that ends with its connection. -/
def canceled : ErrorCode := ⟨.operationCanceled, "Operation canceled"⟩

/-- The user closes, the close completes, and the read ends. -/
def closing : List MessengerEvent :=
  [.user .close, .closed none [], .read [] (some canceled) []]

/-- What is drained fails, a close as well. -/
theorem MessengerEvent.Drains.not_closes {event : MessengerEvent} (drains : event.Drains)
    : event.closes = false := by
  rcases drains with rfl | ⟨operation, rfl⟩
  · rfl
  · cases operation <;> rfl

/-- A send starts at most one write. -/
theorem WebsocketSession.load_sendDataInner_le (s : WebsocketSession) (data : Message)
    : (s.sendDataInner data).load ≤ s.load + 1 := by
  simp only [sendDataInner]
  split
  · exact Nat.le_succ _
  · simp only [writeFront]
    split
    · exact Nat.le_succ _
    · simp only [load, start, record, List.length_append, List.length_singleton]
      omega

namespace WebsocketMessenger

/-- Without a call of the listener no callback calls into the session. -/
theorem callbacks_nil (notice : Notice) (m : WebsocketMessenger)
    : (callbacks [] notice m).1 = [] := by
  have quiet : ∀ notification (m : WebsocketMessenger), (notify notification [] m).1 = [] := by
    intro notification m
    simp only [notify]
    split <;> rfl
  cases notice with
  | connected | closed | received => exact quiet ..
  | error error reason =>
      simp only [callbacks, onErrorCallback]
      cases error.code? with
      | none => rfl
      | some code => exact quiet ..

end WebsocketMessenger

namespace MessengerSystem

/-- Such a callback only shows that it was called. -/
theorem callback_session (w : MessengerSystem) (notice : Notice)
    : (w.callback (WebsocketMessenger.callbacks []) notice).session
      = w.session.record (.called w.session.connection notice) := by
  simp only [Hosted.callback, Hosted.act, WebsocketMessenger.callbacks_nil]
  rfl

/-- Such a callback leaves the operations and the posted sends alone. -/
theorem callback_rests (w : MessengerSystem) (notice : Notice)
    : (w.callback (WebsocketMessenger.callbacks []) notice).session.operations
        = w.session.operations
      ∧ (w.callback (WebsocketMessenger.callbacks []) notice).session.posted
        = w.session.posted := by
  rw [callback_session]
  exact ⟨rfl, rfl⟩

/-- A failed operation is gone and nothing comes in its place. -/
theorem failure_rests {w next : MessengerSystem} {operation : Operation}
    (stepped : w.step operation.failure = some next)
    : operation ∈ w.session.operations
      ∧ next.session.operations = w.session.operations.erase operation
      ∧ next.session.posted = w.session.posted := by
  have taken := step_session stepped
  cases operation with
  | resolve | connect | handshake | close | write | read =>
      simp only [Operation.failure, MessengerEvent.toSession, Hosted.step,
        Hosted.complete_eq_some] at taken
      obtain ⟨flying, rfl⟩ := taken
      exact ⟨flying, callback_rests ..⟩

/-- Every such step leaves less to do. -/
theorem load_lt {w next : MessengerSystem} {event : MessengerEvent} (drains : event.Drains)
    (stepped : w.step event = some next)
    : next.session.load < w.session.load := by
  rcases drains with rfl | ⟨operation, rfl⟩
  · have taken := step_session stepped
    simp only [MessengerEvent.toSession, Hosted.step] at taken
    split at taken
    case h_1 => contradiction
    case h_2 data rest posted =>
      obtain rfl := Option.some.inj taken
      have sent :=
        WebsocketSession.load_sendDataInner_le
          ({ w.session with posted := rest }.record (.handed data)) data
      refine Nat.lt_of_le_of_lt sent ?_
      simp only [WebsocketSession.load, WebsocketSession.record, posted, List.length_cons]
      omega
  · obtain ⟨flying, operations, posted⟩ := failure_rests stepped
    have fewer := List.length_erase_of_mem flying
    have positive := List.length_pos_of_mem flying
    rw [WebsocketSession.load, WebsocketSession.load, operations, posted]
    omega

/-- As long as there is something to do, such a step can be taken. -/
theorem drain_progress {w : MessengerSystem} (busy : w.session.load ≠ 0)
    : ∃ event next, MessengerEvent.Drains event ∧ w.step event = some next := by
  cases operations : w.session.operations with
  | cons operation rest =>
      have flying : operation ∈ w.session.operations := by simp [operations]
      obtain ⟨next, stepped, _⟩ := step_failure flying
      exact ⟨_, next, Or.inr ⟨operation, rfl⟩, stepped⟩
  | nil =>
      cases posted : w.session.posted with
      | nil => simp [WebsocketSession.load, operations, posted] at busy
      | cons data rest =>
          have stepped : w.step .sendPosted = Hosted.step w .sendPosted := rfl
          simp only [Hosted.step, posted] at stepped
          exact ⟨.sendPosted, _, Or.inl rfl, stepped⟩

/-- When the connection is lost, all that is in flight ends in as many steps as its load. -/
theorem drain_ends (w : MessengerSystem)
    : ∃ more drained,
        (∀ event ∈ more, event.Drains)
        ∧ w.run more = some drained
        ∧ drained.session.operations = []
        ∧ drained.session.posted = []
        ∧ more.length ≤ w.session.load := by
  obtain ⟨more, drained, drains, ran, _, ended, short⟩
      : ∃ more drained,
          (∀ event ∈ more, event.Drains)
          ∧ w.run more = some drained
          ∧ True
          ∧ drained.session.load = 0
          ∧ more.length + drained.session.load ≤ w.session.load :=
    Machine.exists_follow_done (fun _ => True) (fun w : MessengerSystem => w.session.load = 0)
      MessengerEvent.Drains (fun w => w.session.load)
      (fun _ _ drains (stepped : step _ _ = _) => ⟨trivial, load_lt drains stepped⟩)
      (fun _ busy => drain_progress busy) trivial
  have sizes : drained.session.operations.length = 0 ∧ drained.session.posted.length = 0 := by
    simp only [WebsocketSession.load] at ended
    omega
  exact ⟨more, drained, drains, ran, List.eq_nil_of_length_eq_zero sizes.1,
    List.eq_nil_of_length_eq_zero sizes.2, by omega⟩

/-- A close completes without an error only while the session is connected. -/
def ClosesOpen (w : MessengerSystem) (event : MessengerEvent) : Prop :=
  event.closes = true → w.session.state = .kConnected

/-- The session is in this state with these operations in flight, and no send is posted. -/
structure Stands (w : MessengerSystem) (state : SessionState) (operations : List Operation)
    : Prop where
  state : w.session.state = state
  operations : w.session.operations = operations
  posted : w.session.posted = []

/-- An operation in flight whose handler leaves the session so can complete. -/
theorem Stands.complete {w : MessengerSystem} {state after : SessionState}
    {operations left : List Operation} (h : w.Stands state operations) {event : MessengerEvent}
    {operation : Operation} {handler : MessengerSystem → MessengerSystem}
    (flying : operation ∈ operations)
    (completes : w.step event = w.complete operation handler)
    (leaves
      : ∀ finished : MessengerSystem,
          finished.Stands state (operations.erase operation)
          → (handler finished).Stands after left)
    : ∃ next, w.step event = some next ∧ next.Stands after left := by
  refine ⟨handler (w.onSession (·.finish operation)), ?_, leaves _ ⟨h.state, ?_, h.posted⟩⟩
  · rw [completes, Hosted.complete, if_pos (h.operations ▸ flying)]
  · rw [← h.operations]
    rfl

/-- A callback of a listener that does nothing behind a new state. -/
theorem Stands.callback {w : MessengerSystem} {state : SessionState}
    {operations : List Operation} (h : w.Stands state operations) (notice : Notice)
    : Stands (w.callback (WebsocketMessenger.callbacks []) notice) state operations := by
  constructor <;> rw [callback_session]
  · exact h.state
  · exact h.operations
  · exact h.posted

/-- `Close` starts to close a session that is not disconnected. -/
theorem Stands.asks {w : MessengerSystem} {state : SessionState} {operations : List Operation}
    (h : w.Stands state operations) (up : state ≠ .kDisconnected)
    : ∃ asked,
        w.step (.user .close) = some asked ∧ asked.Stands state (operations ++ [.close]) := by
  refine ⟨_, rfl, ?_⟩
  have session : w.session.disconnect = w.session.start .close := if_pos (h.state.trans_ne up)
  constructor
  · exact (congrArg WebsocketSession.state session).trans h.state
  · refine (congrArg WebsocketSession.operations session).trans ?_
    simp [WebsocketSession.start, WebsocketSession.record, h.operations]
  · exact (congrArg WebsocketSession.posted session).trans h.posted

/-- A session that reads closes: first the close completes and then the read ends. -/
theorem Stands.closes {w : MessengerSystem} (h : w.Stands .kConnected [.read])
    : ∃ rested,
        w.run closing = some rested
        ∧ rested.Stands .kDisconnected []
        ∧ Machine.Throughout step ClosesOpen w closing := by
  obtain ⟨asked, closes, standing⟩ := h.asks (by simp)
  obtain ⟨closed, completes, down⟩
      : ∃ closed,
          asked.step (.closed none []) = some closed ∧ closed.Stands .kDisconnected [.read] := by
    have handles
        : asked.step (.closed none [])
          = asked.complete .close (·.onClosed (WebsocketMessenger.callbacks []) none) :=
      rfl
    refine standing.complete (List.mem_cons_of_mem _ List.mem_cons_self) handles ?_
    intro finished left
    exact Stands.callback (w := finished.onSession (·.updateState .kDisconnected))
      ⟨rfl, left.operations, left.posted⟩ .closed
  obtain ⟨rested, ends, rest⟩
      : ∃ rested,
          closed.step (.read [] (some canceled) []) = some rested
          ∧ rested.Stands .kDisconnected [] := by
    have handles
        : closed.step (.read [] (some canceled) [])
          = closed.complete .read (·.appendRead [] (some canceled)) :=
      rfl
    refine down.complete List.mem_cons_self handles ?_
    exact fun finished left => ⟨left.state, left.operations, left.posted⟩
  refine ⟨rested, ?_, rest, ?_⟩
  · exact Machine.follow_cons_iff.mpr ⟨asked, closes, Machine.follow_cons_iff.mpr
      ⟨closed, completes, Machine.follow_cons_iff.mpr ⟨rested, ends, rfl⟩⟩⟩
  · rw [closing, Machine.throughout_cons_iff closes, Machine.throughout_cons_iff completes,
      Machine.throughout_cons_iff ends]
    exact ⟨by simp [ClosesOpen, MessengerEvent.closes], fun _ => standing.state,
      by simp [ClosesOpen, MessengerEvent.closes], trivial⟩

/-- Where nothing reads the close fails. -/
theorem Stands.fails {w : MessengerSystem} (h : w.Stands .kConnected [])
    : ∃ failed,
        w.run [.user .close, Operation.close.failure] = some failed
        ∧ failed.Stands .kError [] := by
  obtain ⟨asked, closes, standing⟩ := h.asks (by simp)
  obtain ⟨failed, completes, down⟩
      : ∃ failed,
          asked.step Operation.close.failure = some failed ∧ failed.Stands .kError [] := by
    have handles
        : asked.step Operation.close.failure
          = asked.complete .close (·.fail (WebsocketMessenger.callbacks []) .kCloseError reset) :=
      rfl
    refine standing.complete List.mem_cons_self handles ?_
    intro finished left
    exact Stands.callback (w := finished.onSession (·.updateState .kError))
      ⟨rfl, left.operations, left.posted⟩ (.error .kCloseError reset.message)
  refine ⟨failed, ?_, down⟩
  exact Machine.follow_cons_iff.mpr ⟨asked, closes, Machine.follow_cons_iff.mpr
    ⟨failed, completes, rfl⟩⟩

/-- With nothing in flight a session in error can be opened, and then it reads. -/
theorem Stands.opens {w : MessengerSystem} (h : w.Stands .kError [])
    : ∃ opened, w.run opening = some opened ∧ opened.Stands .kConnected [.read] := by
  obtain ⟨asked, asks, standing⟩
      : ∃ asked, w.step (.user .open) = some asked ∧ asked.Stands .kConnecting [.resolve] := by
    refine ⟨_, rfl, ?_⟩
    have session
        : w.session.connect = (w.session.updateState .kConnecting).start .resolve :=
      if_pos (Or.inr h.state)
    constructor
    · exact congrArg WebsocketSession.state session
    · refine (congrArg WebsocketSession.operations session).trans ?_
      simp [WebsocketSession.start, WebsocketSession.updateState, WebsocketSession.record,
        h.operations]
    · exact (congrArg WebsocketSession.posted session).trans h.posted
  obtain ⟨resolved, resolves, connecting⟩
      : ∃ resolved, asked.step (.resolved none []) = some resolved
          ∧ resolved.Stands .kConnecting [.connect] := by
    have handles
        : asked.step (.resolved none [])
          = asked.complete .resolve (·.onSession (·.start .connect)) :=
      rfl
    refine standing.complete List.mem_cons_self handles ?_
    exact fun finished left =>
      ⟨left.state, congrArg (· ++ [Operation.connect]) left.operations, left.posted⟩
  obtain ⟨connected, connects, shaking⟩
      : ∃ connected, resolved.step (.connected none []) = some connected
          ∧ connected.Stands .kConnecting [.handshake] := by
    have handles
        : resolved.step (.connected none [])
          = resolved.complete .connect (·.onSession (·.start .handshake)) :=
      rfl
    refine connecting.complete List.mem_cons_self handles ?_
    exact fun finished left =>
      ⟨left.state, congrArg (· ++ [Operation.handshake]) left.operations, left.posted⟩
  obtain ⟨opened, shakes, up⟩
      : ∃ opened, connected.step (.handshaken none []) = some opened
          ∧ opened.Stands .kConnected [.read] := by
    have handles
        : connected.step (.handshaken none [])
          = connected.complete .handshake (fun w =>
              (w.countConnection none).onHandshake (WebsocketMessenger.callbacks []) none) :=
      rfl
    refine shaking.complete List.mem_cons_self handles ?_
    intro finished left
    have told : Stands _ .kConnected [] :=
      Stands.callback (w := (finished.countConnection none).onSession
        (·.updateState .kConnected)) ⟨rfl, left.operations, left.posted⟩ .connected
    exact ⟨told.state, congrArg (· ++ [Operation.read]) told.operations, told.posted⟩
  exact ⟨opened, Machine.follow_cons_iff.mpr ⟨asked, asks, Machine.follow_cons_iff.mpr
    ⟨resolved, resolves, Machine.follow_cons_iff.mpr ⟨connected, connects,
      Machine.follow_cons_iff.mpr ⟨opened, shakes, rfl⟩⟩⟩⟩, up⟩

/-- From an error without anything in flight the user opens and closes. -/
theorem Stands.reopens {w : MessengerSystem} (h : w.Stands .kError [])
    : ∃ rested,
        w.run (opening ++ closing) = some rested
        ∧ rested.Stands .kDisconnected []
        ∧ Machine.Throughout step ClosesOpen w (opening ++ closing) := by
  obtain ⟨opened, opens, up⟩ := h.opens
  obtain ⟨rested, closes, rest, fine⟩ := up.closes
  refine ⟨rested, Machine.follow_append_iff.mpr ⟨opened, opens, closes⟩, rest, ?_⟩
  refine (Machine.throughout_append_iff opens closing).mpr ⟨?_, fine⟩
  refine Machine.throughout_of_forall (fun event member w completes => ?_)
  have others : ∀ event ∈ opening, event.closes = false := by decide
  rw [others event member] at completes
  contradiction

/-- With nothing in flight the session can be brought to rest, by the state that it is in: what
is connected without a read fails, and what has failed is opened and closed.
-/
theorem exists_rest {w : MessengerSystem} (agree : Agree w.session.state w.owner.state)
    (tries : w.session.dial.Tries) (operations : w.session.operations = [])
    (posted : w.session.posted = [])
    : ∃ more rested,
        w.run more = some rested
        ∧ rested.session.Idle
        ∧ more.length ≤ 9
        ∧ Machine.Throughout step ClosesOpen w more := by
  cases state : w.session.state with
  | kUnknown => exact absurd state agree.known.1
  | kConnecting =>
      obtain ⟨operation, flying, _⟩ := List.countP_pos_iff.mp (tries state)
      rw [operations] at flying
      contradiction
  | kDisconnected => exact ⟨[], w, rfl, ⟨state, operations, Or.inl posted⟩, by simp, trivial⟩
  | kError =>
      obtain ⟨rested, goes, rest, fine⟩ := Stands.reopens ⟨state, operations, posted⟩
      exact ⟨_, rested, goes, ⟨rest.state, rest.operations, Or.inl rest.posted⟩, by decide, fine⟩
  | kConnected =>
      obtain ⟨failed, fails, down⟩ := Stands.fails ⟨state, operations, posted⟩
      obtain ⟨rested, goes, rest, fine⟩ := down.reopens
      refine ⟨_, rested, Machine.follow_append_iff.mpr ⟨failed, fails, goes⟩,
        ⟨rest.state, rest.operations, Or.inl rest.posted⟩, by decide, ?_⟩
      refine (Machine.throughout_append_iff fails _).mpr ⟨?_, fine⟩
      refine Machine.throughout_of_forall (fun event member w completes => ?_)
      have others
          : ∀ event ∈ [.user .close, Operation.close.failure],
              MessengerEvent.closes event = false := by
        decide
      rw [others event member] at completes
      contradiction

end MessengerSystem

/-- The event outside of the loop, or in a thread of it. -/
def ApplicationEvent.within (number : Nat) (event : MessengerEvent) : ApplicationEvent :=
  if event.isOutside then .outside event else .handler number event

/-- A close of the connection completes without an error. -/
def ApplicationEvent.closes : ApplicationEvent → Bool
  | .handler _ event => event.closes
  | .outside _ | .loop _ | .release _ | .exit | .destroy => false

namespace Application

/-- A close of the connection completes without an error only while the session is connected,
that is on a stream that is open.
-/
def ClosesOpen (a : Application) (event : ApplicationEvent) : Prop :=
  event.closes = true → a.system.session.state = .kConnected

instance (a : Application) (event : ApplicationEvent) : Decidable (a.ClosesOpen event) :=
  inferInstanceAs (Decidable (_ → _))

/-- While the messenger lives, what it can do alone it can do in a thread that handles. -/
theorem Serves.step_within {a : Application} {number : Nat} (h : a.Serves)
    (alive : a.stage = .alive) (handling : a.loop.phase? (.thread number) = some .handling)
    {event : MessengerEvent} {next : MessengerSystem} (stepped : a.system.step event = some next)
    : a.step (ApplicationEvent.within number event) = some { a with system := next } := by
  have going : a.terminated = false := by simp [terminated, h.threw, h.loop.going]
  have free : a.occupied = none := by simp [occupied, alive, h.loop.exiting]
  cases kind : event.isOutside with
  | true =>
      have allowed : a.AllowsOutside event := ⟨kind, Or.inl alive⟩
      simp [ApplicationEvent.within, kind, step, going, allowed, stepped]
  | false =>
      have allowed : a.AllowsHandler number event := ⟨kind, handling, by simp [free]⟩
      simp [ApplicationEvent.within, kind, step, going, allowed, stepped, alive, h.threw]

/-- So it goes for whole runs, and closes complete on open streams in both, by induction over
the events.
-/
theorem Serves.run_system {a : Application} {number : Nat} (h : a.Serves)
    (alive : a.stage = .alive) (handling : a.loop.phase? (.thread number) = some .handling)
    {events : List MessengerEvent} {system : MessengerSystem}
    (ran : a.system.run events = some system)
    (fine : Machine.Throughout MessengerSystem.step MessengerSystem.ClosesOpen a.system events)
    : a.run (events.map (ApplicationEvent.within number)) = some { a with system }
      ∧ Machine.Throughout step ClosesOpen a
          (events.map (ApplicationEvent.within number)) := by
  induction events generalizing a with
  | nil =>
      obtain rfl := Option.some.inj ran
      exact ⟨rfl, trivial⟩
  | cons event rest ih =>
      obtain ⟨next, stepped, later⟩ := Machine.follow_cons_iff.mp ran
      rw [Machine.throughout_cons_iff stepped] at fine
      have first := h.step_within alive handling stepped
      obtain ⟨went, kept⟩ :=
        ih (a := { a with system := next }) ⟨h.loop, h.threw⟩ alive handling later fine.2
      refine ⟨Machine.follow_cons_iff.mpr ⟨_, first, went⟩, ?_⟩
      rw [List.map_cons, Machine.throughout_cons_iff first]
      refine ⟨fun completes => fine.1 ?_, kept⟩
      simp only [ApplicationEvent.within] at completes
      split at completes
      · contradiction
      · exact completes

/-- A step of the application is none of the session's or one of its steps. -/
theorem step_tries {a next : Application} {event : ApplicationEvent}
    (h : a.system.session.dial.Tries) (stepped : a.step event = some next)
    : next.system.session.dial.Tries := by
  have taken := (step_cases stepped).2
  cases event with
  | outside event | handler number event =>
      obtain ⟨_, system, moved, rfl⟩ := taken
      exact MessengerSystem.step_tries moved h
  | loop event =>
      obtain ⟨_, loop, _, rfl⟩ := taken
      exact h
  | release inside =>
      obtain ⟨_, system, moved, rfl⟩ := taken
      exact MessengerSystem.step_tries moved h
  | exit =>
      obtain ⟨_, loop, _, _, rfl⟩ := taken
      exact h
  | destroy =>
      obtain ⟨_, rfl⟩ := taken
      exact h

/-- While its owner keeps it, a messenger can be brought to rest: one thread handles, everything
in flight fails there, and what the session then needs to be idle.
-/
theorem Serves.settles {a : Application} (h : a.Serves) (alive : a.stage = .alive)
    (ordered : a.Ordered) (tries : a.system.session.dial.Tries)
    : ∃ more rested,
        a.run more = some rested
        ∧ (rested.Serves ∧ rested.stage = .alive ∧ rested.system.session.Idle)
        ∧ more.length ≤ a.system.session.load + 10
        ∧ Machine.Throughout step ClosesOpen a more := by
  have free : a.occupied = none := by simp [occupied, alive, h.loop.exiting]
  obtain ⟨before, loop, few, internal, starts, serving, number, handling⟩ :=
    exists_handling h.loop h.threw free
  obtain ⟨failing, drained, drains, fails, operations, posted, short⟩ :=
    MessengerSystem.drain_ends a.system
  obtain ⟨agree, trying⟩
      : Agree drained.session.state drained.owner.state ∧ drained.session.dial.Tries :=
    Machine.follow_invariant
      (fun w : MessengerSystem =>
        Agree w.session.state w.owner.state ∧ w.session.dial.Tries)
      (fun held moved =>
        ⟨MessengerSystem.step_agree moved held.1, MessengerSystem.step_tries moved held.2⟩)
      ⟨ordered.agree, tries⟩ fails
  obtain ⟨resting, system, rests, idle, nine, fine⟩ :=
    MessengerSystem.exists_rest agree trying operations posted
  have settles : a.system.run (failing ++ resting) = some system :=
    Machine.follow_append_iff.mpr ⟨drained, fails, rests⟩
  have settlesFine
      : Machine.Throughout MessengerSystem.step MessengerSystem.ClosesOpen a.system
          (failing ++ resting) := by
    refine (Machine.throughout_append_iff fails resting).mpr ⟨?_, fine⟩
    refine Machine.throughout_of_forall (fun event member w completes => ?_)
    rw [(drains event member).not_closes] at completes
    contradiction
  obtain ⟨went, wentFine⟩ :=
    Serves.run_system (a := { a with loop := loop }) ⟨serving, h.threw⟩ alive handling
      settles settlesFine
  refine ⟨_, _, Machine.follow_append_iff.mpr ⟨_, starts, went⟩,
    ⟨⟨serving, h.threw⟩, alive, idle⟩, ?_, ?_⟩
  · simp only [List.length_append, List.length_map]
    omega
  · refine (Machine.throughout_append_iff starts _).mpr ⟨?_, wentFine⟩
    refine Machine.throughout_of_forall (fun event member w completes => ?_)
    obtain ⟨_, rfl⟩ := internal event member
    contradiction

/-- The destructor of a messenger at rest is safe whatever follows, and can come to its end. -/
theorem Serves.releases {a : Application} (h : a.Serves) (alive : a.stage = .alive)
    (ordered : a.Ordered) (idle : a.system.session.Idle)
    : ∃ released,
        a.step (.release none) = some released
        ∧ (∀ later final, released.run later = some final → final.terminated = false)
        ∧ ∃ later final, released.run later = some final ∧ final.stage = .destroyed := by
  obtain ⟨closed, moved⟩ : ∃ closed, a.system.step (.user .close) = some closed := ⟨_, rfl⟩
  obtain ⟨idle_iff, same⟩ := close_idle moved
  have going : a.terminated = false := by simp [terminated, h.threw, h.loop.going]
  have quiet : Resting { a with system := closed, stage := .closed none } :=
    h.resting (idle_iff.mpr idle) (same.trans (ordered.agree.disconnected idle.state))
  have closing : Closing { a with system := closed, stage := .closed none } :=
    ⟨rfl, h.threw, h.loop⟩
  obtain ⟨later, final, ends, destroyed, _⟩ := closing.reaches_destroyed
  refine ⟨_, ?_, fun _ _ went => quiet.safe went, later, final, ends, destroyed⟩
  simp only [step, going]
  simp [alive, moved]

/-- While its owner keeps it, a messenger can always be brought to where its destructor is safe
whatever follows, in ten steps more than its session has left to do and with no close that
succeeds on a stream that is not open, and then the destructor can come to its end.
-/
theorem can_be_destroyed {listening : Bool} {threadCount : Int} (threads : 1 ≤ threadCount)
    {events : List ApplicationEvent} {a : Application}
    (ran : (create listening threadCount).run events = some a) (alive : a.stage = .alive)
    : ∃ more ready released,
        more.length ≤ a.system.session.load + 10
        ∧ a.run more = some ready
        ∧ Machine.Throughout step ClosesOpen a more
        ∧ ready.step (.release none) = some released
        ∧ (∀ later final, released.run later = some final → final.terminated = false)
        ∧ ∃ later final, released.run later = some final ∧ final.stage = .destroyed := by
  have serves : a.Serves :=
    Machine.follow_invariant (fun a => a.stage = .alive → a.Serves)
      (fun kept stepped => serves_step kept stepped)
      (fun _ => ⟨EventLoop.serving_create threads, rfl⟩) ran alive
  have ordered : a.Ordered :=
    Machine.follow_invariant Ordered (fun kept stepped => kept.step stepped)
      (ordered_create listening threadCount) ran
  have tries : a.system.session.dial.Tries :=
    Machine.follow_invariant (fun a : Application => a.system.session.dial.Tries)
      (fun kept stepped => step_tries kept stepped) (fun connecting => by contradiction) ran
  obtain ⟨more, ready, goes, ⟨serving, keeps, idle⟩, short, fine⟩ :=
    serves.settles alive ordered tries
  have still : ready.Ordered :=
    Machine.follow_invariant Ordered (fun kept stepped => kept.step stepped) ordered goes
  obtain ⟨released, releases, safe, ends⟩ := serving.releases keeps still idle
  exact ⟨more, ready, released, short, goes, fine, releases, safe, ends⟩

/-- A messenger that has sent something and whose attempt was lost. -/
theorem can_be_destroyed_busy
    : ∃ a more ready released,
        (create true 2).run
            [.outside (.user .open), .outside (.user (.sendMessage [1])),
              .loop (.start (.thread 0)), .handler 0 (.resolved (some reset) [.open])]
          = some a
        ∧ a.run more = some ready
        ∧ Machine.Throughout step ClosesOpen a more
        ∧ ready.step (.release none) = some released
        ∧ ∀ later final, released.run later = some final → final.terminated = false := by
  obtain ⟨a, ran, alive⟩
      : ∃ a,
          (create true 2).run
              [.outside (.user .open), .outside (.user (.sendMessage [1])),
                .loop (.start (.thread 0)), .handler 0 (.resolved (some reset) [.open])]
            = some a
          ∧ a.stage = .alive :=
    ⟨_, rfl, rfl⟩
  obtain ⟨more, ready, released, _, goes, fine, releases, safe, _⟩ :=
    can_be_destroyed (by decide) ran alive
  exact ⟨a, more, ready, released, ran, goes, fine, releases, safe⟩

end Application

end Nbsdk.Messenger
