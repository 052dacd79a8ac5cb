import TradingEngine.Machinery.Run
import TradingEngine.WebSocket.Ownership

/-!
# WebSocket/OwnershipSafety — when no pointer is used after it was moved out or reset

The connection passes through phases: it is with the websocket, `connect` is about to take it, it is
with the request, it is with the session, and it is destroyed.  Each phase is a predicate, an event
keeps the phase or leads to the next, and in none of them is a pointer used that holds nothing.
`on_tcp_disconnect` reads `m_tcp_connection` first, so a connection that is lost in the later phases
stops the program.
-/

namespace TradingEngine

open WebSocket (Frame Opcode clientOnFrame)
open Ownership

namespace OwnedWebsocket

/-! ## What is asked for -/

/-- No pointer was used that holds nothing, no member of a destroyed object was used, and sessions
were made behind a 101 only. -/
def Safe : Except Stop OwnedWebsocket → Prop
  | .error stop => stop = .exception
  | .ok ws => ∀ status ∈ ws.sessions, status = 101

instance : DecidablePred Safe
  | .error stop => inferInstanceAs (Decidable (stop = .exception))
  | .ok ws => inferInstanceAs (Decidable (∀ status ∈ ws.sessions, status = 101))

/-- A `re_connect` is there. -/
def Reconnects (ws : OwnedWebsocket) : Prop :=
  .run .reConnect ∈ ws.taskEventQueue ∨ .setSuspendValue .reConnect ∈ ws.taskEventQueue ∨
    ws.outside .reConnect = true

instance (ws : OwnedWebsocket) : Decidable ws.Reconnects := inferInstanceAs (Decidable (_ ∨ _ ∨ _))

/-- The connection is with the websocket, and no `connect` is about to take it. -/
def HoldsConnection (ws : OwnedWebsocket) : Prop :=
  ws.tcpConnection = .websocket ∧ .run .connect ∉ ws.taskEventQueue

instance (ws : OwnedWebsocket) : Decidable ws.HoldsConnection :=
  inferInstanceAs (Decidable (_ ∧ _))

/-- What the request has read is answered to the upgrade with a 101, if it is an answer. -/
def AnswersSwitching (ws : OwnedWebsocket) : Prop :=
  ws.taskEventQueue.head? = some (.setSuspendValue .requestWaitForTcpData) →
    ws.forceDestroy .requestWaitForTcpData = false → ws.responseFutures ≠ [] →
      ∀ responses ∈
        (ws.responseParser.appendData (ws.data .requestWaitForTcpData)).parseAll.1,
        ∀ response ∈ responses.head?, response.statusCode = 101

instance (ws : OwnedWebsocket) : Decidable ws.AnswersSwitching :=
  inferInstanceAs (Decidable (_ → _ → _ → ∀ responses ∈ _, ∀ response ∈ _, _))

/-- **The condition on a step**: the first socket is registered; the connection is lost before
`connect` is started only; the upgrade is answered with a 101; and the websocket is destroyed before
`connect` is started, with the `re_connect` in `m_reconnect_task`, or when the session's reader
runs. -/
def Kept : Except Stop OwnedWebsocket → OwnershipEvent → Prop
  | .error _, _ => True
  | .ok ws, .construct outcome => ws.lifetime = .notConstructed → outcome = .started
  | .ok ws, .disconnect => ws.ioObject ≠ .none → ws.HoldsConnection
  | .ok ws, .runTask _ => ws.AnswersSwitching
  | .ok ws, .destroy =>
    ws.lifetime = .alive →
      (ws.HoldsConnection ∧ (ws.Reconnects → ws.reconnectTask = true)) ∨
        (ws.tcpConnection = .session ∧ .run .sessionWaitForTcpData ∉ ws.taskEventQueue)
  | .ok _, _ => True

instance : ∀ program event, Decidable (Kept program event)
  | .error _, _ => .isTrue trivial
  | .ok _, .construct _ => inferInstanceAs (Decidable (_ → _))
  | .ok _, .disconnect => inferInstanceAs (Decidable (_ → _))
  | .ok ws, .runTask _ => inferInstanceAs (Decidable ws.AnswersSwitching)
  | .ok _, .destroy => inferInstanceAs (Decidable (_ → (_ ∧ (_ → _)) ∨ (_ ∧ _)))
  | .ok _, .tcpConnect => .isTrue trivial
  | .ok _, .socketRead _ => .isTrue trivial
  | .ok _, .outsideReturns _ => .isTrue trivial

variable {ws ws' : OwnedWebsocket} {task : TaskInfoEvent} {queue : List TaskInfoEvent}
  {coroutine : Coroutine}

/-! ## Data moves between the connection and its readers -/

/-- Data was moved: futures of coroutines in `P` were set, and one in `P` is registered. -/
def Moves (P : Coroutine → Prop) (ws ws' : OwnedWebsocket) : Prop :=
  ∃ posted waiting pending data,
    ws' =
      { ws with
        taskEventQueue := ws.taskEventQueue ++ posted
        waitingDataValue := waiting
        pendingDataQueue := pending
        data := data } ∧
    (∀ task ∈ posted, ∃ coroutine, task = .setSuspendValue coroutine ∧ P coroutine) ∧
    ∀ coroutine, waiting = some coroutine → P coroutine

variable {P : Coroutine → Prop}

theorem moves_dropWaitingValue
    (h : ∀ coroutine, ws.waitingDataValue = some coroutine → P coroutine) :
    Moves P ws ws.dropWaitingValue ∧ ws.dropWaitingValue.waitingDataValue = none := by
  rw [dropWaitingValue]
  split
  case h_1 registered hregistered =>
    refine ⟨⟨[.setSuspendValue registered], none, _, _, rfl, ?_, nofun⟩, rfl⟩
    intro task htask
    exact ⟨registered, List.mem_singleton.mp htask, h registered hregistered⟩
  case h_2 hnone =>
    refine ⟨⟨[], ws.waitingDataValue, ws.pendingDataQueue, ws.data, ?_, nofun, h⟩, hnone⟩
    rw [List.append_nil]

theorem moves_waitForData (h : ∀ coroutine, ws.waitingDataValue = some coroutine → P coroutine)
    (hP : P coroutine) : Moves P ws (ws.waitForData coroutine) := by
  rw [waitForData]
  split
  · refine ⟨[.setSuspendValue coroutine], ws.waitingDataValue, _, _, rfl, ?_, h⟩
    intro task htask
    exact ⟨coroutine, List.mem_singleton.mp htask, hP⟩
  · obtain ⟨⟨posted, waiting, pending, data, hws, hposted, -⟩, -⟩ := moves_dropWaitingValue h
    refine ⟨posted, some coroutine, pending, data, by rw [hws], hposted, ?_⟩
    rintro registered ⟨⟩
    exact hP

theorem moves_onResponseReceived
    (h : ∀ coroutine, ws.waitingDataValue = some coroutine → P coroutine) (data : List UInt8) :
    Moves P ws (ws.onResponseReceived data) := by
  rw [onResponseReceived]
  split
  case h_1 registered hregistered =>
    refine ⟨[.setSuspendValue registered], none, _, _, rfl, ?_, nofun⟩
    intro task htask
    exact ⟨registered, List.mem_singleton.mp htask, h registered hregistered⟩
  case h_2 =>
    refine ⟨[], ws.waitingDataValue, ws.pendingDataQueue ++ [data], ws.data, ?_, nofun, h⟩
    rw [List.append_nil]

/-! ## Phases: the connection is with the websocket -/

/-- Nothing has been taken from the websocket. -/
structure Whole (ws : OwnedWebsocket) : Prop where
  lifetime : ws.lifetime = .alive
  tcpConnection : ws.tcpConnection = .websocket
  onMessage : ws.onMessage = .websocket
  restRequest : ws.restRequest = false
  websocketSession : ws.websocketSession = false
  waiting : ws.waitingDataValue = none
  responseFutures : ws.responseFutures = []
  sessions : ws.sessions = []

/-- The websocket waits for its connection: a `re_connect` is there when there is no socket, and
nothing else. -/
structure Idle (ws : OwnedWebsocket) : Prop extends Whole ws where
  socket : ws.ioObject ≠ .connected
  tasks : ∀ task ∈ ws.taskEventQueue, task = .run .reConnect ∨ task = .setSuspendValue .reConnect
  outside : ∀ coroutine, ws.outside coroutine = true → coroutine = .reConnect
  count : ws.taskEventQueue.length + (ws.outside .reConnect).toNat ≤
    if ws.ioObject = .none then 1 else 0

/-- `connect` is about to take the connection. -/
structure Connecting (ws : OwnedWebsocket) : Prop extends Whole ws where
  socket : ws.ioObject = .connected
  tasks : ws.taskEventQueue = [.run .connect]
  outside : ∀ coroutine, ws.outside coroutine = false
  connectPoint : ws.connectPoint = .awaitingUpgrade

/-! ## Phases: the connection is with the request -/

/-- The tasks of the upgrade, each of which leads to the next. -/
def isChain : TaskInfoEvent → Bool
  | .run coroutine =>
    coroutine = .sendSwitchProtocolRequest ∨ coroutine = .get ∨ coroutine = .sendRequest
  | .setSuspendValue coroutine =>
    coroutine = .sendRequest ∨ coroutine = .get ∨ coroutine = .sendSwitchProtocolRequest ∨
      coroutine = .connect

/-- The tasks behind the answer. -/
def isAnswered : TaskInfoEvent → Bool
  | .run _ => false
  | .setSuspendValue coroutine => isChain (.setSuspendValue coroutine)

/-- The upgrade is under way: one task of it is there, or its response is waited for. -/
structure Requesting (ws : OwnedWebsocket) : Prop where
  lifetime : ws.lifetime = .alive
  tcpConnection : ws.tcpConnection = .request
  onMessage : ws.onMessage = .websocket
  restRequest : ws.restRequest = true
  websocketSession : ws.websocketSession = false
  socket : ws.ioObject = .connected
  waiting : ∀ coroutine, ws.waitingDataValue = some coroutine → coroutine = .requestWaitForTcpData
  sessions : ws.sessions = []
  connectPoint : ws.connectPoint = .awaitingUpgrade
  outside : ∀ coroutine, ws.outside coroutine = false
  tasks : ∀ task ∈ ws.taskEventQueue,
    isChain task = true ∨ task = .run .requestWaitForTcpData ∨
      task = .setSuspendValue .requestWaitForTcpData
  reader : .run .requestWaitForTcpData ∉ ws.taskEventQueue.tail
  futures : ∀ coroutine ∈ ws.responseFutures, coroutine = .sendRequest
  chain : ws.taskEventQueue.countP isChain + ws.responseFutures.length ≤ 1
  answered : ∀ task ∈ ws.taskEventQueue, isAnswered task = true → ws.response.statusCode = 101

/-! ## Phases: the connection is with the session, or destroyed -/

/-- The session has the connection. -/
structure Open (ws : OwnedWebsocket) : Prop where
  lifetime : ws.lifetime = .alive
  tcpConnection : ws.tcpConnection = .session
  onMessage : ws.onMessage = .session
  restRequest : ws.restRequest = false
  websocketSession : ws.websocketSession = true
  socket : ws.ioObject = .connected
  waiting : ∀ coroutine, ws.waitingDataValue = some coroutine →
    coroutine = .requestWaitForTcpData ∨ coroutine = .sessionWaitForTcpData
  sessions : ws.sessions = [101]
  connectPoint : ws.connectPoint ≠ .awaitingUpgrade
  requestReader : ws.forceDestroy .requestWaitForTcpData = true
  outside : ∀ coroutine, ws.outside coroutine = true →
    coroutine = .connect ∨ coroutine = .sessionWaitForTcpData ∨ coroutine = .sendPing
  tasks : ∀ task ∈ ws.taskEventQueue,
    task = .run .sessionWaitForTcpData ∨ task = .run .sendPing ∨
      ∃ coroutine, task = .setSuspendValue coroutine ∧
        (coroutine = .requestWaitForTcpData ∨ coroutine = .sessionWaitForTcpData ∨
          coroutine = .connect ∨ coroutine = .sendPing)

/-- The websocket is destroyed: what is left of its coroutines does not go on. -/
structure Closed (ws : OwnedWebsocket) : Prop where
  lifetime : ws.lifetime = .destroyed
  socket : ws.ioObject = .none
  sessions : ∀ status ∈ ws.sessions, status = 101
  outside : ∀ coroutine, ws.outside coroutine = true → ws.forceDestroy coroutine = true
  resumed : ∀ coroutine, .setSuspendValue coroutine ∈ ws.taskEventQueue →
    ws.forceDestroy coroutine = true
  started : ∀ coroutine, .run coroutine ∈ ws.taskEventQueue →
    ws.forceDestroy coroutine = true ∧ (coroutine = .reConnect ∨ coroutine = .sendPing)

/-- The phases of a program that runs. -/
inductive Phase (ws : OwnedWebsocket) : Prop
  | fresh (h : ws = fresh)
  | idle (h : Idle ws)
  | connecting (h : Connecting ws)
  | requesting (h : Requesting ws)
  | opened (h : Open ws)
  | closed (h : Closed ws)

/-- **The invariant**: a program that runs is in a phase, and one that has stopped threw. -/
def Phased : Except Stop OwnedWebsocket → Prop
  | .error stop => stop = .exception
  | .ok ws => ws.Phase

/-! ## What the phases keep -/

theorem Connecting.moves (h : Connecting ws) (hmoves : Moves (fun _ => False) ws ws') :
    Connecting ws' := by
  obtain ⟨posted, waiting, pending, data, rfl, hposted, hwaiting⟩ := hmoves
  have hnil : posted = [] := List.eq_nil_iff_forall_not_mem.mpr fun task htask => by
    obtain ⟨_, -, hfalse⟩ := hposted task htask
    exact hfalse
  have hnone : waiting = none := Option.eq_none_iff_forall_ne_some.mpr hwaiting
  exact
    { h with
      waiting := hnone
      tasks := by rw [hnil, List.append_nil]; exact h.tasks }

theorem mem_tail_append {α : Type*} {a : α} {l l' : List α} (h : a ∈ (l ++ l').tail) :
    a ∈ l.tail ∨ a ∈ l' := by
  cases l with
  | nil => exact .inr (List.mem_of_mem_tail h)
  | cons b l => exact List.mem_append.mp h

theorem Requesting.moves (h : Requesting ws)
    (hmoves : Moves (· = .requestWaitForTcpData) ws ws') : Requesting ws' := by
  obtain ⟨posted, waiting, pending, data, rfl, hposted, hwaiting⟩ := hmoves
  have hset : ∀ task ∈ posted, task = .setSuspendValue .requestWaitForTcpData := by
    intro task htask
    obtain ⟨_, rfl, rfl⟩ := hposted task htask
    rfl
  have hcount : posted.countP isChain = 0 := List.countP_eq_zero.mpr fun task htask => by
    rw [hset task htask]
    decide
  exact
    { h with
      waiting := hwaiting
      tasks := fun task htask => by
        rcases List.mem_append.mp htask with hold | hnew
        · exact h.tasks task hold
        · exact .inr (.inr (hset task hnew))
      reader := fun hmem => by
        rcases mem_tail_append hmem with hold | hnew
        · exact h.reader hold
        · cases hset _ hnew
      chain := by
        rw [List.countP_append, hcount]
        exact h.chain
      answered := fun task htask hanswered => by
        rcases List.mem_append.mp htask with hold | hnew
        · exact h.answered task hold hanswered
        · rw [hset task hnew] at hanswered
          cases hanswered }

theorem Open.moves (h : Open ws)
    (hmoves : Moves (fun coroutine =>
      coroutine = .requestWaitForTcpData ∨ coroutine = .sessionWaitForTcpData) ws ws') :
    Open ws' := by
  obtain ⟨posted, waiting, pending, data, rfl, hposted, hwaiting⟩ := hmoves
  exact
    { h with
      waiting := hwaiting
      tasks := fun task htask => by
        rcases List.mem_append.mp htask with hold | hnew
        · exact h.tasks task hold
        · obtain ⟨coroutine, rfl, hcoroutine⟩ := hposted task hnew
          refine .inr (.inr ⟨coroutine, rfl, ?_⟩)
          rcases hcoroutine with rfl | rfl
          · exact .inl rfl
          · exact .inr (.inl rfl) }

/-! ### The next task is taken -/

theorem Requesting.pop (h : Requesting ws) (hqueue : ws.taskEventQueue = task :: queue) :
    Requesting { ws with taskEventQueue := queue } := by
  have hmem : ∀ task ∈ queue, task ∈ ws.taskEventQueue := by
    rw [hqueue]
    exact fun _ => List.mem_cons_of_mem task
  have hreader : TaskInfoEvent.run .requestWaitForTcpData ∉ queue := by
    simpa [hqueue] using h.reader
  have hchain := h.chain
  rw [hqueue, List.countP_cons] at hchain
  exact
    { h with
      tasks := fun task htask => h.tasks task (hmem task htask)
      reader := fun htail => hreader (List.mem_of_mem_tail htail)
      chain := by
        change queue.countP isChain + ws.responseFutures.length ≤ 1
        omega
      answered := fun task htask => h.answered task (hmem task htask) }

/-- Behind a task of the upgrade there is no other, and no response is waited for. -/
theorem Requesting.only (h : Requesting ws) (hqueue : ws.taskEventQueue = task :: queue)
    (htask : isChain task = true) : queue.countP isChain = 0 ∧ ws.responseFutures = [] := by
  have hchain := h.chain
  rw [hqueue, List.countP_cons_of_pos htask] at hchain
  exact ⟨by omega, List.eq_nil_of_length_eq_zero (by omega)⟩

theorem Open.pop (h : Open ws) (hqueue : ws.taskEventQueue = task :: queue) :
    Open { ws with taskEventQueue := queue } :=
  { h with
    tasks := fun task htask => h.tasks task (by rw [hqueue]; exact List.mem_cons_of_mem _ htask) }

theorem Closed.pop (h : Closed ws) (hqueue : ws.taskEventQueue = task :: queue) :
    Closed { ws with taskEventQueue := queue } := by
  have hmem : ∀ task ∈ queue, task ∈ ws.taskEventQueue := by
    rw [hqueue]
    exact fun _ => List.mem_cons_of_mem task
  exact
    { h with
      resumed := fun coroutine htask => h.resumed coroutine (hmem _ htask)
      started := fun coroutine htask => h.started coroutine (hmem _ htask) }

/-! ### The next task of a chain is posted -/

/-- **The upgrade goes on**: its next task is posted where there is no other. -/
theorem Requesting.post (h : Requesting ws) (htask : isChain task = true)
    (hroom : ws.taskEventQueue.countP isChain = 0 ∧ ws.responseFutures = [])
    (hanswered : isAnswered task = true → ws.response.statusCode = 101) :
    Requesting (ws.post task) :=
  { h with
    tasks := fun task' hmem => by
      rcases List.mem_append.mp hmem with hold | hnew
      · exact h.tasks task' hold
      · rw [List.mem_singleton.mp hnew]
        exact .inl htask
    reader := fun hmem => by
      rcases mem_tail_append hmem with hold | hnew
      · exact h.reader hold
      · rw [← List.mem_singleton.mp hnew] at htask
        cases htask
    chain := by
      change (ws.taskEventQueue ++ [task]).countP isChain + ws.responseFutures.length ≤ 1
      rw [List.countP_append, hroom.1, hroom.2, List.countP_cons_of_pos htask]
      exact le_rfl
    answered := fun task' hmem hanswered' => by
      rcases List.mem_append.mp hmem with hold | hnew
      · exact h.answered task' hold hanswered'
      · rw [List.mem_singleton.mp hnew] at hanswered'
        exact hanswered hanswered' }

/-- What `startRunning` does beside posting is nothing the upgrade depends on. -/
theorem Requesting.withForceDestroy (h : Requesting ws) (flags : Coroutine → Bool) :
    Requesting { ws with forceDestroy := flags } := { h with }

theorem Requesting.withParser (h : Requesting ws) (parser : HttpsClientResponseParser) :
    Requesting { ws with responseParser := parser } := { h with }

/-- A task of the session. -/
theorem Open.post (h : Open ws)
    (htask : task = .run .sessionWaitForTcpData ∨ task = .run .sendPing ∨
      ∃ coroutine, task = .setSuspendValue coroutine ∧
        (coroutine = .requestWaitForTcpData ∨ coroutine = .sessionWaitForTcpData ∨
          coroutine = .connect ∨ coroutine = .sendPing)) : Open (ws.post task) :=
  { h with
    tasks := fun task' hmem => by
      rcases List.mem_append.mp hmem with hold | hnew
      · exact h.tasks task' hold
      · rw [List.mem_singleton.mp hnew]
        exact htask }

/-! ## Accesses that succeed -/

theorem useMember_of_true {alive : Bool} (h : alive = true) : useMember alive = .ok () := if_pos h

theorem useTcpConnection_of_eq {owner : Owner} (h : ws.tcpConnection = owner) :
    ws.useTcpConnection owner = .ok () := if_pos h

theorem useTcpConnection_of_ne {owner : Owner} (h : ws.tcpConnection ≠ owner) :
    ws.useTcpConnection owner = .error .tcpConnection := if_neg h

theorem useWebsocket_of_alive (h : ws.lifetime = .alive) : ws.useWebsocket = .ok () := by
  rw [useWebsocket, h]
  rfl

theorem useRestRequest_of_true (h : ws.restRequest = true) : ws.useRestRequest = .ok () := if_pos h

theorem resetRestRequest_of_false (h : ws.restRequest = false) : ws.resetRestRequest = ws :=
  if_neg (by simp [h])

theorem resetWebsocketSession_of_false (h : ws.websocketSession = false) :
    ws.resetWebsocketSession = ws :=
  if_neg (by simp [h])

theorem releaseFrom_of_ne {owner : Owner} (h : ws.tcpConnection ≠ owner) :
    ws.releaseFrom owner = ws := if_neg h

/-- A program in a phase, as the result of an operation. -/
theorem phased_ok (h : ws.Phase) : Phased (.ok ws) := h

/-! ## The websocket waits for its connection -/

/-- What a connection leaves that is lost with the websocket. -/
def afterDisconnect (ws : OwnedWebsocket) : OwnedWebsocket :=
  { ({ ws with ioObject := .none }.destroyTask .connect).destroyTask .sendPing with
    reconnectTask := true }.startRunning .reConnect

/-- **A connection is lost with the websocket.** -/
theorem Whole.onDisconnect (h : Whole ws) : ws.onDisconnect = .ok ws.afterDisconnect := by
  have hlost : Whole { ws with ioObject := .none } := { h with }
  have hdisconnect : { ws with ioObject := .none }.onTcpDisconnect =
      .ok (({ ws with ioObject := .none }.destroyTask .connect).destroyTask .sendPing) := by
    rw [onTcpDisconnect, useTcpConnection_of_eq hlost.tcpConnection,
      resetRestRequest_of_false hlost.restRequest,
      resetWebsocketSession_of_false hlost.websocketSession]
    rfl
  have hmember : useMember (ws.tcpConnection ≠ .destroyed) = .ok () := by
    rw [h.tcpConnection]
    rfl
  rw [OwnedWebsocket.onDisconnect, hdisconnect]
  change (useMember (ws.tcpConnection ≠ .destroyed)).bind _ = _
  rw [hmember]
  rfl

/-- Only a `re_connect` is there afterwards. -/
theorem Whole.idle_afterDisconnect (h : Whole ws) (htasks : ws.taskEventQueue = [])
    (houtside : ∀ coroutine, ws.outside coroutine = false) : Idle ws.afterDisconnect :=
  { h with
    socket := nofun
    tasks := by
      change ∀ task ∈ ws.taskEventQueue ++ [_], _
      rw [htasks]
      intro task htask
      exact .inl (List.mem_singleton.mp htask)
    outside := fun coroutine hcoroutine => by
      change ws.outside coroutine = true at hcoroutine
      rw [houtside] at hcoroutine
      cases hcoroutine
    count := by
      change (ws.taskEventQueue ++ [_]).length + (ws.outside .reConnect).toNat ≤ 1
      rw [htasks, houtside]
      exact le_rfl }

/-- With a socket there is nothing to run. -/
theorem Idle.quiet (h : Idle ws) (hsocket : ws.ioObject ≠ .none) :
    ws.taskEventQueue = [] ∧ ∀ coroutine, ws.outside coroutine = false := by
  have hcount := h.count
  rw [if_neg hsocket] at hcount
  refine ⟨List.eq_nil_of_length_eq_zero (by omega), fun coroutine => ?_⟩
  by_contra hne
  have htrue : ws.outside coroutine = true := Bool.eq_true_of_not_eq_false hne
  rw [← h.outside coroutine htrue, htrue, Bool.toNat_true] at hcount
  omega

theorem Idle.connectSocket (h : Idle ws) (htasks : ws.taskEventQueue = [])
    (houtside : ∀ coroutine, ws.outside coroutine = false) (outcome : Outcome) :
    ∃ ws', ws.connectSocket outcome = .ok ws' ∧ Idle ws' := by
  cases outcome with
  | started =>
    refine ⟨_, rfl, { h with socket := nofun, count := ?_ }⟩
    change ws.taskEventQueue.length + (ws.outside .reConnect).toNat ≤ 0
    rw [htasks, houtside]
    exact le_rfl
  | failedAtOnce =>
    have hwhole : Whole { ws with ioObject := .connecting } := { h with }
    exact ⟨_, hwhole.onDisconnect, hwhole.idle_afterDisconnect htasks houtside⟩

theorem Idle.runTask (h : Idle ws) (outcome : Outcome) :
    ∃ ws', ws.runTask outcome = .ok ws' ∧ Idle ws' := by
  cases hqueue : ws.taskEventQueue with
  | nil => exact ⟨ws, by rw [OwnedWebsocket.runTask, hqueue], h⟩
  | cons task queue =>
    have hsocket : ws.ioObject = .none := by
      by_contra hne
      rw [(h.quiet hne).1] at hqueue
      cases hqueue
    have hcount := h.count
    rw [hqueue, List.length_cons, if_pos hsocket] at hcount
    have hnil : queue = [] := List.eq_nil_of_length_eq_zero (by omega)
    subst hnil
    have houtside : ∀ coroutine, ws.outside coroutine = false := by
      intro coroutine
      by_contra hne
      have htrue : ws.outside coroutine = true := Bool.eq_true_of_not_eq_false hne
      rw [← h.outside coroutine htrue, htrue, Bool.toNat_true] at hcount
      omega
    have hpop : Idle { ws with taskEventQueue := [] } :=
      { h with
        tasks := nofun
        count := by
          change 0 + (ws.outside .reConnect).toNat ≤ _
          rw [houtside]
          exact Nat.zero_le _ }
    rcases h.tasks task (by rw [hqueue]; exact List.mem_cons_self) with rfl | rfl
    · refine ⟨_, by rw [OwnedWebsocket.runTask, hqueue]; rfl, ?_⟩
      exact
        { hpop with
          outside := fun coroutine hcoroutine => by
            by_contra hne
            change Function.update ws.outside .reConnect true coroutine = true at hcoroutine
            rw [Function.update_of_ne hne, houtside] at hcoroutine
            cases hcoroutine
          count := by
            change 0 + (Function.update ws.outside .reConnect true .reConnect).toNat ≤
              if ws.ioObject = .none then 1 else 0
            rw [Function.update_self, if_pos hsocket]
            exact le_rfl }
    · rw [OwnedWebsocket.runTask, hqueue]
      change ∃ ws', (if ws.forceDestroy .reConnect then _ else _) = Except.ok ws' ∧ _
      split
      · exact ⟨_, rfl, hpop⟩
      · obtain ⟨ws', hconnect, hidle⟩ := hpop.connectSocket rfl houtside outcome
        refine ⟨{ ws' with reconnectTask := false }, ?_, { hidle with }⟩
        have hmember : useMember ({ ws with taskEventQueue := [] }.tcpConnection ≠ .destroyed) =
            .ok () := by
          rw [hpop.tcpConnection]
          rfl
        change ({ ws with taskEventQueue := [] }.resumeReConnect outcome) = _
        rw [resumeReConnect, hmember]
        change (OwnedWebsocket.connectSocket _ outcome).bind _ = _
        rw [hconnect]
        rfl

/-- A websocket is destroyed that has its connection. -/
theorem Whole.destroy (h : Whole ws) :
    ∃ flags, ws.destroy =
        { ws with
          lifetime := .destroyed
          tcpConnection := .destroyed
          onMessage := .destroyed
          ioObject := .none
          pendingDataQueue := []
          forceDestroy := flags } ∧
      (ws.reconnectTask = true → flags .reConnect = true) := by
  obtain ⟨lifetime, tcpConnection, onMessage, restRequest, session, io, waiting, pending, reconnect,
    queue, flags, outside, data, response, futures, parser, connectPoint, frames, point,
    sessions⟩ := ws
  obtain ⟨rfl, rfl, rfl, rfl, rfl, rfl, rfl, rfl⟩ := h
  cases reconnect with
  | false => exact ⟨_, rfl, nofun⟩
  | true => exact ⟨_, rfl, fun _ => rfl⟩

theorem Idle.destroy (h : Idle ws) (hheld : ws.Reconnects → ws.reconnectTask = true) :
    Closed ws.destroy := by
  obtain ⟨flags, hdestroy, hflags⟩ := h.toWhole.destroy
  rw [hdestroy]
  exact
    { lifetime := rfl
      socket := rfl
      sessions := by
        change ∀ status ∈ ws.sessions, status = 101
        rw [h.sessions]
        nofun
      outside := fun coroutine hcoroutine => by
        obtain rfl := h.outside coroutine hcoroutine
        exact hflags (hheld (.inr (.inr hcoroutine)))
      resumed := fun coroutine htask => by
        rcases h.tasks _ htask with h' | h'
        · cases h'
        · cases h'
          exact hflags (hheld (.inr (.inl htask)))
      started := fun coroutine htask => by
        rcases h.tasks _ htask with h' | h'
        · cases h'
          exact ⟨hflags (hheld (.inl htask)), .inl rfl⟩
        · cases h' }

theorem Idle.outsideReturns (h : Idle ws) (coroutine : Coroutine) :
    Idle (ws.outsideReturns coroutine) := by
  rw [OwnedWebsocket.outsideReturns]
  split
  case isFalse => exact h
  case isTrue hcoroutine =>
    obtain rfl := h.outside coroutine hcoroutine
    have hcount := h.count
    rw [hcoroutine, Bool.toNat_true] at hcount
    exact
      { h with
        tasks := fun task htask => by
          rcases List.mem_append.mp htask with hold | hnew
          · exact h.tasks task hold
          · exact .inr (List.mem_singleton.mp hnew)
        outside := fun coroutine hcoroutine => by
          by_contra hne
          change Function.update ws.outside .reConnect false coroutine = true at hcoroutine
          rw [Function.update_of_ne hne] at hcoroutine
          exact hne (h.outside coroutine hcoroutine)
        count := by
          change (ws.taskEventQueue ++ [_]).length +
            (Function.update ws.outside .reConnect false .reConnect).toNat ≤
              if ws.ioObject = .none then 1 else 0
          rw [Function.update_self, List.length_append]
          exact hcount }

/-- **The connection is made, and `connect` is started.** -/
theorem Idle.tcpConnect (h : Idle ws) (hsocket : ws.ioObject = .connecting) :
    ∃ ws', { ws with ioObject := .connected }.onTcpConnect = .ok ws' ∧ Connecting ws' := by
  obtain ⟨htasks, houtside⟩ := h.quiet (by rw [hsocket]; nofun)
  refine ⟨({ ws with ioObject := .connected, connectPoint := .awaitingUpgrade }.startRunning
    .connect), ?_, ?_⟩
  · have huse : { ws with ioObject := .connected }.useTcpConnection .websocket = .ok () :=
      useTcpConnection_of_eq h.tcpConnection
    rw [onTcpConnect, huse]
    rfl
  · exact
      { h with
        socket := rfl
        tasks := by
          change ws.taskEventQueue ++ [_] = _
          rw [htasks]
          rfl
        outside := houtside
        connectPoint := rfl }

/-- **A step while the websocket waits for its connection.** -/
theorem Idle.handle (h : Idle ws) {event : OwnershipEvent} (hkept : Kept (.ok ws) event) :
    Phased (ws.handle event) := by
  cases event with
  | construct outcome =>
    have hne : ws.lifetime ≠ .notConstructed := by
      rw [h.lifetime]
      nofun
    rw [OwnedWebsocket.handle, if_neg hne]
    exact phased_ok (.idle h)
  | tcpConnect =>
    rw [OwnedWebsocket.handle]
    split
    case isTrue hsocket =>
      obtain ⟨ws', hconnect, hconnecting⟩ := h.tcpConnect hsocket
      rw [hconnect]
      exact phased_ok (.connecting hconnecting)
    case isFalse => exact phased_ok (.idle h)
  | socketRead data =>
    rw [OwnedWebsocket.handle, if_neg fun hread => h.socket hread.1]
    exact phased_ok (.idle h)
  | disconnect =>
    rw [OwnedWebsocket.handle]
    split
    case isTrue => exact phased_ok (.idle h)
    case isFalse hsocket =>
      obtain ⟨htasks, houtside⟩ := h.quiet hsocket
      rw [h.toWhole.onDisconnect]
      exact phased_ok (.idle (h.toWhole.idle_afterDisconnect htasks houtside))
  | outsideReturns coroutine => exact phased_ok (.idle (h.outsideReturns coroutine))
  | runTask outcome =>
    obtain ⟨ws', hrun, hidle⟩ := h.runTask outcome
    rw [OwnedWebsocket.handle, hrun]
    exact phased_ok (.idle hidle)
  | destroy =>
    rw [OwnedWebsocket.handle, if_pos h.lifetime]
    rcases hkept h.lifetime with ⟨-, hheld⟩ | ⟨hsession, -⟩
    · exact phased_ok (.closed (h.destroy hheld))
    · rw [h.tcpConnection] at hsession
      cases hsession

/-! ## `connect` takes the connection -/

theorem Connecting.runTask (h : Connecting ws) (outcome : Outcome) :
    ∃ ws', ws.runTask outcome = .ok ws' ∧ Requesting ws' := by
  refine ⟨(({ ws with
      taskEventQueue := []
      restRequest := true
      tcpConnection := .request
      responseParser := .fresh }.startRunning .requestWaitForTcpData).startRunning
        .sendSwitchProtocolRequest), ?_, ?_⟩
  · have huse : { ws with taskEventQueue := [] }.useWebsocket = .ok () :=
      useWebsocket_of_alive h.lifetime
    rw [OwnedWebsocket.runTask, h.tasks]
    change OwnedWebsocket.connect _ = _
    rw [connect, huse]
    rfl
  · have hqueue : ∀ task ∈
        [TaskInfoEvent.run .requestWaitForTcpData, .run .sendSwitchProtocolRequest],
        task = .run .requestWaitForTcpData ∨ task = .run .sendSwitchProtocolRequest := by simp
    exact
      { lifetime := h.lifetime
        tcpConnection := rfl
        onMessage := h.onMessage
        restRequest := rfl
        websocketSession := h.websocketSession
        socket := h.socket
        waiting := fun coroutine hcoroutine => by
          change ws.waitingDataValue = some coroutine at hcoroutine
          rw [h.waiting] at hcoroutine
          cases hcoroutine
        sessions := h.sessions
        connectPoint := h.connectPoint
        outside := h.outside
        tasks := fun task htask => by
          rcases hqueue task htask with rfl | rfl
          · exact .inr (.inl rfl)
          · exact .inl rfl
        reader := by
          change TaskInfoEvent.run .requestWaitForTcpData ∉ [.run .sendSwitchProtocolRequest]
          decide
        futures := by
          change ∀ coroutine ∈ ws.responseFutures, coroutine = .sendRequest
          rw [h.responseFutures]
          nofun
        chain := by
          change 1 + ws.responseFutures.length ≤ 1
          rw [h.responseFutures]
          exact le_rfl
        answered := fun task htask hanswered => by
          rcases hqueue task htask with rfl | rfl
          · cases hanswered
          · cases hanswered }

/-- **A step when `connect` is about to take the connection.** -/
theorem Connecting.handle (h : Connecting ws) {event : OwnershipEvent}
    (hkept : Kept (.ok ws) event) : Phased (ws.handle event) := by
  have hmem : TaskInfoEvent.run .connect ∈ ws.taskEventQueue := by
    rw [h.tasks]
    exact List.mem_singleton_self _
  cases event with
  | construct outcome =>
    have hne : ws.lifetime ≠ .notConstructed := by
      rw [h.lifetime]
      nofun
    rw [OwnedWebsocket.handle, if_neg hne]
    exact phased_ok (.connecting h)
  | tcpConnect =>
    have hne : ws.ioObject ≠ .connecting := by
      rw [h.socket]
      nofun
    rw [OwnedWebsocket.handle, if_neg hne]
    exact phased_ok (.connecting h)
  | socketRead data =>
    rw [OwnedWebsocket.handle]
    split
    · refine phased_ok (.connecting (h.moves (moves_onResponseReceived ?_ data)))
      rw [h.waiting]
      nofun
    · exact phased_ok (.connecting h)
  | disconnect =>
    have hsocket : ws.ioObject ≠ .none := by
      rw [h.socket]
      nofun
    exact absurd hmem (hkept hsocket).2
  | outsideReturns coroutine =>
    rw [OwnedWebsocket.handle, OwnedWebsocket.outsideReturns, h.outside]
    exact phased_ok (.connecting h)
  | runTask outcome =>
    obtain ⟨ws', hrun, hrequesting⟩ := h.runTask outcome
    rw [OwnedWebsocket.handle, hrun]
    exact phased_ok (.requesting hrequesting)
  | destroy =>
    rcases hkept h.lifetime with ⟨⟨-, hfree⟩, -⟩ | ⟨hsession, -⟩
    · exact absurd hmem hfree
    · rw [h.tcpConnection] at hsession
      cases hsession

/-! ## The upgrade -/

theorem foldl_answer_of_nil (h : ws.responseFutures = []) (responses : List HttpsClientResponse) :
    responses.foldl answer ws = ws := by
  induction responses with
  | nil => rfl
  | cons response responses ih =>
    have hanswer : ws.answer response = ws := by rw [answer, h]
    rw [List.foldl_cons, hanswer, ih]

/-- **The response of the upgrade** is the first one; those behind it find no future. -/
theorem Requesting.answerAll (h : Requesting ws) {responses : List HttpsClientResponse}
    (hstatus : ws.responseFutures ≠ [] → ∀ response ∈ responses.head?, response.statusCode = 101) :
    Requesting (responses.foldl answer ws) := by
  cases hfutures : ws.responseFutures with
  | nil => rwa [foldl_answer_of_nil hfutures]
  | cons coroutine futures =>
    cases responses with
    | nil => exact h
    | cons response responses =>
      have hchain := h.chain
      rw [hfutures, List.length_cons] at hchain
      have hnil : futures = [] := List.eq_nil_of_length_eq_zero (by omega)
      have hcount : ws.taskEventQueue.countP isChain = 0 := by omega
      have hcoroutine : coroutine = .sendRequest :=
        h.futures coroutine (by rw [hfutures]; exact List.mem_cons_self)
      have hresponse : response.statusCode = 101 :=
        hstatus (by rw [hfutures]; nofun) response rfl
      have hanswered : Requesting { ws with responseFutures := [], response := response } :=
        { h with
          futures := nofun
          chain := by
            change ws.taskEventQueue.countP isChain + 0 ≤ 1
            omega
          answered := fun _ _ _ => hresponse }
      have hanswer : ws.answer response =
          { ws with responseFutures := [], response := response }.post
            (.setSuspendValue .sendRequest) := by
        rw [answer, hfutures, hnil, hcoroutine]
        rfl
      rw [List.foldl_cons, hanswer, foldl_answer_of_nil (by rfl)]
      exact hanswered.post (by rfl) ⟨hcount, rfl⟩ fun _ => hresponse

theorem Requesting.requestWaits (h : Requesting ws) :
    ∃ ws', ws.requestWaits = .ok ws' ∧ Requesting ws' := by
  refine ⟨ws.waitForData .requestWaitForTcpData, ?_, h.moves (moves_waitForData h.waiting rfl)⟩
  rw [OwnedWebsocket.requestWaits, useMember_of_true h.restRequest,
    useTcpConnection_of_eq h.tcpConnection]
  rfl

/-- **Data for the request.** -/
theorem Requesting.receiveResponseData (h : Requesting ws)
    (hstatus : ws.responseFutures ≠ [] →
      ∀ responses ∈ (ws.responseParser.appendData (ws.data .requestWaitForTcpData)).parseAll.1,
        ∀ response ∈ responses.head?, response.statusCode = 101) :
    Phased ws.receiveResponseData := by
  rw [OwnedWebsocket.receiveResponseData, useMember_of_true h.restRequest]
  rcases hparse : (ws.responseParser.appendData (ws.data .requestWaitForTcpData)).parseAll with
    ⟨_ | responses, parser⟩
  · rfl
  · rw [hparse] at hstatus
    have hall : Requesting (responses.foldl answer { ws with responseParser := parser }) :=
      (h.withParser parser).answerAll fun hne => hstatus hne responses rfl
    obtain ⟨ws', hwaits, hrequesting⟩ := hall.requestWaits
    change Phased (OwnedWebsocket.requestWaits _)
    rw [hwaits]
    exact phased_ok (.requesting hrequesting)

theorem Requesting.sendRequest (h : Requesting ws)
    (hroom : ws.taskEventQueue.countP isChain = 0 ∧ ws.responseFutures = []) :
    ∃ ws', ws.sendRequest = .ok ws' ∧ Requesting ws' := by
  refine ⟨{ ws with responseFutures := [.sendRequest] }, ?_, ?_⟩
  · have hne : ws.ioObject ≠ .none := by
      rw [h.socket]
      nofun
    rw [OwnedWebsocket.sendRequest, useMember_of_true h.restRequest,
      useTcpConnection_of_eq h.tcpConnection, if_neg hne, hroom.2]
    rfl
  · exact
      { h with
        futures := fun coroutine hcoroutine => List.mem_singleton.mp hcoroutine
        chain := by
          change ws.taskEventQueue.countP isChain + 1 ≤ 1
          rw [hroom.1] }

theorem Requesting.switchProtocol (h : Requesting ws)
    (hroom : ws.taskEventQueue.countP isChain = 0 ∧ ws.responseFutures = [])
    (hstatus : ws.response.statusCode = 101) : Phased ws.switchProtocol := by
  rw [OwnedWebsocket.switchProtocol, useWebsocket_of_alive h.lifetime, if_pos hstatus,
    useRestRequest_of_true h.restRequest, logLeftover]
  split
  · rfl
  · exact phased_ok (.requesting (h.post (by rfl) hroom fun _ => hstatus))

/-- **The session is made**: the connection and the message callback go to it, and the request is
destroyed without them. -/
theorem Requesting.makeSession (h : Requesting ws)
    (hroom : ws.taskEventQueue.countP isChain = 0 ∧ ws.responseFutures = [])
    (hreader : .run .requestWaitForTcpData ∉ ws.taskEventQueue)
    (hstatus : ws.response.statusCode = 101) :
    ∃ ws', ws.makeSession = .ok ws' ∧ Open ws' := by
  obtain ⟨lifetime, tcpConnection, onMessage, restRequest, session, io, waiting, pending, reconnect,
    queue, flags, outside, data, response, futures, parser, connectPoint, frames, point,
    sessions⟩ := ws
  have hsessions : sessions = [] := h.sessions
  have houtside : ∀ coroutine, outside coroutine = false := h.outside
  replace hstatus : response.statusCode = 101 := hstatus
  have hfutures : futures = [] := hroom.2
  obtain rfl : restRequest = true := h.restRequest
  obtain rfl : lifetime = .alive := h.lifetime
  subst hfutures
  refine ⟨_, rfl, ?_⟩
  exact
    { lifetime := rfl
      tcpConnection := rfl
      onMessage := by
        change (if onMessage = .websocket then Owner.session else Owner.nowhere) = .session
        exact if_pos h.onMessage
      restRequest := rfl
      websocketSession := rfl
      socket := h.socket
      waiting := fun coroutine hcoroutine => .inl (h.waiting coroutine hcoroutine)
      sessions := by
        change sessions ++ [response.statusCode] = [101]
        rw [hsessions, hstatus]
        rfl
      connectPoint := nofun
      requestReader := rfl
      outside := fun coroutine hcoroutine => by
        by_cases hconnect : coroutine = .connect
        · exact .inl hconnect
        · change Function.update outside .connect true coroutine = true at hcoroutine
          rw [Function.update_of_ne hconnect, houtside] at hcoroutine
          cases hcoroutine
      tasks := by
        change ∀ task ∈ queue ++ [.run .sessionWaitForTcpData], _
        intro task htask
        rcases List.mem_append.mp htask with hold | hnew
        · rcases h.tasks task hold with hchain | hrun | hset
          · exact absurd hchain (List.countP_eq_zero.mp hroom.1 task hold)
          · exact absurd (hrun ▸ hold) hreader
          · exact .inr (.inr ⟨_, hset, .inl rfl⟩)
        · exact .inl (List.mem_singleton.mp hnew) }

theorem Requesting.resumeConnect (h : Requesting ws)
    (hroom : ws.taskEventQueue.countP isChain = 0 ∧ ws.responseFutures = [])
    (hreader : .run .requestWaitForTcpData ∉ ws.taskEventQueue)
    (hstatus : ws.response.statusCode = 101) : Phased ws.resumeConnect := by
  obtain ⟨ws', hmake, hopen⟩ := h.makeSession hroom hreader hstatus
  rw [OwnedWebsocket.resumeConnect, h.connectPoint]
  change Phased ws.makeSession
  rw [hmake]
  exact phased_ok (.opened hopen)

/-- **A task of the upgrade is started.** -/
theorem Requesting.run (h : Requesting ws) (hqueue : ws.taskEventQueue = .run coroutine :: queue) :
    Phased ({ ws with taskEventQueue := queue }.run coroutine) := by
  have hpop := h.pop hqueue
  rcases h.tasks _ (by rw [hqueue]; exact List.mem_cons_self) with hchain | hreader | hset
  · have honly := h.only hqueue hchain
    rcases of_decide_eq_true hchain with rfl | rfl | rfl
    · rw [OwnedWebsocket.run, useWebsocket_of_alive hpop.lifetime,
        useRestRequest_of_true hpop.restRequest]
      exact phased_ok (.requesting ((hpop.withForceDestroy _).post (by rfl) honly nofun))
    · exact phased_ok (.requesting ((hpop.withForceDestroy _).post (by rfl) honly nofun))
    · obtain ⟨ws', hsend, hrequesting⟩ := hpop.sendRequest honly
      change Phased (OwnedWebsocket.sendRequest _)
      rw [hsend]
      exact phased_ok (.requesting hrequesting)
  · cases hreader
    obtain ⟨ws', hwaits, hrequesting⟩ := hpop.requestWaits
    change Phased (OwnedWebsocket.requestWaits _)
    rw [hwaits]
    exact phased_ok (.requesting hrequesting)
  · cases hset

/-- **A coroutine of the upgrade goes on.** -/
theorem Requesting.resume (h : Requesting ws)
    (hqueue : ws.taskEventQueue = .setSuspendValue coroutine :: queue)
    (hforce : ws.forceDestroy coroutine = false) (hkept : ws.AnswersSwitching) (outcome : Outcome) :
    Phased ({ ws with taskEventQueue := queue }.resume outcome coroutine) := by
  have hpop := h.pop hqueue
  have hmem : TaskInfoEvent.setSuspendValue coroutine ∈ ws.taskEventQueue := by
    rw [hqueue]
    exact List.mem_cons_self
  rcases h.tasks _ hmem with hchain | hreader | hset
  · have honly := h.only hqueue hchain
    have hstatus := h.answered _ hmem hchain
    rcases of_decide_eq_true hchain with rfl | rfl | rfl | rfl
    · exact phased_ok (.requesting (hpop.post (by rfl) honly fun _ => hstatus))
    · exact phased_ok (.requesting (hpop.post (by rfl) honly fun _ => hstatus))
    · exact hpop.switchProtocol honly hstatus
    · refine hpop.resumeConnect honly ?_ hstatus
      have hreader := h.reader
      rwa [hqueue] at hreader
  · cases hreader
  · cases hset
    refine hpop.receiveResponseData fun hfutures => hkept ?_ hforce hfutures
    rw [hqueue]
    rfl

/-- **A step while the upgrade is under way.** -/
theorem Requesting.handle (h : Requesting ws) {event : OwnershipEvent}
    (hkept : Kept (.ok ws) event) : Phased (ws.handle event) := by
  cases event with
  | construct outcome =>
    have hne : ws.lifetime ≠ .notConstructed := by
      rw [h.lifetime]
      nofun
    rw [OwnedWebsocket.handle, if_neg hne]
    exact phased_ok (.requesting h)
  | tcpConnect =>
    have hne : ws.ioObject ≠ .connecting := by
      rw [h.socket]
      nofun
    rw [OwnedWebsocket.handle, if_neg hne]
    exact phased_ok (.requesting h)
  | socketRead data =>
    rw [OwnedWebsocket.handle]
    split
    · exact phased_ok (.requesting (h.moves (moves_onResponseReceived h.waiting data)))
    · exact phased_ok (.requesting h)
  | disconnect =>
    have hsocket : ws.ioObject ≠ .none := by
      rw [h.socket]
      nofun
    have howner := (hkept hsocket).1
    rw [h.tcpConnection] at howner
    cases howner
  | outsideReturns coroutine =>
    rw [OwnedWebsocket.handle, OwnedWebsocket.outsideReturns, h.outside]
    exact phased_ok (.requesting h)
  | runTask outcome =>
    rw [OwnedWebsocket.handle, OwnedWebsocket.runTask]
    split
    case h_1 => exact phased_ok (.requesting h)
    case h_2 coroutine queue hqueue => exact h.run hqueue
    case h_3 coroutine queue hqueue =>
      split
      case isTrue => exact phased_ok (.requesting (h.pop hqueue))
      case isFalse hforce =>
        exact h.resume hqueue (Bool.eq_false_of_not_eq_true hforce) hkept outcome
  | destroy =>
    rcases hkept h.lifetime with ⟨⟨howner, -⟩, -⟩ | ⟨hsession, -⟩
    · rw [h.tcpConnection] at howner
      cases howner
    · rw [h.tcpConnection] at hsession
      cases hsession

/-! ## The session has the connection -/

/-- The coroutines of an open session that wait outside. -/
theorem Open.awaitOutside (h : Open ws)
    (hcoroutine : coroutine = .connect ∨ coroutine = .sessionWaitForTcpData ∨
      coroutine = .sendPing) : Open (ws.awaitOutside coroutine) :=
  { h with
    outside := fun coroutine' houtside => by
      by_cases heq : coroutine' = coroutine
      · exact heq ▸ hcoroutine
      · change Function.update ws.outside coroutine true coroutine' = true at houtside
        rw [Function.update_of_ne heq] at houtside
        exact h.outside coroutine' houtside }

theorem Open.withPoint (h : Open ws) (point : SessionPoint) : Open { ws with point := point } :=
  { h with }

theorem Open.withFrameParser (h : Open ws) (parser : WebSocketFrameParser) :
    Open { ws with frameParser := parser } := { h with }

theorem Open.sessionWaits (h : Open ws) :
    ∃ ws', ws.sessionWaits = .ok ws' ∧ Open ws' := by
  refine ⟨{ ws with point := .waitingForData }.waitForData .sessionWaitForTcpData, ?_,
    (h.withPoint .waitingForData).moves
      (moves_waitForData (h.withPoint .waitingForData).waiting (.inr rfl))⟩
  rw [OwnedWebsocket.sessionWaits, useMember_of_true h.websocketSession,
    useTcpConnection_of_eq h.tcpConnection]
  rfl

/-- **The frames of a read**: the message callback is with the session. -/
theorem Open.handleFrames (h : Open ws) (frames : List Frame) :
    Phased (ws.handleFrames frames) := by
  induction frames with
  | nil =>
    obtain ⟨ws', hwaits, hopen⟩ := h.sessionWaits
    rw [OwnedWebsocket.handleFrames, hwaits]
    exact phased_ok (.opened hopen)
  | cons frame frames ih =>
    rw [OwnedWebsocket.handleFrames]
    split
    · split
      · rw [callOnMessage, if_pos h.onMessage]
        exact phased_ok (.opened ((h.withPoint _).awaitOutside (.inr (.inl rfl))))
      · exact ih
    · exact phased_ok (.opened (h.withPoint _))
    · rfl

theorem Open.resumeSession (h : Open ws) : Phased ws.resumeSession := by
  rw [OwnedWebsocket.resumeSession, useMember_of_true h.websocketSession]
  cases hpoint : ws.point with
  | waitingForData =>
    rcases hparse : (ws.frameParser.feed (ws.data .sessionWaitForTcpData)).parseFrames with
      ⟨_ | frames, parser⟩
    · rfl
    · exact ((h.withPoint .waitingForData).withFrameParser parser).handleFrames frames
  | inCallback frames => exact h.handleFrames frames
  | finished => exact phased_ok (.opened h)

/-- **A task of an open session is started.** -/
theorem Open.run (h : Open ws) (hqueue : ws.taskEventQueue = .run coroutine :: queue) :
    Phased ({ ws with taskEventQueue := queue }.run coroutine) := by
  have hpop := h.pop hqueue
  rcases h.tasks _ (by rw [hqueue]; exact List.mem_cons_self) with hreader | hping | ⟨_, hset, -⟩
  · cases hreader
    obtain ⟨ws', hwaits, hopen⟩ := hpop.sessionWaits
    rw [OwnedWebsocket.run, hwaits]
    exact phased_ok (.opened hopen)
  · cases hping
    exact phased_ok (.opened (hpop.awaitOutside (.inr (.inr rfl))))
  · cases hset

theorem Open.resumeConnect (h : Open ws) : Phased ws.resumeConnect := by
  rw [OwnedWebsocket.resumeConnect]
  split
  case h_1 hpoint => exact absurd hpoint h.connectPoint
  case h_2 =>
    rw [useWebsocket_of_alive h.lifetime]
    have hstarted : Open
        { ws with
          connectPoint := .finished
          forceDestroy := Function.update ws.forceDestroy .sendPing false } :=
      { h with
        connectPoint := nofun
        requestReader := h.requestReader }
    exact phased_ok (.opened (hstarted.post (.inr (.inl rfl))))
  case h_3 => exact phased_ok (.opened h)

/-- **A coroutine of an open session goes on**; the request's reader does not. -/
theorem Open.resume (h : Open ws)
    (hqueue : ws.taskEventQueue = .setSuspendValue coroutine :: queue)
    (hforce : ws.forceDestroy coroutine = false) (outcome : Outcome) :
    Phased ({ ws with taskEventQueue := queue }.resume outcome coroutine) := by
  have hpop := h.pop hqueue
  rcases h.tasks _ (by rw [hqueue]; exact List.mem_cons_self) with
    hrun | hrun | ⟨_, hset, hcoroutine⟩
  · cases hrun
  · cases hrun
  cases hset
  rcases hcoroutine with rfl | rfl | rfl | rfl
  · rw [h.requestReader] at hforce
    cases hforce
  · exact hpop.resumeSession
  · exact hpop.resumeConnect
  · rw [OwnedWebsocket.resume, resumePing, useWebsocket_of_alive hpop.lifetime,
      if_pos hpop.websocketSession]
    exact phased_ok (.opened (hpop.awaitOutside (.inr (.inr rfl))))

theorem Open.outsideReturns (h : Open ws) (coroutine : Coroutine) :
    Open (ws.outsideReturns coroutine) := by
  rw [OwnedWebsocket.outsideReturns]
  split
  case isFalse => exact h
  case isTrue hcoroutine =>
    have hreturned : Open { ws with outside := Function.update ws.outside coroutine false } :=
      { h with
        outside := fun coroutine' houtside => by
          by_cases heq : coroutine' = coroutine
          · exact heq ▸ h.outside coroutine hcoroutine
          · change Function.update ws.outside coroutine false coroutine' = true at houtside
            rw [Function.update_of_ne heq] at houtside
            exact h.outside coroutine' houtside }
    refine hreturned.post (.inr (.inr ⟨coroutine, rfl, ?_⟩))
    rcases h.outside coroutine hcoroutine with rfl | rfl | rfl
    · exact .inr (.inr (.inl rfl))
    · exact .inr (.inl rfl)
    · exact .inr (.inr (.inr rfl))

/-- A websocket is destroyed that has a session: the reader that is registered gets its value, and
every coroutine that is left is flagged. -/
theorem Open.destroy_eq (h : Open ws) :
    ∃ posted flags, ws.destroy.lifetime = .destroyed ∧ ws.destroy.ioObject = .none ∧
      ws.destroy.sessions = ws.sessions ∧ ws.destroy.outside = ws.outside ∧
      ws.destroy.taskEventQueue = ws.taskEventQueue ++ posted ∧ ws.destroy.forceDestroy = flags ∧
      (∀ task ∈ posted, ∃ coroutine, task = .setSuspendValue coroutine ∧
        ws.waitingDataValue = some coroutine) ∧
      ∀ coroutine, coroutine = .connect ∨ coroutine = .sendPing ∨
        coroutine = .sessionWaitForTcpData ∨ coroutine = .requestWaitForTcpData →
          flags coroutine = true := by
  obtain ⟨lifetime, tcpConnection, onMessage, restRequest, session, io, waiting, pending, reconnect,
    queue, flags, outside, data, response, futures, parser, connectPoint, frames, point,
    sessions⟩ := ws
  obtain ⟨rfl, rfl, rfl, rfl, rfl, rfl, -, rfl, -, hreader, -, -⟩ := h
  replace hreader : flags .requestWaitForTcpData = true := hreader
  cases waiting with
  | none =>
    cases reconnect
    all_goals
      refine ⟨[], _, rfl, rfl, rfl, rfl, (List.append_nil _).symm, rfl, nofun, ?_⟩
      rintro coroutine (rfl | rfl | rfl | rfl)
      exacts [rfl, rfl, rfl, hreader]
  | some registered =>
    cases reconnect
    all_goals
      refine ⟨[.setSuspendValue registered], _, rfl, rfl, rfl, rfl, rfl, rfl, ?_, ?_⟩
      · exact fun task htask => ⟨registered, List.mem_singleton.mp htask, rfl⟩
      · rintro coroutine (rfl | rfl | rfl | rfl)
        exacts [rfl, rfl, rfl, hreader]

/-- **An open websocket is destroyed.** -/
theorem Open.destroy (h : Open ws) (hreader : .run .sessionWaitForTcpData ∉ ws.taskEventQueue) :
    Closed ws.destroy := by
  obtain ⟨posted, flags, hlifetime, hsocket, hsessions, houtside, hqueue, hforce, hposted,
    hflags⟩ := h.destroy_eq
  have hdead : ∀ coroutine,
      coroutine = .requestWaitForTcpData ∨ coroutine = .sessionWaitForTcpData ∨
        coroutine = .connect ∨ coroutine = .sendPing → flags coroutine = true := by
    rintro coroutine (rfl | rfl | rfl | rfl) <;> exact hflags _ (by decide)
  exact
    { lifetime := hlifetime
      socket := hsocket
      sessions := by
        rw [hsessions, h.sessions]
        exact fun status hstatus => List.mem_singleton.mp hstatus
      outside := fun coroutine hcoroutine => by
        rw [houtside] at hcoroutine
        rw [hforce]
        rcases h.outside coroutine hcoroutine with hc | hc | hc <;> exact hdead _ (by simp [hc])
      resumed := fun coroutine htask => by
        rw [hqueue] at htask
        rw [hforce]
        rcases List.mem_append.mp htask with hold | hnew
        · rcases h.tasks _ hold with hrun | hrun | ⟨_, hset, hcoroutine⟩
          · cases hrun
          · cases hrun
          · cases hset
            exact hdead coroutine hcoroutine
        · obtain ⟨_, hset, hwaiting⟩ := hposted _ hnew
          cases hset
          rcases h.waiting _ hwaiting with hc | hc <;> exact hdead _ (by simp [hc])
      started := fun coroutine htask => by
        rw [hqueue] at htask
        rw [hforce]
        rcases List.mem_append.mp htask with hold | hnew
        · rcases h.tasks _ hold with hrun | hrun | ⟨_, hset, -⟩
          · exact absurd (hrun ▸ hold) hreader
          · cases hrun
            exact ⟨hdead _ (by decide), .inr rfl⟩
          · cases hset
        · obtain ⟨_, hset, -⟩ := hposted _ hnew
          cases hset }

/-- **A step while the session has the connection.** -/
theorem Open.handle (h : Open ws) {event : OwnershipEvent} (hkept : Kept (.ok ws) event) :
    Phased (ws.handle event) := by
  cases event with
  | construct outcome =>
    have hne : ws.lifetime ≠ .notConstructed := by
      rw [h.lifetime]
      nofun
    rw [OwnedWebsocket.handle, if_neg hne]
    exact phased_ok (.opened h)
  | tcpConnect =>
    have hne : ws.ioObject ≠ .connecting := by
      rw [h.socket]
      nofun
    rw [OwnedWebsocket.handle, if_neg hne]
    exact phased_ok (.opened h)
  | socketRead data =>
    rw [OwnedWebsocket.handle]
    split
    · exact phased_ok (.opened (h.moves (moves_onResponseReceived h.waiting data)))
    · exact phased_ok (.opened h)
  | disconnect =>
    have hsocket : ws.ioObject ≠ .none := by
      rw [h.socket]
      nofun
    have howner := (hkept hsocket).1
    rw [h.tcpConnection] at howner
    cases howner
  | outsideReturns coroutine => exact phased_ok (.opened (h.outsideReturns coroutine))
  | runTask outcome =>
    rw [OwnedWebsocket.handle, OwnedWebsocket.runTask]
    split
    case h_1 => exact phased_ok (.opened h)
    case h_2 coroutine queue hqueue => exact h.run hqueue
    case h_3 coroutine queue hqueue =>
      split
      case isTrue => exact phased_ok (.opened (h.pop hqueue))
      case isFalse hforce => exact h.resume hqueue (Bool.eq_false_of_not_eq_true hforce) outcome
  | destroy =>
    rw [OwnedWebsocket.handle, if_pos h.lifetime]
    rcases hkept h.lifetime with ⟨⟨howner, -⟩, -⟩ | ⟨-, hreader⟩
    · rw [h.tcpConnection] at howner
      cases howner
    · exact phased_ok (.closed (h.destroy hreader))

/-! ## The websocket is destroyed -/

theorem Closed.awaitOutside (h : Closed ws) (hforce : ws.forceDestroy coroutine = true) :
    Closed (ws.awaitOutside coroutine) :=
  { h with
    outside := fun coroutine' houtside => by
      by_cases heq : coroutine' = coroutine
      · exact heq ▸ hforce
      · change Function.update ws.outside coroutine true coroutine' = true at houtside
        rw [Function.update_of_ne heq] at houtside
        exact h.outside coroutine' houtside }

theorem Closed.outsideReturns (h : Closed ws) (coroutine : Coroutine) :
    Closed (ws.outsideReturns coroutine) := by
  rw [OwnedWebsocket.outsideReturns]
  split
  case isFalse => exact h
  case isTrue hcoroutine =>
    exact
      { h with
        outside := fun coroutine' houtside => by
          by_cases heq : coroutine' = coroutine
          · exact heq ▸ h.outside coroutine hcoroutine
          · change Function.update ws.outside coroutine false coroutine' = true at houtside
            rw [Function.update_of_ne heq] at houtside
            exact h.outside coroutine' houtside
        resumed := fun coroutine' htask => by
          rcases List.mem_append.mp htask with hold | hnew
          · exact h.resumed coroutine' hold
          · cases List.mem_singleton.mp hnew
            exact h.outside coroutine hcoroutine
        started := fun coroutine' htask => by
          rcases List.mem_append.mp htask with hold | hnew
          · exact h.started coroutine' hold
          · cases List.mem_singleton.mp hnew }

theorem Closed.runTask (h : Closed ws) (outcome : Outcome) :
    ∃ ws', ws.runTask outcome = .ok ws' ∧ Closed ws' := by
  rw [OwnedWebsocket.runTask]
  split
  case h_1 => exact ⟨ws, rfl, h⟩
  case h_2 coroutine queue hqueue =>
    have hpop := h.pop hqueue
    obtain ⟨hforce, rfl | rfl⟩ := h.started coroutine (by rw [hqueue]; exact List.mem_cons_self)
    · exact ⟨_, rfl, hpop.awaitOutside hforce⟩
    · exact ⟨_, rfl, hpop.awaitOutside hforce⟩
  case h_3 coroutine queue hqueue =>
    rw [if_pos (h.resumed coroutine (by rw [hqueue]; exact List.mem_cons_self))]
    exact ⟨_, rfl, h.pop hqueue⟩

/-- **A step when the websocket is destroyed.** -/
theorem Closed.handle (h : Closed ws) (event : OwnershipEvent) : Phased (ws.handle event) := by
  cases event with
  | construct outcome =>
    have hne : ws.lifetime ≠ .notConstructed := by
      rw [h.lifetime]
      nofun
    rw [OwnedWebsocket.handle, if_neg hne]
    exact phased_ok (.closed h)
  | tcpConnect =>
    have hne : ws.ioObject ≠ .connecting := by
      rw [h.socket]
      nofun
    rw [OwnedWebsocket.handle, if_neg hne]
    exact phased_ok (.closed h)
  | socketRead data =>
    have hne : ws.ioObject ≠ .connected := by
      rw [h.socket]
      nofun
    rw [OwnedWebsocket.handle, if_neg fun hread => hne hread.1]
    exact phased_ok (.closed h)
  | disconnect =>
    rw [OwnedWebsocket.handle, if_pos h.socket]
    exact phased_ok (.closed h)
  | outsideReturns coroutine => exact phased_ok (.closed (h.outsideReturns coroutine))
  | runTask outcome =>
    obtain ⟨ws', hrun, hclosed⟩ := h.runTask outcome
    rw [OwnedWebsocket.handle, hrun]
    exact phased_ok (.closed hclosed)
  | destroy =>
    have hne : ws.lifetime ≠ .alive := by
      rw [h.lifetime]
      nofun
    rw [OwnedWebsocket.handle, if_neg hne]
    exact phased_ok (.closed h)

/-! ## Runs -/

/-- The first socket is registered, and the websocket waits for its connection. -/
theorem idle_construct : ∃ ws', fresh.construct .started = .ok ws' ∧ Idle ws' :=
  ⟨_, rfl,
    { lifetime := rfl
      tcpConnection := rfl
      onMessage := rfl
      restRequest := rfl
      websocketSession := rfl
      waiting := rfl
      responseFutures := rfl
      sessions := rfl
      socket := nofun
      tasks := nofun
      outside := nofun
      count := le_rfl }⟩

/-- **A step before the websocket is constructed.** -/
theorem fresh_handle {event : OwnershipEvent} (hkept : Kept (.ok fresh) event) :
    Phased (fresh.handle event) := by
  cases event with
  | construct outcome =>
    obtain ⟨ws', hconstruct, hidle⟩ := idle_construct
    have hfresh : fresh.lifetime = .notConstructed := rfl
    rw [OwnedWebsocket.handle, if_pos hfresh, hkept hfresh, hconstruct]
    exact phased_ok (.idle hidle)
  | tcpConnect => exact phased_ok (.fresh rfl)
  | socketRead data =>
    rw [OwnedWebsocket.handle, if_neg fun hread => nomatch hread.1]
    exact phased_ok (.fresh rfl)
  | disconnect => exact phased_ok (.fresh rfl)
  | outsideReturns coroutine => exact phased_ok (.fresh rfl)
  | runTask outcome => exact phased_ok (.fresh rfl)
  | destroy => exact phased_ok (.fresh rfl)

/-- **The step lemma**: a step that meets the condition keeps the phases. -/
theorem phased_step (program : Except Stop OwnedWebsocket) (event : OwnershipEvent)
    (h : Phased program) (hkept : Kept program event) : Phased (step program event) := by
  cases program with
  | error stop => exact h
  | ok ws =>
    change Phased (ws.handle event)
    rcases h with rfl | h | h | h | h | h
    · exact fresh_handle hkept
    · exact h.handle hkept
    · exact h.handle hkept
    · exact h.handle hkept
    · exact h.handle hkept
    · exact h.handle event

/-- In every phase, sessions were made behind a 101 only. -/
theorem safe_of_phased {program : Except Stop OwnedWebsocket} (h : Phased program) :
    Safe program := by
  cases program with
  | error stop => exact h
  | ok ws =>
    have hempty : ws.sessions = [] → Safe (.ok ws) := fun hnil => by
      change ∀ status ∈ ws.sessions, status = 101
      rw [hnil]
      nofun
    rcases h with rfl | h | h | h | h | h
    · exact hempty rfl
    · exact hempty h.sessions
    · exact hempty h.sessions
    · exact hempty h.sessions
    · change ∀ status ∈ ws.sessions, status = 101
      rw [h.sessions]
      exact fun status hstatus => List.mem_singleton.mp hstatus
    · exact h.sessions

/-- **No pointer is used that holds nothing**, in any state of a run whose steps meet the
condition. -/
theorem safe_of_kept {events : List OwnershipEvent} (h : Run.Along step Kept (.ok fresh) events) :
    Run.Along step (fun program event => Safe (step program event)) (.ok fresh) events :=
  Run.along_of_invariant phased_step
    (fun program event hphased hkept => safe_of_phased (phased_step program event hphased hkept))
    (phased_ok (.fresh rfl)) h

/-- **A connection that is lost after it was taken** stops the program: `on_tcp_disconnect` reads
`m_tcp_connection`. -/
theorem step_disconnect_of_moved (hsocket : ws.ioObject ≠ .none)
    (howner : ws.tcpConnection ≠ .websocket) :
    step (.ok ws) .disconnect = .error .tcpConnection := by
  change ws.handle .disconnect = _
  have huse : { ws with ioObject := .none }.useTcpConnection .websocket = .error .tcpConnection :=
    useTcpConnection_of_ne howner
  rw [handle, if_neg hsocket, onDisconnect, onTcpDisconnect, huse]
  rfl

/-- A connection is made, `connect` takes it, and it is lost. -/
def lostRun : List OwnershipEvent :=
  [.construct .started, .tcpConnect, .runTask .started, .disconnect]

theorem lostRun_not_safe : ¬ Safe (Run.exec step (.ok fresh) lostRun) := by decide

/-- A first socket fails and a second one connects; the upgrade is answered with a 101, the session
reads, and the websocket is destroyed. -/
def switchedRun : List OwnershipEvent :=
  [.construct .started, .disconnect, .runTask .started, .outsideReturns .reConnect,
    .runTask .started, .tcpConnect, .runTask .started, .runTask .started, .runTask .started,
    .runTask .started, .runTask .started,
    .socketRead "HTTP/1.1 101 Switching Protocols\r\n\r\n".toUTF8.toList, .runTask .started,
    .runTask .started, .runTask .started, .runTask .started, .runTask .started,
    .outsideReturns .connect, .runTask .started, .runTask .started, .destroy, .runTask .started,
    .outsideReturns .sendPing, .runTask .started]

theorem safe_switchedRun :
    Run.Along step Kept (.ok fresh) switchedRun ∧
      Run.Along step (fun program event => Safe (step program event)) (.ok fresh) switchedRun :=
  have h : Run.Along step Kept (.ok fresh) switchedRun := by decide +kernel
  ⟨h, safe_of_kept h⟩

end OwnedWebsocket

end TradingEngine
