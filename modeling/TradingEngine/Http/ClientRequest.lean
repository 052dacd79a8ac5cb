import TradingEngine.Http.ResponseParser
import TradingEngine.Socket.TcpConnection

/-!
# Http/ClientRequest — `HttpsClientRequest` and its `TCPConnection`

The requests are numbered, and a response goes to the first of them that waits.  Data and responses
are set as the values of futures, so `wait_for_tcp_data` goes on only when the event loop comes to
its task.
-/

namespace TradingEngine

open Ascii

/-- `HttpsClientResponse::create_error_response`. -/
def HttpsClientResponse.createErrorResponse : HttpsClientResponse :=
  ⟨-1, text "HTTPS_CLIENT_DISCONNECTED", fun _ => none, [], false⟩

/-- Where `wait_for_tcp_data` is: its start, or the value of its future, is in the queue of the
event loop, or its future is `m_waiting_data_value`. -/
inductive ReaderPoint
  | starting
  | waiting
  | ready (data : List UInt8)
  deriving DecidableEq, Repr

/-- The data of a future that is set. -/
def ReaderPoint.data : ReaderPoint → List UInt8
  | .ready data => data
  | .starting | .waiting => []

/-- `HttpsClientRequest` with the queue of its `TCPConnection`; an exception ends the program. -/
structure HttpsClientRequest where
  responseParser : HttpsClientResponseParser
  reader : ReaderPoint
  pendingDataQueue : List (List UInt8)
  responseFutures : List ℕ
  terminated : Bool

/-- A future of `send_request` gets its value. -/
structure Completion where
  request : ℕ
  response : HttpsClientResponse

namespace HttpsClientRequest

/-- A new request, whose `wait_for_tcp_data` was started. -/
def start : HttpsClientRequest where
  responseParser := .fresh
  reader := .starting
  pendingDataQueue := []
  responseFutures := []
  terminated := false

/-! ## `TCPConnection` -/

/-- The connection, on which no other coroutine waits for data. -/
def tcpConnection (client : HttpsClientRequest) : TCPConnection Unit where
  waitingDataValue := if client.reader = .waiting then some () else none
  pendingDataQueue := client.pendingDataQueue

/-- The connection has moved on, and may have set the value of the reader's future. -/
def moved (client : HttpsClientRequest) (after : TCPConnection Unit × Option (Unit × List UInt8)) :
    HttpsClientRequest :=
  { client with
    reader :=
      match after.2 with
      | some (_, data) => .ready data
      | none => if after.1.waitingDataValue.isSome then .waiting else client.reader
    pendingDataQueue := after.1.pendingDataQueue }

/-- `wait_for_data`: the reader runs, so its future is not registered. -/
def waitForData (client : HttpsClientRequest) : HttpsClientRequest :=
  client.moved (TCPConnection.waitForData ⟨none, client.pendingDataQueue⟩ ())

/-- `on_response_received`. -/
def onResponseReceived (client : HttpsClientRequest) (data : List UInt8) : HttpsClientRequest :=
  client.moved (client.tcpConnection.onResponseReceived data)

/-- The end of `HttpsClientRequestIO::handle_read_data`. -/
def handleReadData (client : HttpsClientRequest) (data : List UInt8) : HttpsClientRequest :=
  if data = [] then client else client.onResponseReceived data

/-! ## `HttpsClientRequest` -/

/-- The futures that are left when some responses have come, and the values they have got. -/
def answer : List ℕ → List HttpsClientResponse → List ℕ × List Completion
  | [], _ => ([], [])
  | futures, [] => (futures, [])
  | request :: futures, response :: responses =>
    let rest := answer futures responses
    (rest.1, ⟨request, response⟩ :: rest.2)

/-- `on_disconnect`.  Each value is posted to the event loop, which must have a place for it:
`ClientReconnect.complete`. -/
def onDisconnect (client : HttpsClientRequest) : HttpsClientRequest × List Completion :=
  ({ client with responseFutures := [] },
    client.responseFutures.map fun request => ⟨request, .createErrorResponse⟩)

/-- The body of the loop of `wait_for_tcp_data`, behind its wait. -/
def receiveData (client : HttpsClientRequest) (data : List UInt8) :
    HttpsClientRequest × List Completion :=
  match (client.responseParser.appendData data).parseAll with
  | (none, parser) => ({ client with responseParser := parser, terminated := true }, [])
  | (some responses, parser) =>
    let answered := answer client.responseFutures responses
    ({ client with responseParser := parser, responseFutures := answered.1 }.waitForData,
      answered.2)

/-- The event loop comes to the task of `wait_for_tcp_data`. -/
def runReader (client : HttpsClientRequest) : HttpsClientRequest × List Completion :=
  match client.reader with
  | .starting => (client.waitForData, [])
  | .waiting => (client, [])
  | .ready data => client.receiveData data

/-- The end of `send_request`. -/
def pushFuture (client : HttpsClientRequest) (request : ℕ) : HttpsClientRequest :=
  { client with responseFutures := client.responseFutures ++ [request] }

/-- The data that the reader has still to take. -/
def waitingData (client : HttpsClientRequest) : List UInt8 :=
  client.reader.data ++ client.pendingDataQueue.flatten

/-! ## The data on its way to the reader -/

variable {client : HttpsClientRequest}

theorem waitForData_nil (h : client.pendingDataQueue = []) :
    client.waitForData = { client with reader := .waiting } := by
  have hwaits : TCPConnection.waitForData ⟨none, client.pendingDataQueue⟩ () =
      (⟨some (), client.pendingDataQueue⟩, none) := by
    rw [h]
    rfl
  rw [waitForData, hwaits]
  rfl

theorem waitForData_cons {data : List UInt8} {pending : List (List UInt8)}
    (h : client.pendingDataQueue = data :: pending) :
    client.waitForData = { client with reader := .ready data, pendingDataQueue := pending } := by
  rw [waitForData, h]
  rfl

theorem onResponseReceived_waiting (h : client.reader = .waiting) (data : List UInt8) :
    client.onResponseReceived data = { client with reader := .ready data } := by
  rw [onResponseReceived, TCPConnection.onResponseReceived, tcpConnection, if_pos h]
  rfl

theorem onResponseReceived_of_ne (h : client.reader ≠ .waiting) (data : List UInt8) :
    client.onResponseReceived data =
      { client with pendingDataQueue := client.pendingDataQueue ++ [data] } := by
  rw [onResponseReceived, TCPConnection.onResponseReceived, tcpConnection, if_neg h]
  rfl

/-- A reader that waits has taken what there was. -/
def Queued (client : HttpsClientRequest) : Prop :=
  client.reader = .waiting → client.pendingDataQueue = []

theorem queued_start : start.Queued := fun _ => rfl

theorem queued_waitForData (client : HttpsClientRequest) : client.waitForData.Queued := by
  cases hpending : client.pendingDataQueue with
  | nil =>
    rw [waitForData_nil hpending]
    exact fun _ => hpending
  | cons data pending =>
    rw [waitForData_cons hpending]
    exact fun hwaiting => ReaderPoint.noConfusion hwaiting

theorem waitingData_waitForData (client : HttpsClientRequest) :
    client.waitForData.waitingData = client.pendingDataQueue.flatten := by
  cases hpending : client.pendingDataQueue with
  | nil =>
    rw [waitForData_nil hpending, waitingData, hpending]
    rfl
  | cons data pending =>
    rw [waitForData_cons hpending]
    rfl

theorem waitForData_frame (client : HttpsClientRequest) :
    client.waitForData = { client with
      reader := client.waitForData.reader
      pendingDataQueue := client.waitForData.pendingDataQueue } := rfl

/-- How many tasks the reader has until it waits with nothing to take. -/
def tasks (client : HttpsClientRequest) : ℕ :=
  client.pendingDataQueue.length + if client.reader = .waiting then 0 else 1

theorem tasks_waitForData (client : HttpsClientRequest) :
    client.waitForData.tasks = client.pendingDataQueue.length := by
  cases hpending : client.pendingDataQueue with
  | nil =>
    rw [waitForData_nil hpending, tasks, hpending]
    rfl
  | cons data pending =>
    rw [waitForData_cons hpending]
    rfl

theorem Queued.handleReadData (h : client.Queued) (data : List UInt8) :
    (client.handleReadData data).Queued := by
  rw [HttpsClientRequest.handleReadData]
  split
  case isTrue => exact h
  case isFalse =>
    by_cases hreader : client.reader = .waiting
    · rw [onResponseReceived_waiting hreader]
      exact fun hwaiting => ReaderPoint.noConfusion hwaiting
    · rw [onResponseReceived_of_ne hreader]
      exact fun hwaiting => absurd hwaiting hreader

/-- **What is read is the last of the data on its way.** -/
theorem Queued.waitingData_handleReadData (h : client.Queued) (data : List UInt8) :
    (client.handleReadData data).waitingData = client.waitingData ++ data := by
  rw [HttpsClientRequest.handleReadData]
  split
  case isTrue hnil => rw [hnil, List.append_nil]
  case isFalse =>
    by_cases hreader : client.reader = .waiting
    · rw [onResponseReceived_waiting hreader]
      simp [waitingData, ReaderPoint.data, hreader, h hreader]
    · rw [onResponseReceived_of_ne hreader]
      simp [waitingData]

/-- What is read goes to the reader, or to its queue. -/
theorem handleReadData_frame (client : HttpsClientRequest) (data : List UInt8) :
    client.handleReadData data = { client with
      reader := (client.handleReadData data).reader
      pendingDataQueue := (client.handleReadData data).pendingDataQueue } := by
  rw [handleReadData]
  split <;> rfl

theorem responseParser_handleReadData (client : HttpsClientRequest) (data : List UInt8) :
    (client.handleReadData data).responseParser = client.responseParser := by
  rw [handleReadData_frame]

theorem responseFutures_handleReadData (client : HttpsClientRequest) (data : List UInt8) :
    (client.handleReadData data).responseFutures = client.responseFutures := by
  rw [handleReadData_frame]

theorem terminated_handleReadData (client : HttpsClientRequest) (data : List UInt8) :
    (client.handleReadData data).terminated = client.terminated := by
  rw [handleReadData_frame]

/-- The reader has taken data, and waits for the next. -/
theorem receiveData_queue {data : List UInt8}
    (h : (client.receiveData data).1.terminated = false) :
    (client.receiveData data).1.Queued ∧
      (client.receiveData data).1.waitingData = client.pendingDataQueue.flatten := by
  rw [receiveData] at h ⊢
  split at h
  · cases h
  · exact ⟨queued_waitForData _, waitingData_waitForData _⟩

/-- **The task of the reader takes the first of the data on its way.** -/
theorem Queued.runReader (hqueued : client.Queued)
    (h : client.runReader.1.terminated = false) :
    client.runReader.1.Queued ∧
      client.reader.data ++ client.runReader.1.waitingData = client.waitingData := by
  have hall : client.waitingData = client.reader.data ++ client.pendingDataQueue.flatten := rfl
  rw [HttpsClientRequest.runReader] at h ⊢
  rw [hall]
  cases hreader : client.reader with
  | starting => exact ⟨queued_waitForData client, waitingData_waitForData client⟩
  | waiting =>
    rw [hreader] at hall
    exact ⟨hqueued, hall⟩
  | ready data =>
    rw [hreader] at h
    obtain ⟨hkept, hdata⟩ := receiveData_queue h
    exact ⟨hkept, congrArg (data ++ ·) hdata⟩

end HttpsClientRequest

end TradingEngine
