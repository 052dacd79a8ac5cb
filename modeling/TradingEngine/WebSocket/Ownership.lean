import TradingEngine.Http.WireFormat
import TradingEngine.WebSocket.Session

/-!
# WebSocket/Ownership — who holds the connection of a websocket client

`HttpsClientWebsocket` makes a `TCPConnection`, `connect` moves it into an `HttpsClientRequest` and
from there into an `HttpsClientWebsocketSession`, and the message callback moves with it.  The
connection goes on calling the websocket (`on_tcp_connect`, `on_tcp_disconnect`) wherever it is
held.  The owners are part of the state, every access to a pointer is checked, and the connection
may be lost, be made again and be destroyed between any two tasks.
-/

namespace TradingEngine

open WebSocket (Frame Opcode clientOnFrame)

namespace Ownership

/-- The coroutines of a websocket, of what it owns and of its connection. -/
inductive Coroutine
  | connect
  | sendSwitchProtocolRequest
  | get
  | sendRequest
  | requestWaitForTcpData
  | sessionWaitForTcpData
  | reConnect
  | sendPing
  deriving DecidableEq, Repr

/-- `TaskInfoEvent`: a coroutine is started, or what it waits for is there. -/
inductive TaskInfoEvent
  | run (coroutine : Coroutine)
  | setSuspendValue (coroutine : Coroutine)
  deriving DecidableEq, Repr

/-- Where the `TCPConnection`, or the message callback, is held. -/
inductive Owner
  | nowhere
  | websocket
  | request
  | session
  | destroyed
  deriving DecidableEq, Repr

/-- The life of the `HttpsClientWebsocket`. -/
inductive Lifetime
  | notConstructed
  | alive
  | destroyed
  deriving DecidableEq, Repr

/-- `m_io_object`: there is none, or a socket that connects, or one that has connected. -/
inductive Socket
  | none
  | connecting
  | connected
  deriving DecidableEq, Repr

/-- Where `HttpsClientWebsocket::connect` stands. -/
inductive ConnectPoint
  | awaitingUpgrade
  | awaitingOnConnect
  | finished
  deriving DecidableEq, Repr

/-- Where the session's `wait_for_tcp_data` stands; a callback runs with the frames behind its own
still to be gone over. -/
inductive SessionPoint
  | waitingForData
  | inCallback (frames : List Frame)
  | finished

/-- What `start_living_system_io_object` does for a new socket: it is registered, or `activate`
fails and it is released at once. -/
inductive Outcome
  | started
  | failedAtOnce
  deriving DecidableEq, Repr

/-- What ends a program: a pointer is used that holds nothing, a member of a destroyed object is
used, or an exception leaves a coroutine. -/
inductive Stop
  | tcpConnection
  | restRequest
  | onMessage
  | destroyedObject
  | exception
  deriving DecidableEq, Repr

end Ownership

open Ownership

/-- `HttpsClientWebsocket` with what it owns and the queue of its event loop.  No coroutine is there
twice, so one flag `force_destroy` stands for each; `outside` are those that wait for a timer or
for a callback of the user, and `sessions` are the status codes sessions were made behind. -/
structure OwnedWebsocket where
  lifetime : Lifetime
  tcpConnection : Owner
  onMessage : Owner
  restRequest : Bool
  websocketSession : Bool
  ioObject : Socket
  waitingDataValue : Option Coroutine
  pendingDataQueue : List (List UInt8)
  reconnectTask : Bool
  taskEventQueue : List TaskInfoEvent
  forceDestroy : Coroutine → Bool
  outside : Coroutine → Bool
  data : Coroutine → List UInt8
  response : HttpsClientResponse
  responseFutures : List Coroutine
  responseParser : HttpsClientResponseParser
  connectPoint : ConnectPoint
  frameParser : WebSocketFrameParser
  point : SessionPoint
  sessions : List ℤ

namespace OwnedWebsocket

/-- Nothing is constructed yet. -/
def fresh : OwnedWebsocket where
  lifetime := .notConstructed
  tcpConnection := .nowhere
  onMessage := .nowhere
  restRequest := false
  websocketSession := false
  ioObject := .none
  waitingDataValue := none
  pendingDataQueue := []
  reconnectTask := false
  taskEventQueue := []
  forceDestroy := fun _ => false
  outside := fun _ => false
  data := fun _ => []
  response := .reset
  responseFutures := []
  responseParser := .fresh
  connectPoint := .awaitingUpgrade
  frameParser := .clear
  point := .waitingForData
  sessions := []

/-! ## Tasks -/

/-- An event at the end of the queue. -/
def post (ws : OwnedWebsocket) (event : TaskInfoEvent) : OwnedWebsocket :=
  { ws with taskEventQueue := ws.taskEventQueue ++ [event] }

/-- A new coroutine, and `start_running_on`. -/
def startRunning (ws : OwnedWebsocket) (coroutine : Coroutine) : OwnedWebsocket :=
  { ws with forceDestroy := Function.update ws.forceDestroy coroutine false }.post (.run coroutine)

/-- `BaseTask::destroy`. -/
def destroyTask (ws : OwnedWebsocket) (coroutine : Coroutine) : OwnedWebsocket :=
  { ws with forceDestroy := Function.update ws.forceDestroy coroutine true }

/-- A coroutine waits for a timer or for a callback of the user. -/
def awaitOutside (ws : OwnedWebsocket) (coroutine : Coroutine) : OwnedWebsocket :=
  { ws with outside := Function.update ws.outside coroutine true }

/-- What a coroutine has waited for outside has come. -/
def outsideReturns (ws : OwnedWebsocket) (coroutine : Coroutine) : OwnedWebsocket :=
  if ws.outside coroutine then
    { ws with outside := Function.update ws.outside coroutine false }.post
      (.setSuspendValue coroutine)
  else ws

/-! ## The data of the connection -/

/-- `FutureValue<std::string>::set_value`. -/
def setData (ws : OwnedWebsocket) (coroutine : Coroutine) (data : List UInt8) : OwnedWebsocket :=
  { ws with data := Function.update ws.data coroutine data }.post (.setSuspendValue coroutine)

/-- `m_waiting_data_value = nullptr`: a future that is registered gets the empty string. -/
def dropWaitingValue (ws : OwnedWebsocket) : OwnedWebsocket :=
  match ws.waitingDataValue with
  | some registered => { ws with waitingDataValue := none }.setData registered []
  | none => ws

/-- `TCPConnection::wait_for_data`. -/
def waitForData (ws : OwnedWebsocket) (coroutine : Coroutine) : OwnedWebsocket :=
  match ws.pendingDataQueue with
  | data :: pending => { ws with pendingDataQueue := pending }.setData coroutine data
  | [] => { ws.dropWaitingValue with waitingDataValue := some coroutine }

/-- `TCPConnection::on_response_received`. -/
def onResponseReceived (ws : OwnedWebsocket) (data : List UInt8) : OwnedWebsocket :=
  match ws.waitingDataValue with
  | some registered => { ws with waitingDataValue := none }.setData registered data
  | none => { ws with pendingDataQueue := ws.pendingDataQueue ++ [data] }

/-! ## What is owned -/

/-- `~TCPConnection`. -/
def destroyTcpConnection (ws : OwnedWebsocket) : OwnedWebsocket :=
  let ws := ws.dropWaitingValue
  let ws := if ws.reconnectTask then ws.destroyTask .reConnect else ws
  { ws with tcpConnection := .destroyed, ioObject := .none, pendingDataQueue := [] }

/-- A holder of the connection is destroyed. -/
def releaseFrom (ws : OwnedWebsocket) (owner : Owner) : OwnedWebsocket :=
  if ws.tcpConnection = owner then ws.destroyTcpConnection else ws

/-- `FutureValue<HttpsClientResponse>::set_value`. -/
def setResponse (ws : OwnedWebsocket) (response : HttpsClientResponse) (coroutine : Coroutine) :
    OwnedWebsocket :=
  { ws with response := response }.post (.setSuspendValue coroutine)

/-- `m_rest_request = nullptr`: its reader is not resumed any more, and its futures get empty
responses. -/
def resetRestRequest (ws : OwnedWebsocket) : OwnedWebsocket :=
  if ws.restRequest then
    (ws.responseFutures.foldl (fun ws coroutine => setResponse ws .reset coroutine)
      ({ ws with restRequest := false, responseFutures := [] }.destroyTask
        .requestWaitForTcpData)).releaseFrom .request
  else ws

/-- `m_websocket_session = nullptr`. -/
def resetWebsocketSession (ws : OwnedWebsocket) : OwnedWebsocket :=
  if ws.websocketSession then
    ({ ws with
      websocketSession := false
      onMessage :=
        if ws.onMessage = Owner.session then Owner.destroyed else ws.onMessage }.destroyTask
          .sessionWaitForTcpData).releaseFrom .session
  else ws

/-- `~HttpsClientWebsocket`. -/
def destroy (ws : OwnedWebsocket) : OwnedWebsocket :=
  let ws := (ws.destroyTask .connect).destroyTask .sendPing
  let ws := ((ws.releaseFrom .websocket).resetRestRequest).resetWebsocketSession
  { ws with
    lifetime := .destroyed
    onMessage := if ws.onMessage = .websocket then Owner.destroyed else ws.onMessage }

/-! ## The callbacks of the connection -/

/-- `m_tcp_connection` of `owner` is used. -/
def useTcpConnection (ws : OwnedWebsocket) (owner : Owner) : Except Stop Unit :=
  if ws.tcpConnection = owner then .ok () else .error .tcpConnection

/-- A member of an object is used. -/
def useMember (alive : Bool) : Except Stop Unit := if alive then .ok () else .error .destroyedObject

/-- A member of the websocket is used. -/
def useWebsocket (ws : OwnedWebsocket) : Except Stop Unit := useMember (ws.lifetime = .alive)

/-- `m_rest_request` is used. -/
def useRestRequest (ws : OwnedWebsocket) : Except Stop Unit :=
  if ws.restRequest then .ok () else .error .restRequest

/-- `HttpsClientWebsocket::on_tcp_connect`. -/
def onTcpConnect (ws : OwnedWebsocket) : Except Stop OwnedWebsocket := do
  ws.useTcpConnection .websocket
  return { ws with connectPoint := .awaitingUpgrade }.startRunning .connect

/-- `HttpsClientWebsocket::on_tcp_disconnect`. -/
def onTcpDisconnect (ws : OwnedWebsocket) : Except Stop OwnedWebsocket := do
  ws.useTcpConnection .websocket
  let ws := ws.resetRestRequest.resetWebsocketSession
  return (ws.destroyTask .connect).destroyTask .sendPing

/-- `TCPConnection::on_disconnect`: behind the callback it goes on with its own members. -/
def onDisconnect (ws : OwnedWebsocket) : Except Stop OwnedWebsocket := do
  let ws ← { ws with ioObject := .none }.onTcpDisconnect
  useMember (ws.tcpConnection ≠ .destroyed)
  return { ws with reconnectTask := true }.startRunning .reConnect

/-- `TCPConnection::connect`. -/
def connectSocket (ws : OwnedWebsocket) : Outcome → Except Stop OwnedWebsocket
  | .started => .ok { ws with ioObject := .connecting }
  | .failedAtOnce => { ws with ioObject := .connecting }.onDisconnect

/-- The constructor of `HttpsClientWebsocket`.  A socket that fails at once calls
`on_tcp_disconnect` while `m_tcp_connection` is being made. -/
def construct (ws : OwnedWebsocket) (outcome : Outcome) : Except Stop OwnedWebsocket := do
  let ws ← { ws with lifetime := .alive, onMessage := .websocket }.connectSocket outcome
  return { ws with tcpConnection := .websocket }

/-! ## The request -/

/-- `HttpsClientResponse::create_error_response`. -/
def createErrorResponse : HttpsClientResponse :=
  ⟨-1, "HTTPS_CLIENT_DISCONNECTED".toUTF8.toList, fun _ => none, [], false⟩

/-- A response goes to the first future that waits for one. -/
def answer (ws : OwnedWebsocket) (response : HttpsClientResponse) : OwnedWebsocket :=
  match ws.responseFutures with
  | [] => ws
  | coroutine :: futures => { ws with responseFutures := futures }.setResponse response coroutine

/-- `co_await m_tcp_connection->wait_for_data()` in the request. -/
def requestWaits (ws : OwnedWebsocket) : Except Stop OwnedWebsocket := do
  useMember ws.restRequest
  ws.useTcpConnection .request
  return ws.waitForData .requestWaitForTcpData

/-- The body of the loop of `HttpsClientRequest::wait_for_tcp_data`, behind its wait. -/
def receiveResponseData (ws : OwnedWebsocket) : Except Stop OwnedWebsocket := do
  useMember ws.restRequest
  match (ws.responseParser.appendData (ws.data .requestWaitForTcpData)).parseAll with
  | (none, _) => .error .exception
  | (some responses, parser) =>
    (responses.foldl answer { ws with responseParser := parser }).requestWaits

/-- `HttpsClientRequest::send_request` up to its wait. -/
def sendRequest (ws : OwnedWebsocket) : Except Stop OwnedWebsocket := do
  useMember ws.restRequest
  ws.useTcpConnection .request
  if ws.ioObject = .none then
    return { ws with response := createErrorResponse }.post (.setSuspendValue .get)
  else
    return { ws with responseFutures := ws.responseFutures ++ [.sendRequest] }

/-! ## The session -/

/-- `co_await m_tcp_connection->wait_for_data()` in the session. -/
def sessionWaits (ws : OwnedWebsocket) : Except Stop OwnedWebsocket := do
  useMember ws.websocketSession
  ws.useTcpConnection .session
  return { ws with point := .waitingForData }.waitForData .sessionWaitForTcpData

/-- `co_await m_on_message(..)`: the rest of the frames is gone over when the callback is done. -/
def callOnMessage (ws : OwnedWebsocket) (frames : List Frame) : Except Stop OwnedWebsocket :=
  if ws.onMessage = .session then
    .ok ({ ws with point := .inCallback frames }.awaitOutside .sessionWaitForTcpData)
  else .error .onMessage

/-- The loop over the frames in the session's `wait_for_tcp_data`, and the wait behind it. -/
def handleFrames (ws : OwnedWebsocket) : List Frame → Except Stop OwnedWebsocket
  | [] => ws.sessionWaits
  | frame :: frames =>
    match clientOnFrame frame with
    | .goOn _ =>
      if frame.opcode = Opcode.text.code then ws.callOnMessage frames else ws.handleFrames frames
    | .stop _ => .ok { ws with point := .finished }
    | .throws => .error .exception

/-- The session's `wait_for_tcp_data` is resumed. -/
def resumeSession (ws : OwnedWebsocket) : Except Stop OwnedWebsocket := do
  useMember ws.websocketSession
  match ws.point with
  | .waitingForData =>
    match (ws.frameParser.feed (ws.data .sessionWaitForTcpData)).parseFrames with
    | (none, _) => .error .exception
    | (some frames, parser) => handleFrames { ws with frameParser := parser } frames
  | .inCallback frames => ws.handleFrames frames
  | _ => .ok ws

/-! ## The websocket -/

/-- `HttpsClientWebsocket::connect` up to its first wait. -/
def connect (ws : OwnedWebsocket) : Except Stop OwnedWebsocket := do
  ws.useWebsocket
  let ws := { ws with restRequest := true, tcpConnection := .request, responseParser := .fresh }
  return (ws.startRunning .requestWaitForTcpData).startRunning .sendSwitchProtocolRequest

/-- `HttpsClientWebsocket::connect` behind the upgrade: the session is made, whatever the response
was. -/
def makeSession (ws : OwnedWebsocket) : Except Stop OwnedWebsocket := do
  ws.useWebsocket
  ws.useRestRequest
  let ws :=
    { ws with
      websocketSession := true
      tcpConnection := .session
      onMessage := if ws.onMessage = Owner.websocket then Owner.session else Owner.nowhere
      frameParser := .clear
      sessions := ws.sessions ++ [ws.response.statusCode] }
  let ws := (ws.startRunning .sessionWaitForTcpData).resetRestRequest
  return { ws with connectPoint := .awaitingOnConnect }.awaitOutside .connect

/-- `HttpsClientWebsocket::connect` goes on. -/
def resumeConnect (ws : OwnedWebsocket) : Except Stop OwnedWebsocket :=
  match ws.connectPoint with
  | .awaitingUpgrade => ws.makeSession
  | .awaitingOnConnect => do
    ws.useWebsocket
    return { ws with connectPoint := .finished }.startRunning .sendPing
  | .finished => .ok ws

/-- The leftover data is parsed, and the frames are logged: an exception may leave the parser. -/
def logLeftover (ws : OwnedWebsocket) : Except Stop Unit :=
  if ws.responseParser.getLeftoverData ≠ [] ∧
      (WebSocketFrameParser.clear.feed ws.responseParser.getLeftoverData).parseFrames.1.isNone then
    .error .exception
  else .ok ()

/-- `HttpsClientWebsocket::send_switch_protocol_request` behind the response: `m_name` is logged
either way. -/
def switchProtocol (ws : OwnedWebsocket) : Except Stop OwnedWebsocket := do
  ws.useWebsocket
  if ws.response.statusCode = 101 then
    ws.useRestRequest
    ws.logLeftover
  return ws.post (.setSuspendValue .connect)

/-- The loop of `send_ping_at_15_second_interval`, behind its wait. -/
def resumePing (ws : OwnedWebsocket) : Except Stop OwnedWebsocket := do
  ws.useWebsocket
  return if ws.websocketSession then ws.awaitOutside .sendPing else ws

/-- `TCPConnection::re_connect` behind its wait. -/
def resumeReConnect (ws : OwnedWebsocket) (outcome : Outcome) : Except Stop OwnedWebsocket := do
  useMember (ws.tcpConnection ≠ .destroyed)
  let ws ← ws.connectSocket outcome
  return { ws with reconnectTask := false }

/-! ## Steps -/

/-- A coroutine runs from its beginning to its first wait. -/
def run (ws : OwnedWebsocket) : Coroutine → Except Stop OwnedWebsocket
  | .connect => ws.connect
  | .sendSwitchProtocolRequest => do
    ws.useWebsocket
    ws.useRestRequest
    return ws.startRunning .get
  | .get => .ok (ws.startRunning .sendRequest)
  | .sendRequest => ws.sendRequest
  | .requestWaitForTcpData => ws.requestWaits
  | .sessionWaitForTcpData => ws.sessionWaits
  | .reConnect => .ok (ws.awaitOutside .reConnect)
  | .sendPing => .ok (ws.awaitOutside .sendPing)

/-- A coroutine goes on with the value it has waited for. -/
def resume (ws : OwnedWebsocket) (outcome : Outcome) : Coroutine → Except Stop OwnedWebsocket
  | .connect => ws.resumeConnect
  | .sendSwitchProtocolRequest => ws.switchProtocol
  | .get => .ok (ws.post (.setSuspendValue .sendSwitchProtocolRequest))
  | .sendRequest => .ok (ws.post (.setSuspendValue .get))
  | .requestWaitForTcpData => ws.receiveResponseData
  | .sessionWaitForTcpData => ws.resumeSession
  | .reConnect => ws.resumeReConnect outcome
  | .sendPing => ws.resumePing

/-- `TaskInfoEvent::check_handle` for the first event of the queue: `force_destroy` is read where a
coroutine goes on, and not where it is started. -/
def runTask (ws : OwnedWebsocket) (outcome : Outcome) : Except Stop OwnedWebsocket :=
  match ws.taskEventQueue with
  | [] => .ok ws
  | .run coroutine :: queue => { ws with taskEventQueue := queue }.run coroutine
  | .setSuspendValue coroutine :: queue =>
    if ws.forceDestroy coroutine then .ok { ws with taskEventQueue := queue }
    else { ws with taskEventQueue := queue }.resume outcome coroutine

end OwnedWebsocket

/-- What happens next. -/
inductive OwnershipEvent
  | construct (outcome : Outcome)
  | tcpConnect
  | socketRead (data : List UInt8)
  | disconnect
  | outsideReturns (coroutine : Coroutine)
  | runTask (outcome : Outcome)
  | destroy
  deriving DecidableEq, Repr

namespace OwnedWebsocket

/-- What an event does to a program that runs. -/
def handle (ws : OwnedWebsocket) : OwnershipEvent → Except Stop OwnedWebsocket
  | .construct outcome =>
    if ws.lifetime = .notConstructed then ws.construct outcome else .ok ws
  | .tcpConnect =>
    if ws.ioObject = .connecting then { ws with ioObject := .connected }.onTcpConnect else .ok ws
  | .socketRead data =>
    if ws.ioObject = .connected ∧ data ≠ [] then .ok (ws.onResponseReceived data) else .ok ws
  | .disconnect => if ws.ioObject = .none then .ok ws else ws.onDisconnect
  | .outsideReturns coroutine => .ok (ws.outsideReturns coroutine)
  | .runTask outcome => ws.runTask outcome
  | .destroy => if ws.lifetime = .alive then .ok ws.destroy else .ok ws

/-- **A step** of a program; one that has stopped does nothing. -/
def step (program : Except Stop OwnedWebsocket) (event : OwnershipEvent) :
    Except Stop OwnedWebsocket :=
  program.bind fun ws => ws.handle event

end OwnedWebsocket

end TradingEngine
