import TradingEngine.Http.ClientBuffer
import TradingEngine.Http.WireFormat
import TradingEngine.Socket.TcpConnection
import TradingEngine.WebSocket.Session

/-!
# WebSocket/Upgrade — a connection passes from the request to the session

`HttpsClientWebsocket::connect`, the coroutines of `HttpsClientRequest` it waits for, and the
session it makes run as tasks of one event loop.  A task is taken from the queue and runs to the
place where it waits again; between two tasks the socket is read, or a message callback comes to its
end.  The connection stays up; events that only free a finished coroutine, the callback
`m_on_connect` and the pings of the client are left out.
-/

namespace TradingEngine

open Ascii

namespace WebSocket

/-- The coroutines of a connection. -/
inductive Coroutine
  | connect
  | sendSwitchProtocolRequest
  | get
  | sendRequest
  | requestWaitForTcpData
  | sessionWaitForTcpData
  deriving DecidableEq, Repr

/-- `TaskInfoEvent`: a coroutine is started, or what it waits for is there. -/
inductive TaskInfoEvent
  | run (coroutine : Coroutine)
  | setSuspendValue (coroutine : Coroutine)
  deriving DecidableEq, Repr

/-- Where the session's `wait_for_tcp_data` stands: a callback runs, or has come to its end, with
the frames behind its own still to be gone over. -/
inductive SessionPoint
  | notConstructed
  | constructed
  | waitingForData
  | inCallback (frames : List Frame)
  | callbackDone (frames : List Frame)
  | finished

/-- A message callback runs. -/
def SessionPoint.isInCallback : SessionPoint → Bool
  | .inCallback _ => true
  | _ => false

/-- The session has called `wait_for_data`. -/
def SessionPoint.hasWaited : SessionPoint → Bool
  | .notConstructed => false
  | .constructed => false
  | _ => true

end WebSocket

open WebSocket

/-- `HttpsClientWebsocket` with its request, its session and the queue of its event loop.  `data`
and `response` are the values that wait in the futures; `forceDestroy` is the flag of the request's
`wait_for_tcp_data`, and an exception ends the program. -/
structure HttpsClientWebsocket where
  taskEventQueue : List TaskInfoEvent
  requestWritten : Bool
  tcpConnection : TCPConnection Coroutine
  data : Coroutine → List UInt8
  response : HttpsClientResponse
  responseParser : HttpsClientResponseParser
  responseFutures : List Coroutine
  forceDestroy : Bool
  frameParser : WebSocketFrameParser
  point : SessionPoint
  events : List SessionEvent
  terminated : Bool

namespace HttpsClientWebsocket

/-- `on_tcp_connect` has started `connect`. -/
def start : HttpsClientWebsocket where
  taskEventQueue := [.run .connect]
  requestWritten := false
  tcpConnection := ⟨none, []⟩
  data := fun _ => []
  response := .reset
  responseParser := .fresh
  responseFutures := []
  forceDestroy := false
  frameParser := .clear
  point := .notConstructed
  events := []
  terminated := false

/-- Events at the end of the queue. -/
def post (ws : HttpsClientWebsocket) (events : List TaskInfoEvent) : HttpsClientWebsocket :=
  { ws with taskEventQueue := ws.taskEventQueue ++ events }

/-! ## The connection -/

/-- `FutureValue<std::string>::set_value`. -/
def setData (ws : HttpsClientWebsocket) (coroutine : Coroutine) (data : List UInt8) :
    HttpsClientWebsocket :=
  { ws with data := Function.update ws.data coroutine data }.post [.setSuspendValue coroutine]

/-- The connection has moved on, and may have set the value of a future. -/
def moved (ws : HttpsClientWebsocket)
    (after : TCPConnection Coroutine × Option (Coroutine × List UInt8)) : HttpsClientWebsocket :=
  match after.2 with
  | some (coroutine, data) => { ws with tcpConnection := after.1 }.setData coroutine data
  | none => { ws with tcpConnection := after.1 }

/-- `TCPConnection::wait_for_data`. -/
def waitForData (ws : HttpsClientWebsocket) (coroutine : Coroutine) : HttpsClientWebsocket :=
  ws.moved (ws.tcpConnection.waitForData coroutine)

/-- `TCPConnection::on_response_received`. -/
def onResponseReceived (ws : HttpsClientWebsocket) (data : List UInt8) : HttpsClientWebsocket :=
  ws.moved (ws.tcpConnection.onResponseReceived data)

/-- The end of `HttpsClientRequestIO::handle_read_data`: nothing is given on when nothing was read.
That its buffer holds what was read is asked for by `Upgrade.step`. -/
def handleReadData (ws : HttpsClientWebsocket) (data : List UInt8) : HttpsClientWebsocket :=
  if data = [] then ws else ws.onResponseReceived data

/-! ## The request -/

/-- `FutureValue<HttpsClientResponse>::set_value`. -/
def setResponse (ws : HttpsClientWebsocket) (response : HttpsClientResponse)
    (coroutine : Coroutine) : HttpsClientWebsocket :=
  { ws with response := response }.post [.setSuspendValue coroutine]

/-- A response goes to the first future that waits for one. -/
def answer (ws : HttpsClientWebsocket) (response : HttpsClientResponse) : HttpsClientWebsocket :=
  match ws.responseFutures with
  | [] => ws
  | coroutine :: futures => { ws with responseFutures := futures }.setResponse response coroutine

/-- The body of the loop of `HttpsClientRequest::wait_for_tcp_data`, behind its wait. -/
def receiveResponseData (ws : HttpsClientWebsocket) : HttpsClientWebsocket :=
  match (ws.responseParser.appendData (ws.data .requestWaitForTcpData)).parseAll with
  | (none, parser) => { ws with responseParser := parser, terminated := true }
  | (some responses, parser) =>
    (responses.foldl answer { ws with responseParser := parser }).waitForData .requestWaitForTcpData

/-- `~HttpsClientRequest`: its reader is not resumed any more, and its futures get empty
responses. -/
def destroyRequest (ws : HttpsClientWebsocket) : HttpsClientWebsocket :=
  ws.responseFutures.foldl (fun ws coroutine => ws.setResponse .reset coroutine)
    { ws with responseFutures := [], forceDestroy := true }

/-- The leftover data is parsed, and the frames are logged: an exception may leave the parser. -/
def leftoverThrows (ws : HttpsClientWebsocket) : Bool :=
  ws.responseParser.getLeftoverData ≠ [] ∧
    (WebSocketFrameParser.clear.feed ws.responseParser.getLeftoverData).parseFrames.1.isNone

/-! ## The session -/

/-- The loop over the frames in the session's `wait_for_tcp_data`, and the wait behind it: it stops
where a message callback is called. -/
def handleFrames (ws : HttpsClientWebsocket) : List Frame → HttpsClientWebsocket
  | [] => { ws with point := .waitingForData }.waitForData .sessionWaitForTcpData
  | frame :: frames =>
    match clientOnFrame frame with
    | .goOn events =>
      if frame.opcode = Opcode.text.code then
        { ws with events := ws.events ++ events, point := .inCallback frames }
      else { ws with events := ws.events ++ events }.handleFrames frames
    | .stop events => { ws with events := ws.events ++ events, point := .finished }
    | .throws => { ws with terminated := true }

/-- The session's `wait_for_tcp_data` is resumed. -/
def resumeSession (ws : HttpsClientWebsocket) : HttpsClientWebsocket :=
  match ws.point with
  | .waitingForData =>
    match (ws.frameParser.feed (ws.data .sessionWaitForTcpData)).parseFrames with
    | (none, parser) => { ws with frameParser := parser, terminated := true }
    | (some frames, parser) => { ws with frameParser := parser }.handleFrames frames
  | .callbackDone frames => ws.handleFrames frames
  | _ => ws

/-- The coroutine of a message callback comes to its end. -/
def finishCallback (ws : HttpsClientWebsocket) : HttpsClientWebsocket :=
  match ws.point with
  | .inCallback frames =>
    { ws with point := .callbackDone frames }.post [.setSuspendValue .sessionWaitForTcpData]
  | _ => ws

/-! ## The tasks -/

/-- A coroutine runs from its beginning to its first wait. -/
def run (ws : HttpsClientWebsocket) : Coroutine → HttpsClientWebsocket
  | .connect => ws.post [.run .requestWaitForTcpData, .run .sendSwitchProtocolRequest]
  | .requestWaitForTcpData => ws.waitForData .requestWaitForTcpData
  | .sendSwitchProtocolRequest => ws.post [.run .get]
  | .get => ws.post [.run .sendRequest]
  | .sendRequest =>
    { ws with
      requestWritten := true
      responseFutures := ws.responseFutures ++ [.sendRequest] }
  | .sessionWaitForTcpData =>
    { ws with point := .waitingForData }.waitForData .sessionWaitForTcpData

/-- A coroutine goes on with the value it has waited for. -/
def resume (ws : HttpsClientWebsocket) : Coroutine → HttpsClientWebsocket
  | .sendRequest => ws.post [.setSuspendValue .get]
  | .get => ws.post [.setSuspendValue .sendSwitchProtocolRequest]
  | .sendSwitchProtocolRequest =>
    if ws.response.statusCode = 101 ∧ ws.leftoverThrows = true then { ws with terminated := true }
    else ws.post [.setSuspendValue .connect]
  | .connect =>
    ({ ws with point := .constructed }.post [.run .sessionWaitForTcpData]).destroyRequest
  | .requestWaitForTcpData => if ws.forceDestroy then ws else ws.receiveResponseData
  | .sessionWaitForTcpData => ws.resumeSession

/-- `TaskInfoEvent::check_handle` for the first event of the queue. -/
def runTask (ws : HttpsClientWebsocket) : HttpsClientWebsocket :=
  match ws.taskEventQueue with
  | [] => ws
  | .run coroutine :: queue => { ws with taskEventQueue := queue }.run coroutine
  | .setSuspendValue coroutine :: queue => { ws with taskEventQueue := queue }.resume coroutine

end HttpsClientWebsocket

/-! ## The client and the socket -/

/-- A client, and the bytes of the server it has not read.  The server answers the request, so
nothing can be read before the request is written. -/
structure Upgrade where
  client : HttpsClientWebsocket
  inFlight : List UInt8

/-- What happens next: up to `n` bytes are read, a task runs, or a message callback ends. -/
inductive UpgradeEvent
  | socketRead (n : ℕ)
  | runTask
  | callbackDone
  deriving DecidableEq, Repr

namespace Upgrade

/-- A client that has connected to a server that will send `bytes`. -/
def start (bytes : List UInt8) : Upgrade := ⟨.start, bytes⟩

/-- **A step**; a program that has ended does nothing.  What one call of `handle_read_data` reads is
gathered in a buffer on the stack: a run in which it goes over the end is not followed. -/
def step (u : Upgrade) (event : UpgradeEvent) : Upgrade :=
  if u.client.terminated then u
  else
    match event with
    | .socketRead n =>
      if u.client.requestWritten then
        if (u.inFlight.take n).length < HttpsClientRequestIO.clientBufferSize then
          ⟨u.client.handleReadData (u.inFlight.take n), u.inFlight.drop n⟩
        else { u with client := { u.client with terminated := true } }
      else u
    | .runTask => { u with client := u.client.runTask }
    | .callbackDone => { u with client := u.client.finishCallback }

variable {u : Upgrade}

theorem step_socketRead (h : u.client.terminated = false) {n : ℕ}
    (hfits : (u.inFlight.take n).length < HttpsClientRequestIO.clientBufferSize) :
    u.step (.socketRead n) =
      if u.client.requestWritten then
        ⟨u.client.handleReadData (u.inFlight.take n), u.inFlight.drop n⟩
      else u := by
  rw [step, if_neg (by simp [h])]
  dsimp only
  rw [if_pos hfits]

theorem step_runTask (h : u.client.terminated = false) :
    u.step .runTask = { u with client := u.client.runTask } :=
  if_neg (by simp [h])

theorem step_callbackDone (h : u.client.terminated = false) :
    u.step .callbackDone = { u with client := u.client.finishCallback } :=
  if_neg (by simp [h])

/-- Nothing is left to do. -/
def Settled (u : Upgrade) : Prop :=
  u.inFlight = [] ∧ u.client.taskEventQueue = [] ∧ u.client.point.isInCallback = false

instance (u : Upgrade) : Decidable u.Settled := inferInstanceAs (Decidable (_ ∧ _ ∧ _))

end Upgrade

end TradingEngine
