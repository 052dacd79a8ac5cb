import Mathlib.Data.List.FinRange
import TradingEngine.Machinery.Run
import TradingEngine.WebSocketServer.Connection

/-!
# WebSocketServer/Server — the tables of the WebSocket server, and its coroutines

The callbacks of a connection are chains of coroutines: each `co_await` posts the awaited one, and
the end of that one posts the one that waits.  A task below is what runs between two of these
points.  `conn` and `chain` are numbers that the code does not have: the connection a task was
started for, and the number of its chain of callbacks.
-/

namespace TradingEngine

open Ascii WebSocket

/-! ## Routes and tokens -/

/-- `WebsocketRouteName`. -/
inductive WebsocketRouteName
  | none
  | ws
  | orderbook
  | order
  | marketMaker
  | meanReversion
  deriving DecidableEq, Repr

/-- `enum_name`. -/
def WebsocketRouteName.name : WebsocketRouteName → List UInt8
  | .none => text "none"
  | .ws => text "ws"
  | .orderbook => text "orderbook"
  | .order => text "order"
  | .marketMaker => text "market_maker"
  | .meanReversion => text "mean_reversion"

/-- `get_route_from_path`; what `enum_value` does not find is `none`. -/
def WebsocketRouteName.ofPath (path : List UInt8) : WebsocketRouteName :=
  let name := if path.head? = some 47 then path.tail else path
  ([.none, .ws, .orderbook, .order, .marketMaker, .meanReversion].find? fun route =>
    route.name = name).getD .none

/-- `HttpsWebsocketServerRoute`: what the server reads of it. -/
structure WebsocketRoute where
  routeEnum : WebsocketRouteName
  needCheckAuthentication : Bool
  deriving DecidableEq, Repr

/-- What does not change: the digest, `JWTManager`, and `m_routes`. -/
structure WebsocketSetup where
  sha1 : List UInt8 → List UInt8
  verifyToken : List UInt8 → List UInt8
  getPayload : List UInt8 → List UInt8 → List UInt8
  routes : WebsocketRouteName → Option WebsocketRoute

/-- `check_is_valid_token`. -/
def WebsocketSetup.checkIsValidToken (setup : WebsocketSetup) (token : List UInt8) : Bool :=
  setup.verifyToken token = text "valid_token" ∧
    setup.getPayload token (text "type") = text "user" ∧
    setup.getPayload token (text "user_id") = text "root"

/-! ## The server -/

/-- A coroutine that is posted; a rejection is the text of `std::unexpected`. -/
inductive ServerTask (size : ℕ)
  | runOnConnect (o : Fin size) (conn chain : ℕ)
  | ioOnConnect (o : Fin size) (fd conn chain : ℕ)
  | onConnect (o : Fin size) (fd conn chain : ℕ) (path token : List UInt8)
  | routeOnConnect (o : Fin size) (conn : ℕ)
  | onConnectReturns (o : Fin size) (conn : ℕ)
  | ioOnConnectReturns (o : Fin size) (conn : ℕ) (rejection : Option (List UInt8))
  | runOnConnectReturns (o : Fin size) (conn : ℕ) (rejection : Option (List UInt8))
  | runOnMessage (o : Fin size) (conn chain : ℕ) (message : List UInt8)
  | ioOnMessage (fd conn chain : ℕ) (message : List UInt8)
  | onMessage (fd conn chain : ℕ) (message : List UInt8)
  | ioOnDisconnect (fd chain : ℕ)
  | onDisconnect (fd chain : ℕ)
  | routeOnDisconnect (fd : ℕ)
  | onDisconnectReturns (fd : ℕ)
  | writeToConnection (fd : ℕ) (message : List UInt8)
  deriving DecidableEq, Repr

/-- `HttpsWebsocketServer` with its connections: the objects, the client each one serves and the one
it was given to last, the ring of the free ones, the number of clients so far, the two tables, the
task queue, what the handlers of the routes will post, the number of chains so far, the clients
whose `on_connect` has returned true and those that were sent a close frame, and whether an
exception has ended the process. -/
structure HttpsWebsocketServer (size : ℕ) where
  objects : Fin size → HttpWebsocketConnectionIO
  clients : Fin size → Option ℕ
  latest : Fin size → Option ℕ
  available : List (Fin size)
  accepted : ℕ
  connectionsByFd : ℕ → Option (Fin size)
  routesByFd : ℕ → Option WebsocketRoute
  queue : List (ServerTask size)
  waiting : List (ServerTask size)
  chains : ℕ
  approved : List ℕ
  closed : List ℕ
  terminated : Bool

/-- A call of `on_message` of a route, for a message of a client. -/
structure Dispatch where
  route : WebsocketRoute
  fd : ℕ
  conn : ℕ
  message : List UInt8
  deriving DecidableEq, Repr

/-- What happens to the server. -/
inductive WebsocketEvent (size : ℕ)
  | accept (fd : ℕ)
  | handleRead (o : Fin size) (reads : List ReadResult)
  | handleWrite (o : Fin size) (outcomes : List SocketOutcome)
  | disconnect (o : Fin size)
  | runTask
  | routeReturns (i : ℕ)
  | writeToConnection (fd : ℕ) (message : List UInt8)

/-- `MAX_WEBSOCKET_CONNECTIONS`, the length of the tables. -/
def maxWebsocketConnections : ℕ := 1000

/-- The descriptor of a new client has an entry in the tables.  The code does not ask: it writes
`m_websocket_connections_by_fd[fd]` and `m_websocket_routes_by_fd[fd]` of any. -/
def WebsocketEvent.InTables {size : ℕ} : WebsocketEvent size → Prop
  | .accept fd => fd < maxWebsocketConnections
  | _ => True

instance {size : ℕ} : DecidablePred (@WebsocketEvent.InTables size)
  | .accept fd => inferInstanceAs (Decidable (fd < maxWebsocketConnections))
  | .handleRead _ _ => .isTrue trivial
  | .handleWrite _ _ => .isTrue trivial
  | .disconnect _ => .isTrue trivial
  | .runTask => .isTrue trivial
  | .routeReturns _ => .isTrue trivial
  | .writeToConnection _ _ => .isTrue trivial

namespace HttpsWebsocketServer

variable {size : ℕ} (setup : WebsocketSetup) (server : HttpsWebsocketServer size)

/-- A server that has just started. -/
def start (size : ℕ) : HttpsWebsocketServer size where
  objects _ := .fresh
  clients _ := none
  latest _ := none
  available := List.finRange size
  accepted := 0
  connectionsByFd _ := none
  routesByFd _ := none
  queue := []
  waiting := []
  chains := 0
  approved := []
  closed := []
  terminated := false

/-- A coroutine is posted. -/
def post (task : ServerTask size) : HttpsWebsocketServer size :=
  { server with queue := server.queue ++ [task] }

/-- An object is given other values. -/
def setObject (o : Fin size) (object : HttpWebsocketConnectionIO) : HttpsWebsocketServer size :=
  { server with objects := Function.update server.objects o object }

/-- A descriptor that a new connection can get: no connection has it open. -/
def Free (fd : ℕ) : Prop :=
  ∀ o, server.clients o ≠ none → (server.objects o).descriptor ≠ some fd

instance (fd : ℕ) : Decidable (server.Free fd) := inferInstanceAs (Decidable (∀ _, _ → _))

/-- `HttpWebsocketServerIO::handle_read`.  An empty pool throws. -/
def accept (fd : ℕ) : HttpsWebsocketServer size :=
  match server.available with
  | [] => { server with terminated := true }
  | o :: available =>
    { server.setObject o ((server.objects o).establish fd) with
      clients := Function.update server.clients o (some server.accepted)
      latest := Function.update server.latest o (some server.accepted)
      available := available
      accepted := server.accepted + 1 }

/-- `del_fd` and `release`: `on_disconnect` is started, and the object goes back to the pool. -/
def delFd (o : Fin size) : HttpsWebsocketServer size :=
  match server.clients o, (server.objects o).descriptor with
  | some _, some fd =>
    { server.setObject o { (server.objects o).refresh with
          io := { (server.objects o).io with epollOut := false } } with
      clients := Function.update server.clients o none
      available := server.available ++ [o]
      queue := server.queue ++ [.ioOnDisconnect fd server.chains]
      chains := server.chains + 1 }
  | _, _ => server

/-- What a handler posts. -/
def postEffect (o : Fin size) (conn : ℕ) : ConnectionEffect → HttpsWebsocketServer size
  | .sends _ => server
  | .runOnConnect =>
    { server.post (.runOnConnect o conn server.chains) with chains := server.chains + 1 }
  | .runOnMessage message =>
    { server.post (.runOnMessage o conn server.chains message) with chains := server.chains + 1 }

/-- An object has other values; a client whose connection is now closing has been sent a close
frame. -/
def setConnection (o : Fin size) (object : HttpWebsocketConnectionIO) : HttpsWebsocketServer size :=
  { server.setObject o object with
    closed :=
      if (server.objects o).state ≠ .closing ∧ object.state = .closing then
        server.closed ++ (server.clients o).toList
      else server.closed }

/-- What a handler has done, and `del_fd` if it returns -1. -/
def after (o : Fin size) (conn : ℕ) : Option Handled → HttpsWebsocketServer size
  | none => { server with terminated := true }
  | some handled =>
    let next := handled.effects.foldl (postEffect · o conn) (server.setConnection o handled.conn)
    if handled.code = 0 then next else next.delFd o

/-- A writing call on an object. -/
def written (o : Fin size) : Option HttpWebsocketConnectionIO → HttpsWebsocketServer size
  | none => { server with terminated := true }
  | some object => server.setConnection o object

/-! ## The callbacks -/

/-- `run_on_connect`, up to its `co_await`. -/
def runOnConnect (o : Fin size) (conn chain : ℕ) : HttpsWebsocketServer size :=
  match (server.objects o).hasCallbacks, (server.objects o).descriptor with
  | true, some fd => server.post (.ioOnConnect o fd conn chain)
  | _, _ => server

/-- The callback of `HttpWebsocketServerIO`, up to its `co_await`. -/
def ioOnConnect (o : Fin size) (fd conn chain : ℕ) : HttpsWebsocketServer size :=
  { server with connectionsByFd := Function.update server.connectionsByFd fd (some o) }.post
    (.onConnect o fd conn chain (server.objects o).upgradeRequest.path
      (server.objects o).upgradeRequest.accessToken)

/-- Why `on_connect` rejects a client, if it does. -/
def rejection (path token : List UInt8) : Option (List UInt8) :=
  match setup.routes (.ofPath path) with
  | none => some (text "No route found for path: " ++ path)
  | some route =>
    if WebsocketRouteName.ofPath path = .none then some (text "No route found for path: " ++ path)
    else if route.needCheckAuthentication ∧ ¬ setup.checkIsValidToken token then
      some (text "Invalid token for path: " ++ path)
    else none

/-- `on_connect` of the server: it ends with a rejection, or awaits `on_connect` of the route. -/
def onConnect (o : Fin size) (fd conn : ℕ) (path token : List UInt8) : HttpsWebsocketServer size :=
  { server with
    routesByFd := Function.update server.routesByFd fd (setup.routes (.ofPath path)) }.post
    (match rejection setup path token with
    | some reason => .ioOnConnectReturns o conn (some reason)
    | none => .routeOnConnect o conn)

/-- The end of `on_connect` of the server: it returns true. -/
def onConnectReturns (o : Fin size) (conn : ℕ) : HttpsWebsocketServer size :=
  { server with approved := server.approved ++ [conn] }.post (.ioOnConnectReturns o conn none)

/-- The end of `run_on_connect`. -/
def runOnConnectReturns (o : Fin size) : Option (List UInt8) → HttpsWebsocketServer size
  | none => server
  | some reason => server.written o ((server.objects o).writeClose 1008 reason)

/-- `run_on_message`, up to its `co_await`. -/
def runOnMessage (o : Fin size) (conn chain : ℕ) (message : List UInt8) :
    HttpsWebsocketServer size :=
  match (server.objects o).hasCallbacks, (server.objects o).descriptor with
  | true, some fd => server.post (.ioOnMessage fd conn chain message)
  | _, _ => server

/-- `on_message` of the server: the call of `on_message` of the route, if there is one. -/
def onMessage (fd conn : ℕ) (message : List UInt8) : List Dispatch :=
  (server.routesByFd fd).toList.map fun route => ⟨route, fd, conn, message⟩

/-- `on_disconnect` of the server, up to its `co_await`. -/
def onDisconnect (fd : ℕ) : HttpsWebsocketServer size :=
  match server.routesByFd fd with
  | none => server
  | some _ => server.post (.routeOnDisconnect fd)

/-- `write_to_connection_task`. -/
def writeToConnection (fd : ℕ) (message : List UInt8) : HttpsWebsocketServer size :=
  match server.connectionsByFd fd with
  | none => server
  | some o => server.written o ((server.objects o).writeText message)

/-- A coroutine runs up to its next suspension. -/
def run : ServerTask size → HttpsWebsocketServer size × List Dispatch
  | .runOnConnect o conn chain => (server.runOnConnect o conn chain, [])
  | .ioOnConnect o fd conn chain => (server.ioOnConnect o fd conn chain, [])
  | .onConnect o fd conn _ path token => (server.onConnect setup o fd conn path token, [])
  | .routeOnConnect o conn =>
    ({ server with waiting := server.waiting ++ [.onConnectReturns o conn] }, [])
  | .onConnectReturns o conn => (server.onConnectReturns o conn, [])
  | .ioOnConnectReturns o conn rejection =>
    (server.post (.runOnConnectReturns o conn rejection), [])
  | .runOnConnectReturns o _ rejection => (server.runOnConnectReturns o rejection, [])
  | .runOnMessage o conn chain message => (server.runOnMessage o conn chain message, [])
  | .ioOnMessage fd conn chain message => (server.post (.onMessage fd conn chain message), [])
  | .onMessage fd conn _ message => (server, server.onMessage fd conn message)
  | .ioOnDisconnect fd chain =>
    ({ server with connectionsByFd := Function.update server.connectionsByFd fd none }.post
      (.onDisconnect fd chain), [])
  | .onDisconnect fd _ => (server.onDisconnect fd, [])
  | .routeOnDisconnect fd =>
    ({ server with waiting := server.waiting ++ [.onDisconnectReturns fd] }, [])
  | .onDisconnectReturns fd =>
    ({ server with routesByFd := Function.update server.routesByFd fd none }, [])
  | .writeToConnection fd message => (server.writeToConnection fd message, [])

/-- The task at the front of the queue. -/
def runTask : HttpsWebsocketServer size × List Dispatch :=
  match server.queue with
  | [] => (server, [])
  | task :: queue => { server with queue := queue }.run setup task

/-- **A step.**  An object that serves no client has no events. -/
def step (event : WebsocketEvent size) : HttpsWebsocketServer size × List Dispatch :=
  if server.terminated then (server, [])
  else
    match event with
    | .accept fd => (if server.Free fd then server.accept fd else server, [])
    | .handleRead o reads =>
      (match server.clients o with
      | none => server
      | some conn => server.after o conn ((server.objects o).handleRead setup.sha1 true reads), [])
    | .handleWrite o outcomes =>
      (match server.clients o with
      | none => server
      | some conn =>
        if (server.objects o).io.epollOut then
          server.after o conn (some ((server.objects o).handleWrite outcomes))
        else server, [])
    | .disconnect o => (server.delFd o, [])
    | .runTask => server.runTask setup
    | .routeReturns i =>
      (match server.waiting[i]? with
      | none => server
      | some task => { server with waiting := server.waiting.eraseIdx i }.post task, [])
    | .writeToConnection fd message => (server.post (.writeToConnection fd message), [])

/-- The state behind a run. -/
def runEnd (size : ℕ) (events : List (WebsocketEvent size)) : HttpsWebsocketServer size :=
  Run.exec (Run.next (step setup)) (start size) events

/-- The route `/order`, which asks for a token, and a token that it takes. -/
def orderSetup : WebsocketSetup where
  sha1 _ := []
  verifyToken token := if token = text "t" then text "valid_token" else []
  getPayload _ key := if key = text "type" then text "user" else text "root"
  routes name := if name = .order then some ⟨.order, true⟩ else none

/-- The first of two objects. -/
def firstObject : Fin 2 := 0

/-- The second one. -/
def secondObject : Fin 2 := 1

/-- A client of `/order` is accepted on descriptor 5, by the first object. -/
def orderRun : List (WebsocketEvent 2) :=
  [.accept 5, .handleRead firstObject [.upgradeRead], .runTask, .runTask, .runTask, .runTask,
    .routeReturns 0,
    .runTask, .runTask, .runTask]

end HttpsWebsocketServer

end TradingEngine
